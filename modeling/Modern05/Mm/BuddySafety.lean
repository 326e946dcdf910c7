import Modern05.Mm.BuddyInterrupts

/-! # No fault on valid use

    A call of the allocator that is valid returns, so no assertion fires and no null
    pointer is used. Its accesses stay in the arrays, and in the buckets up to that of the
    root. For the accesses the heap is given types, by rows: the head of a bucket is a
    node of its row, and a node is linked to nodes of its own row.

    * `valid_calls_are_safe`: every valid call in every state of every run.
-/

namespace Modern05

open HeapTree BuddyAllocator LTS

/-! ## Types -/

/-- The blocks in the array, and the buckets up to that of the root. -/
def BuddyAllocator.in_bounds (ba : BuddyAllocator) : Sigma BuddyCell → Prop
  | ⟨_, .valid b⟩ | ⟨_, .available b⟩ | ⟨_, .prev b⟩ | ⟨_, .next b⟩ => b < ba.max_blocks
  | ⟨_, .log2size k⟩ | ⟨_, .allocated_blocks k⟩ | ⟨_, .available_blocks k⟩
  | ⟨_, .first_block k⟩ => k ≤ ba.root_log2size - Log2MinSize

/-- Heads are nodes of the row of their bucket, links stay in a row. -/
def BuddyAllocator.row_typed (ba : BuddyAllocator) : (β : Type) → BuddyCell β → β → Prop
  | _, .first_block k, first => ∀ b, first = some b → level b + k = ba.height
  | _, .prev b, prev => ∀ c, prev = some c → level c = level b
  | _, .next b, next => ∀ c, next = some c → level c = level b
  | _, _, _ => True

section typed

variable {ba : BuddyAllocator} {h : BuddyHeap} {b k : Nat}

/-- A write of a value that is right for its cell leaves the heap well typed. -/
theorem wellTyped_set {γ : Type} (l : BuddyCell γ) (v : γ) (h : BuddyHeap)
    (hv : ba.row_typed γ l v) (hh : Prog.WellTyped ba.row_typed h) :
    Prog.WellTyped ba.row_typed (Cells.set l v h) := by
  intro β l'
  have hl' := hh β l'
  -- Only a field that holds pointers has a type to keep, and only at the index written.
  cases l with
  | prev b =>
    cases l' with
    | prev c =>
      exact (Function.forall_update_iff h.prev fun c o => ba.row_typed _ (.prev c) o).mpr
        ⟨hv, fun c _ => hh _ (.prev c)⟩ c
    | _ => exact hl'
  | next b =>
    cases l' with
    | next c =>
      exact (Function.forall_update_iff h.next fun c o => ba.row_typed _ (.next c) o).mpr
        ⟨hv, fun c _ => hh _ (.next c)⟩ c
    | _ => exact hl'
  | first_block k =>
    cases l' with
    | first_block j =>
      exact (Function.forall_update_iff h.first_block fun j o =>
        ba.row_typed _ (.first_block j) o).mpr ⟨hv, fun j _ => hh _ (.first_block j)⟩ j
    | _ => exact hl'
  | _ => cases l' <;> exact hl'

/-- The heap the constructor leaves is well typed: only the root has links. -/
theorem wellTyped_init (ba : BuddyAllocator) : Prog.WellTyped ba.row_typed ba.init := by
  intro β l
  cases l with
  | first_block k =>
    intro b hb
    have hb : (if k = ba.root_log2size - Log2MinSize then some 0 else none) = some b := hb
    split at hb
    · rename_i hk
      cases hb
      rw [level_zero, Nat.zero_add, hk]
      rfl
    · cases hb
  | prev b =>
    intro c hc
    have hc : (if b = 0 then some 0 else none) = some c := hc
    split at hc
    · rename_i hb
      cases hc
      rw [hb]
    · cases hc
  | next b =>
    intro c hc
    have hc : (if b = 0 then some 0 else none) = some c := hc
    split at hc
    · rename_i hb
      cases hc
      rw [hb]
    · cases hc
  | _ => trivial

/-! ## Programs -/

theorem typed_load {β : Type} {l : BuddyCell β} (hl : ba.in_bounds ⟨β, l⟩) :
    Prog.Typed ba.in_bounds ba.row_typed (ba.row_typed β l) (ba.load l) := by
  unfold load
  split
  · exact .read hl fun _ hv => .ret hv
  · exact .fail

theorem typed_store {β : Type} {l : BuddyCell β} {v : β} (hl : ba.in_bounds ⟨β, l⟩)
    (hv : ba.row_typed β l v) :
    Prog.Typed ba.in_bounds ba.row_typed (fun _ => True) (ba.store l v) := by
  unfold store
  split
  · exact .write hl hv (.ret trivial)
  · exact .fail

theorem typed_deref {R : Nat → Prop} {o : Option Nat} (ho : ∀ b, o = some b → R b) :
    Prog.Typed ba.in_bounds ba.row_typed R (deref o) := by
  cases o with
  | none => exact .fail
  | some b => exact .ret (ho b rfl)

theorem typed_load_bind {α β : Type} {R : α → Prop} {l : BuddyCell β} {f : β → BuddyProg α}
    (hl : ba.in_bounds ⟨β, l⟩)
    (hf : ∀ v, ba.row_typed β l v → Prog.Typed ba.in_bounds ba.row_typed R (f v)) :
    Prog.Typed ba.in_bounds ba.row_typed R (ba.load l >>= f) :=
  (typed_load hl).bind hf

theorem typed_store_bind {α β : Type} {R : α → Prop} {l : BuddyCell β} {v : β}
    {f : Unit → BuddyProg α} (hl : ba.in_bounds ⟨β, l⟩) (hv : ba.row_typed β l v)
    (hf : ∀ u, Prog.Typed ba.in_bounds ba.row_typed R (f u)) :
    Prog.Typed ba.in_bounds ba.row_typed R (ba.store l v >>= f) :=
  (typed_store hl hv).bind fun u _ => hf u

/-- The bucket of a node is at most that of the root. -/
theorem bucket_le_root (hk : level b + k = ba.height) : k ≤ ba.root_log2size - Log2MinSize := by
  unfold height at hk
  omega

section lists

variable (hf : ba.Fits) (hb : ba.IsNode b)

include hf hb

theorem level_add_bucket : level b + bucket_index (ba.block_log2size b) = ba.height := by
  rw [hf.bucket_index_block hb]
  unfold IsNode at hb
  omega

/-- The nodes of the row of a node are in the array. -/
theorem row_lt {c : Nat} (hc : level c = level b) : c < ba.max_blocks := by
  apply hf.isNode_lt
  unfold IsNode at *
  omega

theorem typed_unlink (hk : level b + k = ba.height) :
    Prog.Typed ba.in_bounds ba.row_typed (fun _ => True) (ba.unlink_block k b) := by
  have hlt : b < ba.max_blocks := hf.isNode_lt hb
  have hbucket := bucket_le_root hk
  unfold unlink_block
  refine typed_load_bind hbucket ?_
  intro first _
  extract_lets relink
  have hrelink : ∀ u, Prog.Typed ba.in_bounds ba.row_typed (fun _ => True) (relink u) := by
    intro u
    refine typed_load_bind hlt ?_
    intro next hnext
    refine typed_load_bind hlt ?_
    intro prev hprev
    extract_lets last
    have hlast : ∀ u, Prog.Typed ba.in_bounds ba.row_typed (fun _ => True) (last u) := by
      intro u
      cases next with
      | none => exact .ret trivial
      | some n =>
        have hn : level n = level b := hnext n rfl
        refine typed_store (row_lt hf hb hn) ?_
        intro c hc
        rw [hprev c hc, hn]
    cases prev with
    | none => exact hlast ()
    | some p =>
      have hp : level p = level b := hprev p rfl
      refine typed_store_bind (row_lt hf hb hp) ?_ hlast
      intro c hc
      rw [hnext c hc, hp]
  split
  · refine typed_load_bind hlt ?_
    intro next hnext
    split
    · refine typed_store_bind hbucket ?_ hrelink
      intro c hc
      cases hc
    · refine typed_load_bind hlt ?_
      intro next hnext
      refine typed_store_bind hbucket ?_ hrelink
      intro c hc
      rw [hnext c hc]
      exact hk
  · exact hrelink ()

theorem typed_remove :
    Prog.Typed ba.in_bounds ba.row_typed (fun _ => True) (ba.remove_from_available_list b) := by
  have hk := level_add_bucket hf hb
  unfold remove_from_available_list
  apply Prog.Typed.bind (typed_unlink hf hb hk)
  intro _ _
  refine typed_load_bind (bucket_le_root hk) ?_
  intro count _
  exact typed_store (bucket_le_root hk) trivial

theorem typed_add :
    Prog.Typed ba.in_bounds ba.row_typed (fun _ => True) (ba.add_to_available_list b) := by
  have hlt : b < ba.max_blocks := hf.isNode_lt hb
  have hk := level_add_bucket hf hb
  have hbucket := bucket_le_root hk
  -- The head of the bucket is in the row of the block.
  have hrow : ∀ {first : Option Nat},
      ba.row_typed _ (.first_block (bucket_index (ba.block_log2size b))) first →
      ∀ f, first = some f → level f = level b := by
    intro first hfirst f e
    have := hfirst f e
    omega
  unfold add_to_available_list
  refine typed_load_bind hbucket ?_
  intro first _
  extract_lets count
  have hcount : ∀ u, Prog.Typed ba.in_bounds ba.row_typed (fun _ => True) (count u) := by
    intro u
    refine typed_load_bind hbucket ?_
    intro n _
    exact typed_store hbucket trivial
  split
  · refine typed_store_bind hlt ?_ ?_
    · intro c hc
      cases hc
      rfl
    intro _
    refine typed_store_bind hlt ?_ ?_
    · intro c hc
      cases hc
      rfl
    intro _
    refine typed_store_bind hbucket ?_ hcount
    intro c hc
    cases hc
    exact hk
  · refine typed_load_bind hbucket ?_
    intro first hfirst
    apply Prog.Typed.bind (typed_deref (hrow hfirst))
    intro f hf₁
    refine typed_load_bind (row_lt hf hb hf₁) ?_
    intro last hlast
    refine typed_load_bind hbucket ?_
    intro first hfirst
    apply Prog.Typed.bind (typed_deref (hrow hfirst))
    intro f' hf₂
    refine typed_store_bind (row_lt hf hb hf₂) ?_ ?_
    · intro c hc
      cases hc
      exact hf₂.symm
    intro _
    have hlast : ∀ l, last = some l → level l = level b := by
      intro l e
      rw [hlast l e, hf₁]
    apply Prog.Typed.bind (typed_deref hlast)
    intro l hl
    refine typed_store_bind (row_lt hf hb hl) ?_ ?_
    · intro c hc
      cases hc
      exact hl.symm
    intro _
    refine typed_load_bind hbucket ?_
    intro first hfirst
    refine typed_store_bind hlt (hrow hfirst) ?_
    intro _
    exact typed_store_bind hlt hlast hcount

end lists

section calls

variable (hf : ba.Fits)

include hf

/-- Allocation takes a node of the row of the size. -/
theorem typed_alloc_block_size (hk : Log2MinSize ≤ k) :
    Prog.Typed ba.in_bounds ba.row_typed
      (fun block => ∀ b, block = some b → level b + k = ba.root_log2size)
      (ba.alloc_block_size k) := by
  -- Downwards from the root, in the order in which the code climbs.
  induction hn : ba.root_log2size + 1 - k generalizing k with
  | zero =>
    unfold alloc_block_size
    rw [if_pos (by omega)]
    exact .ret (by intro b hb; cases hb)
  | succ n ih =>
    have hroot := hf.root_eq
    have hbucket : bucket_index k ≤ ba.root_log2size - Log2MinSize := by
      rw [hf.bucket_index_eq hk (by omega)]
      omega
    unfold alloc_block_size
    rw [if_neg (by omega)]
    refine typed_load_bind hbucket ?_
    intro first hfirst
    cases first with
    | none =>
      apply Prog.Typed.bind (ih (by omega) (by omega))
      intro parent_block hparent
      cases parent_block with
      | none => exact .ret (by intro b hb; cases hb)
      | some p =>
        have hp : level p + (k + 1) = ba.root_log2size := hparent p rfl
        have hlevel : level p < ba.height := by omega
        have hleft := hf.isNode_lt (isNode_left hlevel)
        have hright := hf.isNode_lt (isNode_right hlevel)
        simp only [hf.get_left_eq hlevel, hf.get_right_eq hlevel, deref]
        refine typed_store_bind hleft trivial fun _ => ?_
        refine typed_store_bind hleft trivial fun _ => ?_
        refine typed_store_bind hright trivial fun _ => ?_
        refine typed_store_bind hright trivial fun _ => ?_
        apply Prog.Typed.bind (typed_add hf (isNode_right hlevel))
        intro _ _
        refine .ret ?_
        intro b hb
        cases hb
        rw [level_left]
        omega
    | some b =>
      have hb : level b + bucket_index k = ba.height := hfirst b rfl
      rw [hf.bucket_index_eq hk (by omega)] at hb
      have hnode : ba.IsNode b := by
        unfold IsNode
        omega
      refine typed_store_bind (hf.isNode_lt hnode) trivial fun _ => ?_
      apply Prog.Typed.bind (typed_remove hf hnode)
      intro _ _
      refine .ret ?_
      intro c hc
      cases hc
      omega

theorem typed_allocate_block (hk : Log2MinSize ≤ k) :
    Prog.Typed ba.in_bounds ba.row_typed (fun _ => True) (ba.allocate_block k) := by
  rw [Inv.allocate_block_eq hk]
  apply Prog.Typed.bind (typed_alloc_block_size hf hk)
  intro block hblock
  cases block with
  | none => exact .ret trivial
  | some b =>
    have hb : level b + k = ba.root_log2size := hblock b rfl
    have hbucket : bucket_index k ≤ ba.root_log2size - Log2MinSize := by
      rw [hf.bucket_index_eq hk (by omega)]
      omega
    refine typed_load_bind hbucket ?_
    intro count _
    exact typed_store_bind hbucket trivial fun _ => .ret trivial

/-- Merging goes from a node to a node above it. -/
theorem typed_try_merge (hb : ba.IsNode b) :
    Prog.Typed ba.in_bounds ba.row_typed ba.IsNode (ba.try_merge_with_buddy b) := by
  induction b using Nat.strong_induction_on with
  | _ b ih =>
    rcases Nat.eq_zero_or_pos b with rfl | hpos
    · rw [Inv.try_merge_zero]
      exact .ret hb
    · have hsibling := hb.sibling hpos
      have hparent : ba.IsNode (parent b) := Nat.le_of_lt (hb.parent hpos)
      rw [Inv.try_merge_of_pos hpos]
      refine typed_load_bind (hf.isNode_lt hsibling) ?_
      intro buddy_available _
      split
      · exact .ret hb
      · apply Prog.Typed.bind (typed_remove hf hsibling)
        intro _ _
        unfold merge_into_parent
        refine typed_store_bind (hf.isNode_lt hsibling) trivial fun _ => ?_
        refine typed_load_bind (hf.isNode_lt hparent) fun _ _ => ?_
        apply Prog.Typed.bind .check
        intro _ _
        refine typed_load_bind (hf.isNode_lt hparent) fun _ _ => ?_
        apply Prog.Typed.bind .check
        intro _ _
        refine typed_store_bind (hf.isNode_lt hparent) trivial fun _ => ?_
        refine typed_store_bind (hf.isNode_lt hb) trivial fun _ => ?_
        exact ih (parent b) (parent_lt hpos) hparent

theorem typed_free_pages {addr : UInt64} (hb : ba.IsNode (ba.block_at addr)) :
    Prog.Typed ba.in_bounds ba.row_typed (fun _ => True) (ba.free_pages addr) := by
  unfold free_pages
  apply Prog.Typed.bind .check
  intro _ _
  refine typed_load_bind (hf.isNode_lt hb) fun _ _ => ?_
  apply Prog.Typed.bind .check
  intro _ _
  apply Prog.Typed.bind (typed_try_merge hf hb)
  intro merged_block hmerged
  refine typed_store_bind (hf.isNode_lt hmerged) trivial fun _ => ?_
  apply Prog.Typed.bind (typed_add hf hmerged)
  intro _ _
  have hbucket := bucket_le_root (level_add_bucket hf hb)
  refine typed_load_bind hbucket fun _ _ => ?_
  exact typed_store hbucket trivial

/-- A valid call is well typed: a live address is that of a node. -/
theorem typed_call {s : BuddyState} {free : Nat → List Nat} (hs : Sound ba s free) {c : Call}
    (hc : c.valid ba s) :
    Prog.Typed ba.in_bounds ba.row_typed (fun _ => True) (c.prog ba) := by
  cases c with
  | allocate_pages k =>
    apply Prog.Typed.bind (typed_allocate_block hf hc)
    intro _ _
    exact .ret trivial
  | free_pages addr =>
    obtain ⟨l, hl, rfl⟩ := hc
    have hb : ba.IsNode (ba.block_at (l.addr ba)) := by
      have hnode := hs.isNode hl
      have hat : ba.block_at (l.addr ba) = l.block := (hf.block_at_phy_addr hnode).2
      rwa [hat]
    apply Prog.Typed.bind (typed_free_pages hf hb)
    intro _ _
    exact .ret trivial

end calls

end typed

/-! ## Runs -/

section runs

variable {ba : BuddyAllocator} {s s' : BuddyState}

/-- A call that has a next state returns as a program, with the heap of that state. -/
theorem prog_run_of_exec {c : Call} (h : exec ba s c = some s') :
    ∃ block, (c.prog ba).run s.heap = (.ok block, s'.heap) := by
  cases c with
  | allocate_pages k =>
    simp only [exec] at h
    split at h
    · rename_i b heap hrun
      cases h
      exact ⟨some ⟨b, k⟩, Prog.run_bind_ok hrun⟩
    · rename_i heap hrun
      cases h
      exact ⟨none, Prog.run_bind_ok hrun⟩
    · cases h
  | free_pages addr =>
    simp only [exec] at h
    split at h
    · split at h
      · rename_i heap hrun
        cases h
        exact ⟨none, Prog.run_bind_ok hrun⟩
      · cases h
    · cases h

/-- **The heap is well typed in every state of every run.** -/
theorem wellTyped_of_reachable (hf : ba.Fits) :
    ∀ s, Reachable (buddy_system ba) s → Prog.WellTyped ba.row_typed s.heap := by
  apply invariant_of_step
  · intro s h
    have h : s = .start ba := h
    rw [h]
    exact wellTyped_init ba
  · intro s c s' hs hh hstep
    obtain ⟨hvalid, hexec⟩ := hstep
    obtain ⟨free, hinv⟩ := stateInv_of_reachable hf s hs
    obtain ⟨block, hrun⟩ := prog_run_of_exec hexec
    have hkept := (typed_call hf hinv.toSound hvalid).run (fun _ => wellTyped_set) hh
    rw [hrun] at hkept
    exact hkept

end runs

/-- A program returns: no assertion fires, no null pointer is used and nothing panics.
    All its accesses are in bounds. -/
structure SafeCall {α : Type} (ba : BuddyAllocator) (p : BuddyProg α) (h : BuddyHeap) : Prop where
  returns : ∃ a h', p.run h = (.ok a, h')
  in_bounds : ∀ c ∈ p.accesses h, ba.in_bounds c

/-- **Valid use is safe**: in every state of every run, a valid call neither faults nor
    accesses a block outside the array or a bucket above that of the root. -/
theorem valid_calls_are_safe (R : Region) (s : BuddyState)
    (hs : Reachable (buddy_system R.allocator) s) (c : Call) (hc : c.valid R.allocator s) :
    SafeCall R.allocator (c.prog R.allocator) s.heap := by
  obtain ⟨free, hinv⟩ := stateInv_of_reachable R.fits s hs
  have hh := wellTyped_of_reachable R.fits s hs
  constructor
  · obtain ⟨s', hexec⟩ := call_returns R.fits hinv.toSound hc
    obtain ⟨block, hrun⟩ := prog_run_of_exec hexec
    exact ⟨block, s'.heap, hrun⟩
  · exact (typed_call R.fits hinv.toSound hc).accesses (fun _ => wellTyped_set) hh

/-- The first allocation in a region of two smallest blocks splits the root. -/
theorem first_call_is_safe :
    SafeCall region_128K.allocator ((Call.allocate_pages 16).prog region_128K.allocator)
      region_128K.allocator.init :=
  valid_calls_are_safe region_128K (.start region_128K.allocator) (.init rfl)
    (.allocate_pages 16) (Nat.le_refl 16)

end Modern05
