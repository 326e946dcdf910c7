import Modern05.Framework.LTS
import Modern05.Mm.BuddyOps

/-! # Runs of the buddy allocator

    The allocator as a transition system: from the state its constructor leaves, any
    number of calls of `allocate_pages` and `free_pages`, where only addresses of live
    blocks are freed.

    A state is the heap together with the live blocks, each with the size that was
    asked for. A block is live from the call of `allocate_pages` that took it to the
    call of `free_pages` with its address; the record of the live blocks is not part of
    the program, it is what the callers of the allocator know.

    * `exec_cases` says what one call does; `call_returns`: no call of a run faults.
    * `stateInv_of_reachable`: the invariant holds in every state of every run.
-/

namespace Modern05

open HeapTree BuddyAllocator LTS

/-! ## States and calls -/

/-- A region the allocator can be constructed on: the root is at least one block of
    the smallest size, and the preallocated array has a block for every node of the
    tree (the root is at most 2 GiB). -/
structure Region where
  phy_start : UInt64
  root_log2size : Nat
  min_le : Log2MinSize ≤ root_log2size
  room : 2 ^ (root_log2size - Log2MinSize + 1) ≤ MaxBlocks

/-- The allocator `buddy_allocator_init` constructs on a region. -/
def Region.allocator (R : Region) : BuddyAllocator :=
  ⟨R.phy_start, R.root_log2size, MaxBlocks⟩

theorem Region.fits (R : Region) : R.allocator.Fits := by
  refine ⟨R.min_le, ?_, R.room⟩
  have hlt : R.root_log2size - Log2MinSize + 1 < 17 :=
    (Nat.pow_lt_pow_iff_right (by decide : 1 < 2)).mp (Nat.lt_of_le_of_lt R.room (by decide))
  show R.root_log2size ≤ Log2MaxSize
  unfold Log2MinSize at hlt
  unfold Log2MaxSize
  omega

/-- A block some caller holds, and the size it asked for. -/
structure Live where
  block : Nat
  log2size : Nat
  deriving DecidableEq, Repr

/-- The address the caller was given. -/
def Live.addr (ba : BuddyAllocator) (l : Live) : UInt64 := ba.get_block_phy_addr l.block

/-- The allocator and the blocks it has handed out, the latest first. -/
structure BuddyState where
  heap : BuddyHeap
  live : List Live

/-- The numbers of the live blocks. -/
def BuddyState.blocks (s : BuddyState) : Set Nat := {b | ∃ l ∈ s.live, l.block = b}

inductive Call where
  | allocate_pages (log2size : Nat)
  | free_pages (addr : UInt64)
  deriving DecidableEq, Repr

/-- The state after a call. A call that faults has none, nor has the release of an
    address that is not live. -/
def exec (ba : BuddyAllocator) (s : BuddyState) : Call → Option BuddyState
  | .allocate_pages log2size =>
    match (ba.allocate_block log2size).run s.heap with
    | (.ok (some block), heap) => some ⟨heap, ⟨block, log2size⟩ :: s.live⟩
    | (.ok none, heap) => some ⟨heap, s.live⟩
    | (.error _, _) => none
  | .free_pages addr =>
    if s.live.any (fun l => l.addr ba == addr) then
      match (ba.free_pages addr).run s.heap with
      | (.ok (), heap) => some ⟨heap, s.live.filter (fun l => l.addr ba != addr)⟩
      | (.error _, _) => none
    else none

/-- The calls a run may make: sizes from `Log2MinSize` on, addresses of live blocks. -/
def Call.valid (ba : BuddyAllocator) (s : BuddyState) : Call → Prop
  | .allocate_pages log2size => Log2MinSize ≤ log2size
  | .free_pages addr => ∃ l ∈ s.live, l.addr ba = addr

instance (ba : BuddyAllocator) (s : BuddyState) : (c : Call) → Decidable (c.valid ba s)
  | .allocate_pages log2size => inferInstanceAs (Decidable (Log2MinSize ≤ log2size))
  | .free_pages addr => inferInstanceAs (Decidable (∃ l ∈ s.live, l.addr ba = addr))

/-- The state the constructor leaves. -/
def BuddyState.start (ba : BuddyAllocator) : BuddyState := ⟨ba.init, []⟩

/-- The runs of the allocator. -/
def buddy_system (ba : BuddyAllocator) : System BuddyState Call where
  init := fun s => s = .start ba
  step := fun s c s' => c.valid ba s ∧ exec ba s c = some s'

/-! ## The invariant -/

/-- The heap is in order for the live blocks, whose sizes fit their rows. -/
structure Sound (ba : BuddyAllocator) (s : BuddyState) (free : Nat → List Nat) : Prop where
  inv : Inv ba s.heap s.heap.available free s.blocks
  size : ∀ l ∈ s.live, level l.block + l.log2size = ba.root_log2size
  nodup : (s.live.map Live.block).Nodup

/-- The counters agree with the live blocks and the lists: `available_blocks` stays one
    short in the bucket of the root, because the constructor does not count the root. -/
structure Counted (ba : BuddyAllocator) (s : BuddyState) (free : Nat → List Nat) : Prop where
  log2size : s.heap.log2size = fun k => Log2MinSize + k
  allocated : ∀ k, s.heap.allocated_blocks k =
    UInt64.ofNat (s.live.countP (fun l => l.log2size == k + Log2MinSize))
  available : ∀ k, s.heap.available_blocks k - UInt64.ofNat (free k).length =
    if k = ba.height then -1 else 0

/-- What holds of every state of a run. -/
structure StateInv (ba : BuddyAllocator) (s : BuddyState) (free : Nat → List Nat) : Prop
    extends Sound ba s free, Counted ba s free

/-- The fields of the blocks `L` are the same in both heaps. -/
def SameBlocks (h h' : BuddyHeap) (L : Set Nat) : Prop :=
  ∀ l ∈ L, h'.valid l = h.valid l ∧ h'.available l = h.available l ∧
    h'.next l = h.next l ∧ h'.prev l = h.prev l

/-- What a successful `allocate_pages(k)` does: the smallest bucket from `k` on that is
    not empty is that of size `j`, `c` is its head, and `b`, the leftmost node of size
    `k` below `c`, becomes live. -/
structure Allocates (ba : BuddyAllocator) (s : BuddyState) (k j c b : Nat)
    (s' : BuddyState) : Prop where
  fit : SmallestFit ba s.heap k j c
  number : b + 1 = 2 ^ (j - k) * (c + 1)
  level : level b + k = ba.root_log2size
  run : (ba.allocate_block k).run s.heap = (.ok (some b), s'.heap)
  live : s'.live = ⟨b, k⟩ :: s.live
  fresh : b ∉ s.blocks
  same : SameBlocks s.heap s'.heap s.blocks

/-- What the release of the live block `l` does. -/
structure Releases (ba : BuddyAllocator) (s : BuddyState) (l : Live) (s' : BuddyState) :
    Prop where
  run : (ba.free_pages (l.addr ba)).run s.heap = (.ok (), s'.heap)
  live : s'.live = s.live.filter (fun x => x.addr ba != l.addr ba)
  erase : s'.live = s.live.erase l
  blocks : s'.blocks = s.blocks \ {l.block}
  same : SameBlocks s.heap s'.heap s'.blocks

section outcomes

variable {ba : BuddyAllocator} {s s' : BuddyState} {free : Nat → List Nat} {k : Nat}

theorem blocks_cons {h : BuddyHeap} {l : Live} {ls : List Live} :
    (BuddyState.mk h (l :: ls)).blocks = insert l.block {b | ∃ l ∈ ls, l.block = b} := by
  ext b
  simp [BuddyState.blocks, eq_comm]

/-- The initial state satisfies the invariant. -/
theorem stateInv_start (ba : BuddyAllocator) :
    StateInv ba (.start ba) (fun k => if k = ba.height then [0] else []) := by
  have hL : (BuddyState.start ba).blocks = ∅ := by
    ext b
    simp [BuddyState.blocks, BuddyState.start]
  refine ⟨⟨?_, by simp [BuddyState.start], by simp [BuddyState.start]⟩, rfl, ?_, ?_⟩
  · rw [hL]
    exact Inv.init ba
  · intro k
    rfl
  · intro k
    by_cases e : k = ba.height
    · rw [if_pos e, if_pos e]
      rfl
    · rw [if_neg e, if_neg e]
      show (0 : UInt64) - 0 = 0
      decide

/-- **Allocation** finds every bucket from `k` on empty and changes nothing, or takes
    a block. The counters stay right if they were. -/
theorem allocate_outcome (hf : ba.Fits) (hs : Sound ba s free) (hk : Log2MinSize ≤ k) :
    ((ba.allocate_block k).run s.heap = (.ok none, s.heap) ∧
        ∀ j, k ≤ j → j ≤ ba.root_log2size → s.heap.first_block (bucket_index j) = none) ∨
      ∃ j c b s' free', Allocates ba s k j c b s' ∧ Sound ba s' free' ∧
        (Counted ba s free → Counted ba s' free') := by
  rcases hs.inv.run_allocate_block hf hk with hnone | hsome
  · exact .inl hnone
  · right
    obtain ⟨j, c, b, h₁, free', hfit, hb, hrun, hbL, hlevel, hinv, hkept⟩ := hsome
    refine ⟨j, c, b, ⟨_, ⟨b, k⟩ :: s.live⟩, free',
      ⟨hfit, hb, hlevel, hrun, rfl, hbL, hkept.same⟩, ⟨?_, ?_, ?_⟩, ?_⟩
    · rw [blocks_cons]
      exact ⟨⟨hinv.lists.ring, hinv.lists.row⟩, hinv.tree, hinv.listed⟩
    · intro l hl
      rcases List.mem_cons.mp hl with e | hl
      · rw [e]
        exact hlevel
      · exact hs.size l hl
    · rw [List.map_cons, List.nodup_cons]
      refine ⟨?_, hs.nodup⟩
      intro hmem
      obtain ⟨l, hl, e⟩ := List.mem_map.mp hmem
      exact hbL ⟨l, hl, e⟩
    · intro hc
      refine ⟨hkept.log2size.trans hc.log2size, ?_, ?_⟩
      · -- One more block of size `k`; the other buckets count what they did.
        intro i
        show Function.update s.heap.allocated_blocks (k - Log2MinSize) _ i = _
        by_cases e : i = k - Log2MinSize
        · have hsize : k = i + Log2MinSize := by omega
          rw [e, Function.update_self, hc.allocated, ← e,
            List.countP_cons_of_pos (by simp [hsize]), UInt64.ofNat_add]
          rfl
        · have hsize : k ≠ i + Log2MinSize := by omega
          rw [Function.update_of_ne e, hc.allocated, List.countP_cons_of_neg (by simp [hsize])]
      · intro i
        rw [← hc.available i, ← hkept.drift i]

/-- A live block is a node of the tree. -/
theorem Sound.isNode (hs : Sound ba s free) {l : Live} (hl : l ∈ s.live) :
    ba.IsNode l.block :=
  hs.inv.tree.node _ (hs.inv.tree.live _ ⟨l, hl, rfl⟩).1

/-- The size of a live block is that of its row. -/
theorem Sound.log2size_eq (hf : ba.Fits) (hs : Sound ba s free) {l : Live} (hl : l ∈ s.live) :
    l.log2size = ba.height - level l.block + Log2MinSize := by
  have h1 := hs.size l hl
  have h2 := hs.isNode hl
  have h3 := hf.root_eq
  unfold IsNode at h2
  omega

/-- The order of the record does not matter. -/
theorem Sound.of_perm {h : BuddyHeap} {ls ls' : List Live} (hs : Sound ba ⟨h, ls⟩ free)
    (hp : ls.Perm ls') : Sound ba ⟨h, ls'⟩ free := by
  have hblocks : (BuddyState.mk h ls').blocks = (BuddyState.mk h ls).blocks := by
    ext b
    simp only [BuddyState.blocks, Set.mem_ofPred_eq, hp.mem_iff]
  refine ⟨?_, ?_, ?_⟩
  · rw [hblocks]
    exact hs.inv
  · intro l hl
    exact hs.size l (hp.mem_iff.mpr hl)
  · exact (hp.map Live.block).nodup_iff.mp hs.nodup

/-- Two live blocks with the same address are the same. -/
theorem Sound.addr_inj (hf : ba.Fits) (hs : Sound ba s free) {l l' : Live} (hl : l ∈ s.live)
    (hl' : l' ∈ s.live) (h : l.addr ba = l'.addr ba) : l = l' := by
  have hblock : l.block = l'.block := by
    rw [← (hf.block_at_phy_addr (hs.isNode hl)).2, ← (hf.block_at_phy_addr (hs.isNode hl')).2]
    exact congrArg ba.block_at h
  exact List.inj_on_of_nodup_map hs.nodup hl hl' hblock

/-- **Release** of a live block takes it, and only it, off the record. The counters
    stay right if they were. -/
theorem free_outcome (hf : ba.Fits) (hs : Sound ba s free) {l : Live} (hl : l ∈ s.live) :
    ∃ s' free', Releases ba s l s' ∧ Sound ba s' free' ∧
      (Counted ba s free → Counted ba s' free') := by
  have hmem : l.block ∈ s.blocks := ⟨l, hl, rfl⟩
  obtain ⟨h₁, free', hrun, hinv, hkept⟩ := hs.inv.run_free_pages hf hmem
  have hnodup : s.live.Nodup := List.Nodup.of_map _ hs.nodup
  have hfilter : s.live.filter (fun x => x.addr ba != l.addr ba) = s.live.erase l := by
    rw [hnodup.erase_eq_filter]
    apply List.filter_congr
    intro x hx
    rw [Bool.eq_iff_iff, bne_iff_ne, bne_iff_ne]
    exact not_congr ⟨hs.addr_inj hf hx hl, fun e => e ▸ rfl⟩
  have hblocks : ∀ h : BuddyHeap, (BuddyState.mk h (s.live.erase l)).blocks =
      s.blocks \ {l.block} := by
    intro h
    ext b
    constructor
    · intro hb
      obtain ⟨x, hx, rfl⟩ := hb
      obtain ⟨hne, hx⟩ := hnodup.mem_erase_iff.mp hx
      exact ⟨⟨x, hx, rfl⟩, fun e => hne (List.inj_on_of_nodup_map hs.nodup hx hl e)⟩
    · intro hb
      obtain ⟨⟨x, hx, rfl⟩, hne⟩ := hb
      exact ⟨x, hnodup.mem_erase_iff.mpr ⟨fun e => hne (e ▸ rfl), hx⟩, rfl⟩
  refine ⟨⟨_, s.live.erase l⟩, free', ⟨hrun, hfilter.symm, rfl, hblocks _, ?_⟩, ⟨?_, ?_, ?_⟩, ?_⟩
  · rw [hblocks]
    exact hkept.same
  · rw [hblocks]
    exact ⟨⟨hinv.lists.ring, hinv.lists.row⟩, hinv.tree, hinv.listed⟩
  · intro x hx
    exact hs.size x (List.mem_of_mem_erase hx)
  · exact hs.nodup.sublist (List.erase_sublist.map _)
  · intro hc
    refine ⟨hkept.log2size.trans hc.log2size, ?_, ?_⟩
    · -- The bucket that is uncounted is the one the block was counted in.
      have hbucket := hs.log2size_eq hf hl
      intro i
      show Function.update s.heap.allocated_blocks (ba.height - level l.block) _ i = _
      by_cases e : i = ba.height - level l.block
      · have hpos : 0 < s.live.countP (fun x => x.log2size == i + Log2MinSize) :=
          List.countP_pos_iff.mpr ⟨l, hl, by simp [hbucket, e]⟩
        have hcount : s.live.countP (fun x => x.log2size == i + Log2MinSize) =
            (s.live.erase l).countP (fun x => x.log2size == i + Log2MinSize) + 1 := by
          rw [List.countP_erase, if_pos ⟨hl, by simp [hbucket, e]⟩]
          omega
        rw [e, Function.update_self, hc.allocated, ← e, hcount, UInt64.ofNat_add]
        show _ + 1 - 1 = _
        grind
      · have hne : ¬ (l ∈ s.live ∧ (l.log2size == i + Log2MinSize) = true) := by
          rw [hbucket]
          intro h
          have := beq_iff_eq.mp h.2
          omega
        rw [Function.update_of_ne e, hc.allocated, List.countP_erase, if_neg hne]
        rfl
    · intro i
      rw [← hc.available i, ← hkept.drift i]

/-! ## Steps and runs -/

theorem exec_of_none (hrun : (ba.allocate_block k).run s.heap = (.ok none, s.heap)) :
    exec ba s (.allocate_pages k) = some s := by
  simp only [exec, hrun]

theorem Allocates.exec_eq {j c b : Nat} (h : Allocates ba s k j c b s') :
    exec ba s (.allocate_pages k) = some s' := by
  simp only [exec, h.run, ← h.live]

theorem Releases.exec_eq {l : Live} (h : Releases ba s l s') (hl : l ∈ s.live) :
    exec ba s (.free_pages (l.addr ba)) = some s' := by
  have hany : s.live.any (fun x => x.addr ba == l.addr ba) = true :=
    List.any_eq_true.mpr ⟨l, hl, beq_self_eq_true _⟩
  simp only [exec, hany, if_true, h.run, ← h.live]

/-- **What a valid call does**: it returns, and it is an allocation that fails and
    changes nothing, one that takes a block, or the release of a live block. -/
theorem exec_cases (hf : ba.Fits) (hs : Sound ba s free) {c : Call} (hc : c.valid ba s) :
    (∃ k, c = .allocate_pages k ∧ exec ba s c = some s ∧
        ∀ j, k ≤ j → j ≤ ba.root_log2size → s.heap.first_block (bucket_index j) = none) ∨
      ∃ s' free', exec ba s c = some s' ∧ Sound ba s' free' ∧
        (Counted ba s free → Counted ba s' free') ∧
        ((∃ k j d b, c = .allocate_pages k ∧ Allocates ba s k j d b s') ∨
          ∃ l ∈ s.live, c = .free_pages (l.addr ba) ∧ Releases ba s l s') := by
  cases c with
  | allocate_pages k =>
    rcases allocate_outcome hf hs hc with ⟨hrun, hnone⟩ | ⟨j, d, b, s', free', ha, hs', hc'⟩
    · exact .inl ⟨k, rfl, exec_of_none hrun, hnone⟩
    · exact .inr ⟨s', free', ha.exec_eq, hs', hc', .inl ⟨k, j, d, b, rfl, ha⟩⟩
  | free_pages addr =>
    obtain ⟨l, hl, rfl⟩ := hc
    obtain ⟨s', free', hr, hs', hc'⟩ := free_outcome hf hs hl
    exact .inr ⟨s', free', hr.exec_eq hl, hs', hc', .inr ⟨l, hl, rfl, hr⟩⟩

/-- **No call of a run faults**: every valid call has a next state. -/
theorem call_returns (hf : ba.Fits) (hs : Sound ba s free) {c : Call} (hc : c.valid ba s) :
    ∃ s', exec ba s c = some s' := by
  rcases exec_cases hf hs hc with ⟨_, _, h, _⟩ | ⟨s', _, h, _⟩
  · exact ⟨s, h⟩
  · exact ⟨s', h⟩

theorem sound_of_exec (hf : ba.Fits) (hs : Sound ba s free) {c : Call} (hc : c.valid ba s)
    (hstep : exec ba s c = some s') :
    ∃ free', Sound ba s' free' ∧ (Counted ba s free → Counted ba s' free') := by
  rcases exec_cases hf hs hc with ⟨_, _, h, _⟩ | ⟨t, free', h, ht, hcount, _⟩
  · rw [h] at hstep
    cases hstep
    exact ⟨free, hs, id⟩
  · rw [h] at hstep
    cases hstep
    exact ⟨free', ht, hcount⟩

/-- **Every state of every run satisfies the invariant.** -/
theorem stateInv_of_reachable (hf : ba.Fits) :
    ∀ s, Reachable (buddy_system ba) s → ∃ free, StateInv ba s free := by
  apply invariant_of_step
  · intro s h
    exact ⟨_, h ▸ stateInv_start ba⟩
  · intro s c s' _ hinv hstep
    obtain ⟨free, hs⟩ := hinv
    obtain ⟨free', hs', hcount⟩ := sound_of_exec hf hs.toSound hstep.1 hstep.2
    exact ⟨free', ⟨hs', hcount hs.toCounted⟩⟩

/-- A call that has a next state is valid. -/
theorem valid_of_exec {c : Call} (h : exec ba s c = some s') :
    c.valid ba s := by
  cases c with
  | allocate_pages k =>
    by_contra hk
    have hlt : k < Log2MinSize := by
      unfold Call.valid at hk
      omega
    -- A size below the smallest panics.
    have hrun : (ba.allocate_block k).run s.heap =
        (.error (.panic "Failed to allocate pages, log2size < Log2MinSize"), s.heap) := by
      unfold allocate_block
      rw [if_pos hlt]
      rfl
    simp only [exec, hrun] at h
    cases h
  | free_pages addr =>
    by_cases hany : s.live.any (fun l => l.addr ba == addr) = true
    · obtain ⟨l, hl, e⟩ := List.any_eq_true.mp hany
      exact ⟨l, hl, beq_iff_eq.mp e⟩
    · simp only [exec, hany] at h
      cases h

end outcomes

/-! ## Concrete runs -/

/-- The state after a list of calls, if all of them are valid and return. -/
def after (ba : BuddyAllocator) (cs : List Call) : Option BuddyState :=
  cs.foldlM (exec ba) (.start ba)

theorem reachable_after {ba : BuddyAllocator} {cs : List Call} {s : BuddyState}
    (h : after ba cs = some s) : Reachable (buddy_system ba) s := by
  have hexec : ∀ s c s', exec ba s c = some s' → (buddy_system ba).step s c s' :=
    fun _ _ _ hc => ⟨valid_of_exec hc, hc⟩
  exact Reachable.foldlM hexec (.init rfl) h

/-- Two smallest blocks at 64 MiB. -/
def region_128K : Region := ⟨0x4000000, 17, by decide, by decide⟩

end Modern05
