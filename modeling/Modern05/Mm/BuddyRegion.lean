import Modern05.Mm.BuddyRuns

/-! # What the buddy allocator is for

    Seen from outside, the allocator divides a region. `region_spec` is that purpose as
    a system of its own, whose states are sets of live nodes: a request for a size is
    granted with some node of that size clear of all live nodes, and refused only when
    there is none.

    * `buddy_trace_refines_region`: the allocator is an implementation of it. Whatever the calls,
      what they return is what dividing the region may return.
    * `free_nodes_are_maximal_clear`: after any run the free lists hold the maximal
      clear nodes, so merging is complete and the order of the calls leaves no trace.
    * `free_lists_represented`: each bucket heads a circular list of the free blocks of
      its size.
    * `allocate_pages_complete`: when `allocate_pages` succeeds, and what either outcome
      changes.
-/

namespace Modern05

open HeapTree BuddyAllocator LTS Linked

/-! ## The region, abstractly -/

inductive RegionStep where
  | grant (log2size node : Nat)
  | refuse (log2size : Nat)
  | release (node : Nat)

/-- Node `i` of the region has size `2 ^ k`. -/
def BuddyAllocator.HasSize (ba : BuddyAllocator) (i k : Nat) : Prop :=
  ba.IsNode i ∧ level i + k = ba.root_log2size

/-- Dividing a region into live nodes. -/
def region_spec (ba : BuddyAllocator) : System (Set Nat) RegionStep where
  init := fun L => L = ∅
  step := fun L a L' =>
    match a with
    | .grant k i => ba.HasSize i k ∧ Clear L i ∧ L' = insert i L
    | .refuse k => (¬ ∃ i, ba.HasSize i k ∧ Clear L i) ∧ L' = L
    | .release i => i ∈ L ∧ L' = L \ {i}

variable {ba : BuddyAllocator} {s : BuddyState} {free : Nat → List Nat} {k : Nat}

/-! ## Granting and refusing -/

/-- A node below a clear node is clear. -/
theorem Clear.of_within {L : Set Nat} {i a : Nat} (ha : Clear L a) (hw : Within i a) :
    Clear L i := by
  intro l hl
  constructor
  · intro h
    exact (ha l hl).1 (h.trans hw)
  · intro h
    -- `l` and `a` both contain `i`, so one contains the other.
    rcases h.total hw with h' | h'
    · exact (ha l hl).1 h'
    · exact (ha l hl).2 h'

/-- The block an allocation takes lies below the head of the bucket it came from. -/
theorem Allocates.within {j c b : Nat} {s' : BuddyState} (hf : ba.Fits)
    (hs : Sound ba s free) (hk : Log2MinSize ≤ k) (h : Allocates ba s k j c b s') :
    Within b c := by
  have hle := h.fit.le
  obtain ⟨_, hlevel⟩ := hs.inv.head_free hf (Nat.le_trans hk hle) h.fit.le_root h.fit.head
  have hb := h.level
  have hnum := h.number
  rw [within_iff (t := j - k) (by omega), hnum, Nat.mul_comm (2 ^ (j - k))]
  refine ⟨Nat.le_refl _, ?_⟩
  exact (Nat.mul_lt_mul_right (Nat.two_pow_pos _)).mpr (by omega)

/-- The block an allocation takes was clear. -/
theorem Allocates.clear {j c b : Nat} {s' : BuddyState} (hf : ba.Fits)
    (hs : Sound ba s free) (hk : Log2MinSize ≤ k) (h : Allocates ba s k j c b s') :
    Clear s.blocks b := by
  have hmin : Log2MinSize ≤ j := Nat.le_trans hk h.fit.le
  obtain ⟨hmem, _⟩ := hs.inv.head_free hf hmin h.fit.le_root h.fit.head
  obtain ⟨hv, ha⟩ := hs.inv.mem_free hmem
  exact (hs.inv.tree.clear_of_free hv ha).of_within (h.within hf hs hk)

theorem Allocates.hasSize {j c b : Nat} {s' : BuddyState} (hf : ba.Fits)
    (hk : Log2MinSize ≤ k) (h : Allocates ba s k j c b s') : ba.HasSize b k := by
  have h1 := h.level
  have h2 := hf.root_eq
  refine ⟨?_, h1⟩
  unfold IsNode
  omega

/-- When all buckets from `k` on are empty, no node of size `k` is clear: walking down
    from the root to such a node one would meet a free node above it. -/
theorem not_clear_of_empty (hf : ba.Fits) (hs : Sound ba s free) (hk : Log2MinSize ≤ k)
    (hnone : ∀ j, k ≤ j → j ≤ ba.root_log2size → s.heap.first_block (bucket_index j) = none) :
    ¬ ∃ i, ba.HasSize i k ∧ Clear s.blocks i := by
  intro h
  obtain ⟨i, ⟨hnode, hsize⟩, hclear⟩ := h
  rcases hs.inv.tree.covered_or_split hnode with ⟨a, hw, hv, ha⟩ | ⟨hv, ha, _⟩
  · rcases ha with ha | ha
    · -- A free node above `i` is on the list of a bucket that should be empty.
      have hlevel := hw.level_le
      have hroot := hf.root_eq
      have hnode' := hnode
      unfold IsNode at hnode'
      have hmem := (hs.inv.listed a).mpr ⟨hv, ha⟩
      have hj := hnone (ba.root_log2size - level a) (by omega) (by omega)
      rw [hf.bucket_index_eq (by omega) (by omega)] at hj
      have hrow : ba.root_log2size - level a - Log2MinSize = ba.height - level a := by omega
      rw [hrow] at hj
      rw [((hs.inv.lists.ring _).eq_nil_iff).mpr hj] at hmem
      cases hmem
    · exact (hclear a ha).2 hw
  · obtain ⟨l, hl, hw⟩ := hs.inv.tree.exists_live_within hv ha
    exact (hclear l hl).1 hw

/-! ## Traces -/

theorem allocate_pages_of_block {h h' : BuddyHeap} {o : Option Nat}
    (hrun : (ba.allocate_block k).run h = (.ok o, h')) :
    (ba.allocate_pages k).run h = (.ok (ba.address_of o), h') := by
  unfold allocate_pages
  rw [Prog.run_bind_ok hrun]
  rfl

/-- What a call returns: an address, or 0. `free_pages` returns nothing. -/
def Call.returns (ba : BuddyAllocator) (s : BuddyState) : Call → UInt64
  | .allocate_pages k =>
    match (ba.allocate_pages k).run s.heap with
    | (.ok addr, _) => addr
    | (.error _, _) => 0
  | .free_pages _ => 0

/-- The runs of the allocator, with what the calls return. -/
def observed_system (ba : BuddyAllocator) : System BuddyState (Call × UInt64) where
  init := (buddy_system ba).init
  step := fun s l s' => (buddy_system ba).step s l.1 s' ∧ l.1.returns ba s = l.2

/-- A call and what it returns, seen as a step of the region. -/
def Call.Shows (ba : BuddyAllocator) : Call × UInt64 → RegionStep → Prop
  | (.allocate_pages k, addr), .grant k' i => k' = k ∧ addr = ba.get_block_phy_addr i
  | (.allocate_pages k, addr), .refuse k' => k' = k ∧ addr = 0
  | (.free_pages addr, _), .release i => addr = ba.get_block_phy_addr i
  | _, _ => False

theorem reachable_of_observed (hs : Reachable (observed_system ba) s) :
    Reachable (buddy_system ba) s := by
  induction hs with
  | init h => exact .init h
  | step _ h ih => exact .step ih h.1

/-- **One call is one step of the region.** -/
theorem region_step_of_call (R : Region) {s s' : BuddyState} {l : Call × UInt64}
    (hreach : Reachable (buddy_system R.allocator) s)
    (hstep : (observed_system R.allocator).step s l s') :
    ∃ a, (region_spec R.allocator).step s.blocks a s'.blocks ∧ Call.Shows R.allocator l a := by
  obtain ⟨free, hs⟩ := stateInv_of_reachable R.fits s hreach
  obtain ⟨c, addr⟩ := l
  obtain ⟨⟨hvalid, hexec⟩, hreturns⟩ := hstep
  cases c with
  | allocate_pages k =>
    rcases allocate_outcome R.fits hs.toSound hvalid with ⟨hrun, hnone⟩ | ⟨j, c, b, t, _, ht, _⟩
    · rw [exec_of_none hrun] at hexec
      cases hexec
      rw [Call.returns, allocate_pages_of_block hrun] at hreturns
      exact ⟨.refuse k, ⟨not_clear_of_empty R.fits hs.toSound hvalid hnone, rfl⟩, rfl,
        hreturns.symm⟩
    · rw [ht.exec_eq] at hexec
      cases hexec
      rw [Call.returns, allocate_pages_of_block ht.run] at hreturns
      have hblocks : s'.blocks = insert b s.blocks := by
        ext x
        simp [BuddyState.blocks, ht.live, eq_comm]
      exact ⟨.grant k b, ⟨ht.hasSize R.fits hvalid, ht.clear R.fits hs.toSound hvalid, hblocks⟩,
        rfl, hreturns.symm⟩
  | free_pages addr =>
    obtain ⟨l, hl, rfl⟩ := hvalid
    obtain ⟨t, _, ht, _⟩ := free_outcome R.fits hs.toSound hl
    rw [ht.exec_eq hl] at hexec
    cases hexec
    exact ⟨.release l.block, ⟨⟨l, hl, rfl⟩, ht.blocks⟩, rfl⟩

/-- **The allocator implements the region**: for every run of calls there is a run of grants,
    refusals and releases with the same sizes and addresses, one for each call, and the nodes it
    leaves live are the live blocks. -/
theorem buddy_trace_refines_region (R : Region) (ls : List (Call × UInt64)) (s : BuddyState)
    (h : Steps (observed_system R.allocator) (.start R.allocator) ls s) :
    ∃ as, Steps (region_spec R.allocator) ∅ as s.blocks ∧
      List.Forall₂ (Call.Shows R.allocator) ls as := by
  have hstart : (∅ : Set Nat) = (BuddyState.start R.allocator).blocks := by
    ext b
    simp [BuddyState.blocks, BuddyState.start]
  obtain ⟨as, L, has, hshows, rfl⟩ := h.simulate
    (fun (t : BuddyState) (L : Set Nat) => L = t.blocks) (Call.Shows R.allocator) (by
      intro t l t' L ht hL hstep
      subst hL
      obtain ⟨a, ha, hshows⟩ := region_step_of_call R (reachable_of_observed ht) hstep
      exact ⟨a, _, ha, hshows, rfl⟩) (.init rfl) hstart
  exact ⟨as, has, hshows⟩

/-- A region of two smallest blocks: one of them is taken, and then the whole is refused. -/
theorem whole_region_refused : ∃ s as,
    Steps (region_spec region_128K.allocator) ∅ as (BuddyState.blocks s) ∧
      List.Forall₂ (Call.Shows region_128K.allocator)
        [(.allocate_pages 16, 0x4010000), (.allocate_pages 17, 0)] as := by
  let ba := region_128K.allocator
  let c₁ := Call.allocate_pages 16
  let c₂ := Call.allocate_pages 17
  have h₁ : (exec ba (.start ba) c₁).isSome := by decide +kernel
  have h₂ : (((exec ba (.start ba) c₁).bind (exec ba · c₂))).isSome := by decide +kernel
  have hr₁ : c₁.returns ba (.start ba) = 0x4010000 := by decide +kernel
  have hr₂ : (exec ba (.start ba) c₁).map (c₂.returns ba ·) = some 0 := by decide +kernel
  obtain ⟨s₁, hs₁⟩ := Option.isSome_iff_exists.mp h₁
  rw [hs₁] at h₂ hr₂
  obtain ⟨s₂, hs₂⟩ := Option.isSome_iff_exists.mp h₂
  have hstep₁ : (observed_system ba).step (.start ba) (c₁, 0x4010000) s₁ :=
    ⟨⟨(by decide : Log2MinSize ≤ 16), hs₁⟩, hr₁⟩
  have hstep₂ : (observed_system ba).step s₁ (c₂, 0) s₂ :=
    ⟨⟨(by decide : Log2MinSize ≤ 17), hs₂⟩, Option.some.inj hr₂⟩
  obtain ⟨as, has, hshows⟩ := buddy_trace_refines_region region_128K _ _
    ((Steps.refl.tail hstep₁).tail hstep₂)
  exact ⟨s₂, as, has, hshows⟩

/-! ## The free nodes -/

/-- The block is on the list of some bucket. -/
def BuddyHeap.Free (h : BuddyHeap) (b : Nat) : Prop :=
  ∃ k < bucket_count, OnList (h.first_block k) h.next b

/-- The blocks on the lists are the valid and available ones. -/
theorem free_iff_flags (hf : ba.Fits) (hs : Sound ba s free) (b : Nat) :
    s.heap.Free b ↔ s.heap.valid b = true ∧ s.heap.available b = true := by
  constructor
  · intro h
    obtain ⟨k, _, hon⟩ := h
    exact hs.inv.mem_free ((hs.inv.lists.ring k).onList_iff.mp hon)
  · intro h
    have hlt := hf.height_lt
    exact ⟨ba.height - level b, by omega,
      (hs.inv.lists.ring _).onList_iff.mpr ((hs.inv.listed b).mpr h)⟩

/-- With nothing live, the root is the only free node. -/
theorem free_iff_root (hf : ba.Fits) (hs : Sound ba s free) (hlive : s.live = []) (b : Nat) :
    s.heap.Free b ↔ b = 0 := by
  have hclear : ∀ a, Clear s.blocks a := by
    intro a l hl
    obtain ⟨x, hx, _⟩ := hl
    rw [hlive] at hx
    cases hx
  rw [free_iff_flags hf hs, hs.inv.tree.free_iff_maximal]
  constructor
  · intro h
    by_contra hne
    exact h.2.2 0 (within_root b) hne (hclear 0)
  · intro e
    rw [e]
    refine ⟨isNode_root, hclear 0, ?_⟩
    intro a hw hne
    exact absurd (hw.antisymm (within_root a)) hne

/-- **Complete coalescing**: the free nodes are the maximal nodes clear of live blocks.
    So the free and the live nodes partition the smallest blocks, the free nodes depend
    on the live ones only, and with nothing live only the root is free. -/
theorem free_nodes_are_maximal_clear (R : Region) (s : BuddyState)
    (hs : Reachable (buddy_system R.allocator) s) :
    (∀ b, s.heap.Free b ↔ R.allocator.IsNode b ∧ Clear s.blocks b ∧
        ∀ a, Within b a → b ≠ a → ¬ Clear s.blocks a) ∧
      (∀ i, level i = R.allocator.height →
        ∃! a, Within i a ∧ (s.heap.Free a ∨ a ∈ s.blocks)) ∧
      (∀ t, Reachable (buddy_system R.allocator) t → t.blocks = s.blocks →
        ∀ b, t.heap.Free b ↔ s.heap.Free b) ∧
      (s.live = [] → ∀ k < bucket_count,
        s.heap.first_block k = (if k = bucket_index R.root_log2size then some 0 else none) ∧
        ∀ b, OnList (s.heap.first_block k) s.heap.next b → b = 0) := by
  have hmax : ∀ t, Reachable (buddy_system R.allocator) t → ∀ b, t.heap.Free b ↔
      R.allocator.IsNode b ∧ Clear t.blocks b ∧
        ∀ a, Within b a → b ≠ a → ¬ Clear t.blocks a := by
    intro t ht b
    obtain ⟨free, ⟨hinv, _⟩⟩ := stateInv_of_reachable R.fits t ht
    rw [free_iff_flags R.fits hinv, hinv.inv.tree.free_iff_maximal]
  obtain ⟨free, ⟨hinv, _⟩⟩ := stateInv_of_reachable R.fits s hs
  refine ⟨hmax s hs, ?_, ?_, ?_⟩
  · intro i hi
    have hflags : ∀ a, (s.heap.Free a ∨ a ∈ s.blocks) ↔
        s.heap.valid a = true ∧ (s.heap.available a = true ∨ a ∈ s.blocks) := by
      intro a
      rw [free_iff_flags R.fits hinv]
      constructor
      · intro h
        rcases h with h | h
        · exact ⟨h.1, .inl h.2⟩
        · exact ⟨(hinv.inv.tree.live a h).1, .inr h⟩
      · intro h
        exact h.2.imp_left (fun ha => ⟨h.1, ha⟩)
    obtain ⟨a, ha, huniq⟩ := hinv.inv.tree.partition hi
    refine ⟨a, ⟨ha.1, (hflags a).mpr ha.2⟩, ?_⟩
    intro a' ha'
    exact huniq a' ⟨ha'.1, (hflags a').mp ha'.2⟩
  · intro t ht e b
    rw [hmax t ht, hmax s hs, e]
  · intro hlive k hk
    have hroot := free_iff_root R.fits hinv hlive
    have honly : ∀ b, OnList (s.heap.first_block k) s.heap.next b → b = 0 := by
      intro b hon
      exact (hroot b).mp ⟨k, hk, hon⟩
    refine ⟨?_, honly⟩
    -- The head of a list is on it, hence the root, which is on the list of its row only.
    have hidx : bucket_index R.root_log2size = R.allocator.height :=
      R.fits.bucket_index_eq R.min_le (Nat.le_refl _)
    rw [hidx]
    have hring := hinv.inv.lists.ring k
    by_cases e : k = R.allocator.height
    · rw [if_pos e]
      have hmem := (hinv.inv.listed 0).mpr ((free_iff_flags R.fits hinv 0).mp ((hroot 0).mpr rfl))
      rw [level_zero, Nat.sub_zero, ← e] at hmem
      cases hfirst : s.heap.first_block k with
      | none =>
        rw [hring.eq_nil_iff.mpr hfirst] at hmem
        cases hmem
      | some f => rw [honly f (.head hfirst)]
    · rw [if_neg e]
      cases hfirst : s.heap.first_block k with
      | none => rfl
      | some f =>
        have hf0 := honly f (.head hfirst)
        have hrow := (hinv.inv.lists.row k f (hring.mem_of_first hfirst)).2
        rw [hf0, level_zero] at hrow
        exact absurd hrow.symm e

/-- In a region of two smallest blocks, one of them live, the free nodes are the
    maximal clear ones. -/
theorem free_nodes_of_128K_region :
    ∃ s, after region_128K.allocator [.allocate_pages 16] = some s ∧
      ∀ b, s.heap.Free b ↔ region_128K.allocator.IsNode b ∧ Clear s.blocks b ∧
        ∀ a, Within b a → b ≠ a → ¬ Clear s.blocks a := by
  obtain ⟨s, h⟩ := Option.isSome_iff_exists.mp
    (by decide +kernel : (after region_128K.allocator [.allocate_pages 16]).isSome = true)
  exact ⟨s, h, (free_nodes_are_maximal_clear region_128K s (reachable_after h)).1⟩

/-- The bucket of size `k` heads a circular doubly linked list, without repetition, of
    the valid and available blocks of that size. -/
def BuddyHeap.ListInOrder (ba : BuddyAllocator) (h : BuddyHeap) (k : Nat) : Prop :=
  ∃ xs, Ring (h.first_block (bucket_index k)) h.next h.prev xs ∧
    ∀ b, b ∈ xs ↔ b < ba.max_blocks ∧ h.valid b = true ∧ h.available b = true ∧
      ba.block_log2size b = k

theorem Sound.listInOrder (hf : ba.Fits) (hs : Sound ba s free) (hmin : Log2MinSize ≤ k)
    (hmax : k ≤ Log2MaxSize) : s.heap.ListInOrder ba k := by
  have hidx : bucket_index k = k - Log2MinSize := by
    unfold Log2MaxSize at hmax
    exact bucket_index_of_ge hmin (by omega)
  refine ⟨free (bucket_index k), hs.inv.lists.ring _, ?_⟩
  have hroot := hf.root_eq
  intro b
  constructor
  · intro hb
    obtain ⟨hnode, hrow⟩ := hs.inv.lists.row _ b hb
    obtain ⟨hv, ha⟩ := hs.inv.mem_free hb
    refine ⟨hf.isNode_lt hnode, hv, ha, ?_⟩
    rw [hf.block_log2size_eq hnode]
    unfold IsNode at hnode
    omega
  · intro h
    obtain ⟨_, hv, ha, hsize⟩ := h
    have hnode := hs.inv.tree.node b hv
    have hmem := (hs.inv.listed b).mpr ⟨hv, ha⟩
    have hbucket := hf.bucket_index_block hnode
    rw [hsize] at hbucket
    rwa [hbucket]

/-- **Representation of the free lists**: the bucket of each size heads a circular
    doubly linked list without repetition of the valid and available blocks of that
    size. -/
theorem free_lists_represented (R : Region) (s : BuddyState)
    (hs : Reachable (buddy_system R.allocator) s) (k : Nat) (hmin : Log2MinSize ≤ k)
    (hmax : k ≤ Log2MaxSize) :
    ∃ xs, Ring (s.heap.first_block (bucket_index k)) s.heap.next s.heap.prev xs ∧
      ∀ b, b ∈ xs ↔ b < MaxBlocks ∧ s.heap.valid b = true ∧ s.heap.available b = true ∧
        R.allocator.block_log2size b = k := by
  obtain ⟨free, ⟨hinv, _⟩⟩ := stateInv_of_reachable R.fits s hs
  exact hinv.listInOrder R.fits hmin hmax

/-- The bucket of the smallest size after one block of a region of two was taken. -/
theorem free_list_of_128K_region :
    ∃ s, after region_128K.allocator [.allocate_pages 16] = some s ∧
      ∃ xs, Ring (s.heap.first_block (bucket_index 16)) s.heap.next s.heap.prev xs ∧
        ∀ b, b ∈ xs ↔ b < MaxBlocks ∧ s.heap.valid b = true ∧ s.heap.available b = true ∧
          region_128K.allocator.block_log2size b = 16 := by
  obtain ⟨s, h⟩ := Option.isSome_iff_exists.mp
    (by decide +kernel : (after region_128K.allocator [.allocate_pages 16]).isSome = true)
  exact ⟨s, h, free_lists_represented region_128K s (reachable_after h) 16 (by decide)
    (by decide)⟩

/-! ## Allocation -/

/-- The address of a node does not wrap when there is room for twice the region above
    its start. -/
theorem toNat_phy_addr_of_le (hf : ba.Fits) {b : Nat} (hb : ba.IsNode b)
    (hend : ba.phy_start.toNat + 2 ^ (ba.root_log2size + 1) ≤ 2 ^ 64) :
    (ba.get_block_phy_addr b).toNat = ba.phy_start.toNat + b * 65536 := by
  have hlt := isNode_iff.mp hb
  rw [Nat.pow_succ, hf.pow_root] at hend
  rw [Nat.pow_succ] at hlt
  rw [hf.toNat_phy_addr hb]
  omega

/-- The region is not one in which the address of a node wraps to 0. A node's number counts
    blocks of 64 KiB, and the last node has number `2 ^ (root_log2size - 15) - 2`. -/
def Region.NoNodeAtZero (R : Region) : Prop :=
  R.phy_start.toNat % 65536 = 0 →
    R.phy_start.toNat + 2 ^ (R.root_log2size + 1) < 2 ^ 64 + 2 ^ 17

theorem phy_addr_ne_zero {R : Region} {b : Nat} (hb : R.allocator.IsNode b)
    (hlow : IDENTITY_MAP_PHY_START ≤ R.phy_start.toNat) (hwrap : R.NoNodeAtZero) :
    R.allocator.get_block_phy_addr b ≠ 0 := by
  intro e
  have hlt := isNode_iff.mp hb
  have hroot := R.fits.pow_root
  have hpos : 0 < IDENTITY_MAP_PHY_START := by decide
  have hstart : R.allocator.phy_start.toNat = R.phy_start.toNat := rfl
  have hsize : R.allocator.root_log2size = R.root_log2size := rfl
  have haddr := R.fits.phy_addr_cases hb
  have hzero : (0 : UInt64).toNat = 0 := rfl
  unfold Region.NoNodeAtZero at hwrap
  rw [Nat.pow_succ] at hlt hwrap
  rw [e, hzero, hstart] at haddr
  rw [hsize] at hroot
  -- Wrapped to 0, the start is a multiple of 64 KiB and the node lies behind the last one.
  omega

/-- **Allocation is complete and fails atomically.** `allocate_pages(k)` returns a
    nonzero address exactly when some node of size `2 ^ k` is clear of live blocks; it
    then makes one such node live and leaves the other live blocks alone, and else it
    changes nothing at all. -/
theorem allocate_pages_complete (R : Region)
    (hlow : IDENTITY_MAP_PHY_START ≤ R.phy_start.toNat) (hwrap : R.NoNodeAtZero)
    (s : BuddyState) (hs : Reachable (buddy_system R.allocator) s) (k : Nat)
    (hk : Log2MinSize ≤ k) :
    ∃ addr heap, (R.allocator.allocate_pages k).run s.heap = (.ok addr, heap) ∧
      (addr ≠ 0 ↔ k ≤ R.root_log2size ∧ ∃ i, R.allocator.HasSize i k ∧ Clear s.blocks i) ∧
      (addr ≠ 0 → ∃ b, addr = R.allocator.get_block_phy_addr b ∧ R.allocator.HasSize b k ∧
        Clear s.blocks b ∧
        exec R.allocator s (.allocate_pages k) = some ⟨heap, ⟨b, k⟩ :: s.live⟩ ∧
        SameBlocks s.heap heap s.blocks) ∧
      (addr = 0 → heap = s.heap) := by
  obtain ⟨free, ⟨hinv, _⟩⟩ := stateInv_of_reachable R.fits s hs
  rcases allocate_outcome R.fits hinv hk with ⟨hrun, hnone⟩ | ⟨j, c, b, t, _, ht, _⟩
  · -- no list has a block that is large enough
    refine ⟨0, s.heap, allocate_pages_of_block hrun, ?_, by simp, fun _ => rfl⟩
    constructor
    · intro h
      exact absurd rfl h
    · intro h
      exact absurd h.2 (not_clear_of_empty R.fits hinv hk hnone)
  · -- the block that is granted has another address than 0
    have hsize := ht.hasSize R.fits hk
    have hclear := ht.clear R.fits hinv hk
    have hne := phy_addr_ne_zero hsize.1 hlow hwrap
    refine ⟨_, t.heap, allocate_pages_of_block ht.run, ?_, ?_, ?_⟩
    · constructor
      · intro _
        have h1 := ht.fit.le
        have h2 : j ≤ R.root_log2size := ht.fit.le_root
        exact ⟨by omega, b, hsize, hclear⟩
      · intro _
        exact hne
    · intro _
      refine ⟨b, rfl, hsize, hclear, ?_, ht.same⟩
      rw [ht.exec_eq, ← ht.live]
    · intro e
      exact absurd e hne

/-- With one block of a region of two live, a request for the whole region fails and
    changes nothing. -/
theorem allocate_pages_in_128K_region :
    ∃ s, after region_128K.allocator [.allocate_pages 16] = some s ∧
      ∃ addr heap, (region_128K.allocator.allocate_pages 17).run s.heap = (.ok addr, heap) ∧
        (addr = 0 → heap = s.heap) := by
  obtain ⟨s, h⟩ := Option.isSome_iff_exists.mp
    (by decide +kernel : (after region_128K.allocator [.allocate_pages 16]).isSome = true)
  obtain ⟨addr, heap, hrun, _, _, hfail⟩ := allocate_pages_complete region_128K (by decide)
    (fun _ => by decide) s (reachable_after h) 17 (by decide)
  exact ⟨s, h, addr, heap, hrun, hfail⟩

/-- The last 128 KiB below 2 ^ 64. -/
def last_region : Region := { region_128K with phy_start := 0xfffffffffffe0000 }

/-- With the left block of that region live the right one is clear, but its address wraps
    to 0, so that the call that takes it answers as if it had failed. -/
theorem last_block_answers_zero :
    IDENTITY_MAP_PHY_START ≤ last_region.phy_start.toNat ∧
      ∃ s, Reachable (buddy_system last_region.allocator) s ∧
        (16 ≤ last_region.root_log2size ∧
          ∃ i, last_region.allocator.HasSize i 16 ∧ Clear s.blocks i) ∧
        ∃ heap, (last_region.allocator.allocate_pages 16).run s.heap = (.ok 0, heap) := by
  obtain ⟨s, h⟩ := Option.isSome_iff_exists.mp
    (by decide +kernel : (after last_region.allocator [.allocate_pages 16]).isSome = true)
  have hlive : (after last_region.allocator [.allocate_pages 16]).map (·.live) =
      some [⟨1, 16⟩] := by decide +kernel
  have hzero : (after last_region.allocator [.allocate_pages 16]).map
      (fun s => ((last_region.allocator.allocate_pages 16).run s.heap).1.toOption) =
        some (some 0) := by decide +kernel
  rw [h, Option.map_some] at hlive hzero
  have hnode : last_region.allocator.IsNode 2 := isNode_iff.mpr (by decide)
  refine ⟨by decide, s, reachable_after h, ⟨by decide, 2, ⟨hnode, by decide⟩, ?_⟩, ?_⟩
  · -- Nodes 1 and 2 are the two halves, neither of which lies in the other.
    have hlevel : level 1 = level 2 := by decide
    intro b hb
    obtain ⟨l, hl, rfl⟩ := hb
    rw [Option.some.inj hlive, List.mem_singleton] at hl
    subst hl
    constructor
    · intro hw
      exact absurd (hw.eq_of_level (Nat.le_of_eq hlevel)) (by decide)
    · intro hw
      exact absurd (hw.eq_of_level (Nat.le_of_eq hlevel.symm)) (by decide)
  · have hok := Option.some.inj hzero
    cases hrun : (last_region.allocator.allocate_pages 16).run s.heap with
    | mk result heap =>
      rw [hrun] at hok
      cases result with
      | error e => cases hok
      | ok addr =>
        cases hok
        exact ⟨heap, rfl⟩

end Modern05
