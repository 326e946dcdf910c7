import Modern05.Mm.BuddyTree

/-! # What the operations of the buddy allocator do

    `Inv ba h avail free L` joins the free lists and the tree: the nodes on the lists
    are the valid nodes that `avail` marks. Between operations `avail` is the
    `available` flag of the heap.

    * `run_alloc_block_size`: the search ends below the first block that is large enough
      (`SmallestFit`), or leaves the heap untouched.
    * `run_try_merge_with_buddy`: merging climbs to a node whose sibling is not
      available.
    * `run_free_pages`: freeing a live block puts the merged node on its list.

    `Kept` collects what all of them leave alone: the fields of the other live blocks
    and the counters of allocated blocks.
-/

namespace Modern05

open HeapTree BuddyAllocator

/-! ## The invariant -/

/-- The lists hold exactly the valid nodes marked by `avail`, and the flags describe
    a division of the region with the live nodes `L`. -/
structure Inv (ba : BuddyAllocator) (h : BuddyHeap) (avail : Nat → Bool)
    (free : Nat → List Nat) (L : Set Nat) : Prop where
  lists : FreeLists ba h free
  tree : TreeInv ba h.valid avail L
  listed : ∀ b, b ∈ free (ba.height - level b) ↔ h.valid b = true ∧ avail b = true

/-- What an operation that works on other blocks leaves as it was: the blocks of
    `L`, the counters of allocated blocks, and the difference between the counter of
    available blocks and the length of each list. -/
structure Kept (h h' : BuddyHeap) (free free' : Nat → List Nat) (L : Set Nat) : Prop where
  log2size : h'.log2size = h.log2size
  allocated_blocks : h'.allocated_blocks = h.allocated_blocks
  drift : ∀ k, h'.available_blocks k - UInt64.ofNat (free' k).length =
    h.available_blocks k - UInt64.ofNat (free k).length
  same : ∀ l ∈ L, h'.valid l = h.valid l ∧ h'.available l = h.available l ∧
    h'.next l = h.next l ∧ h'.prev l = h.prev l

theorem Kept.refl (h : BuddyHeap) (free : Nat → List Nat) (L : Set Nat) :
    Kept h h free free L :=
  ⟨rfl, rfl, fun _ => rfl, fun _ _ => ⟨rfl, rfl, rfl, rfl⟩⟩

theorem Kept.trans {h h₁ h₂ : BuddyHeap} {f f₁ f₂ : Nat → List Nat} {L L' : Set Nat}
    (h1 : Kept h h₁ f f₁ L) (h2 : Kept h₁ h₂ f₁ f₂ L') (hL : L ⊆ L') :
    Kept h h₂ f f₂ L := by
  refine ⟨h2.log2size.trans h1.log2size, h2.allocated_blocks.trans h1.allocated_blocks,
    fun k => (h2.drift k).trans (h1.drift k), ?_⟩
  intro l hl
  obtain ⟨a1, a2, a3, a4⟩ := h1.same l hl
  obtain ⟨b1, b2, b3, b4⟩ := h2.same l (hL hl)
  exact ⟨b1.trans a1, b2.trans a2, b3.trans a3, b4.trans a4⟩

/-- `c` heads the bucket of size `j`, the smallest size from `k` on with a free block. -/
structure SmallestFit (ba : BuddyAllocator) (h : BuddyHeap) (k j c : Nat) : Prop where
  le : k ≤ j
  le_root : j ≤ ba.root_log2size
  head : h.first_block (bucket_index j) = some c
  smaller : ∀ i, k ≤ i → i < j → h.first_block (bucket_index i) = none

/-- The rest of `try_merge_with_buddy` once the sibling is off its list. -/
def merge_into_parent (ba : BuddyAllocator) (b : Nat) : BuddyProg Nat := do
  ba.store (.valid (HeapTree.sibling b)) false
  let parent_available ← ba.load (.available (HeapTree.parent b))
  .check (!parent_available)
    (.assertion "inconsistent data structure, parent should not be available")
  let parent_valid ← ba.load (.valid (HeapTree.parent b))
  .check parent_valid
    (.assertion "inconsistent data structure, parent should be valid")
  ba.store (.available (HeapTree.parent b)) true
  ba.store (.valid b) false
  ba.try_merge_with_buddy (HeapTree.parent b)

/-- The smallest bucket that is not empty, and its head, are determined. -/
theorem SmallestFit.unique {ba : BuddyAllocator} {h : BuddyHeap} {k j j' c c' : Nat}
    (h1 : SmallestFit ba h k j c) (h2 : SmallestFit ba h k j' c') : j' = j ∧ c' = c := by
  have hj : j' = j := by
    rcases Nat.lt_trichotomy j j' with hlt | e | hlt
    · have := h2.smaller j h1.le hlt
      rw [h1.head] at this
      cases this
    · exact e.symm
    · have := h1.smaller j' h2.le hlt
      rw [h2.head] at this
      cases this
  have hc := h2.head
  rw [hj, h1.head] at hc
  exact ⟨hj, (Option.some.inj hc).symm⟩

namespace Inv

variable {ba : BuddyAllocator} {h : BuddyHeap} {avail : Nat → Bool}
  {free : Nat → List Nat} {L : Set Nat} {b k p : Nat}

theorem mem_free (hinv : Inv ba h avail free L) (hb : b ∈ free k) :
    h.valid b = true ∧ avail b = true := by
  have hrow := (hinv.lists.row k b hb).2
  rw [← hrow] at hb
  exact (hinv.listed b).mp hb

/-- A live block is on no list. -/
theorem live_not_mem (hinv : Inv ba h avail free L) (hb : b ∈ L) : b ∉ free k := by
  intro hmem
  have h1 := (hinv.mem_free hmem).2
  rw [(hinv.tree.live b hb).2] at h1
  cases h1

/-! ## One list edit -/

/-- Taking a block off its list for good: its flag is cleared, it becomes live. -/
theorem run_take (hf : ba.Fits) (hinv : Inv ba h h.available free L) (hb : b ∈ free k) :
    ∃ h' free', (ba.remove_from_available_list b).run
        { h with available := Function.update h.available b false } = (.ok (), h') ∧
      Inv ba h' h'.available free' (insert b L) ∧ Kept h h' free free' L := by
  obtain ⟨hv, ha⟩ := hinv.mem_free hb
  have hlists : FreeLists ba { h with available := Function.update h.available b false } free :=
    ⟨hinv.lists.ring, hinv.lists.row⟩
  obtain ⟨h', hrun, hrel, hdrift, hfree⟩ := hlists.run_remove hf hb
  have hvalid : h'.valid = h.valid := hrel.valid
  have havail : h'.available = Function.update h.available b false := hrel.available
  refine ⟨h', _, hrun, ⟨hfree, ?_, ?_⟩, hrel.log2size, hrel.allocated_blocks, hdrift, ?_⟩
  · rw [hvalid, havail]
    exact hinv.tree.take hv ha
  · intro c
    rw [hvalid, havail, hinv.lists.mem_erase_iff hb, hinv.listed c]
    by_cases e : c = b
    · rw [e, Function.update_self]
      simp
    · rw [Function.update_of_ne e]
      simp [e]
  · intro l hl
    have hlb : l ≠ b := fun e => hinv.live_not_mem hl (e ▸ hb)
    have hout := hinv.live_not_mem (k := k) hl
    rw [hvalid, havail]
    exact ⟨rfl, Function.update_of_ne hlb _ _, hrel.next l hout, hrel.prev l hout⟩

/-- Putting a live node on its list: its flag is set, it is no longer live. -/
theorem run_put (hf : ba.Fits)
    (hinv : Inv ba h (Function.update h.available b false) free L) (hb : b ∈ L)
    (hs : b = 0 ∨ h.available (sibling b) = false) :
    ∃ h' free', (ba.add_to_available_list b).run
        { h with available := Function.update h.available b true } = (.ok (), h') ∧
      Inv ba h' h'.available free' (L \ {b}) ∧ Kept h h' free free' (L \ {b}) := by
  obtain ⟨hv, _⟩ := hinv.tree.live b hb
  have hlists : FreeLists ba { h with available := Function.update h.available b true } free :=
    ⟨hinv.lists.ring, hinv.lists.row⟩
  obtain ⟨h', hrun, hrel, hdrift, hfree⟩ :=
    hlists.run_add hf (hinv.tree.node b hv) rfl (hinv.live_not_mem hb)
  have hvalid : h'.valid = h.valid := hrel.valid
  have havail : h'.available = Function.update h.available b true := hrel.available
  have hupd : Function.update (Function.update h.available b false) b true =
      Function.update h.available b true := Function.update_idem ..
  refine ⟨h', _, hrun, ⟨hfree, ?_, ?_⟩, hrel.log2size, hrel.allocated_blocks, hdrift, ?_⟩
  · rw [hvalid, havail, ← hupd]
    apply hinv.tree.put hb
    rcases Nat.eq_zero_or_pos b with e | hpos
    · exact .inl e
    · right
      rw [Function.update_of_ne (sibling_ne hpos)]
      exact hs.resolve_left (by omega)
  · intro c
    rw [hvalid, havail, FreeLists.mem_concat_iff rfl, hinv.listed c]
    by_cases e : c = b
    · rw [e, Function.update_self]
      simp [hv]
    · rw [Function.update_of_ne e, Function.update_of_ne e]
      simp [e]
  · intro l hl
    have hout : l ∉ b :: free (ba.height - level b) := by
      rw [List.mem_cons, not_or]
      exact ⟨hl.2, hinv.live_not_mem hl.1⟩
    rw [hvalid, havail]
    exact ⟨rfl, Function.update_of_ne hl.2 _ _, hrel.next l hout, hrel.prev l hout⟩

/-- Splitting a live node: the right child goes on its list, the left child is live
    in place of the parent. -/
theorem run_divide (hf : ba.Fits) (hinv : Inv ba h h.available free L) (hp : p ∈ L)
    (hl : level p < ba.height) :
    ∃ h' free', (ba.add_to_available_list (right p)).run
        { h with
          available := Function.update (Function.update h.available (left p) false) (right p) true
          valid := Function.update (Function.update h.valid (left p) true) (right p) true } =
            (.ok (), h') ∧
      Inv ba h' h'.available free' (insert (left p) (L \ {p})) ∧
      Kept h h' free free' (L \ {p}) := by
  have hlv : h.valid (left p) = false := hinv.tree.left_invalid (.inr hp)
  have hrv : h.valid (right p) = false := (hinv.tree.pair p).trans hlv
  -- Both children were invalid, hence on no list.
  have hout : ∀ j c, h.valid c = false → c ∉ free j := by
    intro j c hc hmem
    rw [(hinv.mem_free hmem).1] at hc
    cases hc
  have hlists : FreeLists ba
      { h with
        available := Function.update (Function.update h.available (left p) false) (right p) true
        valid := Function.update (Function.update h.valid (left p) true) (right p) true } free :=
    ⟨hinv.lists.ring, hinv.lists.row⟩
  obtain ⟨h', hrun, hrel, hdrift, hfree⟩ :=
    hlists.run_add hf (isNode_right hl) rfl (hout _ _ hrv)
  have hvalid : h'.valid =
      Function.update (Function.update h.valid (left p) true) (right p) true := hrel.valid
  have havail : h'.available =
      Function.update (Function.update h.available (left p) false) (right p) true := hrel.available
  have hother : ∀ c, c ≠ left p → c ≠ right p →
      h'.valid c = h.valid c ∧ h'.available c = h.available c := by
    intro c e1 e2
    rw [hvalid, havail, Function.update_of_ne e2, Function.update_of_ne e1,
      Function.update_of_ne e2, Function.update_of_ne e1]
    exact ⟨rfl, rfl⟩
  refine ⟨h', _, hrun, ⟨hfree, ?_, ?_⟩, hrel.log2size, hrel.allocated_blocks, hdrift, ?_⟩
  · rw [hvalid, havail]
    exact hinv.tree.divide hp hl
  · intro c
    rw [FreeLists.mem_concat_iff rfl]
    by_cases er : c = right p
    · rw [er, hvalid, havail, Function.update_self, Function.update_self]
      simp
    · by_cases el : c = left p
      · rw [el, hvalid, havail, Function.update_of_ne (left_ne_right p),
          Function.update_of_ne (left_ne_right p), Function.update_self, Function.update_self]
        simp [hout _ _ hlv, left_ne_right p]
      · rw [(hother c el er).1, (hother c el er).2, hinv.listed c]
        simp [er]
  · intro l hmem
    have hlv' := (hinv.tree.live l hmem.1).1
    have e1 : l ≠ left p := by
      intro e
      rw [e, hlv] at hlv'
      cases hlv'
    have e2 : l ≠ right p := by
      intro e
      rw [e, hrv] at hlv'
      cases hlv'
    have hns : l ∉ right p :: free (ba.height - level (right p)) := by
      rw [List.mem_cons, not_or]
      exact ⟨e2, hinv.live_not_mem hmem.1⟩
    exact ⟨(hother l e1 e2).1, (hother l e1 e2).2, hrel.next l hns, hrel.prev l hns⟩

/-- Merging a node that is being freed with its available sibling: the sibling leaves
    its list, both become invalid, and the parent is being freed in their place. -/
theorem run_unite (hf : ba.Fits)
    (hinv : Inv ba h (Function.update h.available b false) free L) (hb : b ∈ L)
    (hpos : 0 < b) (hs : h.available (sibling b) = true) :
    ∃ h₁ free', (ba.remove_from_available_list (sibling b)).run h = (.ok (), h₁) ∧
      h₁.valid = h.valid ∧ h₁.available = h.available ∧
      h.valid (parent b) = true ∧ h.available (parent b) = false ∧ parent b ∉ L ∧
      Inv ba
        { h₁ with
          valid := Function.update (Function.update h.valid (sibling b) false) b false
          available := Function.update h.available (parent b) true }
        (Function.update (Function.update h.available (parent b) true) (parent b) false) free'
        (insert (parent b) (L \ {b})) ∧
      Kept h
        { h₁ with
          valid := Function.update (Function.update h.valid (sibling b) false) b false
          available := Function.update h.available (parent b) true } free free' (L \ {b}) := by
  have hne := sibling_ne hpos
  have hpb : parent b ≠ b := by
    have := parent_lt hpos
    omega
  obtain ⟨hv, _⟩ := hinv.tree.live b hb
  have hsv := hinv.tree.sibling_valid hv hpos
  have hs' : Function.update h.available b false (sibling b) = true := by
    rwa [Function.update_of_ne hne]
  have hmem : sibling b ∈ free (ba.height - level (sibling b)) :=
    (hinv.listed _).mpr ⟨hsv, hs'⟩
  obtain ⟨hpv, hpa, hpl⟩ := hinv.tree.parent_split hv hpos
  rw [Function.update_of_ne hpb] at hpa
  obtain ⟨h₁, hrun, hrel, hdrift, hfree⟩ := hinv.lists.run_remove hf hmem
  have hidem : Function.update (Function.update h.available (parent b) true) (parent b) false =
      Function.update h.available (parent b) false := Function.update_idem ..
  -- What is still valid is neither `b` nor its sibling, and its flag reads as before.
  have hflag : ∀ c, Function.update (Function.update h.valid (sibling b) false) b false c = true →
      c ≠ b ∧ c ≠ sibling b ∧ Function.update h.available (parent b) false c =
        Function.update h.available b false c := by
    intro c hc
    have e1 : c ≠ b := by
      intro e
      rw [e, Function.update_self] at hc
      cases hc
    have e2 : c ≠ sibling b := by
      intro e
      rw [e, Function.update_of_ne hne, Function.update_self] at hc
      cases hc
    refine ⟨e1, e2, ?_⟩
    rw [Function.update_of_ne e1]
    by_cases e : c = parent b
    · rw [e, Function.update_self, hpa]
    · rw [Function.update_of_ne e]
  refine ⟨h₁, _, hrun, hrel.valid, hrel.available, hpv, hpa, hpl,
    ⟨⟨hfree.ring, hfree.row⟩, ?_, ?_⟩, hrel.log2size, hrel.allocated_blocks, hdrift, ?_⟩
  · rw [hidem]
    exact (hinv.tree.unite hb hpos hs').congr_avail (fun c hc => (hflag c hc).2.2)
  · intro c
    rw [hidem, hinv.lists.mem_erase_iff hmem, hinv.listed c]
    show _ ↔ Function.update (Function.update h.valid (sibling b) false) b false c = true ∧ _
    by_cases e1 : c = b
    · rw [e1, Function.update_self, Function.update_self]
      simp
    · by_cases e2 : c = sibling b
      · have hgone : Function.update (Function.update h.valid (sibling b) false) b false
            (sibling b) = false := by
          rw [Function.update_of_ne hne, Function.update_self]
        rw [e2, hgone]
        simp
      · have hstill : Function.update (Function.update h.valid (sibling b) false) b false c =
            h.valid c := by
          rw [Function.update_of_ne e1, Function.update_of_ne e2]
        rw [hstill]
        by_cases hc : h.valid c = true
        · rw [(hflag c (hstill.trans hc)).2.2]
          simp [e2]
        · simp [hc]
  · intro l hl
    have hlive := hinv.tree.live l hl.1
    have e2 : l ≠ sibling b := by
      intro e
      rw [e, hs'] at hlive
      cases hlive.2
    have e3 : l ≠ parent b := fun e => hpl (e ▸ hl.1)
    have hns := hinv.live_not_mem (k := ba.height - level (sibling b)) hl.1
    refine ⟨?_, Function.update_of_ne e3 _ _, hrel.next l hns, hrel.prev l hns⟩
    show Function.update (Function.update h.valid (sibling b) false) b false l = _
    rw [Function.update_of_ne hl.2, Function.update_of_ne e2]

/-! ## Allocation -/

/-- The head of a bucket is free, in the row of that size. -/
theorem head_free (hf : ba.Fits) (hinv : Inv ba h avail free L) {j c : Nat}
    (hmin : Log2MinSize ≤ j) (hj : j ≤ ba.root_log2size)
    (hc : h.first_block (bucket_index j) = some c) :
    c ∈ free (j - Log2MinSize) ∧ level c + j = ba.root_log2size := by
  have hmem := (hinv.lists.ring (bucket_index j)).mem_of_first hc
  rw [hf.bucket_index_eq hmin hj] at hmem
  obtain ⟨hnode, hrow⟩ := hinv.lists.row _ _ hmem
  have := hf.root_eq
  unfold IsNode at hnode
  exact ⟨hmem, by omega⟩

/-- **The search for a block** either finds all buckets from `k` on empty and leaves
    the heap as it is, or takes the head `c` of the first that is not, and returns the
    leftmost node of the row of `k` below `c`. The induction is on the number of sizes
    from `k` up to the root. -/
theorem run_alloc_block_size (hf : ba.Fits) (hinv : Inv ba h h.available free L)
    (hk : Log2MinSize ≤ k) :
    ((ba.alloc_block_size k).run h = (.ok none, h) ∧
        ∀ j, k ≤ j → j ≤ ba.root_log2size → h.first_block (bucket_index j) = none) ∨
      ∃ j c b h' free', SmallestFit ba h k j c ∧ b + 1 = 2 ^ (j - k) * (c + 1) ∧
        (ba.alloc_block_size k).run h = (.ok (some b), h') ∧
        b ∉ L ∧ level b + k = ba.root_log2size ∧
        Inv ba h' h'.available free' (insert b L) ∧ Kept h h' free free' L := by
  induction hd : ba.root_log2size + 1 - k generalizing k with
  | zero =>
    left
    constructor
    · rw [alloc_block_size, if_pos (by omega)]
      rfl
    · intro j h1 h2
      omega
  | succ d ih =>
    have hle : k ≤ ba.root_log2size := by omega
    have hidx : bucket_index k < bucket_count := by
      have := hf.height_lt
      have := hf.root_eq
      rw [hf.bucket_index_eq hk hle]
      omega
    cases hfirst : h.first_block (bucket_index k) with
    | some c =>
      right
      obtain ⟨hmem, hlevel⟩ := hinv.head_free hf hk hle hfirst
      obtain ⟨h', free', hrun, hinv', hkept⟩ := hinv.run_take hf hmem
      have hlt := hf.isNode_lt (hinv.lists.row _ _ hmem).1
      refine ⟨k, c, c, h', free', ⟨Nat.le_refl k, hle, hfirst, by omega⟩, by simp, ?_,
        fun hc => hinv.live_not_mem hc hmem, hlevel, hinv', hkept⟩
      rw [alloc_block_size, if_neg (by omega), run_load_first_block hidx, hfirst]
      simp only [run_store_available hlt]
      rw [Prog.run_bind_ok hrun]
      rfl
    | none =>
      rcases ih (k := k + 1) (by omega) (by omega) with ⟨hrun, hnone⟩ | hsome
      · left
        constructor
        · rw [alloc_block_size, if_neg (by omega), run_load_first_block hidx, hfirst]
          simp only []
          rw [Prog.run_bind_ok hrun]
          rfl
        · intro j h1 h2
          rcases Nat.eq_or_lt_of_le h1 with rfl | h1
          · exact hfirst
          · exact hnone j h1 h2
      · right
        obtain ⟨j, c, p, h₁, free₁, hfit, hp, hrun, hpL, hlp, hinv₁, hkept₁⟩ := hsome
        have hlevel : level p < ba.height := by
          have := hf.root_eq
          omega
        have hL : insert p L \ {p} = L := Set.insert_sdiff_self_of_notMem hpL
        obtain ⟨h', free', hrun', hinv', hkept'⟩ :=
          hinv₁.run_divide hf (Set.mem_insert p L) hlevel
        rw [hL] at hinv' hkept'
        have hltl := hf.isNode_lt (isNode_left hlevel)
        have hltr := hf.isNode_lt (isNode_right hlevel)
        have hfit' : SmallestFit ba h k j c := by
          refine ⟨?_, hfit.le_root, hfit.head, ?_⟩
          · have := hfit.le
            omega
          · intro i h1 h2
            rcases Nat.eq_or_lt_of_le h1 with rfl | h1
            · exact hfirst
            · exact hfit.smaller i h1 h2
        have hnum : left p + 1 = 2 ^ (j - k) * (c + 1) := by
          have hj := hfit.le
          have hstep : j - k = j - (k + 1) + 1 := by omega
          rw [hstep, Nat.pow_succ', Nat.mul_assoc, ← hp]
          unfold left
          omega
        have hnew : left p ∉ L := by
          intro hmem
          have h1 := (hinv₁.tree.live _ (Set.mem_insert_of_mem p hmem)).1
          rw [hinv₁.tree.left_invalid (.inr (Set.mem_insert p L))] at h1
          cases h1
        refine ⟨j, c, left p, h', free', hfit', hnum, ?_, hnew, ?_, hinv',
          hkept₁.trans hkept' (Set.Subset.refl L)⟩
        · rw [alloc_block_size, if_neg (by omega), run_load_first_block hidx, hfirst]
          simp only []
          rw [Prog.run_bind_ok hrun]
          simp only [hf.get_left_eq hlevel, hf.get_right_eq hlevel, deref, Prog.run_pure_bind,
            run_store_available hltl, run_store_valid hltl, run_store_available hltr,
            run_store_valid hltr]
          rw [Prog.run_bind_ok hrun']
          rfl
        · rw [level_left]
          omega

/-- The end of `allocate_block`: count the block that was taken. -/
def count_allocated (ba : BuddyAllocator) (k : Nat) : Option Nat → BuddyProg (Option Nat)
  | none => pure none
  | some block => do
    let count ← ba.load (.allocated_blocks (bucket_index k))
    ba.store (.allocated_blocks (bucket_index k)) (count + 1)
    pure (some block)

theorem allocate_block_eq (hk : Log2MinSize ≤ k) :
    ba.allocate_block k = ba.alloc_block_size k >>= count_allocated ba k := by
  have hmin : ¬ k < Log2MinSize := by omega
  unfold allocate_block
  split
  · contradiction
  · rfl

/-- **Allocation** counts the block it took in the bucket of the requested size. -/
theorem run_allocate_block (hf : ba.Fits) (hinv : Inv ba h h.available free L)
    (hk : Log2MinSize ≤ k) :
    ((ba.allocate_block k).run h = (.ok none, h) ∧
        ∀ j, k ≤ j → j ≤ ba.root_log2size → h.first_block (bucket_index j) = none) ∨
      ∃ j c b h₁ free', SmallestFit ba h k j c ∧ b + 1 = 2 ^ (j - k) * (c + 1) ∧
        (ba.allocate_block k).run h = (.ok (some b), { h₁ with
          allocated_blocks := Function.update h.allocated_blocks (k - Log2MinSize)
            (h.allocated_blocks (k - Log2MinSize) + 1) }) ∧
        b ∉ L ∧ level b + k = ba.root_log2size ∧
        Inv ba h₁ h₁.available free' (insert b L) ∧ Kept h h₁ free free' L := by
  rcases hinv.run_alloc_block_size hf hk with ⟨hrun, hnone⟩ | hsome
  · left
    refine ⟨?_, hnone⟩
    rw [allocate_block_eq hk, Prog.run_bind_ok hrun]
    rfl
  · right
    obtain ⟨j, c, b, h₁, free', hfit, hb, hrun, hbL, hlevel, hinv', hkept⟩ := hsome
    refine ⟨j, c, b, h₁, free', hfit, hb, ?_, hbL, hlevel, hinv', hkept⟩
    have hle : k ≤ ba.root_log2size := by omega
    have hidx : k - Log2MinSize < bucket_count := by
      have := hf.height_lt
      have := hf.root_eq
      omega
    rw [allocate_block_eq hk, Prog.run_bind_ok hrun, count_allocated, hf.bucket_index_eq hk hle]
    simp only [run_load_allocated_blocks hidx, run_store_allocated_blocks hidx, Prog.run_pure,
      hkept.allocated_blocks]

/-! ## Release -/

theorem try_merge_zero : ba.try_merge_with_buddy 0 = pure 0 := by
  unfold try_merge_with_buddy
  rfl

/-- `try_merge_with_buddy` below the root, with its moves in the tree. -/
theorem try_merge_of_pos (hpos : 0 < b) :
    ba.try_merge_with_buddy b = (do
      let buddy_available ← ba.load (.available (sibling b))
      if !buddy_available then
        pure b
      else
        ba.remove_from_available_list (sibling b)
        merge_into_parent ba b) := by
  rw [try_merge_with_buddy]
  split
  · rename_i hp
    rw [get_parent_eq hpos] at hp
    cases hp
  · rename_i q hp
    rw [get_parent_eq hpos] at hp
    cases hp
    rw [get_buddy_eq hpos]
    rfl

/-- **Merging** climbs from a node that is being freed to an ancestor whose sibling is
    not available, which is then the node being freed. The induction is on the number
    of the node. -/
theorem run_try_merge_with_buddy (hf : ba.Fits)
    (hinv : Inv ba h (Function.update h.available b false) free L) (hb : b ∈ L) :
    ∃ m h' free', (ba.try_merge_with_buddy b).run h = (.ok m, h') ∧
      (m = 0 ∨ h'.available (sibling m) = false) ∧ m ∉ L \ {b} ∧
      Inv ba h' (Function.update h'.available m false) free' (insert m (L \ {b})) ∧
      Kept h h' free free' (L \ {b}) := by
  induction b using Nat.strong_induction_on generalizing h free L with
  | _ b ih =>
    have hkeep : insert b (L \ {b}) = L := by
      rw [Set.insert_sdiff_singleton, Set.insert_eq_of_mem hb]
    have hstop : Inv ba h (Function.update h.available b false) free (insert b (L \ {b})) := by
      rwa [hkeep]
    rcases Nat.eq_zero_or_pos b with hzero | hpos
    · refine ⟨b, h, free, ?_, .inl hzero, by simp, hstop, Kept.refl h free _⟩
      rw [hzero, try_merge_zero]
      rfl
    · have hnode := hinv.tree.node b (hinv.tree.live b hb).1
      have hlts := hf.isNode_lt (hnode.sibling hpos)
      cases hs : h.available (sibling b) with
      | false =>
        refine ⟨b, h, free, ?_, .inr hs, by simp, hstop, Kept.refl h free _⟩
        rw [try_merge_of_pos hpos, run_load_available hlts, hs]
        rfl
      | true =>
        obtain ⟨h₁, free₁, hrun, hval, hav, hpv, hpa, hpl, hinv₁, hkept₁⟩ :=
          hinv.run_unite hf hb hpos hs
        have hpl' : parent b ∉ L \ {b} := fun hm => hpl hm.1
        have hL : insert (parent b) (L \ {b}) \ {parent b} = L \ {b} :=
          Set.insert_sdiff_self_of_notMem hpl'
        obtain ⟨m, h', free', hrun', hm, hmL, hinv', hkept'⟩ :=
          ih (parent b) (parent_lt hpos) hinv₁ (Set.mem_insert _ _)
        rw [hL] at hmL hinv' hkept'
        refine ⟨m, h', free', ?_, hm, hmL, hinv', hkept₁.trans hkept' (Set.Subset.refl _)⟩
        have hltb := hf.isNode_lt hnode
        have hltp : parent b < ba.max_blocks := Nat.lt_trans (parent_lt hpos) hltb
        have hps : parent b ≠ sibling b := by
          intro e
          rw [← e, hpa] at hs
          cases hs
        rw [try_merge_of_pos hpos, run_load_available hlts, hs]
        simp only [Bool.not_true, Bool.false_eq_true, if_false]
        rw [Prog.run_bind_ok hrun]
        unfold merge_into_parent
        simp only [run_store_valid hlts, run_load_available hltp, hav, hpa, Bool.not_false,
          Prog.run_check_bind_true, run_load_valid hltp, hval, Function.update_of_ne hps, hpv,
          run_store_available hltp, run_store_valid hltb]
        exact hrun'

/-- **Release** of a live block by its address: the merged node is put on its list,
    and the block is uncounted in the bucket of its own size. -/
theorem run_free_pages (hf : ba.Fits) (hinv : Inv ba h h.available free L) (hb : b ∈ L) :
    ∃ h₁ free', (ba.free_pages (ba.get_block_phy_addr b)).run h = (.ok (), { h₁ with
        allocated_blocks := Function.update h.allocated_blocks (ba.height - level b)
          (h.allocated_blocks (ba.height - level b) - 1) }) ∧
      Inv ba h₁ h₁.available free' (L \ {b}) ∧ Kept h h₁ free free' (L \ {b}) := by
  obtain ⟨hv, ha⟩ := hinv.tree.live b hb
  have hnode := hinv.tree.node b hv
  have hinv' : Inv ba h (Function.update h.available b false) free L := by
    rwa [Function.update_eq_self_iff.mpr ha.symm]
  obtain ⟨m, h₁, free₁, hrun₁, hm, hmL, hinv₁, hkept₁⟩ := hinv'.run_try_merge_with_buddy hf hb
  obtain ⟨h₂, free₂, hrun₂, hinv₂, hkept₂⟩ := hinv₁.run_put hf (Set.mem_insert m _) hm
  have hL : insert m (L \ {b}) \ {m} = L \ {b} := Set.insert_sdiff_self_of_notMem hmL
  rw [hL] at hinv₂ hkept₂
  have hkept := hkept₁.trans hkept₂ (Set.Subset.refl _)
  refine ⟨h₂, free₂, ?_, hinv₂, hkept⟩
  have hltb := hf.isNode_lt hnode
  have hltm := hf.isNode_lt (hinv₁.tree.node m (hinv₁.tree.live m (Set.mem_insert m _)).1)
  have hidx : ba.height - level b < bucket_count := by
    have := hf.height_lt
    omega
  obtain ⟨halign, hat⟩ := hf.block_at_phy_addr hnode
  unfold free_pages
  rw [halign, hat]
  simp only [beq_self_eq_true, Prog.run_check_bind_true, run_load_available hltb, ha,
    Bool.not_false]
  rw [Prog.run_bind_ok hrun₁]
  simp only [run_store_available hltm]
  rw [Prog.run_bind_ok hrun₂]
  simp only [hf.bucket_index_block hnode, run_load_allocated_blocks hidx,
    run_store_allocated_blocks_end hidx, hkept.allocated_blocks]

/-! ## The constructor -/

/-- After construction the root is free and nothing is live. -/
theorem init (ba : BuddyAllocator) :
    Inv ba ba.init ba.init.available (fun k => if k = ba.height then [0] else []) ∅ := by
  have hvalid : ∀ b, ba.init.valid b = true ↔ b = 0 := fun b => decide_eq_true_iff
  have hchild : ∀ b, ba.init.valid (left b) = false := fun b =>
    decide_eq_false (Nat.ne_of_gt (left_pos b))
  have hchild' : ∀ b, ba.init.valid (right b) = false := fun b =>
    decide_eq_false (Nat.ne_of_gt (right_pos b))
  have havail : ∀ b, ba.init.available b = true := fun _ => rfl
  refine ⟨⟨?_, ?_⟩, ⟨rfl, ?_, by simp, ?_, ?_, ?_, ?_⟩, ?_⟩
  · intro k
    by_cases e : k = ba.height
    · have hfirst : ba.init.first_block k = some 0 := if_pos e
      rw [if_pos e, hfirst]
      exact ⟨rfl, by simp, rfl, rfl, trivial⟩
    · have hfirst : ba.init.first_block k = none := if_neg e
      rw [if_neg e, hfirst]
      exact ⟨rfl, by simp, trivial⟩
  · intro k b hb
    by_cases e : k = ba.height
    · rw [if_pos e, List.mem_singleton] at hb
      rw [hb, e, level_zero]
      exact ⟨isNode_root, rfl⟩
    · rw [if_neg e] at hb
      cases hb
  · intro b hb
    rw [(hvalid b).mp hb]
    exact isNode_root
  · intro b
    rw [hchild, hchild']
  · intro b _
    rw [hchild, havail]
    simp
  · intro b _ _ hb
    rw [havail] at hb
    cases hb
  · intro b hb
    rw [hchild] at hb
    cases hb
  · intro b
    rw [hvalid, havail]
    by_cases e : b = 0
    · simp [e]
    · by_cases hrow : ba.height - level b = ba.height
      · rw [if_pos hrow]
        simp [e]
      · rw [if_neg hrow]
        simp [e]

end Inv

end Modern05
