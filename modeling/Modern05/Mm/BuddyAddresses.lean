import Mathlib.Order.CompletePartialOrder
import Mathlib.Order.Interval.Set.Disjoint
import Modern05.Mm.BuddyRegion

/-! # The addresses the buddy allocator hands out

    `get_block_phy_addr` places block `b` of the tree `b` smallest blocks above the start
    of the region, whatever the size of the block. The blocks of the last row are in
    place relative to each other under this map, and all others are not: two siblings of
    size `2 ^ k` are one smallest block apart, and the last row starts almost at the end
    of the region.

    * `unshared_iff_spaced`: the byte ranges of live blocks stay disjoint exactly in the
      runs in which every block taken is far enough, by its number, from the live ones.
    * `allocated_inside_iff`: the block handed out lies inside the region except when it
      is of the smallest size and not the leftmost of its row.
-/

namespace Modern05

open HeapTree BuddyAllocator LTS

variable {ba : BuddyAllocator} {s s' : BuddyState} {free : Nat → List Nat}

/-! ## Byte ranges -/

/-- The physical bytes of a live block, as its owner sees them. -/
def Live.bytes (ba : BuddyAllocator) (l : Live) : Set Nat :=
  Set.Ico (l.addr ba).toNat ((l.addr ba).toNat + 2 ^ l.log2size)

theorem disjoint_Ico_add {a b n m : Nat} (hn : 0 < n) (hm : 0 < m) :
    Disjoint (Set.Ico a (a + n)) (Set.Ico b (b + m)) ↔ a + n ≤ b ∨ b + m ≤ a := by
  rw [Set.Ico_disjoint_Ico]
  omega

/-- No byte belongs to two live blocks. -/
def BuddyState.Unshared (ba : BuddyAllocator) (s : BuddyState) : Prop :=
  s.live.Pairwise (fun l l' => Disjoint (l.bytes ba) (l'.bytes ba))

/-- The numbers of two blocks are at least the size of the lower one apart, counted in
    smallest blocks. -/
def Spaced (l l' : Live) : Prop :=
  l.block + 2 ^ (l.log2size - Log2MinSize) ≤ l'.block ∨
    l'.block + 2 ^ (l'.log2size - Log2MinSize) ≤ l.block

instance (l l' : Live) : Decidable (Spaced l l') := inferInstanceAs (Decidable (_ ∨ _))

/-- An allocation may take the leftmost node of its size below the head of the smallest
    bucket that is not empty, if that node is spaced from all live blocks. -/
def Call.spaced (ba : BuddyAllocator) (s : BuddyState) : Call → Prop
  | .allocate_pages k => ∀ j c, SmallestFit ba s.heap k j c →
      ∀ l ∈ s.live, Spaced ⟨2 ^ (j - k) * (c + 1) - 1, k⟩ l
  | .free_pages _ => True

/-- The tree and the ranges of its blocks span at most three times the region. -/
theorem block_add_size_le (hf : ba.Fits) {b k : Nat} (hb : ba.HasSize b k)
    (hk : Log2MinSize ≤ k) :
    b + 2 ^ (k - Log2MinSize) ≤ 3 * 2 ^ ba.height ∧
      2 ^ k = 2 ^ (k - Log2MinSize) * 65536 := by
  obtain ⟨_, hsize⟩ := hb
  have hroot := hf.root_eq
  have hlt := (level_spec b).2
  have hpow : 2 ^ ba.height = 2 ^ level b * 2 ^ (k - Log2MinSize) := by
    rw [← Nat.pow_add]
    congr 1
    omega
  constructor
  · have hx := Nat.two_pow_pos (level b)
    have hy := Nat.two_pow_pos (k - Log2MinSize)
    have h1 := Nat.le_mul_of_pos_right (2 ^ level b) hy
    have h2 := Nat.le_mul_of_pos_left (2 ^ (k - Log2MinSize)) hx
    rw [Nat.pow_succ] at hlt
    rw [hpow]
    omega
  · rw [show (65536 : Nat) = 2 ^ Log2MinSize from rfl, ← Nat.pow_add, Nat.sub_add_cancel hk]

theorem Sound.hasSize (hs : Sound ba s free) {l : Live} (hl : l ∈ s.live) :
    ba.HasSize l.block l.log2size :=
  ⟨hs.isNode hl, hs.size l hl⟩

theorem BuddyAllocator.HasSize.min_le (hf : ba.Fits) {b k : Nat} (hb : ba.HasSize b k) :
    Log2MinSize ≤ k := by
  obtain ⟨hnode, hsize⟩ := hb
  have hroot := hf.root_eq
  unfold IsNode at hnode
  omega

/-- Spaced blocks have disjoint ranges, wherever the region lies: the tree spans far
    less than the address space, so a range that wraps stays clear of the others. -/
theorem disjoint_of_spaced (hf : ba.Fits) {l l' : Live} (hl : ba.HasSize l.block l.log2size)
    (hl' : ba.HasSize l'.block l'.log2size) (h : Spaced l l') :
    Disjoint (l.bytes ba) (l'.bytes ba) := by
  obtain ⟨h1, e1⟩ := block_add_size_le hf hl (hl.min_le hf)
  obtain ⟨h2, e2⟩ := block_add_size_le hf hl' (hl'.min_le hf)
  have hheight : 2 ^ ba.height ≤ 65536 :=
    Nat.pow_le_pow_right (by omega) (Nat.lt_succ_iff.mp hf.height_lt)
  have a1 := hf.phy_addr_cases hl.1
  have a2 := hf.phy_addr_cases hl'.1
  unfold Live.bytes Live.addr
  rw [disjoint_Ico_add (Nat.two_pow_pos _) (Nat.two_pow_pos _), e1, e2]
  unfold Spaced at h
  generalize 2 ^ (l.log2size - Log2MinSize) = n at h h1 ⊢
  generalize 2 ^ (l'.log2size - Log2MinSize) = m at h h2 ⊢
  -- A block that wrapped lies below all that did not.
  rcases a1 with a1 | a1 <;> rcases a2 with a2 | a2 <;> omega

/-- Conversely, when no address wraps. -/
theorem spaced_of_disjoint (hf : ba.Fits)
    (hend : ba.phy_start.toNat + 2 ^ (ba.root_log2size + 1) ≤ 2 ^ 64) {l l' : Live}
    (hl : ba.HasSize l.block l.log2size) (hl' : ba.HasSize l'.block l'.log2size)
    (h : Disjoint (l.bytes ba) (l'.bytes ba)) : Spaced l l' := by
  have e1 := (block_add_size_le hf hl (hl.min_le hf)).2
  have e2 := (block_add_size_le hf hl' (hl'.min_le hf)).2
  unfold Live.bytes Live.addr at h
  rw [disjoint_Ico_add (Nat.two_pow_pos _) (Nat.two_pow_pos _),
    toNat_phy_addr_of_le hf hl.1 hend, toNat_phy_addr_of_le hf hl'.1 hend, e1, e2] at h
  unfold Spaced
  omega

/-! ## Sharing -/

/-- **No byte is shared exactly in the runs whose allocations are spaced.** In a run all
    of whose calls meet `Call.spaced`, the ranges of the live blocks are disjoint in
    every state; and a step that leads to a state with disjoint ranges met it. -/
theorem unshared_iff_spaced (R : Region) :
    (∀ s, Reachable ((buddy_system R.allocator).restrict
        (fun s c => c.spaced R.allocator s)) s → s.Unshared R.allocator) ∧
      (R.phy_start.toNat + 2 ^ (R.root_log2size + 1) ≤ 2 ^ 64 →
        ∀ s c s', Reachable (buddy_system R.allocator) s →
          (buddy_system R.allocator).step s c s' → s'.Unshared R.allocator →
            c.spaced R.allocator s) := by
  constructor
  · apply invariant_of_step
    · intro s h
      rw [h]
      exact .nil
    · intro s c s' hreach hs hstep
      obtain ⟨hspaced, hvalid, hexec⟩ := hstep
      obtain ⟨free, hinv⟩ := stateInv_of_reachable R.fits s hreach.of_restrict
      rcases exec_cases R.fits hinv.toSound hvalid with
        ⟨_, _, h, _⟩ | ⟨t, free', h, ht, _, hdone⟩
      · rw [h] at hexec
        cases hexec
        exact hs
      · rw [h] at hexec
        cases hexec
        rcases hdone with ⟨k, j, d, b, rfl, ha⟩ | ⟨l, _, rfl, hr⟩
        · -- The new block is spaced from each live one, the others are as before.
          have hnum : 2 ^ (j - k) * (d + 1) - 1 = b := by
            have := ha.number
            omega
          unfold BuddyState.Unshared
          rw [ha.live, List.pairwise_cons]
          refine ⟨?_, hs⟩
          intro l hl
          have hsp := hspaced j d ha.fit l hl
          rw [hnum] at hsp
          have hnew : (⟨b, k⟩ : Live) ∈ s'.live := by
            rw [ha.live]
            exact List.mem_cons_self
          exact disjoint_of_spaced R.fits (ht.hasSize hnew) (hinv.hasSize hl) hsp
        · unfold BuddyState.Unshared
          rw [hr.live]
          exact hs.filter _
  · intro hend s c s' hreach hstep hs'
    obtain ⟨hvalid, hexec⟩ := hstep
    obtain ⟨free, hinv⟩ := stateInv_of_reachable R.fits s hreach
    cases c with
    | free_pages addr => trivial
    | allocate_pages k =>
      intro j c hfit l hl
      rcases allocate_outcome R.fits hinv.toSound hvalid with
        ⟨_, hnone⟩ | ⟨j', c', b, t, free', ha, ht, _⟩
      · have := hnone j hfit.le hfit.le_root
        rw [hfit.head] at this
        cases this
      · obtain ⟨rfl, rfl⟩ := hfit.unique ha.fit
        have hnum : 2 ^ (j' - k) * (c' + 1) - 1 = b := by
          have := ha.number
          omega
        rw [ha.exec_eq] at hexec
        cases hexec
        unfold BuddyState.Unshared at hs'
        rw [ha.live, List.pairwise_cons] at hs'
        have hnew : (⟨b, k⟩ : Live) ∈ s'.live := by
          rw [ha.live]
          exact List.mem_cons_self
        rw [hnum]
        exact spaced_of_disjoint R.fits hend (ht.hasSize hnew) (hinv.hasSize hl) (hs'.1 l hl)

/-- Four smallest blocks at 64 MiB. -/
def region_256K : Region := ⟨0x4000000, 18, by decide, by decide⟩

/-- Two halves of a region of four smallest blocks are handed out one smallest block
    apart: they share bytes. -/
theorem halves_overlap :
    ∃ s, Reachable (buddy_system region_256K.allocator) s ∧
      ¬ s.Unshared region_256K.allocator := by
  obtain ⟨s, h, hlive⟩ : ∃ s, after region_256K.allocator
      [.allocate_pages 17, .allocate_pages 17] = some s ∧ s.live = [⟨2, 17⟩, ⟨1, 17⟩] := by
    have hrun : (after region_256K.allocator [.allocate_pages 17, .allocate_pages 17]).map
        (·.live) = some [⟨2, 17⟩, ⟨1, 17⟩] := by decide +kernel
    obtain ⟨s, h, hlive⟩ := Option.map_eq_some_iff.mp hrun
    exact ⟨s, h, hlive⟩
  refine ⟨s, reachable_after h, ?_⟩
  intro hs
  unfold BuddyState.Unshared at hs
  rw [hlive, List.pairwise_cons] at hs
  have hdisj := hs.1 ⟨1, 17⟩ (by simp)
  unfold Live.bytes at hdisj
  rw [Set.Ico_disjoint_Ico] at hdisj
  revert hdisj
  decide

/-- Two smallest blocks are spaced: a run that takes both shares nothing. -/
theorem smallest_blocks_unshared :
    ∃ s, Reachable ((buddy_system region_128K.allocator).restrict
        (fun s c => c.spaced region_128K.allocator s)) s ∧
      s.live = [⟨2, 16⟩, ⟨1, 16⟩] ∧ s.Unshared region_128K.allocator := by
  have hrun₁ : (exec region_128K.allocator (.start region_128K.allocator)
      (.allocate_pages 16)).map (fun s => (s.live, s.heap.first_block 0)) =
        some ([⟨1, 16⟩], some 2) := by decide +kernel
  obtain ⟨s₁, h₁, e₁⟩ := Option.map_eq_some_iff.mp hrun₁
  simp only [Prod.mk.injEq] at e₁
  have hrun₂ : ((exec region_128K.allocator (.start region_128K.allocator)
      (.allocate_pages 16)).bind (exec region_128K.allocator · (.allocate_pages 16))).map
        (·.live) = some [⟨2, 16⟩, ⟨1, 16⟩] := by decide +kernel
  rw [h₁, Option.bind_some] at hrun₂
  obtain ⟨s₂, h₂, e₂⟩ := Option.map_eq_some_iff.mp hrun₂
  -- The first call finds nothing live.
  have hs₁ : Reachable ((buddy_system region_128K.allocator).restrict
      (fun s c => c.spaced region_128K.allocator s)) s₁ := by
    refine .step (.init rfl) ⟨?_, valid_of_exec h₁, h₁⟩
    intro j c _ l hl
    cases hl
  -- The second takes block 2, next to the live block 1.
  have hfit : SmallestFit region_128K.allocator s₁.heap 16 16 2 :=
    ⟨Nat.le_refl 16, by decide, e₁.2, fun i h1 h2 => absurd h1 (by omega)⟩
  have hs₂ : Reachable ((buddy_system region_128K.allocator).restrict
      (fun s c => c.spaced region_128K.allocator s)) s₂ := by
    refine .step hs₁ ⟨?_, valid_of_exec h₂, h₂⟩
    intro j c hc l hl
    obtain ⟨rfl, rfl⟩ := hfit.unique hc
    rw [e₁.1, List.mem_singleton] at hl
    rw [hl]
    right
    decide
  exact ⟨s₂, hs₂, e₂, (unshared_iff_spaced region_128K).1 s₂ hs₂⟩

/-! ## Staying inside -/

/-- A block of more than the smallest size, placed by its number, ends inside the
    region; one of the smallest size does only if it is the first of the last row. -/
theorem inside_iff_number (hf : ba.Fits) {b k : Nat} (hb : ba.HasSize b k)
    (hk : Log2MinSize ≤ k) :
    b + 2 ^ (k - Log2MinSize) ≤ 2 ^ ba.height ↔ (k = Log2MinSize → b + 1 = 2 ^ ba.height) := by
  obtain ⟨_, hsize⟩ := hb
  have hroot := hf.root_eq
  obtain ⟨hlo, hhi⟩ := level_spec b
  rw [Nat.pow_succ] at hhi
  have hpow : 2 ^ ba.height = 2 ^ level b * 2 ^ (k - Log2MinSize) := by
    rw [← Nat.pow_add]
    congr 1
    omega
  rcases Nat.eq_or_lt_of_le hk with e | hlt
  · -- The last row starts at the number `2 ^ height - 1`.
    rw [← e, Nat.sub_self, Nat.pow_zero, Nat.mul_one] at hpow
    rw [← e, Nat.sub_self, Nat.pow_zero, hpow]
    constructor
    · intro h _
      omega
    · intro h
      have := h rfl
      omega
  · -- Above it, the row has `x` nodes of `y ≥ 2` smallest blocks each.
    have hne : k ≠ Log2MinSize := by omega
    have hy : 2 ≤ 2 ^ (k - Log2MinSize) := by
      have hstep : k - Log2MinSize = k - Log2MinSize - 1 + 1 := by omega
      rw [hstep, Nat.pow_succ]
      have := Nat.two_pow_pos (k - Log2MinSize - 1)
      omega
    have hx := Nat.two_pow_pos (level b)
    rw [hpow]
    generalize 2 ^ level b = x at hlo hhi hx
    generalize 2 ^ (k - Log2MinSize) = y at hy
    constructor
    · intro _ e
      exact absurd e hne
    · intro _
      obtain ⟨u, rfl⟩ : ∃ u, x = u + 1 := ⟨x - 1, by omega⟩
      obtain ⟨v, rfl⟩ : ∃ v, y = v + 2 := ⟨y - 2, by omega⟩
      calc b + (v + 2) ≤ 2 * u + (v + 2) := by omega
        _ ≤ u * v + (2 * u + (v + 2)) := Nat.le_add_left _ _
        _ = (u + 1) * (v + 2) := by ring

/-- **Where the block handed out lies**: inside the region if it is larger than the
    smallest size, and else only if it is cut from the leftmost node of its row. -/
theorem allocated_inside_iff (R : Region)
    (hend : R.phy_start.toNat + 2 ^ R.root_log2size ≤ 2 ^ 64) (s : BuddyState)
    (hs : Reachable (buddy_system R.allocator) s) (k : Nat) (hk : Log2MinSize ≤ k)
    (addr : UInt64) (heap : BuddyHeap)
    (hrun : (R.allocator.allocate_pages k).run s.heap = (.ok addr, heap)) (hne : addr ≠ 0) :
    (R.phy_start.toNat ≤ addr.toNat ∧
        addr.toNat + 2 ^ k ≤ R.phy_start.toNat + 2 ^ R.root_log2size) ↔
      (k = Log2MinSize → ∀ j c, SmallestFit R.allocator s.heap k j c →
        c + 1 = 2 ^ (R.root_log2size - j)) := by
  obtain ⟨free, ⟨hinv, _⟩⟩ := stateInv_of_reachable R.fits s hs
  rcases allocate_outcome R.fits hinv hk with ⟨hnone, _⟩ | ⟨j, c, b, t, _, ha, _⟩
  · rw [allocate_pages_of_block hnone] at hrun
    cases hrun
    exact absurd rfl hne
  · rw [allocate_pages_of_block ha.run] at hrun
    obtain ⟨rfl, _⟩ : R.allocator.get_block_phy_addr b = addr ∧ t.heap = heap := by
      simpa [address_of] using hrun
    have hsize := ha.hasSize R.fits hk
    have hbytes := (block_add_size_le R.fits hsize hk).2
    have hregion : 2 ^ R.root_log2size = 2 ^ R.allocator.height * 65536 := R.fits.pow_root
    -- In numbers: the block ends at its number plus its size.
    have hplace : (R.phy_start.toNat ≤ (R.allocator.get_block_phy_addr b).toNat ∧
        (R.allocator.get_block_phy_addr b).toNat + 2 ^ k ≤
          R.phy_start.toNat + 2 ^ R.root_log2size) ↔
        b + 2 ^ (k - Log2MinSize) ≤ 2 ^ R.allocator.height := by
      have hpos := Nat.two_pow_pos (k - Log2MinSize)
      have hcases := R.fits.phy_addr_cases hsize.1
      have hlt := R.fits.isNode_bound hsize.1
      have hstart : R.allocator.phy_start = R.phy_start := rfl
      rw [hstart] at hcases
      rw [hbytes, hregion]
      rw [hregion] at hend
      rcases hcases with hc | hc <;> omega
    rw [hplace, inside_iff_number R.fits hsize hk]
    -- The head of the bucket is leftmost exactly when the block is.
    have hleft : k = Log2MinSize →
        (b + 1 = 2 ^ R.allocator.height ↔ c + 1 = 2 ^ (R.root_log2size - j)) := by
      intro e
      have hj := ha.fit.le
      have hjr : j ≤ R.root_log2size := ha.fit.le_root
      have hroot : R.root_log2size = R.allocator.height + Log2MinSize := R.fits.root_eq
      have hpow : 2 ^ R.allocator.height = 2 ^ (j - k) * 2 ^ (R.root_log2size - j) := by
        rw [← Nat.pow_add]
        congr 1
        omega
      rw [ha.number, hpow]
      exact Nat.mul_right_inj (Nat.ne_of_gt (Nat.two_pow_pos _))
    constructor
    · intro h e j' c' hfit
      obtain ⟨rfl, rfl⟩ := ha.fit.unique hfit
      exact (hleft e).mp (h e)
    · intro h e
      exact (hleft e).mpr (h e j c ha.fit)

/-- The first block of the smallest size in a region of two lies inside it. -/
theorem first_of_two_inside :
    (0x4000000 ≤ 0x4010000 ∧ 0x4010000 + 2 ^ 16 ≤ 0x4000000 + 2 ^ 17) ↔
      (16 = Log2MinSize → ∀ j c, SmallestFit region_128K.allocator
        region_128K.allocator.init 16 j c → c + 1 = 2 ^ (17 - j)) := by
  have hrun : ((region_128K.allocator.allocate_pages 16).run region_128K.allocator.init).1 =
      .ok 0x4010000 := by decide +kernel
  exact allocated_inside_iff region_128K (by decide) (.start region_128K.allocator) (.init rfl)
    16 (by decide) 0x4010000 _ (Prod.ext hrun rfl) (by decide)

/-- The second one lies behind its end. -/
theorem second_of_two_outside :
    ∃ s addr heap, Reachable (buddy_system region_128K.allocator) s ∧
      (region_128K.allocator.allocate_pages 16).run s.heap = (.ok addr, heap) ∧ addr ≠ 0 ∧
      region_128K.phy_start.toNat + 2 ^ region_128K.root_log2size ≤ addr.toNat := by
  have hrun : (after region_128K.allocator [.allocate_pages 16]).map
      (fun s => ((region_128K.allocator.allocate_pages 16).run s.heap).1) =
        some (.ok 0x4020000) := by decide +kernel
  obtain ⟨s, h, e⟩ := Option.map_eq_some_iff.mp hrun
  exact ⟨s, 0x4020000, _, reachable_after h, Prod.ext e rfl, by decide, by decide⟩

end Modern05
