import Mathlib.Algebra.BigOperators.Ring.Finset
import Modern05.Mm.BuddyRegion

/-! # The usage report of the buddy allocator

    `print_usage` adds up what the buckets report: their counters of allocated blocks
    and the blocks it counts by walking their lists. `usage_is_conserved` says that the
    report is exact after every run: together the buckets account for the whole region,
    and the figure for used memory is the memory the callers hold. The counters of free
    blocks, which the report only shows, are exact in every bucket but that of the root
    (`available_blocks_exact_iff`).
-/

namespace Modern05

open HeapTree BuddyAllocator LTS Linked

variable {ba : BuddyAllocator} {s : BuddyState} {free : Nat → List Nat} {h : BuddyHeap}

/-! ## Walking a list -/

/-- The loop from node `x` on counts `x` and the nodes up to the head. The induction is
    on the nodes that are left. -/
theorem run_count_free {k f : Nat} (hk : k < bucket_count) (hfirst : h.first_block k = some f)
    {x : Nat} {l : List Nat} (hlinks : Links h.next h.prev (x :: l ++ [f]))
    (hnodes : ∀ y ∈ x :: l, y < ba.max_blocks ∧ h.available y = true) (hne : f ∉ l)
    {fuel : Nat} (hfuel : l.length < fuel) (n : UInt64) :
    (ba.count_free k fuel x n).run h = (.ok (n + UInt64.ofNat (l.length + 1)), h) := by
  induction l generalizing x fuel n with
  | nil =>
    obtain ⟨fuel, rfl⟩ := Nat.exists_eq_add_of_lt hfuel
    obtain ⟨hlt, ha⟩ := hnodes x (by simp)
    have hnext : h.next x = some f := hlinks.1
    simp [count_free, run_load_available hlt, run_load_next hlt, run_load_first_block hk, ha,
      hnext, hfirst]
  | cons y l ih =>
    obtain ⟨fuel, rfl⟩ := Nat.exists_eq_add_of_lt hfuel
    obtain ⟨hlt, ha⟩ := hnodes x (by simp)
    have hnext : h.next x = some y := hlinks.1
    rw [List.mem_cons, not_or] at hne
    have hyf : ¬ some y = some f := fun e => hne.1 (Option.some.inj e).symm
    -- The count goes up by one, and the rest of the list is walked from `y`.
    have hleft : l.length < (y :: l).length + fuel := by
      rw [List.length_cons]
      omega
    have hrest := ih hlinks.2.2 (fun z hz => hnodes z (List.mem_cons_of_mem x hz)) hne.2
      hleft (n + 1)
    have hstep : (ba.count_free k ((y :: l).length + fuel + 1) x n).run h =
        (ba.count_free k ((y :: l).length + fuel) y (n + 1)).run h := by
      simp only [count_free, run_load_available hlt, run_load_next hlt, run_load_first_block hk,
        ha, hnext, hfirst, if_neg hyf, if_true, deref, Prog.run_pure_bind]
    rw [hstep, hrest, List.length_cons, UInt64.ofNat_add (l.length + 1) 1]
    congr 2
    show n + 1 + _ = n + (_ + 1)
    grind

/-! ## One bucket -/

/-- The report on bucket `k`. -/
def bucket_report (s : BuddyState) (free : Nat → List Nat) (k : Nat) : BucketUsage where
  log2size := Log2MinSize + k
  bucket_size := UInt64.ofNat (2 ^ (Log2MinSize + k))
  used_blocks := s.heap.allocated_blocks k
  used_size := s.heap.allocated_blocks k * UInt64.ofNat (2 ^ (Log2MinSize + k))
  free_blocks := UInt64.ofNat (free k).length
  free_size := UInt64.ofNat (free k).length * UInt64.ofNat (2 ^ (Log2MinSize + k))
  avail := s.heap.available_blocks k

/-- A list has at most as many nodes as there are blocks. -/
theorem length_free_le (hf : ba.Fits) (hs : StateInv ba s free) (k : Nat) :
    (free k).length ≤ ba.max_blocks := by
  have hsub : (free k).toFinset ⊆ Finset.range ba.max_blocks := by
    intro b hb
    rw [List.mem_toFinset] at hb
    exact Finset.mem_range.mpr (hf.isNode_lt (hs.inv.lists.row k b hb).1)
  have hcard := Finset.card_le_card hsub
  rwa [List.toFinset_card_of_nodup (hs.inv.lists.ring k).nodup, Finset.card_range] at hcard

/-- The length of a list as a word. -/
theorem toNat_length_free (R : Region) (hs : StateInv R.allocator s free) (k : Nat) :
    (UInt64.ofNat (free k).length).toNat = (free k).length :=
  UInt64.toNat_ofNat_of_lt'
    (Nat.lt_of_le_of_lt (length_free_le R.fits hs k) (by decide : MaxBlocks < 2 ^ 64))

theorem run_print_bucket_usage (hf : ba.Fits) (hs : StateInv ba s free) {k : Nat}
    (hk : k < bucket_count) :
    (ba.print_bucket_usage k).run s.heap = (.ok (bucket_report s free k), s.heap) := by
  have hring := hs.inv.lists.ring k
  have hlog : (ba.load (.log2size k) : BuddyProg Nat) = .load (.log2size k) := if_pos hk
  -- The walk from the head comes back to the head after all nodes of the list.
  have hcount : (ba.count_list k (s.heap.first_block k)).run s.heap =
      (.ok (UInt64.ofNat (free k).length), s.heap) := by
    cases hxs : free k with
    | nil =>
      rw [hring.eq_nil_iff.mp hxs]
      rfl
    | cons x l =>
      rw [hxs] at hring
      have hfirst : s.heap.first_block k = some x := hring.head
      have hnodes : ∀ y ∈ x :: l, y < ba.max_blocks ∧ s.heap.available y = true := by
        intro y hy
        rw [← hxs] at hy
        exact ⟨hf.isNode_lt (hs.inv.lists.row k y hy).1, (hs.inv.mem_free hy).2⟩
      have hlen := length_free_le hf hs k
      rw [hxs, List.length_cons] at hlen
      unfold count_list
      rw [hfirst]
      simp only []
      rw [run_count_free hk hfirst hring.circular hnodes (List.nodup_cons.mp hring.nodup).1
        (by omega) 0, UInt64.zero_add, List.length_cons]
  unfold print_bucket_usage
  rw [hlog, Prog.run_load_bind, run_load_first_block hk, Prog.run_bind_ok hcount]
  simp only [run_load_allocated_blocks hk, run_load_available_blocks hk, Prog.run_pure]
  have hsize : Cells.get (BuddyCell.log2size k) s.heap = Log2MinSize + k :=
    congrFun hs.log2size k
  rw [hsize]
  rfl

/-- The loop over the sizes reports on each bucket in turn. -/
theorem run_bucket_usages (hf : ba.Fits) (hs : StateInv ba s free) {i : Nat}
    (hi : Log2MinSize ≤ i) :
    (ba.bucket_usages i).run s.heap =
      (.ok ((List.range' (i - Log2MinSize) (ba.root_log2size + 1 - i)).map
        (bucket_report s free)), s.heap) := by
  induction hd : ba.root_log2size + 1 - i generalizing i with
  | zero =>
    rw [bucket_usages, if_neg (by omega)]
    rfl
  | succ d ih =>
    have hle : i ≤ ba.root_log2size := by omega
    have hk : i - Log2MinSize < bucket_count := by
      have := hf.height_lt
      have := hf.root_eq
      omega
    have hnext : i + 1 - Log2MinSize = i - Log2MinSize + 1 := by omega
    rw [bucket_usages, if_pos hle, hf.bucket_index_eq hi hle,
      Prog.run_bind_ok (run_print_bucket_usage hf hs hk),
      Prog.run_bind_ok (ih (i := i + 1) (by omega) (by omega)), hnext]
    rfl

/-! ## Conservation -/

/-- Adding up the live blocks one by one or size by size is the same. -/
theorem sum_live_sizes {n : Nat} {ls : List Live}
    (hsize : ∀ l ∈ ls, Log2MinSize ≤ l.log2size ∧ l.log2size - Log2MinSize < n) :
    (ls.map (fun l => 2 ^ (l.log2size - Log2MinSize))).sum =
      ∑ k ∈ Finset.range n, ls.countP (fun l => l.log2size == k + Log2MinSize) * 2 ^ k := by
  induction ls with
  | nil => simp
  | cons l ls ih =>
    obtain ⟨hmin, hlt⟩ := hsize l (by simp)
    have hone : ∀ k ∈ Finset.range n,
        (l :: ls).countP (fun l => l.log2size == k + Log2MinSize) * 2 ^ k =
          ls.countP (fun l => l.log2size == k + Log2MinSize) * 2 ^ k +
            if l.log2size - Log2MinSize = k then 2 ^ k else 0 := by
      intro k _
      by_cases e : l.log2size - Log2MinSize = k
      · have hk : l.log2size = k + Log2MinSize := by omega
        rw [if_pos e, List.countP_cons, if_pos (beq_iff_eq.mpr hk), Nat.add_mul, Nat.one_mul]
      · have hk : ¬ (l.log2size == k + Log2MinSize) = true := by
          intro h
          have := beq_iff_eq.mp h
          omega
        rw [if_neg e, List.countP_cons, if_neg hk, Nat.add_zero, Nat.add_zero]
    rw [List.map_cons, List.sum_cons, Finset.sum_congr rfl hone, Finset.sum_add_distrib,
      ← ih (fun x hx => hsize x (List.mem_cons_of_mem l hx)), Finset.sum_ite_eq,
      if_pos (Finset.mem_range.mpr hlt), Nat.add_comm]

/-- A live block lies in the tree, so its size is that of a bucket. -/
theorem live_size (hf : ba.Fits) (hs : StateInv ba s free) {l : Live} (hl : l ∈ s.live) :
    Log2MinSize ≤ l.log2size ∧ l.log2size - Log2MinSize = ba.height - level l.block := by
  have := hs.log2size_eq hf hl
  omega

/-- **Conservation**: live and free blocks make up the region. -/
theorem live_add_free (hf : ba.Fits) (hs : StateInv ba s free) :
    (s.live.map (fun l => 2 ^ (l.log2size - Log2MinSize))).sum +
      ∑ k ∈ Finset.range (ba.height + 1), (free k).length * 2 ^ k = 2 ^ ba.height := by
  let live := (s.live.map Live.block).toFinset
  let listed := (Finset.range (ba.height + 1)).biUnion (fun k => (free k).toFinset)
  have hlive : ∀ a, a ∈ live ↔ a ∈ s.blocks := by
    intro a
    rw [List.mem_toFinset, List.mem_map]
    rfl
  have hlisted : ∀ a, a ∈ listed ↔ s.heap.valid a = true ∧ s.heap.available a = true := by
    intro a
    rw [Finset.mem_biUnion]
    constructor
    · intro h
      obtain ⟨k, _, hmem⟩ := h
      exact hs.inv.mem_free (List.mem_toFinset.mp hmem)
    · intro h
      refine ⟨ba.height - level a, Finset.mem_range.mpr (by omega), ?_⟩
      exact List.mem_toFinset.mpr ((hs.inv.listed a).mpr h)
  have hdisj : Disjoint live listed := by
    apply Finset.disjoint_left.mpr
    intro a h1 h2
    have hnot := (hs.inv.tree.live a ((hlive a).mp h1)).2
    rw [((hlisted a).mp h2).2] at hnot
    cases hnot
  have hunion : ∀ a, a ∈ live ∪ listed ↔
      s.heap.valid a = true ∧ (s.heap.available a = true ∨ a ∈ s.blocks) := by
    intro a
    rw [Finset.mem_union, hlive, hlisted]
    constructor
    · intro h
      rcases h with h | h
      · exact ⟨(hs.inv.tree.live a h).1, .inr h⟩
      · exact ⟨h.1, .inl h.2⟩
    · intro h
      rcases h.2 with ha | ha
      · exact .inr ⟨h.1, ha⟩
      · exact .inl ha
  -- The live part of the sum, block by block.
  have hsum_live : ∑ a ∈ live, 2 ^ (ba.height - level a) =
      (s.live.map (fun l => 2 ^ (l.log2size - Log2MinSize))).sum := by
    rw [List.sum_toFinset _ hs.nodup, List.map_map]
    congr 1
    apply List.map_congr_left
    intro l hl
    rw [(live_size hf hs hl).2]
    rfl
  -- The free part, list by list: the nodes of one list have one size.
  have hsum_listed : ∑ a ∈ listed, 2 ^ (ba.height - level a) =
      ∑ k ∈ Finset.range (ba.height + 1), (free k).length * 2 ^ k := by
    rw [Finset.sum_biUnion]
    · apply Finset.sum_congr rfl
      intro k _
      rw [← List.toFinset_card_of_nodup (hs.inv.lists.ring k).nodup]
      apply Finset.sum_const_nat
      intro a ha
      rw [(hs.inv.lists.row k a (List.mem_toFinset.mp ha)).2]
    · intro i _ j _ hne
      apply Finset.disjoint_left.mpr
      intro a h1 h2
      exact hne (hs.inv.lists.eq_of_mem (List.mem_toFinset.mp h1) (List.mem_toFinset.mp h2))
  rw [← hsum_live, ← hsum_listed, ← Finset.sum_union hdisj]
  exact hs.inv.tree.conservation _ hunion

/-- From a sum over the buckets in smallest blocks to the sum in bytes. -/
theorem sum_buckets_bytes (n : Nat) (f : Nat → Nat) :
    ((List.range n).map (fun k => f k * 2 ^ (Log2MinSize + k))).sum =
      (∑ k ∈ Finset.range n, f k * 2 ^ k) * 2 ^ Log2MinSize := by
  rw [Finset.sum_mul]
  show _ = ((List.range n).map (fun k => f k * 2 ^ k * 2 ^ Log2MinSize)).sum
  congr 1
  apply List.map_congr_left
  intro k _
  rw [Nat.mul_assoc, ← Nat.pow_add, Nat.add_comm k]

theorem live_bytes (hf : ba.Fits) (hs : StateInv ba s free) :
    (s.live.map (fun l => 2 ^ l.log2size)).sum =
      (s.live.map (fun l => 2 ^ (l.log2size - Log2MinSize))).sum * 2 ^ Log2MinSize := by
  rw [← List.sum_map_mul_right]
  congr 1
  apply List.map_congr_left
  intro l hl
  rw [← Nat.pow_add, Nat.sub_add_cancel (live_size hf hs hl).1]

/-- Conservation in bytes, with the free blocks as the report lists them. -/
theorem live_add_free_bytes (hf : ba.Fits) (hs : StateInv ba s free) :
    (s.live.map (fun l => 2 ^ l.log2size)).sum +
      ((List.range (ba.height + 1)).map
        (fun k => (free k).length * 2 ^ (Log2MinSize + k))).sum = 2 ^ ba.root_log2size := by
  rw [live_bytes hf hs, sum_buckets_bytes, ← Nat.add_mul, live_add_free hf hs, ← Nat.pow_add,
    hf.root_eq]

/-- The counters of allocated blocks add up to the live memory. -/
theorem live_bytes_by_size (hf : ba.Fits) (hs : StateInv ba s free) :
    ((List.range (ba.height + 1)).map (fun k =>
        s.live.countP (fun l => l.log2size == k + Log2MinSize) * 2 ^ (Log2MinSize + k))).sum =
      (s.live.map (fun l => 2 ^ l.log2size)).sum := by
  have hsize : ∀ l ∈ s.live, Log2MinSize ≤ l.log2size ∧
      l.log2size - Log2MinSize < ba.height + 1 := by
    intro l hl
    have := live_size hf hs hl
    omega
  rw [live_bytes hf hs, sum_buckets_bytes, ← sum_live_sizes hsize]

/-! ## The whole report -/

theorem sum_map_ofNat {α : Type} (l : List α) (f : α → Nat) :
    (l.map (fun x => UInt64.ofNat (f x))).sum = UInt64.ofNat (l.map f).sum := by
  induction l with
  | nil => rfl
  | cons x l ih =>
    rw [List.map_cons, List.sum_cons, ih, List.map_cons, List.sum_cons, UInt64.ofNat_add]

/-- The counter of allocated blocks has not wrapped. -/
theorem toNat_allocated_blocks (hf : ba.Fits) (hs : StateInv ba s free) (k : Nat) :
    (s.heap.allocated_blocks k).toNat =
      s.live.countP (fun l => l.log2size == k + Log2MinSize) := by
  have hsub : (s.live.map Live.block).toFinset ⊆ Finset.range (2 ^ 17) := by
    intro b hb
    obtain ⟨l, hl, rfl⟩ := List.mem_map.mp (List.mem_toFinset.mp hb)
    have hlt := hf.isNode_bound (hs.isNode hl)
    exact Finset.mem_range.mpr (by omega)
  have hcard := Finset.card_le_card hsub
  rw [List.toFinset_card_of_nodup hs.nodup, List.length_map, Finset.card_range] at hcard
  have hle := List.countP_le_length (l := s.live) (p := fun l => l.log2size == k + Log2MinSize)
  rw [hs.allocated, UInt64.toNat_ofNat', Nat.mod_eq_of_lt (by omega)]

/-- The report `print_usage` makes. -/
def usage_report (ba : BuddyAllocator) (s : BuddyState) (free : Nat → List Nat) : Usage :=
  ba.usage_totals ((List.range (ba.height + 1)).map (bucket_report s free))

theorem run_print_usage (hf : ba.Fits) (hs : StateInv ba s free) :
    ba.print_usage.run s.heap = (.ok (usage_report ba s free), s.heap) := by
  have hrows : ba.root_log2size + 1 - Log2MinSize = ba.height + 1 := by
    have := hf.root_eq
    omega
  have hlines := run_bucket_usages hf hs (Nat.le_refl Log2MinSize)
  rw [Nat.sub_self, hrows, ← List.range_eq_range'] at hlines
  unfold print_usage
  rw [Prog.run_bind_ok hlines]
  rfl

/-- No sum of the report exceeds the region, so none wraps: the figures for used and
    free memory are the live bytes and the rest of the region. -/
theorem usage_report_totals (hf : ba.Fits) (hs : StateInv ba s free) :
    (usage_report ba s free).used.toNat = (s.live.map (fun l => 2 ^ l.log2size)).sum ∧
      (usage_report ba s free).used.toNat + (usage_report ba s free).free.toNat =
        2 ^ ba.root_log2size := by
  have hbytes := live_add_free_bytes hf hs
  have hfree : (usage_report ba s free).free = UInt64.ofNat ((List.range (ba.height + 1)).map
      (fun k => (free k).length * 2 ^ (Log2MinSize + k))).sum := by
    unfold usage_report usage_totals
    rw [← sum_map_ofNat, List.map_map]
    show List.sum _ = _
    congr 1
    apply List.map_congr_left
    intro k _
    rw [UInt64.ofNat_mul]
    rfl
  have hused : (usage_report ba s free).used =
      UInt64.ofNat (2 ^ ba.root_log2size) - (usage_report ba s free).free := rfl
  generalize ((List.range (ba.height + 1)).map
    (fun k => (free k).length * 2 ^ (Log2MinSize + k))).sum = F at hbytes hfree
  generalize (s.live.map (fun l => 2 ^ l.log2size)).sum = U at hbytes
  have hlt : 2 ^ ba.root_log2size < 2 ^ 64 := by
    apply Nat.pow_lt_pow_right (by omega)
    have := hf.le_max
    unfold Log2MaxSize at this
    omega
  rw [hfree, ← UInt64.ofNat_sub (by omega)] at hused
  have hU : 2 ^ ba.root_log2size - F = U := by omega
  have hUnat : (UInt64.ofNat U).toNat = U :=
    UInt64.toNat_ofNat_of_lt' (Nat.lt_of_le_of_lt (by omega) hlt)
  have hFnat : (UInt64.ofNat F).toNat = F :=
    UInt64.toNat_ofNat_of_lt' (Nat.lt_of_le_of_lt (by omega) hlt)
  rw [hused, hfree, hU, hUnat, hFnat]
  exact ⟨rfl, hbytes⟩

/-- The lines of the report account for the whole region. -/
theorem usage_report_lines (R : Region) (hs : StateInv R.allocator s free) :
    ((usage_report R.allocator s free).buckets.map (fun b =>
      (b.used_blocks.toNat + b.free_blocks.toNat) * 2 ^ b.log2size)).sum =
        2 ^ R.root_log2size := by
  have hline : ∀ k, ((bucket_report s free k).used_blocks.toNat +
      (bucket_report s free k).free_blocks.toNat) * 2 ^ (bucket_report s free k).log2size =
        s.live.countP (fun l => l.log2size == k + Log2MinSize) * 2 ^ (Log2MinSize + k) +
          (free k).length * 2 ^ (Log2MinSize + k) := by
    intro k
    show ((s.heap.allocated_blocks k).toNat + (UInt64.ofNat (free k).length).toNat) *
      2 ^ (Log2MinSize + k) = _
    rw [toNat_length_free R hs, toNat_allocated_blocks R.fits hs, Nat.add_mul]
  unfold usage_report usage_totals
  simp only [List.map_map, Function.comp_def, hline]
  rw [List.sum_map_add, live_bytes_by_size R.fits hs]
  exact live_add_free_bytes R.fits hs

/-- **Accounting is conserved.** After every run the counter of allocated blocks of each
    size is the number of live blocks of that size. `print_usage` returns, its lines are
    those of `print_bucket_usage` for all sizes up to the root and add up to the whole
    region, and its figure for used memory is the live memory. -/
theorem usage_is_conserved (R : Region) (s : BuddyState)
    (hs : Reachable (buddy_system R.allocator) s) :
    (∀ k, Log2MinSize ≤ k → k ≤ Log2MaxSize →
        (s.heap.allocated_blocks (bucket_index k)).toNat =
          s.live.countP (fun l => l.log2size == k)) ∧
      ∃ u, R.allocator.print_usage.run s.heap = (.ok u, s.heap) ∧
        (∀ b ∈ u.buckets, b.used_blocks = s.heap.allocated_blocks (bucket_index b.log2size) ∧
          (R.allocator.print_bucket_usage (bucket_index b.log2size)).run s.heap =
            (.ok b, s.heap)) ∧
        u.buckets.map (·.log2size) =
          List.range' Log2MinSize (R.root_log2size + 1 - Log2MinSize) ∧
        (u.buckets.map (fun b =>
          (b.used_blocks.toNat + b.free_blocks.toNat) * 2 ^ b.log2size)).sum =
            2 ^ R.root_log2size ∧
        u.used.toNat = (s.live.map (fun l => 2 ^ l.log2size)).sum ∧
        u.used.toNat + u.free.toNat = 2 ^ R.root_log2size := by
  obtain ⟨free, hinv⟩ := stateInv_of_reachable R.fits s hs
  have hroot : R.root_log2size = R.allocator.height + Log2MinSize := R.fits.root_eq
  have hheight := R.fits.height_lt
  have hindex : ∀ k, k < bucket_count → bucket_index (Log2MinSize + k) = k := by
    intro k hk
    unfold bucket_count Log2MaxSize at hk
    rw [bucket_index_of_ge (by omega) (by unfold Log2MinSize; omega)]
    omega
  obtain ⟨hused, htotal⟩ := usage_report_totals R.fits hinv
  constructor
  · intro k hmin hmax
    have hk := hindex (k - Log2MinSize) (by unfold bucket_count; omega)
    rw [Nat.add_sub_cancel' hmin] at hk
    rw [hk, toNat_allocated_blocks R.fits hinv]
    simp only [Nat.sub_add_cancel hmin]
  · refine ⟨usage_report R.allocator s free, run_print_usage R.fits hinv, ?_, ?_,
      usage_report_lines R hinv, hused, htotal⟩
    · intro b hb
      obtain ⟨k, hk, rfl⟩ := List.mem_map.mp hb
      have hk' : k < bucket_count := by
        have := List.mem_range.mp hk
        omega
      have e : bucket_index (bucket_report s free k).log2size = k := hindex k hk'
      rw [e]
      exact ⟨rfl, run_print_bucket_usage R.fits hinv hk'⟩
    · have hrows : R.root_log2size + 1 - Log2MinSize = R.allocator.height + 1 := by omega
      show ((List.range (R.allocator.height + 1)).map (bucket_report s free)).map _ = _
      rw [hrows, List.map_map, List.range'_eq_map_range]
      rfl

/-- One smallest block of a region of two is in use. -/
theorem usage_of_128K_region :
    ∃ s u, after region_128K.allocator [.allocate_pages 16] = some s ∧
      region_128K.allocator.print_usage.run s.heap = (.ok u, s.heap) ∧
      u.used.toNat = (s.live.map (fun l => 2 ^ l.log2size)).sum := by
  obtain ⟨s, h⟩ := Option.isSome_iff_exists.mp
    (by decide +kernel : (after region_128K.allocator [.allocate_pages 16]).isSome = true)
  obtain ⟨_, u, hrun, _, _, _, hused, _⟩ := usage_is_conserved region_128K s (reachable_after h)
  exact ⟨s, u, h, hrun, hused⟩

/-! ## The counters of free blocks -/

/-- **The counters of free blocks.** After every run `available_blocks` of a bucket is the
    number of blocks on its list, except in the bucket of the whole region: the constructor
    puts the root on the list without counting it, and no later call makes up for it. -/
theorem available_blocks_exact_iff (R : Region) (s : BuddyState)
    (hs : Reachable (buddy_system R.allocator) s) (k : Nat) :
    ∃ nodes : Finset Nat,
      (∀ b, b ∈ nodes ↔ OnList (s.heap.first_block k) s.heap.next b) ∧
      ((s.heap.available_blocks k).toNat = nodes.card ↔ k ≠ bucket_index R.root_log2size) := by
  obtain ⟨free, hinv⟩ := stateInv_of_reachable R.fits s hs
  have hring := hinv.inv.lists.ring k
  have hcounter := hinv.available k
  have hroot : bucket_index R.root_log2size = R.allocator.height :=
    R.fits.bucket_index_eq R.min_le (Nat.le_refl _)
  have hlen := toNat_length_free R hinv k
  refine ⟨(free k).toFinset, ?_, ?_⟩
  · intro b
    rw [List.mem_toFinset, hring.onList_iff]
  · rw [List.toFinset_card_of_nodup hring.nodup, hroot]
    by_cases e : k = R.allocator.height
    · -- One short, or all ones when the list is empty.
      rw [if_pos e] at hcounter
      have hone : UInt64.ofNat (free k).length ≠ s.heap.available_blocks k := by
        intro h
        rw [h, UInt64.sub_self] at hcounter
        cases hcounter
      constructor
      · intro h
        exact absurd (UInt64.toNat.inj (hlen.trans h.symm)) hone
      · intro h
        exact absurd e h
    · rw [if_neg e] at hcounter
      have hsame : s.heap.available_blocks k = UInt64.ofNat (free k).length := by grind
      rw [hsame, hlen]
      exact ⟨fun _ => e, fun _ => rfl⟩

/-- With the whole region in use, the counter of its bucket has wrapped below zero. -/
theorem available_blocks_wrap_in_128K :
    ∃ s, after region_128K.allocator [.allocate_pages 17] = some s ∧
      Reachable (buddy_system region_128K.allocator) s ∧
      (∀ b, ¬ OnList (s.heap.first_block 1) s.heap.next b) ∧
      (s.heap.available_blocks 1).toNat = 2 ^ 64 - 1 := by
  have hrun : ((after region_128K.allocator [.allocate_pages 17]).map fun s =>
      (s.heap.first_block 1, (s.heap.available_blocks 1).toNat)) =
        some (none, 2 ^ 64 - 1) := by decide +kernel
  obtain ⟨s, h, hfields⟩ := Option.map_eq_some_iff.mp hrun
  obtain ⟨hfirst, hcounter⟩ := Prod.mk.inj hfields
  refine ⟨s, h, reachable_after h, ?_, hcounter⟩
  have hnone : Ring (s.heap.first_block 1) s.heap.next s.heap.prev [] :=
    ⟨hfirst, List.nodup_nil, trivial⟩
  intro b hb
  exact absurd (hnone.onList_iff.mp hb) List.not_mem_nil

/-- With one smallest block in use, the counter of the other one is exact. -/
theorem available_blocks_of_128K_region :
    ∃ s, ∃ nodes : Finset Nat,
      after region_128K.allocator [.allocate_pages 16] = some s ∧
      (∀ b, b ∈ nodes ↔ OnList (s.heap.first_block 0) s.heap.next b) ∧
      (s.heap.available_blocks 0).toNat = nodes.card := by
  obtain ⟨s, h⟩ := Option.isSome_iff_exists.mp
    (by decide +kernel : (after region_128K.allocator [.allocate_pages 16]).isSome = true)
  obtain ⟨nodes, hnodes, hexact⟩ := available_blocks_exact_iff region_128K s (reachable_after h) 0
  exact ⟨s, nodes, h, hnodes, hexact.mpr (by decide)⟩

end Modern05
