import Modern05.Mm.PageAllocatorInit

/-! # The choice of the region for the page allocator

    `page_allocator_init` in `mm/page_alloc.cpp`, as it would choose if `regions[i]` were the i-th
    region: the largest region that starts below 4 GiB, without its pages below the identity map,
    and at most 1 GiB of it.

    * `Best` is what the loop knows of the regions that it has seen, and `Largest` the region that
      it ends with.
    * `choose_range_eq` says what is chosen, for every list of regions.
    * `choice_right_iff` says for which lists this is a part of one of the regions. The pages below
      the identity map are subtracted without a check that there are so many: where there are not,
      the number wraps and the cap of 1 GiB hides it. Parts of pages at the two ends of a region can
      make the range a page too long.
-/

namespace Modern05

/-! ## The loop -/

/-- `regions[i]`, read as the i-th element. -/
def nth_region (l : List PageRegion) (i : Nat) : Except Fault PageRegion :=
  match l[i]? with
  | some region => .ok region
  | none => .error (.out_of_bounds i)

/-- One round of the loop, on the number of pages and the start of the largest region so far. -/
def larger (best : UInt64 × UInt64) (region : PageRegion) : UInt64 × UInt64 :=
  if region.size / UInt64.ofNat PAGE_SIZE > best.1 ∧ region.phy_start < 0x100000000 then
    (region.size / UInt64.ofNat PAGE_SIZE, region.phy_start)
  else best

def best_region (l : List PageRegion) : UInt64 × UInt64 := l.foldl larger (0, 0)

/-- The round as the code has it. -/
theorem larger_eq (best : UInt64 × UInt64) (region : PageRegion) :
    (if region.size / UInt64.ofNat PAGE_SIZE > best.1 ∧ region.phy_start < 0x100000000 then
        pure (region.size / UInt64.ofNat PAGE_SIZE, region.phy_start)
      else pure best : Except Fault (UInt64 × UInt64)) = .ok (larger best region) := by
  unfold larger
  split <;> rfl

theorem largest_region_eq (l : List PageRegion) :
    largest_region (nth_region l) l.length = .ok (best_region l) := by
  have hprefix : ∀ k ≤ l.length,
      largest_region (nth_region l) k = .ok ((l.take k).foldl larger (0, 0)) := by
    intro k hk
    induction k with
    | zero => rfl
    | succ k ih =>
      have hregion : l[k]? = some l[k] := List.getElem?_eq_getElem hk
      have hprev := ih (by omega)
      unfold largest_region at hprev ⊢
      rw [List.range_succ, List.foldlM_append, hprev, List.take_succ_eq_append_getElem hk,
        List.foldl_append]
      simp only [List.foldlM_cons, List.foldlM_nil, List.foldl_cons, List.foldl_nil, nth_region,
        hregion]
      exact congrArg (fun x : Except Fault (UInt64 × UInt64) => x >>= pure) (larger_eq _ l[k])
  have hall := hprefix l.length (Nat.le_refl _)
  rwa [List.take_length] at hall

/-- The whole pages that the size of a region comes to. -/
def PageRegion.pages (r : PageRegion) : Nat := r.size.toNat / PAGE_SIZE

def PageRegion.StartsLow (r : PageRegion) : Prop := r.phy_start.toNat < 2 ^ 32

instance (r : PageRegion) : Decidable r.StartsLow :=
  inferInstanceAs (Decidable (r.phy_start.toNat < 2 ^ 32))

/-- The first of the regions that have the most pages, of those that start below 4 GiB. -/
def Largest (l : List PageRegion) (r : PageRegion) : Prop :=
  ∃ before after, l = before ++ r :: after ∧ 0 < r.pages ∧ r.StartsLow ∧
    (∀ r' ∈ before, r'.StartsLow → r'.pages < r.pages) ∧
    ∀ r' ∈ after, r'.StartsLow → r'.pages ≤ r.pages

/-- What the loop knows of the regions that it has seen: its region is the first of the largest,
    unless it has none, and no region that starts below 4 GiB has more pages. -/
structure Best (seen : List PageRegion) (best : UInt64 × UInt64) : Prop where
  chosen : best = (0, 0) ∨
    ∃ r, Largest seen r ∧ r.phy_start = best.2 ∧ r.pages = best.1.toNat
  low : best.2.toNat < 2 ^ 32
  largest : ∀ r ∈ seen, r.StartsLow → r.pages ≤ best.1.toNat

theorem toNat_pages (size : UInt64) :
    (size / UInt64.ofNat PAGE_SIZE).toNat = size.toNat / PAGE_SIZE :=
  UInt64.toNat_div _ _

theorem larger_iff (best : UInt64 × UInt64) (region : PageRegion) :
    region.size / UInt64.ofNat PAGE_SIZE > best.1 ∧ region.phy_start < 0x100000000 ↔
      best.1.toNat < region.pages ∧ region.StartsLow := by
  rw [gt_iff_lt, UInt64.lt_iff_toNat_lt, toNat_pages, UInt64.lt_iff_toNat_lt]
  rfl

/-- **One round.** -/
theorem Best.larger {seen : List PageRegion} {best : UInt64 × UInt64} (h : Best seen best)
    (region : PageRegion) : Best (seen ++ [region]) (larger best region) := by
  have hpages : (region.size / UInt64.ofNat PAGE_SIZE).toNat = region.pages :=
    toNat_pages region.size
  unfold Modern05.larger
  rw [if_congr (larger_iff best region) rfl rfl]
  split
  · next hmore =>
    -- the new region is larger than all before it
    obtain ⟨hmore, hlow⟩ := hmore
    have hbefore : ∀ r ∈ seen, r.StartsLow → r.pages < region.pages := by
      intro r hr hrlow
      have hle := h.largest r hr hrlow
      omega
    have hlargest : Largest (seen ++ [region]) region :=
      ⟨seen, [], rfl, by omega, hlow, hbefore, fun r hr => absurd hr List.not_mem_nil⟩
    refine ⟨.inr ⟨region, hlargest, rfl, hpages.symm⟩, hlow, ?_⟩
    intro r hr hrlow
    rcases List.mem_append.mp hr with hr | hr
    · exact Nat.le_trans (Nat.le_of_lt (hbefore r hr hrlow)) hpages.ge
    · obtain rfl := List.mem_singleton.mp hr
      exact hpages.ge
  · next hmore =>
    -- the old one stays the first of the largest
    have hle : region.StartsLow → region.pages ≤ best.1.toNat := by
      intro hlow
      by_contra hlt
      exact hmore ⟨Nat.lt_of_not_le hlt, hlow⟩
    refine ⟨?_, h.low, ?_⟩
    · rcases h.chosen with hnone | ⟨r, ⟨before, after, rfl, hpos, hlow, hb, ha⟩, hstart, hr⟩
      · exact .inl hnone
      · refine .inr ⟨r, ⟨before, after ++ [region], by simp, hpos, hlow, hb, ?_⟩, hstart, hr⟩
        intro r' hr' hrlow
        rcases List.mem_append.mp hr' with hr' | hr'
        · exact ha r' hr' hrlow
        · obtain rfl := List.mem_singleton.mp hr'
          exact hr ▸ hle hrlow
    · intro r hr hrlow
      rcases List.mem_append.mp hr with hr | hr
      · exact h.largest r hr hrlow
      · obtain rfl := List.mem_singleton.mp hr
        exact hle hrlow

/-- **All rounds.** -/
theorem best_of_foldl (l : List PageRegion) {seen : List PageRegion} {best : UInt64 × UInt64}
    (h : Best seen best) : Best (seen ++ l) (l.foldl larger best) := by
  induction l generalizing seen best with
  | nil => simpa using h
  | cons region l ih =>
    have hrest := ih (h.larger region)
    rwa [List.append_assoc] at hrest

theorem best_region_best (l : List PageRegion) : Best l (best_region l) := by
  have hnone : Best [] (0, 0) := ⟨.inl rfl, by decide, fun _ hr => absurd hr List.not_mem_nil⟩
  exact best_of_foldl l hnone

/-- Regions that have no more pages change nothing. -/
theorem foldl_larger_of_le {best : UInt64 × UInt64} (after : List PageRegion)
    (h : ∀ r ∈ after, r.StartsLow → r.pages ≤ best.1.toNat) :
    after.foldl larger best = best := by
  induction after with
  | nil => rfl
  | cons region after ih =>
    have hkeep : larger best region = best := by
      unfold larger
      rw [if_congr (larger_iff best region) rfl rfl, if_neg]
      intro ⟨hmore, hlow⟩
      have hle := h region List.mem_cons_self hlow
      omega
    rw [List.foldl_cons, hkeep]
    exact ih fun r hr => h r (List.mem_cons_of_mem _ hr)

/-- **The loop ends with the first of the largest regions.** -/
theorem best_region_of_largest {l : List PageRegion} {r : PageRegion} (h : Largest l r) :
    best_region l = (r.size / UInt64.ofNat PAGE_SIZE, r.phy_start) := by
  obtain ⟨before, after, rfl, hpos, hlow, hbefore, hafter⟩ := h
  have hpages : (r.size / UInt64.ofNat PAGE_SIZE).toNat = r.pages := toNat_pages r.size
  have hless : (best_region before).1.toNat < r.pages := by
    rcases (best_region_best before).chosen with hnone | ⟨r', hr', _, hbest⟩
    · rw [hnone]
      exact hpos
    · obtain ⟨b, a, rfl, _, hlow', _⟩ := hr'
      rw [← hbest]
      exact hbefore r' (by simp) hlow'
  have hround : larger (best_region before) r = (r.size / UInt64.ofNat PAGE_SIZE, r.phy_start) := by
    unfold larger
    rw [if_congr (larger_iff _ r) rfl rfl, if_pos ⟨hless, hlow⟩]
  unfold best_region at hround ⊢
  rw [List.foldl_append, List.foldl_cons, hround]
  apply foldl_larger_of_le
  intro r' hr' hlow'
  rw [hpages]
  exact hafter r' hr' hlow'

/-! ## The range -/

section range

variable (l : List PageRegion)

/-- The pages of the largest region, and its start. -/
def best_pages : Nat := (best_region l).1.toNat

def best_start : Nat := (best_region l).2.toNat

/-- Where the range starts. -/
def range_start : Nat := max (best_start l) IDENTITY_MAP_PHY_START

/-- The pages that are subtracted, those below the identity map. -/
def dropped_pages : Nat := (range_start l - best_start l) / PAGE_SIZE

/-- The pages that are left, none when there were not so many. -/
def usable_pages : Nat := best_pages l - dropped_pages l

/-- The pages that the code takes: when the subtraction wraps, as many as the cap lets it. -/
def taken_pages : Nat :=
  if best_pages l < dropped_pages l then 2 ^ 18 else min (usable_pages l) (2 ^ 18)

def range_log2 : Nat := Nat.log2 (taken_pages l * PAGE_SIZE)

theorem best_pages_lt : best_pages l < 2 ^ 52 := by
  rcases (best_region_best l).chosen with hnone | ⟨r, _, _, hpages⟩
  · unfold best_pages
    rw [hnone]
    decide
  · have hsize := r.size.toNat_lt
    unfold best_pages
    rw [← hpages, PageRegion.pages, PAGE_SIZE]
    omega

theorem dropped_pages_le : dropped_pages l ≤ 2 ^ 14 := by
  have hstart : IDENTITY_MAP_PHY_START = 2 ^ 26 := by decide
  unfold dropped_pages range_start PAGE_SIZE
  omega

theorem taken_pages_le : taken_pages l ≤ 2 ^ 18 := by
  unfold taken_pages
  split <;> omega

/-- The clipping, as numbers. -/
theorem toNat_clip_region :
    (clip_region (best_region l).1 (best_region l).2).1.toNat =
        (if best_pages l < dropped_pages l then best_pages l + 2 ^ 64 - dropped_pages l
          else usable_pages l) ∧
      (clip_region (best_region l).1 (best_region l).2).2.toNat = range_start l := by
  have hpages := best_pages_lt l
  have hdropped := dropped_pages_le l
  have hstart : (UInt64.ofNat IDENTITY_MAP_PHY_START).toNat = IDENTITY_MAP_PHY_START := by decide
  unfold clip_region
  by_cases hlow : (best_region l).2 < UInt64.ofNat IDENTITY_MAP_PHY_START
  · rw [if_pos hlow]
    rw [UInt64.lt_iff_toNat_lt, hstart] at hlow
    have hrange : range_start l = IDENTITY_MAP_PHY_START := Nat.max_eq_right (Nat.le_of_lt hlow)
    have hunusable : ((UInt64.ofNat IDENTITY_MAP_PHY_START - (best_region l).2) /
        UInt64.ofNat PAGE_SIZE).toNat = dropped_pages l := by
      rw [toNat_pages, UInt64.toNat_sub_of_le _ _ (UInt64.le_iff_toNat_le.mpr (by omega)), hstart,
        dropped_pages, hrange]
      rfl
    refine ⟨?_, by rw [hstart, hrange]⟩
    rw [UInt64.toNat_sub, hunusable]
    show (2 ^ 64 - dropped_pages l + best_pages l) % 2 ^ 64 = _
    unfold usable_pages
    split <;> omega
  · rw [if_neg hlow]
    rw [UInt64.lt_iff_toNat_lt, hstart] at hlow
    have hrange : range_start l = best_start l := Nat.max_eq_left (Nat.le_of_not_lt hlow)
    have hnone : dropped_pages l = 0 := by
      rw [dropped_pages, hrange, Nat.sub_self]
      rfl
    rw [usable_pages, hnone, if_neg (Nat.not_lt_zero _)]
    exact ⟨rfl, hrange.symm⟩

/-- The cap hides that the subtraction wrapped. -/
theorem toNat_cap_pages :
    (cap_pages (clip_region (best_region l).1 (best_region l).2).1).toNat = taken_pages l := by
  have hpages := best_pages_lt l
  have hdropped := dropped_pages_le l
  have hmost : (UInt64.ofNat (1024 * 1024 * 1024) / UInt64.ofNat PAGE_SIZE).toNat = 2 ^ 18 := by
    decide
  have hclip := (toNat_clip_region l).1
  unfold cap_pages
  dsimp only
  by_cases hwrap : best_pages l < dropped_pages l
  · rw [if_pos hwrap] at hclip
    have htaken : taken_pages l = 2 ^ 18 := if_pos hwrap
    rw [if_pos (UInt64.lt_iff_toNat_lt.mpr (by omega)), hmost, htaken]
  · rw [if_neg hwrap] at hclip
    have htaken : taken_pages l = min (usable_pages l) (2 ^ 18) := if_neg hwrap
    rw [htaken]
    by_cases hmore : 2 ^ 18 < usable_pages l
    · rw [if_pos (UInt64.lt_iff_toNat_lt.mpr (by omega)), hmost]
      exact (Nat.min_eq_right (Nat.le_of_lt hmore)).symm
    · have hle : ¬ UInt64.ofNat (1024 * 1024 * 1024) / UInt64.ofNat PAGE_SIZE <
          (clip_region (best_region l).1 (best_region l).2).1 := by
        rw [UInt64.lt_iff_toNat_lt]
        omega
      rw [if_neg hle, hclip]
      exact (Nat.min_eq_left (Nat.le_of_not_lt hmore)).symm

/-- The function behind its loop. -/
theorem choose_range_of_largest {regions : Nat → Except Fault PageRegion} {n : Nat}
    {best : UInt64 × UInt64} (h : largest_region regions n = .ok best) {addr : UInt64}
    (haddr : (clip_region best.1 best.2).2 = addr) {log2size : Nat}
    (hlog : log2 (cap_pages (clip_region best.1 best.2).1 * UInt64.ofNat PAGE_SIZE).toNat =
      log2size) :
    choose_range regions n =
      if ¬ addr ≥ UInt64.ofNat IDENTITY_MAP_PHY_START then
        .error (.assertion "region out of identity map region")
      else if ¬ addr + UInt64.ofNat (2 ^ log2size) ≤ UInt64.ofNat IDENTITY_MAP_PHY_END then
        .error (.assertion "region out of identity map region")
      else .ok ⟨addr, log2size⟩ := by
  subst haddr hlog
  unfold choose_range
  rw [h]
  rfl

theorem range_start_lt : range_start l < 2 ^ 32 := by
  have hlow : best_start l < 2 ^ 32 := (best_region_best l).low
  have hstart : IDENTITY_MAP_PHY_START = 2 ^ 26 := by decide
  unfold range_start
  omega

/-- The range has at most 1 GiB. -/
theorem range_log2_le : range_log2 l ≤ 30 := by
  have htaken := taken_pages_le l
  unfold range_log2
  by_cases hzero : taken_pages l * PAGE_SIZE = 0
  · rw [hzero, Nat.log2_zero]
    omega
  · have hlt : Nat.log2 (taken_pages l * PAGE_SIZE) < 31 := by
      rw [Nat.log2_lt hzero, PAGE_SIZE]
      omega
    omega

/-- It has at least one block of the allocator when 16 pages are taken. -/
theorem le_range_log2_iff : 16 ≤ range_log2 l ↔ 16 ≤ taken_pages l := by
  unfold range_log2
  by_cases hzero : taken_pages l = 0
  · rw [hzero, Nat.zero_mul, Nat.log2_zero]
  · have hne : taken_pages l * PAGE_SIZE ≠ 0 := Nat.mul_ne_zero hzero (by decide)
    rw [Nat.le_log2 hne, PAGE_SIZE]
    omega

/-- It has no more than the pages that are taken. -/
theorem range_size_le (htaken : taken_pages l ≠ 0) :
    2 ^ range_log2 l ≤ taken_pages l * PAGE_SIZE :=
  Nat.log2_self_le (Nat.mul_ne_zero htaken (by decide))

/-- The size of the range is a power of two of pages. -/
theorem exists_pow_of_taken (htaken : taken_pages l ≠ 0) :
    ∃ k, 2 ^ range_log2 l = 2 ^ k * PAGE_SIZE := by
  have hle : 12 ≤ range_log2 l := by
    rw [range_log2, Nat.le_log2 (Nat.mul_ne_zero htaken (by decide)), PAGE_SIZE]
    omega
  refine ⟨range_log2 l - 12, ?_⟩
  rw [show PAGE_SIZE = 2 ^ 12 from rfl, ← Nat.pow_add, Nat.sub_add_cancel hle]

/-- It is the largest that the pages taken hold. -/
theorem pow_le_of_taken {k : Nat} (hk : 2 ^ k ≤ taken_pages l) :
    2 ^ k * PAGE_SIZE ≤ 2 ^ range_log2 l := by
  have hpos : 0 < 2 ^ k := Nat.two_pow_pos k
  have hne : taken_pages l * PAGE_SIZE ≠ 0 := Nat.mul_ne_zero (by omega) (by decide)
  rw [show PAGE_SIZE = 2 ^ 12 from rfl, ← Nat.pow_add]
  apply Nat.pow_le_pow_right (by decide)
  rw [range_log2, Nat.le_log2 hne, Nat.pow_add]
  exact Nat.mul_le_mul_right _ hk

theorem toNat_range_start : (UInt64.ofNat (range_start l)).toNat = range_start l := by
  have hlt := range_start_lt l
  exact UInt64.toNat_ofNat_of_lt' (by show _ < 2 ^ 64; omega)

/-- The subtraction has not wrapped if pages are left. -/
theorem not_wrap_of_usable (h : usable_pages l ≠ 0) : ¬ best_pages l < dropped_pages l := by
  unfold usable_pages at h
  omega

theorem taken_pages_of_usable (h : usable_pages l ≠ 0) :
    taken_pages l = min (usable_pages l) (2 ^ 18) :=
  if_neg (not_wrap_of_usable l h)

/-- **What is chosen**, for every list of regions. Only the second assertion can fail. -/
theorem choose_range_eq :
    choose_range (nth_region l) l.length =
      if IDENTITY_MAP_PHY_END < range_start l + 2 ^ range_log2 l then
        .error (.assertion "region out of identity map region")
      else .ok ⟨UInt64.ofNat (range_start l), range_log2 l⟩ := by
  have hstart_lt := range_start_lt l
  have hlog_le := range_log2_le l
  have htaken := taken_pages_le l
  have hpow : 2 ^ range_log2 l ≤ 2 ^ 30 := Nat.pow_le_pow_right (by decide) hlog_le
  have hlow : (UInt64.ofNat IDENTITY_MAP_PHY_START).toNat = IDENTITY_MAP_PHY_START := by decide
  have hhigh : (UInt64.ofNat IDENTITY_MAP_PHY_END).toNat = IDENTITY_MAP_PHY_END := by decide
  have hsize : (UInt64.ofNat (2 ^ range_log2 l)).toNat = 2 ^ range_log2 l :=
    UInt64.toNat_ofNat_of_lt' (by show _ < 2 ^ 64; omega)
  have haddr : (clip_region (best_region l).1 (best_region l).2).2 =
      UInt64.ofNat (range_start l) := by
    rw [← UInt64.toNat_inj, (toNat_clip_region l).2, toNat_range_start]
  have hlog : log2 (cap_pages (clip_region (best_region l).1 (best_region l).2).1 *
      UInt64.ofNat PAGE_SIZE).toNat = range_log2 l := by
    have hpage : (UInt64.ofNat PAGE_SIZE).toNat = PAGE_SIZE := by decide
    have hlt : taken_pages l * PAGE_SIZE < 2 ^ 64 := by
      rw [PAGE_SIZE]
      omega
    rw [UInt64.toNat_mul, toNat_cap_pages, hpage, Nat.mod_eq_of_lt hlt, log2_eq]
    rfl
  have hge : UInt64.ofNat (range_start l) ≥ UInt64.ofNat IDENTITY_MAP_PHY_START := by
    rw [ge_iff_le, UInt64.le_iff_toNat_le, hlow, toNat_range_start]
    exact Nat.le_max_right _ _
  have hle : UInt64.ofNat (range_start l) + UInt64.ofNat (2 ^ range_log2 l) ≤
      UInt64.ofNat IDENTITY_MAP_PHY_END ↔
      ¬ IDENTITY_MAP_PHY_END < range_start l + 2 ^ range_log2 l := by
    rw [UInt64.le_iff_toNat_le, UInt64.toNat_add, toNat_range_start, hsize, hhigh,
      Nat.mod_eq_of_lt (by omega)]
    omega
  rw [choose_range_of_largest (largest_region_eq l) haddr hlog, if_neg (not_not_intro hge)]
  by_cases hout : IDENTITY_MAP_PHY_END < range_start l + 2 ^ range_log2 l
  · rw [if_pos hout, if_pos fun h => hle.mp h hout]
  · rw [if_neg hout, if_neg (not_not_intro (hle.mpr hout))]

end range

/-! ## What the choice is for -/

/-- A range lies in a region. -/
def PageRegion.Contains (r : PageRegion) (start log2size : Nat) : Prop :=
  r.phy_start.toNat ≤ start ∧ start + 2 ^ log2size ≤ r.phy_start.toNat + r.size.toNat

/-- The range has between one smallest block and 1 GiB, and it lies in the identity map and in one
    of the regions. -/
structure RangeRight (l : List PageRegion) (range : BuddyRange) : Prop where
  log2_ge : 16 ≤ range.log2size
  log2_le : range.log2size ≤ 30
  start_ge : IDENTITY_MAP_PHY_START ≤ range.max_pages_addr.toNat
  end_le : range.max_pages_addr.toNat + 2 ^ range.log2size ≤ IDENTITY_MAP_PHY_END
  contained : ∃ r ∈ l, r.Contains range.max_pages_addr.toNat range.log2size

/-- An assertion fails, or a right range is chosen. -/
def ChoiceRight (l : List PageRegion) : Prop :=
  match choose_range (nth_region l) l.length with
  | .ok range => RangeRight l range
  | .error e => ∃ message, e = .assertion message

section right

variable {l : List PageRegion}

/-- When the subtraction wraps, no region has the gigabyte that is taken: it would have been the
    largest. -/
theorem not_contained_of_wrap (hwrap : best_pages l < dropped_pages l) :
    ¬ ∃ r ∈ l, r.Contains (range_start l) (range_log2 l) := by
  intro ⟨r, hr, hstart, hend⟩
  have hrange := range_start_lt l
  have hdropped := dropped_pages_le l
  have hlog : range_log2 l = 30 := by
    rw [range_log2, taken_pages, if_pos hwrap]
    decide +kernel
  have hlow : r.StartsLow := Nat.lt_of_le_of_lt hstart hrange
  have hlargest : r.pages ≤ best_pages l := (best_region_best l).largest r hr hlow
  rw [hlog] at hend
  rw [PageRegion.pages, PAGE_SIZE] at hlargest
  omega

/-- The gigabyte ends in the identity map. -/
theorem not_lt_of_wrap (hwrap : best_pages l < dropped_pages l) :
    ¬ IDENTITY_MAP_PHY_END < range_start l + 2 ^ range_log2 l := by
  have hpow : 2 ^ range_log2 l ≤ 2 ^ 30 := Nat.pow_le_pow_right (by decide) (range_log2_le l)
  have hmap : IDENTITY_MAP_PHY_START + 2 ^ 30 ≤ IDENTITY_MAP_PHY_END := by decide
  have hstart : range_start l = IDENTITY_MAP_PHY_START := by
    by_contra hne
    have hbest : range_start l = best_start l := by
      unfold range_start at hne ⊢
      omega
    rw [dropped_pages, hbest, Nat.sub_self, Nat.zero_div] at hwrap
    exact absurd hwrap (Nat.not_lt_zero _)
  omega

/-- When a range that ends in the identity map is right. -/
theorem rangeRight_iff (hin : range_start l + 2 ^ range_log2 l ≤ IDENTITY_MAP_PHY_END) :
    RangeRight l ⟨UInt64.ofNat (range_start l), range_log2 l⟩ ↔
      16 ≤ usable_pages l ∧ ∃ r ∈ l, r.Contains (range_start l) (range_log2 l) := by
  constructor
  · intro ⟨hge, _, _, _, hcontained⟩
    simp only [toNat_range_start] at hcontained
    refine ⟨?_, hcontained⟩
    by_cases hwrap : best_pages l < dropped_pages l
    · exact absurd hcontained (not_contained_of_wrap hwrap)
    · have htaken : taken_pages l = min (usable_pages l) (2 ^ 18) := if_neg hwrap
      have hpages := (le_range_log2_iff l).mp hge
      omega
  · intro ⟨husable, hcontained⟩
    have htaken := taken_pages_of_usable l (by omega)
    refine ⟨(le_range_log2_iff l).mpr (by omega), range_log2_le l, ?_, ?_, ?_⟩
    · rw [toNat_range_start]
      exact Nat.le_max_right _ _
    · rw [toNat_range_start]
      exact hin
    · simp only [toNat_range_start]
      exact hcontained

theorem choiceRight_iff_contained :
    ChoiceRight l ↔
      IDENTITY_MAP_PHY_END < range_start l + 2 ^ range_log2 l ∨
      16 ≤ usable_pages l ∧ ∃ r ∈ l, r.Contains (range_start l) (range_log2 l) := by
  unfold ChoiceRight
  rw [choose_range_eq]
  by_cases hout : IDENTITY_MAP_PHY_END < range_start l + 2 ^ range_log2 l
  · rw [if_pos hout]
    exact ⟨fun _ => .inl hout, fun _ => ⟨_, rfl⟩⟩
  · rw [if_neg hout, or_iff_right hout]
    exact rangeRight_iff (Nat.le_of_not_lt hout)

/-! ## Conditions on the regions -/

/-- The whole pages of a region before the identity map. -/
def PageRegion.low_pages (r : PageRegion) : Nat :=
  (IDENTITY_MAP_PHY_START - r.phy_start.toNat) / PAGE_SIZE

/-- The pages of a region that are left, none when there were not so many. -/
def PageRegion.pages_left (r : PageRegion) : Nat := r.pages - r.low_pages

/-- The region holds a power of two of pages, 1 GiB at most, that goes over the end of the identity
    map. -/
def PageRegion.CrossesEnd (r : PageRegion) : Prop :=
  IDENTITY_MAP_PHY_START ≤ r.phy_start.toNat ∧
    ∃ k ≤ 18, 2 ^ k ≤ r.pages ∧ IDENTITY_MAP_PHY_END < r.phy_start.toNat + 2 ^ k * PAGE_SIZE

/-- The region ends with the page that is taken last: the part of a page before the identity map is
    not longer than the one at its end, or some page is left over. -/
def PageRegion.LastPage (r : PageRegion) : Prop :=
  (IDENTITY_MAP_PHY_START - r.phy_start.toNat) % PAGE_SIZE ≤ r.size.toNat % PAGE_SIZE ∨
    ∀ k ≤ 18, r.pages_left ≠ 2 ^ k

/-- A region, maybe another one, goes from before the identity map to the end of that page. -/
def PageRegion.Overlapped (l : List PageRegion) (r : PageRegion) : Prop :=
  ∃ r' ∈ l, r'.phy_start.toNat ≤ IDENTITY_MAP_PHY_START ∧
    IDENTITY_MAP_PHY_START + r.pages_left * PAGE_SIZE ≤ r'.phy_start.toNat + r'.size.toNat

section largest

variable {r : PageRegion}

/-- The numbers of the code, for the region that it ends with. -/
theorem Largest.range (h : Largest l r) :
    range_start l = max r.phy_start.toNat IDENTITY_MAP_PHY_START ∧
      dropped_pages l = r.low_pages ∧ best_pages l = r.pages := by
  have hbest := best_region_of_largest h
  have hstart : range_start l = max r.phy_start.toNat IDENTITY_MAP_PHY_START := by
    rw [range_start, best_start, hbest]
  refine ⟨hstart, ?_, ?_⟩
  · have hskip : max r.phy_start.toNat IDENTITY_MAP_PHY_START - r.phy_start.toNat =
        IDENTITY_MAP_PHY_START - r.phy_start.toNat := by omega
    rw [dropped_pages, hstart, best_start, hbest, PageRegion.low_pages, hskip]
  · rw [best_pages, hbest]
    exact toNat_pages r.size

theorem Largest.usable_pages_eq (h : Largest l r) : usable_pages l = r.pages_left := by
  obtain ⟨_, hdropped, hpages⟩ := h.range
  rw [usable_pages, hdropped, hpages, PageRegion.pages_left]

/-- Where the pages that are left end: the parts of pages at the two ends of the region make the
    difference to its own end. -/
theorem PageRegion.end_eq (hleft : r.pages_left ≠ 0) :
    max r.phy_start.toNat IDENTITY_MAP_PHY_START + r.pages_left * PAGE_SIZE +
        r.size.toNat % PAGE_SIZE =
      r.phy_start.toNat + r.size.toNat +
        (IDENTITY_MAP_PHY_START - r.phy_start.toNat) % PAGE_SIZE := by
  unfold PageRegion.pages_left PageRegion.pages PageRegion.low_pages PAGE_SIZE at *
  omega

theorem Largest.mem (h : Largest l r) : r ∈ l := by
  obtain ⟨before, after, rfl, _⟩ := h
  simp

/-- The second assertion can only fail for a region in the identity map. -/
theorem Largest.crossesEnd_iff (h : Largest l r) :
    IDENTITY_MAP_PHY_END < range_start l + 2 ^ range_log2 l ↔ r.CrossesEnd := by
  obtain ⟨hstart, hdropped, hpages⟩ := h.range
  have hpow : 2 ^ range_log2 l ≤ 2 ^ 30 := Nat.pow_le_pow_right (by decide) (range_log2_le l)
  have hmap : IDENTITY_MAP_PHY_START + 2 ^ 30 ≤ IDENTITY_MAP_PHY_END := by decide
  by_cases hlow : r.phy_start.toNat < IDENTITY_MAP_PHY_START
  · -- the range starts with the identity map, which is larger than any range
    constructor
    · intro hout
      omega
    · intro ⟨hge, _⟩
      omega
  · -- it starts with the region, of which no page is dropped
    have hnone : r.low_pages = 0 := by
      rw [PageRegion.low_pages, Nat.sub_eq_zero_of_le (Nat.le_of_not_lt hlow)]
      rfl
    have hpos : 0 < r.pages := by
      obtain ⟨_, _, _, hpos, _⟩ := h
      exact hpos
    have husable : usable_pages l = r.pages := by
      rw [h.usable_pages_eq, PageRegion.pages_left, hnone, Nat.sub_zero]
    have htaken := taken_pages_of_usable l (by omega)
    have hstart' : range_start l = r.phy_start.toNat := by omega
    have hsize := range_size_le l (by omega)
    rw [hstart']
    constructor
    · intro hout
      obtain ⟨k, hk⟩ := exists_pow_of_taken l (by omega)
      refine ⟨Nat.le_of_not_lt hlow, k, ?_, ?_, ?_⟩
      · have hlog := range_log2_le l
        have hle : 2 ^ k * PAGE_SIZE ≤ 2 ^ 18 * PAGE_SIZE := by
          rw [← hk]
          exact Nat.le_trans hpow (by decide)
        exact (Nat.pow_le_pow_iff_right (by decide)).mp (Nat.le_of_mul_le_mul_right hle (by decide))
      · rw [hk] at hsize
        have hle := Nat.le_of_mul_le_mul_right hsize (by decide : 0 < PAGE_SIZE)
        omega
      · rw [← hk]
        exact hout
    · intro ⟨_, k, hk, hle, hout⟩
      have hcap : 2 ^ k ≤ 2 ^ 18 := Nat.pow_le_pow_right (by decide) hk
      have hless : 2 ^ k * PAGE_SIZE ≤ 2 ^ range_log2 l := pow_le_of_taken l (by omega)
      omega

/-- A power of two of the pages leaves one out, unless they are one themselves. -/
theorem Largest.size_le_of_ne_pow (h : Largest l r) (hleft : r.pages_left ≠ 0)
    (hpow : ∀ k ≤ 18, r.pages_left ≠ 2 ^ k) :
    2 ^ range_log2 l ≤ (r.pages_left - 1) * PAGE_SIZE := by
  have husable := h.usable_pages_eq
  have htaken := taken_pages_of_usable l (by omega)
  have hsize := range_size_le l (by omega)
  obtain ⟨j, hj⟩ := exists_pow_of_taken l (by omega)
  rw [hj] at hsize ⊢
  have hle := Nat.le_of_mul_le_mul_right hsize (by decide : 0 < PAGE_SIZE)
  apply Nat.mul_le_mul_right
  by_cases hcap : r.pages_left ≤ 2 ^ 18
  · have hk : j ≤ 18 := (Nat.pow_le_pow_iff_right (by decide : 1 < 2)).mp (by omega)
    have hne := hpow j hk
    omega
  · omega

/-- **The range lies in a region** when the last page does, of this region or of another. -/
theorem Largest.contained_iff (h : Largest l r) (hleft : r.pages_left ≠ 0) :
    (∃ r' ∈ l, r'.Contains (range_start l) (range_log2 l)) ↔
      r.LastPage ∨ PageRegion.Overlapped l r := by
  obtain ⟨hstart, _, _⟩ := h.range
  have husable := h.usable_pages_eq
  have htaken := taken_pages_of_usable l (by omega)
  have hsize := range_size_le l (by omega)
  constructor
  · intro ⟨r', hr', hfirst, hend⟩
    by_cases hlast : r.LastPage
    · exact .inl hlast
    · -- the pages left are a power of two, and all of them are taken
      right
      obtain ⟨hpart, hpow⟩ := not_or.mp hlast
      push Not at hpow
      obtain ⟨k, hk, hpages⟩ := hpow
      have hcap : 2 ^ k ≤ 2 ^ 18 := Nat.pow_le_pow_right (by decide) hk
      have hall : 2 ^ k * PAGE_SIZE ≤ 2 ^ range_log2 l := pow_le_of_taken l (by omega)
      have hlow : r.phy_start.toNat ≤ IDENTITY_MAP_PHY_START := by
        by_contra hhigh
        rw [Nat.sub_eq_zero_of_le (by omega), Nat.zero_mod] at hpart
        exact hpart (Nat.zero_le _)
      rw [hstart, Nat.max_eq_right hlow] at hfirst hend
      refine ⟨r', hr', hfirst, ?_⟩
      rw [hpages]
      omega
  · intro hlast
    have hend := r.end_eq hleft
    have hpart_lt := Nat.mod_lt (IDENTITY_MAP_PHY_START - r.phy_start.toNat)
      (by decide : 0 < PAGE_SIZE)
    have hpages : 2 ^ range_log2 l ≤ r.pages_left * PAGE_SIZE :=
      Nat.le_trans hsize (Nat.mul_le_mul_right _ (by omega))
    rcases hlast with (hpart | hpow) | ⟨r', hr', hfirst, hreach⟩
    · exact ⟨r, h.mem, by omega, by omega⟩
    · -- one page less than those that are left is always in the region
      have hless := h.size_le_of_ne_pow hleft hpow
      have hone : PAGE_SIZE ≤ r.pages_left * PAGE_SIZE := Nat.le_mul_of_pos_left _ (by omega)
      rw [Nat.sub_mul, Nat.one_mul] at hless
      exact ⟨r, h.mem, by omega, by omega⟩
    · by_cases hlow : r.phy_start.toNat ≤ IDENTITY_MAP_PHY_START
      · exact ⟨r', hr', by omega, by omega⟩
      · -- there are no pages before the identity map
        rw [Nat.sub_eq_zero_of_le (by omega), Nat.zero_mod] at hend
        exact ⟨r, h.mem, by omega, by omega⟩

end largest

theorem lastPage_of_aligned {r : PageRegion} (h : r.phy_start.toNat % PAGE_SIZE = 0) :
    r.LastPage := by
  have hmap : IDENTITY_MAP_PHY_START = 16384 * PAGE_SIZE := by decide
  left
  rw [hmap]
  rw [PAGE_SIZE] at *
  omega

/-- Without a region that has a page the subtraction wraps. -/
theorem wrap_of_none (hnone : best_region l = (0, 0)) : best_pages l < dropped_pages l := by
  rw [best_pages, dropped_pages, range_start, best_start, hnone]
  decide

end right

/-- **When the choice is right**, by the region that is the first of the largest: a power of two of
    its pages goes over the end of the identity map, so that the second assertion fails, or 16 pages
    are left and the last page that is taken lies in a region. For regions that start at a page 16
    pages are enough. -/
theorem choice_right_iff (l : List PageRegion) :
    (ChoiceRight l ↔ ∃ r, Largest l r ∧ (r.CrossesEnd ∨
      16 ≤ r.pages_left ∧ (r.LastPage ∨ PageRegion.Overlapped l r))) ∧
    ((∀ r ∈ l, r.phy_start.toNat % PAGE_SIZE = 0) →
      (ChoiceRight l ↔ ∃ r, Largest l r ∧ (r.CrossesEnd ∨ 16 ≤ r.pages_left))) := by
  have hright : ChoiceRight l ↔ ∃ r, Largest l r ∧ (r.CrossesEnd ∨
      16 ≤ r.pages_left ∧ (r.LastPage ∨ PageRegion.Overlapped l r)) := by
    rw [choiceRight_iff_contained]
    constructor
    · intro h
      rcases (best_region_best l).chosen with hnone | ⟨r, hr, _⟩
      · -- the gigabyte that is taken then lies in no region
        have hwrap := wrap_of_none hnone
        rcases h with hout | ⟨_, hcontained⟩
        · exact absurd hout (not_lt_of_wrap hwrap)
        · exact absurd hcontained (not_contained_of_wrap hwrap)
      · refine ⟨r, hr, ?_⟩
        rw [hr.crossesEnd_iff, hr.usable_pages_eq] at h
        rcases h with hout | ⟨hleft, hcontained⟩
        · exact .inl hout
        · exact .inr ⟨hleft, (hr.contained_iff (by omega)).mp hcontained⟩
    · intro ⟨r, hr, h⟩
      rw [hr.crossesEnd_iff, hr.usable_pages_eq]
      rcases h with hout | ⟨hleft, hlast⟩
      · exact .inl hout
      · exact .inr ⟨hleft, (hr.contained_iff (by omega)).mpr hlast⟩
  refine ⟨hright, ?_⟩
  intro haligned
  rw [hright]
  constructor
  · intro ⟨r, hr, h⟩
    refine ⟨r, hr, ?_⟩
    rcases h with hout | ⟨hleft, _⟩
    · exact .inl hout
    · exact .inr hleft
  · intro ⟨r, hr, h⟩
    refine ⟨r, hr, ?_⟩
    rcases h with hout | hleft
    · exact .inl hout
    · exact .inr ⟨hleft, .inl (lastPage_of_aligned (haligned r hr.mem))⟩

/-- Memory from 1 MiB to 2 GiB. -/
def large_memory : List PageRegion := [⟨7, 0x100000, 0, 0x7ff00000, 0xf⟩]

theorem large_memory_right :
    choose_range (nth_region large_memory) large_memory.length = .ok ⟨0x4000000, 30⟩ ∧
    ChoiceRight large_memory := by
  refine ⟨by decide +kernel, ((choice_right_iff large_memory).2 (by decide)).mpr ?_⟩
  exact ⟨_, ⟨[], [], rfl, by decide, (by decide : 0x100000 < 2 ^ 32), by simp, by simp⟩,
    .inr (by decide)⟩

/-- Memory from 1 MiB to 32 MiB. -/
def small_memory : List PageRegion := [⟨7, 0x100000, 0, 0x1f00000, 0xf⟩]

/-- A gigabyte is taken from a machine that has 31 MiB, all of them below the identity map. -/
theorem small_memory_gigabyte :
    choose_range (nth_region small_memory) small_memory.length = .ok ⟨0x4000000, 30⟩ ∧
    ¬ ChoiceRight small_memory := by
  have hchoice : choose_range (nth_region small_memory) small_memory.length =
      .ok ⟨0x4000000, 30⟩ := by decide +kernel
  refine ⟨hchoice, ?_⟩
  intro h
  unfold ChoiceRight at h
  rw [hchoice] at h
  obtain ⟨r, hr, _, hend⟩ := h.contained
  obtain rfl := List.mem_singleton.mp hr
  revert hend
  decide

end Modern05
