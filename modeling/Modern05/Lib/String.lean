import Mathlib.Data.UInt
import Modern05.Framework.Loop

/-! # Strings

    `strcmp` of `lib/string.cpp`. Its loop goes on as long as one of the strings has ended, where
    it should go on as long as none has: two strings that are not empty are equal for it, and two
    empty ones send it behind their ends.

    * `strcmp_cases`: what a call does, by whether the strings are empty.
    * `strcmp_lexicographic_iff`: when this is the lexicographic comparison.
-/

namespace Modern05

open Loop

/-- The body of the loop with index `i`, over the bytes from the two pointers on. Both are read at
    this index: `b[i]` in the condition or, if `a` has ended, in the body. -/
def strcmp_round (a b : Nat → UInt8) (i : Nat) : Outcome Nat Int :=
  if a i = 0 ∨ b i = 0 then
    let lhs := a i
    let rhs := b i
    if lhs < rhs then .done (-1)
    else if lhs > rhs then .done 1
    else .next (i + 1)
  else .done 0

/-- The result, if at most `fuel` rounds are enough. -/
def strcmp (fuel : Nat) (a b : Nat → UInt8) : Option Int := run (strcmp_round a b) fuel 0

/-- The indices at which a call reads the strings. -/
def strcmp_reads (a b : Nat → UInt8) : Set Nat := {i | Visits (strcmp_round a b) 0 i}

/-- A pointer to a string, with anything behind its terminator. -/
structure IsString (p : Nat → UInt8) (s : List UInt8) : Prop where
  char : ∀ i (hi : i < s.length), p i = s[i]
  nonzero : ∀ c ∈ s, c ≠ 0
  terminator : p s.length = 0

/-- The sign of a result is that of the comparison of the strings, as lists of unsigned bytes. -/
structure ComparesTo (r : Int) (s t : List UInt8) : Prop where
  neg : r < 0 ↔ s < t
  zero : r = 0 ↔ s = t
  pos : 0 < r ↔ t < s

section strings

variable {a b : Nat → UInt8} {s t : List UInt8} {i : Nat} {r : Int}

theorem IsString.first_eq_zero_iff (h : IsString a s) : a 0 = 0 ↔ s = [] := by
  cases s with
  | nil => exact ⟨fun _ => rfl, fun _ => h.terminator⟩
  | cons c s =>
    have hfirst : a 0 = c := h.char 0 (Nat.succ_pos _)
    rw [hfirst]
    exact ⟨fun hzero => absurd hzero (h.nonzero c List.mem_cons_self), fun hnil => nomatch hnil⟩

/-- A call that returns in its first round reads the first bytes only. -/
theorem strcmp_of_done (h : strcmp_round a b 0 = .done r) :
    strcmp 1 a b = some r ∧ strcmp_reads a b = {0} := by
  refine ⟨run_of_done h, Set.eq_singleton_iff_unique_mem.mpr ⟨.refl, fun i hi => ?_⟩⟩
  exact eq_of_visits_done h hi

/-- **What a call does.** Two strings that are not empty are not compared, one that is empty comes
    first, and behind two that are empty the call goes on. -/
theorem strcmp_cases (ha : IsString a s) (hb : IsString b t) :
    (s ≠ [] ∧ t ≠ [] → strcmp 1 a b = some 0 ∧ strcmp_reads a b = {0}) ∧
    (s = [] ∧ t ≠ [] → strcmp 1 a b = some (-1) ∧ strcmp_reads a b = {0}) ∧
    (s ≠ [] ∧ t = [] → strcmp 1 a b = some 1 ∧ strcmp_reads a b = {0}) ∧
    (s = [] ∧ t = [] → 1 ∈ strcmp_reads a b) := by
  have hs := ha.first_eq_zero_iff
  have ht := hb.first_eq_zero_iff
  refine ⟨fun ⟨hs₀, ht₀⟩ => strcmp_of_done ?_, fun ⟨hs₀, ht₀⟩ => strcmp_of_done ?_,
    fun ⟨hs₀, ht₀⟩ => strcmp_of_done ?_, fun ⟨hs₀, ht₀⟩ => ?_⟩
  · have ha₀ : a 0 ≠ 0 := fun h => hs₀ (hs.mp h)
    have hb₀ : b 0 ≠ 0 := fun h => ht₀ (ht.mp h)
    simp [strcmp_round, ha₀, hb₀]
  · have ha₀ : a 0 = 0 := hs.mpr hs₀
    have hb₀ : 0 < b 0 := UInt8.pos_iff_ne_zero.mpr fun h => ht₀ (ht.mp h)
    simp [strcmp_round, ha₀, hb₀]
  · have ha₀ : 0 < a 0 := UInt8.pos_iff_ne_zero.mpr fun h => hs₀ (hs.mp h)
    have hb₀ : b 0 = 0 := ht.mpr ht₀
    simp [strcmp_round, hb₀, ha₀]
  · have hnext : strcmp_round a b 0 = .next 1 := by
      simp [strcmp_round, hs.mpr hs₀, ht.mpr ht₀]
    exact Relation.ReflTransGen.single hnext

theorem nil_lt_of_ne_nil (h : s ≠ []) : [] < s := by
  obtain ⟨c, s', rfl⟩ := List.exists_cons_of_ne_nil h
  exact List.nil_lt_cons c s'

theorem comparesTo_of_lt (h : s < t) : ComparesTo (-1) s t := by
  have hne : s ≠ t := fun e => List.lt_irrefl t (e ▸ h)
  have hnot : ¬ t < s := List.lt_asymm h
  exact ⟨by simp [h], by simp [hne], by simp [hnot]⟩

theorem comparesTo_of_gt (h : t < s) : ComparesTo 1 s t := by
  have hne : s ≠ t := fun e => List.lt_irrefl t (e ▸ h)
  have hnot : ¬ s < t := List.lt_asymm h
  exact ⟨by simp [hnot], by simp [hne], by simp [h]⟩

theorem comparesTo_zero_iff : ComparesTo 0 s t ↔ s = t := by
  constructor
  · intro h
    exact h.zero.mp rfl
  · intro h
    subst h
    exact ⟨by simp, by simp, by simp⟩

/-- A common first byte does not matter. -/
theorem ComparesTo.cons (h : ComparesTo r s t) (c : UInt8) : ComparesTo r (c :: s) (c :: t) := by
  constructor
  · rw [h.neg, List.cons_lt_cons_iff]
    simp
  · rw [h.zero]
    simp
  · rw [h.pos, List.cons_lt_cons_iff]
    simp

end strings

/-- **`strcmp` is the lexicographic comparison exactly when one of the strings is empty, or both are
    the same and not empty**: only then it returns what it should and reads no byte behind a
    terminator. -/
theorem strcmp_lexicographic_iff (a b : Nat → UInt8) (s t : List UInt8) (ha : IsString a s)
    (hb : IsString b t) :
    ((∃ fuel r, strcmp fuel a b = some r ∧ ComparesTo r s t) ∧
        ∀ i ∈ strcmp_reads a b, i ≤ s.length ∧ i ≤ t.length) ↔
      (s = [] ∧ t ≠ []) ∨ (s ≠ [] ∧ t = []) ∨ (s ≠ [] ∧ s = t) := by
  obtain ⟨hboth, hleft, hright, hneither⟩ := strcmp_cases ha hb
  constructor
  · intro ⟨⟨fuel, r, hrun, hcompares⟩, hreads⟩
    by_cases hs : s = []
    · by_cases ht : t = []
      · have hbehind := (hreads 1 (hneither ⟨hs, ht⟩)).1
        rw [hs] at hbehind
        exact absurd hbehind (by simp)
      · exact .inl ⟨hs, ht⟩
    · by_cases ht : t = []
      · exact .inr (.inl ⟨hs, ht⟩)
      · have hzero : r = 0 := run_unique hrun (hboth ⟨hs, ht⟩).1
        rw [hzero] at hcompares
        exact .inr (.inr ⟨hs, comparesTo_zero_iff.mp hcompares⟩)
  · intro h
    have hfirst : ∀ i ∈ ({0} : Set Nat), i ≤ s.length ∧ i ≤ t.length := by
      intro i hi
      have hi : i = 0 := hi
      omega
    rcases h with h | h | ⟨hs, hst⟩
    · obtain ⟨hrun, hreads⟩ := hleft h
      rw [hreads, h.1]
      exact ⟨⟨1, -1, hrun, comparesTo_of_lt (nil_lt_of_ne_nil h.2)⟩, h.1 ▸ hfirst⟩
    · obtain ⟨hrun, hreads⟩ := hright h
      rw [hreads, h.2]
      exact ⟨⟨1, 1, hrun, comparesTo_of_gt (nil_lt_of_ne_nil h.1)⟩, h.2 ▸ hfirst⟩
    · obtain ⟨hrun, hreads⟩ := hboth ⟨hs, hst ▸ hs⟩
      rw [hreads]
      exact ⟨⟨1, 0, hrun, comparesTo_zero_iff.mpr hst⟩, hfirst⟩

/-- The bytes of a string and zeros behind them. -/
def c_string (s : List UInt8) (i : Nat) : UInt8 := s.getD i 0

theorem isString_c_string {s : List UInt8} (h : ∀ c ∈ s, c ≠ 0) : IsString (c_string s) s := by
  constructor
  · intro i hi
    simp [c_string, hi]
  · exact h
  · simp [c_string]

/-- The empty string comes before "a", and "ab" is the same as "ab". -/
theorem empty_and_equal_compared :
    (∃ fuel r, strcmp fuel (c_string []) (c_string [0x61]) = some r ∧ ComparesTo r [] [0x61]) ∧
    ∃ fuel r, strcmp fuel (c_string [0x61, 0x62]) (c_string [0x61, 0x62]) = some r ∧
      ComparesTo r [0x61, 0x62] [0x61, 0x62] := by
  have hempty := strcmp_lexicographic_iff (c_string []) (c_string [0x61]) [] [0x61]
    (isString_c_string (by simp)) (isString_c_string (by simp))
  have hequal := strcmp_lexicographic_iff (c_string [0x61, 0x62]) (c_string [0x61, 0x62])
    [0x61, 0x62] [0x61, 0x62] (isString_c_string (by simp)) (isString_c_string (by simp))
  exact ⟨(hempty.mpr (by simp)).1, (hequal.mpr (by simp)).1⟩

/-- "a" and "b" are equal for `strcmp`, and with two empty strings it reads behind their ends. -/
theorem different_strings_equal :
    strcmp 1 (c_string [0x61]) (c_string [0x62]) = some 0 ∧ ¬ ComparesTo 0 [0x61] [0x62] ∧
    1 ∈ strcmp_reads (c_string []) (c_string []) := by
  have hnil : IsString (c_string []) [] := isString_c_string (by simp)
  refine ⟨by decide, ?_, (strcmp_cases hnil hnil).2.2.2 ⟨rfl, rfl⟩⟩
  rw [comparesTo_zero_iff]
  decide

end Modern05
