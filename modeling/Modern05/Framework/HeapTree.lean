import Mathlib.Data.Nat.Log
import Mathlib.Order.Interval.Finset.Nat
import Mathlib.Tactic.Ring

/-! # Heap-numbered binary trees

    The nodes of a complete binary tree are numbered row by row from the root
    `0`: the children of `i` are `2 * i + 1` and `2 * i + 2`. This file holds the
    geometry of the numbering, independent of what is stored at the nodes.

    * `level i`: the depth of a node; row `d` is `2 ^ d - 1 .. 2 ^ (d + 1) - 2`.
    * `Within i a`: node `i` lies in the subtree of `a` (which contains `a`).
    * `within_iff`: the nodes `t` rows below `a` in its subtree are the interval
      from `(a + 1) * 2 ^ t - 1` up to `(a + 2) * 2 ^ t - 1`.
-/

namespace HeapTree

/-! ## Moving by one -/

def left (i : Nat) : Nat := 2 * i + 1

def right (i : Nat) : Nat := 2 * i + 2

def parent (i : Nat) : Nat := (i - 1) / 2

/-- The other child of the same parent. -/
def sibling (i : Nat) : Nat := if i % 2 = 0 then i - 1 else i + 1

/-- The row of a node. -/
def level (i : Nat) : Nat := Nat.log2 (i + 1)

@[simp] theorem parent_left (i : Nat) : parent (left i) = i := by
  unfold parent left; omega

@[simp] theorem parent_right (i : Nat) : parent (right i) = i := by
  unfold parent right; omega

theorem parent_lt {i : Nat} (h : 0 < i) : parent i < i := by
  unfold parent; omega

theorem left_pos (i : Nat) : 0 < left i := by unfold left; omega

theorem right_pos (i : Nat) : 0 < right i := by unfold right; omega

theorem left_ne_right (i : Nat) : left i ≠ right i := by unfold left right; omega

/-- A node other than the root is one of the children of its parent. -/
theorem eq_left_or_right {i : Nat} (h : 0 < i) :
    i = left (parent i) ∨ i = right (parent i) := by
  unfold left right parent; omega

@[simp] theorem sibling_left (i : Nat) : sibling (left i) = right i := by
  unfold sibling left right; split <;> omega

@[simp] theorem sibling_right (i : Nat) : sibling (right i) = left i := by
  unfold sibling left right; split <;> omega

theorem sibling_ne {i : Nat} (h : 0 < i) : sibling i ≠ i := by
  unfold sibling; split <;> omega

theorem sibling_pos {i : Nat} (h : 0 < i) : 0 < sibling i := by
  unfold sibling; split <;> omega

theorem parent_sibling {i : Nat} (h : 0 < i) : parent (sibling i) = parent i := by
  unfold sibling parent; split <;> omega

/-- Two nodes with one parent are equal or siblings. -/
theorem eq_or_eq_sibling {i j : Nat} (hi : 0 < i) (hj : 0 < j) (h : parent j = parent i) :
    j = i ∨ j = sibling i := by
  unfold parent at h
  unfold sibling
  split <;> omega

/-! ## Rows -/

@[simp] theorem level_zero : level 0 = 0 := by simp [level, Nat.log2_def]

theorem level_spec (i : Nat) : 2 ^ level i ≤ i + 1 ∧ i + 1 < 2 ^ (level i + 1) :=
  ⟨Nat.log2_self_le (by omega), Nat.lt_log2_self⟩

/-- A row is recognised by its bounds. -/
theorem level_eq_of_bounds {i d : Nat} (h1 : 2 ^ d ≤ i + 1) (h2 : i + 1 < 2 ^ (d + 1)) :
    level i = d :=
  (Nat.log2_eq_iff (by omega)).mpr ⟨h1, h2⟩

/-- The first `m` rows are the nodes below `2 ^ m - 1`. -/
theorem level_lt_iff {i m : Nat} : level i < m ↔ i + 1 < 2 ^ m :=
  Nat.log2_lt (by omega)

theorem level_left (i : Nat) : level (left i) = level i + 1 := by
  obtain ⟨h1, h2⟩ := level_spec i
  apply level_eq_of_bounds <;> unfold left <;> rw [Nat.pow_succ] at * <;> omega

theorem level_right (i : Nat) : level (right i) = level i + 1 := by
  obtain ⟨h1, h2⟩ := level_spec i
  apply level_eq_of_bounds <;> unfold right <;> rw [Nat.pow_succ] at * <;> omega

theorem level_parent {i : Nat} (h : 0 < i) : level i = level (parent i) + 1 := by
  rcases eq_left_or_right h with h' | h'
  · rw [h', level_left, parent_left]
  · rw [h', level_right, parent_right]

theorem level_sibling {i : Nat} (h : 0 < i) : level (sibling i) = level i := by
  rw [level_parent (sibling_pos h), parent_sibling h, ← level_parent h]

/-! ## Subtrees -/

/-- Node `i` lies in the subtree of `a`. -/
inductive Within : Nat → Nat → Prop where
  | refl (i : Nat) : Within i i
  | up {i a : Nat} : 0 < i → Within (parent i) a → Within i a

theorem within_root (i : Nat) : Within i 0 := by
  induction i using Nat.strong_induction_on with
  | _ i ih =>
    rcases Nat.eq_zero_or_pos i with rfl | h
    · exact .refl 0
    · exact .up h (ih _ (parent_lt h))

theorem Within.trans {i a b : Nat} (h : Within i a) (h' : Within a b) : Within i b := by
  induction h with
  | refl _ => exact h'
  | up hpos _ ih => exact .up hpos (ih h')

theorem within_parent {i : Nat} (h : 0 < i) : Within i (parent i) := .up h (.refl _)

theorem Within.level_le {i a : Nat} (h : Within i a) : level a ≤ level i := by
  induction h with
  | refl _ => exact Nat.le_refl _
  | up hpos _ ih => rw [level_parent hpos]; omega

/-- A proper descendant is in the subtree of `a` through its parent. -/
theorem Within.parent_of_ne {i a : Nat} (h : Within i a) (hne : i ≠ a) :
    0 < i ∧ Within (parent i) a := by
  cases h with
  | refl _ => exact absurd rfl hne
  | up hpos h => exact ⟨hpos, h⟩

theorem Within.eq_of_level {i a : Nat} (h : Within i a) (hl : level i ≤ level a) : i = a := by
  by_contra hne
  obtain ⟨hpos, h'⟩ := h.parent_of_ne hne
  have := h'.level_le
  rw [level_parent hpos] at hl
  omega

theorem Within.antisymm {i a : Nat} (h : Within i a) (h' : Within a i) : i = a :=
  h.eq_of_level h'.level_le

/-- The subtrees a node lies in are nested. -/
theorem Within.total {i a b : Nat} (ha : Within i a) (hb : Within i b) :
    Within a b ∨ Within b a := by
  induction ha with
  | refl _ => exact .inl hb
  | up hpos h ih =>
    cases hb with
    | refl _ => exact .inr (.up hpos h)
    | up _ hb => exact ih hb

theorem within_left (a : Nat) : Within (left a) a := by
  have := within_parent (left_pos a)
  rwa [parent_left] at this

theorem within_right (a : Nat) : Within (right a) a := by
  have := within_parent (right_pos a)
  rwa [parent_right] at this

/-- **Subtrees are intervals**, row by row: the nodes `t` rows below `a` in the
    subtree of `a` are those from `(a + 1) * 2 ^ t - 1` to `(a + 2) * 2 ^ t - 2`. -/
theorem within_iff {i a t : Nat} (ht : level i = level a + t) :
    Within i a ↔ (a + 1) * 2 ^ t ≤ i + 1 ∧ i + 1 < (a + 2) * 2 ^ t := by
  induction t generalizing i with
  | zero =>
    simp only [Nat.pow_zero, Nat.mul_one]
    constructor
    · intro h
      have := h.eq_of_level (by omega)
      omega
    · intro h
      obtain rfl : i = a := by omega
      exact .refl _
  | succ t ih =>
    have hpos : 0 < i := by
      rcases Nat.eq_zero_or_pos i with rfl | h
      · rw [level_zero] at ht; omega
      · exact h
    have hl : level (parent i) = level a + t := by
      have := level_parent hpos
      omega
    have hstep : Within i a ↔ Within (parent i) a := by
      constructor
      · intro h
        refine (h.parent_of_ne ?_).2
        rintro rfl
        omega
      · exact .up hpos
    rw [hstep, ih hl, Nat.pow_succ, ← Nat.mul_assoc, ← Nat.mul_assoc]
    generalize (a + 1) * 2 ^ t = lo
    generalize (a + 2) * 2 ^ t = hi
    unfold parent
    omega

/-- The nodes of row `m` below a node of a higher row, as a set of numbers. -/
def rowBelow (m a : Nat) : Finset Nat :=
  Finset.Ico ((a + 1) * 2 ^ (m - level a) - 1) ((a + 2) * 2 ^ (m - level a) - 1)

theorem mem_rowBelow {m a i : Nat} (ha : level a ≤ m) :
    i ∈ rowBelow m a ↔ level i = m ∧ Within i a := by
  obtain ⟨h1, h2⟩ := level_spec a
  have hm : level a + (m - level a) = m := by omega
  generalize ht : m - level a = t at hm
  have hpow : ∀ x y : Nat, x ≤ y → x * 2 ^ t ≤ y * 2 ^ t := fun x y h => Nat.mul_le_mul_right _ h
  have hlo : 2 ^ m ≤ (a + 1) * 2 ^ t := by
    rw [← hm, Nat.pow_add]
    exact hpow _ _ h1
  have hhi : (a + 2) * 2 ^ t ≤ 2 ^ (m + 1) := by
    rw [← hm, show level a + t + 1 = (level a + 1) + t by omega, Nat.pow_add]
    exact hpow _ _ h2
  have hpos : 0 < (a + 1) * 2 ^ t := Nat.mul_pos (by omega) (Nat.two_pow_pos t)
  unfold rowBelow
  rw [Finset.mem_Ico, ht]
  constructor
  · intro hi
    have hl : level i = m := level_eq_of_bounds (by omega) (by omega)
    exact ⟨hl, (within_iff (hl.trans hm.symm)).mpr (by omega)⟩
  · rintro ⟨hl, hw⟩
    rw [within_iff (hl.trans hm.symm)] at hw
    omega

/-- A node `t` rows up has `2 ^ t` nodes of a row below it. -/
theorem card_rowBelow (m a : Nat) : (rowBelow m a).card = 2 ^ (m - level a) := by
  unfold rowBelow
  rw [Nat.card_Ico]
  have h : (a + 2) * 2 ^ (m - level a) = (a + 1) * 2 ^ (m - level a) + 2 ^ (m - level a) := by
    ring
  have hpos : 0 < (a + 1) * 2 ^ (m - level a) := Nat.mul_pos (by omega) (Nat.two_pow_pos _)
  rw [h]
  generalize (a + 1) * 2 ^ (m - level a) = lo at hpos ⊢
  generalize 2 ^ (m - level a) = width
  clear h
  omega

end HeapTree
