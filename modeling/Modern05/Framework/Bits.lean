import Mathlib.Algebra.Order.Ring.Nat
import Mathlib.Data.Nat.Bitwise

/-! # Bit fields

    Words in which some bits in a row are a number. `field w i k` is the number in the `k` bits from
    the bit `i` on, and `set_field` writes it and leaves the other bits.

    * `testBit_set_field`: the bits of a word after a field was written.
    * `field_set_field_self`, `field_set_field_of_disjoint`: fields are read as they were written,
      and fields that share no bit do not disturb each other.
    * `BitField.get_set_all_of_mem`: the same for the members of a packed structure that are
      assigned one after the other.
-/

namespace Bits

def field (w i k : Nat) : Nat := w / 2 ^ i % 2 ^ k

/-- The bits above the field, the field, and the bits below it. -/
def set_field (w i k v : Nat) : Nat :=
  2 ^ i * (2 ^ k * (w / 2 ^ (i + k)) + v % 2 ^ k) + w % 2 ^ i

theorem testBit_field (w i k j : Nat) :
    (field w i k).testBit j = (decide (j < k) && w.testBit (i + j)) := by
  rw [field, Nat.testBit_mod_two_pow, Nat.testBit_div_two_pow, Nat.add_comm]

/-- A field depends on its own bits. -/
theorem field_congr {v w i k : Nat}
    (h : ∀ j, i ≤ j → j < i + k → v.testBit j = w.testBit j) : field v i k = field w i k := by
  apply Nat.eq_of_testBit_eq
  intro j
  rw [testBit_field, testBit_field]
  by_cases hj : j < k
  · rw [h (i + j) (by omega) (by omega)]
  · simp [hj]

theorem testBit_set_field (w i k v j : Nat) :
    (set_field w i k v).testBit j =
      if i ≤ j ∧ j < i + k then v.testBit (j - i) else w.testBit j := by
  rw [set_field, Nat.testBit_two_pow_mul_add _ (Nat.mod_lt _ (Nat.two_pow_pos i)),
    Nat.testBit_two_pow_mul_add _ (Nat.mod_lt _ (Nat.two_pow_pos k))]
  by_cases hlow : j < i
  · have hout : ¬ (i ≤ j ∧ j < i + k) := by omega
    simp [hlow, hout, Nat.testBit_mod_two_pow]
  · by_cases hin : j < i + k
    · have hin' : j - i < k := by omega
      have hij : i ≤ j := by omega
      simp [hlow, hin, hin', hij, Nat.testBit_mod_two_pow]
    · have hout' : ¬ j - i < k := by omega
      have hindex : j - i - k + (i + k) = j := by omega
      simp [hlow, hin, hout', Nat.testBit_div_two_pow, hindex]

theorem field_set_field_self (w i k v : Nat) : field (set_field w i k v) i k = v % 2 ^ k := by
  apply Nat.eq_of_testBit_eq
  intro j
  rw [testBit_field, testBit_set_field, Nat.testBit_mod_two_pow]
  by_cases hj : j < k
  · simp [hj]
  · simp [hj]

theorem field_set_field_of_disjoint (w : Nat) {i k : Nat} (v : Nat) {i' k' : Nat}
    (h : i + k ≤ i' ∨ i' + k' ≤ i) : field (set_field w i k v) i' k' = field w i' k' := by
  apply field_congr
  intro j hij hjk
  rw [testBit_set_field, if_neg (by omega)]

/-- A field that ends in the word does not make it longer. -/
theorem set_field_lt {w i k n : Nat} (v : Nat) (hw : w < 2 ^ n) (hn : i + k ≤ n) :
    set_field w i k v < 2 ^ n := by
  apply Nat.lt_pow_two_of_testBit
  intro j hj
  have hout : ¬ (i ≤ j ∧ j < i + k) := by omega
  rw [testBit_set_field, if_neg hout]
  exact Nat.testBit_lt_two_pow (Nat.lt_of_lt_of_le hw (Nat.pow_le_pow_right (by decide) hj))

/-! ## Packed structures -/

/-- A member of a packed structure: its first bit and how many it has. -/
structure BitField where
  start : Nat
  width : Nat
  deriving DecidableEq, Repr

namespace BitField

variable {f g : BitField} {ps : List (BitField × Nat)} {w v : Nat}

def get (f : BitField) (w : Nat) : Nat := field w f.start f.width

def set (f : BitField) (v w : Nat) : Nat := set_field w f.start f.width v

/-- The two members share no bit. -/
def Apart (f g : BitField) : Prop := f.start + f.width ≤ g.start ∨ g.start + g.width ≤ f.start

instance : DecidableRel Apart := fun f g =>
  inferInstanceAs (Decidable (f.start + f.width ≤ g.start ∨ g.start + g.width ≤ f.start))

/-- Assign members one after the other. -/
def set_all (ps : List (BitField × Nat)) (w : Nat) : Nat := ps.foldl (fun w p => p.1.set p.2 w) w

theorem get_set_self (f : BitField) (v w : Nat) : f.get (f.set v w) = v % 2 ^ f.width :=
  field_set_field_self w f.start f.width v

theorem get_set_of_apart (h : f.Apart g) : g.get (f.set v w) = g.get w :=
  field_set_field_of_disjoint w v h

/-- A member that is not assigned keeps its value. -/
theorem get_set_all_of_apart (h : ∀ f ∈ ps.map Prod.fst, f.Apart g) :
    g.get (set_all ps w) = g.get w := by
  induction ps generalizing w with
  | nil => rfl
  | cons p ps ih =>
    rw [List.map_cons, List.forall_mem_cons] at h
    show g.get (set_all ps (p.1.set p.2 w)) = g.get w
    rw [ih h.2, get_set_of_apart h.1]

/-- **A member that is assigned has that value**, when the assigned members share no bits. -/
theorem get_set_all_of_mem (hps : (ps.map Prod.fst).Pairwise Apart) (h : (f, v) ∈ ps) :
    f.get (set_all ps w) = v % 2 ^ f.width := by
  induction ps generalizing w with
  | nil => exact absurd h List.not_mem_nil
  | cons p ps ih =>
    rw [List.map_cons, List.pairwise_cons] at hps
    show f.get (set_all ps (p.1.set p.2 w)) = v % 2 ^ f.width
    rcases List.mem_cons.mp h with heq | htail
    · -- the first assignment; the later ones are to other members
      subst heq
      rw [get_set_all_of_apart, get_set_self]
      intro g hg
      exact (hps.1 g hg).symm
    · exact ih hps.2 htail

/-- Members inside `n` bits leave a number of `n` bits. -/
theorem set_lt {n : Nat} (hf : f.start + f.width ≤ n) (hw : w < 2 ^ n) : f.set v w < 2 ^ n :=
  set_field_lt v hw hf

end BitField

end Bits
