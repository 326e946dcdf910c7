import Modern05.Framework.Bits
import Modern05.Framework.Memory

/-! # Packed structures in memory

    The memory as a row of bits: the bit `i` is the bit `i % 8` of the byte `i / 8`. A member of a
    packed structure at an address is a field of that row, so a member can start in the middle of a
    byte and can be longer than a word.

    * `bit_store`: the bits of the memory after a member was assigned. Everything else is derived
      from it.
    * `load_store_self`, `load_store_of_apart`: members are read as they were assigned.
    * `load_members`: the same for members of a structure that are assigned one after the other.
    * `changesOnly_store_all`: such assignments stay in the bytes of the structure.
-/

namespace Bits

open Memory

/-- The bit `i` of the memory. -/
def bit (m : Bytes) (i : Nat) : Bool := (m (i / 8)).toNat.testBit (i % 8)

namespace BitField

variable {f g : BitField} {m m' : Bytes} {v a n : Nat} {ps : List (BitField × Nat)}

/-- The member of a structure that is at the address `a`. -/
def at_address (f : BitField) (a : Nat) : BitField := ⟨8 * a + f.start, f.width⟩

def load (f : BitField) (m : Bytes) : Nat :=
  Nat.ofBits fun j : Fin f.width => bit m (f.start + j)

/-- The bits of the member are those of `v`, and the others stay. -/
def store (f : BitField) (v : Nat) (m : Bytes) : Bytes := fun a =>
  UInt8.ofNat (Nat.ofBits fun j : Fin 8 =>
    if f.start ≤ 8 * a + j ∧ 8 * a + j < f.start + f.width then v.testBit (8 * a + j - f.start)
    else (m a).toNat.testBit j)

/-- Assign members one after the other. -/
def store_all (ps : List (BitField × Nat)) (m : Bytes) : Bytes :=
  ps.foldl (fun m p => p.1.store p.2 m) m

/-! ## Bits -/

theorem bit_store (f : BitField) (v : Nat) (m : Bytes) (i : Nat) :
    bit (f.store v m) i =
      if f.start ≤ i ∧ i < f.start + f.width then v.testBit (i - f.start) else bit m i := by
  have hbit : i % 8 < 8 := Nat.mod_lt i (by decide)
  have hi : 8 * (i / 8) + i % 8 = i := Nat.div_add_mod i 8
  have hbyte := Nat.ofBits_lt_two_pow fun j : Fin 8 =>
    if f.start ≤ 8 * (i / 8) + j ∧ 8 * (i / 8) + j < f.start + f.width then
      v.testBit (8 * (i / 8) + j - f.start)
    else (m (i / 8)).toNat.testBit j
  rw [bit, store, UInt8.toNat_ofNat', Nat.mod_eq_of_lt hbyte, Nat.testBit_ofBits_lt _ _ hbit]
  show (if f.start ≤ 8 * (i / 8) + i % 8 ∧ 8 * (i / 8) + i % 8 < f.start + f.width then
    v.testBit (8 * (i / 8) + i % 8 - f.start) else _) = _
  rw [hi]
  rfl

/-- A byte is its bits. -/
theorem eq_of_bits (h : ∀ j < 8, bit m' (8 * a + j) = bit m (8 * a + j)) : m' a = m a := by
  apply UInt8.toNat_inj.mp
  apply Nat.eq_of_testBit_eq
  intro j
  by_cases hj : j < 8
  · have hbit := h j hj
    rwa [bit, bit, Nat.mul_add_div (by decide), Nat.mul_add_mod, Nat.mod_eq_of_lt hj,
      Nat.div_eq_of_lt hj, Nat.add_zero] at hbit
  · have hlt (b : UInt8) : b.toNat < 2 ^ j :=
      Nat.lt_of_lt_of_le b.toNat_lt (Nat.pow_le_pow_right (by decide) (by omega))
    rw [Nat.testBit_lt_two_pow (hlt _), Nat.testBit_lt_two_pow (hlt _)]

/-- A member depends on its own bits. -/
theorem load_of_bits (h : ∀ j < f.width, bit m' (f.start + j) = bit m (f.start + j)) :
    f.load m' = f.load m := by
  unfold load
  congr 1
  funext j
  exact h j j.isLt

/-! ## Members -/

theorem load_store_self (f : BitField) (v : Nat) (m : Bytes) :
    f.load (f.store v m) = v % 2 ^ f.width := by
  apply Nat.eq_of_testBit_eq
  intro j
  rw [Nat.testBit_mod_two_pow]
  by_cases hj : j < f.width
  · rw [load, Nat.testBit_ofBits_lt _ _ hj, bit_store, if_pos (by omega),
      Nat.add_sub_cancel_left]
    simp [hj]
  · rw [load, Nat.testBit_ofBits_ge _ _ (Nat.le_of_not_lt hj)]
    simp [hj]

theorem load_store_of_apart (h : f.Apart g) : g.load (f.store v m) = g.load m := by
  apply load_of_bits
  intro j hj
  have hout : ¬ (f.start ≤ g.start + j ∧ g.start + j < f.start + f.width) := by
    unfold Apart at h
    omega
  rw [bit_store, if_neg hout]

theorem load_store_all_of_apart (h : ∀ f ∈ ps.map Prod.fst, f.Apart g) :
    g.load (store_all ps m) = g.load m := by
  induction ps generalizing m with
  | nil => rfl
  | cons p ps ih =>
    rw [List.map_cons, List.forall_mem_cons] at h
    show g.load (store_all ps (p.1.store p.2 m)) = g.load m
    rw [ih h.2, load_store_of_apart h.1]

/-- **A member that is assigned has that value**, when the assigned members share no bits. -/
theorem load_store_all_of_mem (hps : (ps.map Prod.fst).Pairwise Apart) (h : (f, v) ∈ ps) :
    f.load (store_all ps m) = v % 2 ^ f.width := by
  induction ps generalizing m with
  | nil => exact absurd h List.not_mem_nil
  | cons p ps ih =>
    rw [List.map_cons, List.pairwise_cons] at hps
    show f.load (store_all ps (p.1.store p.2 m)) = v % 2 ^ f.width
    rcases List.mem_cons.mp h with heq | htail
    · -- the first assignment; the later ones are to other members
      subst heq
      rw [load_store_all_of_apart, load_store_self]
      intro g hg
      exact (hps.1 g hg).symm
    · exact ih hps.2 htail

/-! ## Structures -/

theorem apart_at_address (h : f.Apart g) (a : Nat) : (f.at_address a).Apart (g.at_address a) := by
  unfold Apart at_address at *
  show 8 * a + f.start + f.width ≤ 8 * a + g.start ∨ 8 * a + g.start + g.width ≤ 8 * a + f.start
  omega

/-- The member of a structure is in its first `n` bytes. -/
def Inside (n : Nat) (f : BitField) : Prop := f.start + f.width ≤ 8 * n

instance (n : Nat) : DecidablePred (Inside n) := fun f =>
  inferInstanceAs (Decidable (f.start + f.width ≤ 8 * n))

/-- The field is in the `n` bytes from `a` on. -/
def InBytes (a n : Nat) (f : BitField) : Prop :=
  8 * a ≤ f.start ∧ f.start + f.width ≤ 8 * (a + n)

theorem InBytes.mono {b k : Nat} (hf : f.InBytes a n) (hlow : b ≤ a) (hhigh : a + n ≤ b + k) :
    f.InBytes b k := by
  unfold InBytes at *
  omega

theorem inBytes_at_address (hf : f.Inside n) (a : Nat) : (f.at_address a).InBytes a n := by
  unfold Inside at hf
  show 8 * a ≤ 8 * a + f.start ∧ 8 * a + f.start + f.width ≤ 8 * (a + n)
  omega

theorem changesOnly_store (hf : f.InBytes a n) (v : Nat) (m : Bytes) :
    ChangesOnly (Set.Ico a (a + n)) m (f.store v m) := by
  intro x hx
  apply eq_of_bits
  intro j hj
  have hout : ¬ (f.start ≤ 8 * x + j ∧ 8 * x + j < f.start + f.width) := by
    rw [Set.mem_Ico] at hx
    unfold InBytes at hf
    omega
  rw [bit_store, if_neg hout]

/-- **Frame**: assignments to fields in some bytes change only these bytes. -/
theorem changesOnly_store_all (hps : ∀ p ∈ ps, p.1.InBytes a n) :
    ChangesOnly (Set.Ico a (a + n)) m (store_all ps m) := by
  induction ps generalizing m with
  | nil => exact .refl _ m
  | cons p ps ih =>
    rw [List.forall_mem_cons] at hps
    exact (changesOnly_store hps.1 p.2 m).trans (ih hps.2)

theorem load_congr (hf : f.InBytes a n) (h : ∀ x ∈ Set.Ico a (a + n), m' x = m x) :
    f.load m' = f.load m := by
  apply load_of_bits
  intro j hj
  have hx : (f.start + j) / 8 ∈ Set.Ico a (a + n) := by
    unfold InBytes at hf
    rw [Set.mem_Ico]
    omega
  rw [bit, bit, h _ hx]

/-- Members of a structure, with their values, when the structure is at the address `a`. -/
def members_at (ps : List (BitField × Nat)) (a : Nat) : List (BitField × Nat) :=
  ps.map fun p => (p.1.at_address a, p.2)

theorem store_all_append (ps qs : List (BitField × Nat)) (m : Bytes) :
    store_all (ps ++ qs) m = store_all qs (store_all ps m) := List.foldl_append

theorem inBytes_members_at (hps : ∀ p ∈ ps, p.1.Inside n) (a : Nat) :
    ∀ p ∈ members_at ps a, p.1.InBytes a n := by
  intro p hp
  obtain ⟨q, hq, rfl⟩ := List.mem_map.mp hp
  exact inBytes_at_address (hps q hq) a

theorem pairwise_members_at (hps : (ps.map Prod.fst).Pairwise Apart) (a : Nat) :
    ((members_at ps a).map Prod.fst).Pairwise Apart := by
  rw [List.pairwise_map] at hps
  rw [members_at, List.map_map, List.pairwise_map]
  exact hps.imp fun h => apart_at_address h a

/-- **The members of a structure have the values that they were assigned.** -/
theorem load_members (hps : (ps.map Prod.fst).Pairwise Apart) (a : Nat) (m : Bytes) :
    ∀ p ∈ ps, (p.1.at_address a).load (store_all (members_at ps a) m) = p.2 % 2 ^ p.1.width := by
  intro p hp
  have hmem : (p.1.at_address a, p.2) ∈ members_at ps a :=
    List.mem_map_of_mem (f := fun p : BitField × Nat => (p.1.at_address a, p.2)) hp
  exact load_store_all_of_mem (pairwise_members_at hps a) hmem

end BitField

end Bits
