import Mathlib.Algebra.Field.ZMod
import Mathlib.Algebra.Polynomial.FieldDivision
import Mathlib.RingTheory.PrincipalIdealDomain
import Mathlib.Tactic.LinearCombination

/-! # Cyclic redundancy checks

    A sequence of bits is a polynomial over the field with two elements, its first bit at the
    highest power. A check of width `w` is the remainder of such a polynomial, times `X ^ w`, by a
    generator of degree `w`.

    The register that computes it is kept in a number, reflected: the lowest bit is the coefficient
    of `X ^ (w - 1)`. A shift to the right that adds the generator when a bit falls out is a
    multiplication by `X` modulo the generator (`poly_shift`), and the register after a message is
    a remainder (`poly_foldl_feed`).

    The generator is not divided by `X`. So two messages that differ in at most `w` consecutive bits
    have different remainders (`foldl_feed_ne_of_differsInWindow`).
-/

open Polynomial

namespace Crc

/-! ## Multiples of a generator -/

section field

variable {F : Type*} [Field F] {G D : F[X]}

/-- A power of `X` can be left out, if `X` does not divide the generator. -/
theorem dvd_of_dvd_mul_X_pow (hG : G.coeff 0 ≠ 0) (n : Nat) (h : G ∣ D * X ^ n) : G ∣ D := by
  have hX : ¬ (X : F[X]) ∣ G := by
    rw [X_dvd_iff]
    exact hG
  have hX : IsCoprime (X : F[X]) G := (irreducible_X (R := F)).coprime_iff_not_dvd.mpr hX
  have hcoprime : IsCoprime G (X ^ n) := hX.pow_left.symm
  exact hcoprime.dvd_of_dvd_mul_right h

/-- **A short burst is no multiple of the generator.** -/
theorem not_dvd_burst (hG : G.coeff 0 ≠ 0) (hD : D ≠ 0) (hdegree : D.degree < G.degree) (n : Nat) :
    ¬ G ∣ D * X ^ n :=
  fun h => hD (eq_zero_of_dvd_of_degree_lt (dvd_of_dvd_mul_X_pow hG n h) hdegree)

end field

/-! ## Bits as polynomials -/

/-- A bit as a coefficient. -/
def coef (b : Bool) : ZMod 2 := if b then 1 else 0

theorem coef_injective : Function.Injective coef := by decide

theorem coef_xor (a b : Bool) : coef (a ^^ b) = coef a + coef b := by
  revert a b
  decide

/-- The first bit is at the highest power. -/
noncomputable def poly : List Bool → (ZMod 2)[X]
  | [] => 0
  | b :: bits => C (coef b) * X ^ bits.length + poly bits

theorem poly_append (a b : List Bool) : poly (a ++ b) = poly a * X ^ b.length + poly b := by
  induction a with
  | nil => simp [poly]
  | cons c a ih =>
    rw [List.cons_append, poly, poly, ih, List.length_append, pow_add]
    ring

theorem degree_poly_lt (bits : List Bool) : (poly bits).degree < bits.length := by
  induction bits with
  | nil => simp [poly]
  | cons b bits ih =>
    have hlt : (bits.length : WithBot ℕ) < ((b :: bits).length : ℕ) := by
      rw [List.length_cons]
      exact_mod_cast Nat.lt_succ_self _
    have hfirst : (C (coef b) * X ^ bits.length : (ZMod 2)[X]).degree ≤ bits.length :=
      degree_C_mul_X_pow_le _ _
    exact (degree_add_le _ _).trans_lt (max_lt (hfirst.trans_lt hlt) (ih.trans hlt))

/-- The coefficients are the bits, from the end. -/
theorem coeff_poly (bits : List Bool) (i : Nat) :
    (poly bits).coeff i = coef (bits.reverse[i]?.getD false) := by
  induction bits with
  | nil => simp [poly, coef]
  | cons b bits ih =>
    rw [poly, coeff_add, ih, coeff_C_mul_X_pow, List.reverse_cons]
    rcases Nat.lt_trichotomy i bits.length with hlt | rfl | hgt
    · rw [if_neg (by omega), zero_add, List.getElem?_append_left (by simpa using hlt)]
    · simp [coef]
    · rw [if_neg (by omega), zero_add, List.getElem?_eq_none (by simpa using hgt.le),
        List.getElem?_eq_none (by simpa using hgt)]

/-- Sequences of one length are determined by their polynomials. -/
theorem poly_injective {a b : List Bool} (hlen : a.length = b.length) (h : poly a = poly b) :
    a = b := by
  apply List.reverse_injective
  apply List.ext_getElem (by simpa using hlen)
  intro i ha hb
  have hcoef : coef (a.reverse[i]?.getD false) = coef (b.reverse[i]?.getD false) := by
    rw [← coeff_poly, ← coeff_poly, h]
  rw [List.getElem?_eq_getElem ha, List.getElem?_eq_getElem hb] at hcoef
  exact coef_injective hcoef

theorem poly_map_xor {ι : Type*} (f g : ι → Bool) (l : List ι) :
    poly (l.map (fun i => f i ^^ g i)) = poly (l.map f) + poly (l.map g) := by
  induction l with
  | nil => simp [poly]
  | cons i l ih =>
    simp only [List.map_cons, poly, ih, coef_xor, map_add, List.length_map]
    ring

theorem poly_replicate_false (n : Nat) : poly (List.replicate n false) = 0 := by
  induction n with
  | zero => rfl
  | succ n ih => simp [List.replicate_succ, poly, ih, coef]

/-! ## Numbers as bits -/

/-- The lowest `w` bits, the lowest first. -/
def bits (w v : Nat) : List Bool := (List.range w).map v.testBit

variable {w k g u v n : Nat}

@[simp] theorem length_bits (w v : Nat) : (bits w v).length = w := by simp [bits]

theorem poly_bits_xor (w u v : Nat) :
    poly (bits w (u ^^^ v)) = poly (bits w u) + poly (bits w v) := by
  rw [bits, bits, bits, ← poly_map_xor]
  exact congrArg poly (List.map_congr_left fun i _ => Nat.testBit_xor u v i)

/-- A number of `k` bits in a wider register. -/
theorem bits_of_lt (hu : u < 2 ^ k) (hk : k ≤ w) :
    bits w u = bits k u ++ List.replicate (w - k) false := by
  apply List.ext_getElem
  · rw [List.length_append, length_bits, length_bits, List.length_replicate]
    omega
  · intro i h₁ h₂
    have hi : i < w := by simpa using h₁
    by_cases hik : i < k
    · rw [List.getElem_append_left (by simpa using hik)]
      simp [bits]
    · rw [List.getElem_append_right (by simpa using hik)]
      have hzero : u.testBit i = false :=
        Nat.testBit_lt_two_pow (hu.trans_le (Nat.pow_le_pow_right (by decide) (by omega)))
      simp [bits, hzero]

theorem poly_bits_of_lt (hu : u < 2 ^ k) (hk : k ≤ w) :
    poly (bits w u) = poly (bits k u) * X ^ (w - k) := by
  rw [bits_of_lt hu hk, poly_append, poly_replicate_false, List.length_replicate, add_zero]

/-- The number whose lowest `w` bits are the coefficients, the highest one first. -/
noncomputable def number (w : Nat) (p : (ZMod 2)[X]) : Nat :=
  Nat.ofBits (fun i : Fin w => decide (p.coeff (w - 1 - i) = 1))

theorem number_poly_bits (hv : v < 2 ^ w) : number w (poly (bits w v)) = v := by
  apply Nat.eq_of_testBit_eq
  intro i
  by_cases hi : i < w
  · have hcoeff : (poly (bits w v)).coeff (w - 1 - i) = coef (v.testBit i) := by
      rw [coeff_poly, List.getElem?_reverse (by simp; omega), length_bits,
        show w - 1 - (w - 1 - i) = i by omega, bits, List.getElem?_map, List.getElem?_range hi]
      rfl
    rw [number, Nat.testBit_ofBits_lt _ _ hi, hcoeff]
    cases v.testBit i <;> decide
  · have hle : 2 ^ w ≤ 2 ^ i := Nat.pow_le_pow_right (by decide) (by omega)
    rw [Nat.testBit_lt_two_pow (hv.trans_le hle), number, Nat.testBit_ofBits_ge _ _ (by omega)]

theorem bits_injective (hu : u < 2 ^ w) (hv : v < 2 ^ w) (h : bits w u = bits w v) : u = v := by
  rw [← number_poly_bits hu, h, number_poly_bits hv]

/-! ## The register -/

/-- The generator, given by what is below its leading term. -/
noncomputable def generator (w g : Nat) : (ZMod 2)[X] := X ^ w + poly (bits w g)

theorem degree_poly_bits_lt (w v : Nat) : (poly (bits w v)).degree < w := by
  have h := degree_poly_lt (bits w v)
  rwa [length_bits] at h

theorem monic_generator (w g : Nat) : (generator w g).Monic :=
  monic_X_pow_add (degree_poly_bits_lt w g)

theorem degree_generator (w g : Nat) : (generator w g).degree = w := by
  rw [generator, degree_add_eq_left_of_degree_lt, degree_X_pow]
  rw [degree_X_pow]
  exact degree_poly_bits_lt w g

/-- One shift: the bit that falls out adds the generator. -/
def shift (g v : Nat) : Nat := if v.testBit 0 then (v >>> 1) ^^^ g else v >>> 1

theorem shift_lt (hg : g < 2 ^ w) (hv : v < 2 ^ w) : shift g v < 2 ^ w := by
  have hhalf : v >>> 1 < 2 ^ w := by
    rw [Nat.shiftRight_eq_div_pow]
    exact (Nat.div_le_self _ _).trans_lt hv
  unfold shift
  split
  · exact Nat.xor_lt_two_pow hhalf hg
  · exact hhalf

theorem iterate_shift_lt (hg : g < 2 ^ w) (hv : v < 2 ^ w) (n : Nat) : (shift g)^[n] v < 2 ^ w := by
  induction n generalizing v with
  | zero => exact hv
  | succ n ih => exact ih (shift_lt hg hv)

/-- The bits move up by one power. -/
theorem poly_bits_mul_X (hv : v < 2 ^ w) :
    poly (bits w v) * X = C (coef (v.testBit 0)) * X ^ w + poly (bits w (v >>> 1)) := by
  cases w with
  | zero =>
    obtain rfl : v = 0 := by simpa using hv
    simp [bits, poly, coef]
  | succ w =>
    have hhead : bits (w + 1) v = v.testBit 0 :: bits w (v >>> 1) := by
      simp [bits, List.range_succ_eq_map, Nat.add_comm]
    have hhalf : v >>> 1 < 2 ^ w := by
      rw [Nat.shiftRight_eq_div_pow]
      omega
    rw [poly_bits_of_lt hhalf (Nat.le_succ w), hhead, poly, length_bits]
    simp only [Nat.succ_eq_add_one, Nat.add_sub_cancel_left, pow_one]
    ring

/-- **A shift multiplies by `X`**, modulo the generator. -/
theorem poly_shift (hv : v < 2 ^ w) :
    poly (bits w (shift g v)) = (poly (bits w v) * X) %ₘ generator w g := by
  have hmonic := monic_generator w g
  have hself : ∀ u, poly (bits w u) %ₘ generator w g = poly (bits w u) := by
    intro u
    rw [modByMonic_eq_self_iff hmonic, degree_generator]
    exact degree_poly_bits_lt w u
  rw [poly_bits_mul_X hv, ← hself (shift g v)]
  apply modByMonic_eq_of_dvd_sub hmonic
  unfold shift
  cases v.testBit 0 with
  | true =>
    -- what is added and what falls out differ by the generator
    refine ⟨-1, ?_⟩
    simp only [if_true, poly_bits_xor, coef, map_one, generator]
    have htwo : (2 : (ZMod 2)[X]) = 0 := CharTwo.two_eq_zero
    linear_combination (poly (bits w g)) * htwo
  | false => simp [coef]

/-- Several shifts. -/
theorem poly_iterate_shift (hg : g < 2 ^ w) (hv : v < 2 ^ w) (n : Nat) :
    poly (bits w ((shift g)^[n] v)) = (poly (bits w v) * X ^ n) %ₘ generator w g := by
  have hmonic := monic_generator w g
  induction n generalizing v with
  | zero =>
    rw [Function.iterate_zero, id, pow_zero, mul_one, eq_comm, modByMonic_eq_self_iff hmonic,
      degree_generator]
    exact degree_poly_bits_lt w v
  | succ n ih =>
    rw [Function.iterate_succ_apply, ih (shift_lt hg hv), poly_shift hv]
    apply modByMonic_eq_of_dvd_sub hmonic
    have hdvd : generator w g ∣ (poly (bits w v) * X) %ₘ generator w g - poly (bits w v) * X := by
      rw [modByMonic_eq_sub_mul_div]
      exact ⟨-(poly (bits w v) * X /ₘ generator w g), by ring⟩
    rw [show poly (bits w v) * X ^ (n + 1) = poly (bits w v) * X * X ^ n by ring, ← sub_mul]
    exact hdvd.mul_right _

/-! ## Messages -/

/-- A word of `k` bits comes in: it is added at the end that falls out, and shifted through. -/
def feed (k g v u : Nat) : Nat := (shift g)^[k] (v ^^^ u)

theorem feed_lt (hg : g < 2 ^ w) (hk : k ≤ w) (hv : v < 2 ^ w) (hu : u < 2 ^ k) :
    feed k g v u < 2 ^ w :=
  iterate_shift_lt hg
    (Nat.xor_lt_two_pow hv (hu.trans_le (Nat.pow_le_pow_right (by decide) hk))) k

/-- A word comes in at the power `w`. -/
theorem poly_feed (hg : g < 2 ^ w) (hk : k ≤ w) (hv : v < 2 ^ w) (hu : u < 2 ^ k) :
    poly (bits w (feed k g v u)) =
      (poly (bits w v) * X ^ k + poly (bits k u) * X ^ w) %ₘ generator w g := by
  have huw : u < 2 ^ w := hu.trans_le (Nat.pow_le_pow_right (by decide) hk)
  rw [feed, poly_iterate_shift hg (Nat.xor_lt_two_pow hv huw), poly_bits_xor,
    poly_bits_of_lt hu hk, add_mul, mul_assoc, ← pow_add, Nat.sub_add_cancel hk]

/-- The bits of a message of words of `k` bits. -/
def message (k : Nat) (us : List Nat) : List Bool := us.flatMap (bits k)

@[simp] theorem length_message (k : Nat) (us : List Nat) :
    (message k us).length = us.length * k := by
  induction us with
  | nil => simp [message]
  | cons u us ih =>
    rw [message, List.flatMap_cons, List.length_append, length_bits, ← message, ih,
      List.length_cons]
    ring

theorem message_injective {us us' : List Nat} (hus : ∀ u ∈ us, u < 2 ^ k)
    (hus' : ∀ u ∈ us', u < 2 ^ k) (hlen : us.length = us'.length)
    (h : message k us = message k us') : us = us' := by
  induction us generalizing us' with
  | nil => exact (List.length_eq_zero_iff.mp hlen.symm).symm
  | cons u us ih =>
    cases us' with
    | nil => cases hlen
    | cons u' us' =>
      rw [message, message, List.flatMap_cons, List.flatMap_cons] at h
      obtain ⟨hfirst, hrest⟩ := List.append_inj h (by simp)
      rw [bits_injective (hus u (by simp)) (hus' u' (by simp)) hfirst,
        ih (fun x hx => hus x (List.mem_cons_of_mem _ hx))
          (fun x hx => hus' x (List.mem_cons_of_mem _ hx)) (Nat.succ.inj hlen) hrest]

theorem foldl_feed_lt (hg : g < 2 ^ w) (hk : k ≤ w) {us : List Nat} (hus : ∀ u ∈ us, u < 2 ^ k)
    (hv : v < 2 ^ w) : us.foldl (feed k g) v < 2 ^ w := by
  induction us generalizing v with
  | nil => exact hv
  | cons u us ih =>
    exact ih (fun x hx => hus x (List.mem_cons_of_mem _ hx))
      (feed_lt hg hk hv (hus u (by simp)))

/-- **The register after a message**: where it was, moved up by the length of the message, and the
    message at the power `w`, modulo the generator. -/
theorem poly_foldl_feed (hg : g < 2 ^ w) (hk : k ≤ w) {us : List Nat} (hus : ∀ u ∈ us, u < 2 ^ k)
    (hv : v < 2 ^ w) :
    poly (bits w (us.foldl (feed k g) v)) =
      (poly (bits w v) * X ^ (us.length * k) + poly (message k us) * X ^ w) %ₘ
        generator w g := by
  have hmonic := monic_generator w g
  induction us generalizing v with
  | nil =>
    rw [eq_comm, List.foldl_nil, List.length_nil, Nat.zero_mul, pow_zero, mul_one, message,
      List.flatMap_nil, poly, zero_mul, add_zero, modByMonic_eq_self_iff hmonic, degree_generator]
    exact degree_poly_bits_lt w v
  | cons u us ih =>
    have hu := hus u (by simp)
    rw [List.foldl_cons, ih (fun x hx => hus x (List.mem_cons_of_mem _ hx)) (feed_lt hg hk hv hu),
      poly_feed hg hk hv hu]
    -- the remainder so far is taken up in the remainder of the whole
    apply modByMonic_eq_of_dvd_sub hmonic
    have hmessage : poly (message k (u :: us)) =
        poly (bits k u) * X ^ (us.length * k) + poly (message k us) := by
      rw [message, List.flatMap_cons, poly_append, ← message, length_message]
    rw [modByMonic_eq_sub_mul_div, hmessage, List.length_cons, Nat.add_mul, Nat.one_mul, pow_add]
    refine ⟨-((poly (bits w v) * X ^ k + poly (bits k u) * X ^ w) /ₘ generator w g) *
      X ^ (us.length * k), ?_⟩
    ring

/-! ## What a check finds -/

/-- The same sequence except in a window of at most `w` consecutive places. -/
def DiffersInWindow (w : Nat) (a b : List Bool) : Prop :=
  ∃ p x y s, a = p ++ x ++ s ∧ b = p ++ y ++ s ∧ x.length = y.length ∧ x.length ≤ w

/-- The difference is a short polynomial, moved up. -/
theorem poly_sub_of_differsInWindow {a b : List Bool} (h : DiffersInWindow w a b) (hab : a ≠ b) :
    ∃ (D : (ZMod 2)[X]) (n : Nat), D ≠ 0 ∧ D.degree < w ∧ poly a - poly b = D * X ^ n := by
  obtain ⟨p, x, y, s, rfl, rfl, hlen, hw⟩ := h
  have hxy : poly x ≠ poly y := by
    intro h
    exact hab (by rw [poly_injective hlen h])
  have hle : (x.length : WithBot ℕ) ≤ w := by exact_mod_cast hw
  refine ⟨poly x - poly y, s.length, sub_ne_zero.mpr hxy, ?_, ?_⟩
  · apply (degree_sub_le _ _).trans_lt
    exact max_lt ((degree_poly_lt x).trans_le hle) ((degree_poly_lt y).trans_le (hlen ▸ hle))
  · rw [poly_append, poly_append, poly_append, poly_append, hlen]
    ring

/-- The constant term of the generator is its highest bit in the register. -/
theorem coeff_zero_generator (hw : 0 < w) (htop : g.testBit (w - 1) = true) :
    (generator w g).coeff 0 ≠ 0 := by
  obtain ⟨m, rfl⟩ : ∃ m, w = m + 1 := ⟨w - 1, by omega⟩
  have hlast : bits (m + 1) g = bits m g ++ [true] := by
    rw [bits, List.range_succ, List.map_append, ← bits]
    simpa using htop
  rw [generator, hlast, poly_append]
  simp [poly, coef]

/-- **A burst no longer than the register is always found.** -/
theorem foldl_feed_ne_of_differsInWindow (hg : g < 2 ^ w) (hk : k ≤ w) (hw : 0 < w)
    (htop : g.testBit (w - 1) = true) (hv : v < 2 ^ w) {us us' : List Nat}
    (hus : ∀ u ∈ us, u < 2 ^ k) (hus' : ∀ u ∈ us', u < 2 ^ k) (hlen : us.length = us'.length)
    (hwindow : DiffersInWindow w (message k us) (message k us')) (hne : us ≠ us') :
    us.foldl (feed k g) v ≠ us'.foldl (feed k g) v := by
  intro heq
  have hmonic := monic_generator w g
  have hpoly := congrArg (fun r => poly (bits w r)) heq
  simp only [poly_foldl_feed hg hk hus hv, poly_foldl_feed hg hk hus' hv, hlen] at hpoly
  -- equal remainders: the difference of the two messages is a multiple of the generator
  have hdvd : generator w g ∣ (poly (message k us) - poly (message k us')) * X ^ w := by
    rw [← modByMonic_eq_zero_iff_dvd hmonic, sub_mul, sub_modByMonic, sub_eq_zero]
    rw [add_modByMonic, add_modByMonic] at hpoly
    exact add_left_cancel hpoly
  have hmessage : message k us ≠ message k us' :=
    fun h => hne (message_injective hus hus' hlen h)
  obtain ⟨D, n, hD, hdegree, hsub⟩ := poly_sub_of_differsInWindow hwindow hmessage
  rw [hsub, mul_assoc, ← pow_add] at hdvd
  exact not_dvd_burst (coeff_zero_generator hw htop) hD (by rwa [degree_generator]) _ hdvd

end Crc
