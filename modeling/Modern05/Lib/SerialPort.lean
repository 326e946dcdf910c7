import Mathlib.Algebra.Order.Ring.Int
import Mathlib.Data.Int.DivMod
import Mathlib.Logic.Function.Basic
import Mathlib.Tactic.IntervalCases
import Modern05.Framework.Loop

/-! # Printing integers

    The template `operator<<` of `SerialPort` in `include/lib/serial_port.h`, for every integral
    type. Its loop takes the digits from the lowest on with `/` and `%`, and looks them up in the
    alphabet; there is no branch for a negative number. Division truncates towards zero, so the
    digits of a negative number are negative too, and the lookup is before the alphabet.

    * `run_print_round`: for a positive number the loop leaves the digits in the buffer, which is
      long enough.
    * `run_print_round_of_neg`: for a negative one it reads outside of the alphabet, or writes
      behind the buffer.
    * `print_canonical_iff`: so the output is the usual representation exactly for the numbers
      that are not negative.
-/

namespace Modern05

open Loop

/-! ## Integral types -/

/-- An integral type of up to 64 bits. -/
structure IntType where
  signed : Bool
  bits : Nat
  pos : 0 < bits
  le : bits ≤ 64

namespace IntType

variable (T : IntType)

/-- The least value. -/
def lo : Int := if T.signed then -2 ^ (T.bits - 1) else 0

/-- The number behind the greatest value. -/
def hi : Int := if T.signed then 2 ^ (T.bits - 1) else 2 ^ T.bits

def Contains (v : Int) : Prop := T.lo ≤ v ∧ v < T.hi

instance (v : Int) : Decidable (T.Contains v) := inferInstanceAs (Decidable (_ ∧ _))

/-- Conversion to the type: the value that is the same modulo `2 ^ bits`. -/
def convert (v : Int) : Int := (v - T.lo) % 2 ^ T.bits + T.lo

def int : IntType := ⟨true, 32, by decide, by decide⟩

/-- The type in which a value of type `T` and an `int` are combined: smaller types are promoted,
    and the `int` is converted to one that is as large as itself or larger. -/
def common : IntType := if T.bits < 32 then int else T

/-- `a / b` of a value of type `T` and an `int`. -/
def divide (a b : Int) : Int := (T.common.convert a).tdiv (T.common.convert b)

/-- `a % b` -/
def modulo (a b : Int) : Int := (T.common.convert a).tmod (T.common.convert b)

end IntType

/-! ## The output of a number -/

inductive IntRadix where
  | Binary
  | Oct
  | Dec
  | Hex
  deriving DecidableEq

/-- The value of `radix`. Binary and octal are left to a TODO of the source. -/
def IntRadix.value : IntRadix → Nat
  | Hex => 16
  | Binary | Oct | Dec => 10

def alphabet : List Char :=
  ['0', '1', '2', '3', '4', '5', '6', '7', '8', '9', 'a', 'b', 'c', 'd', 'e', 'f']

/-- The accesses outside of the two arrays. -/
inductive PrintFault where
  | alphabet (index : Int)
  | temp (index : Nat)
  deriving DecidableEq

structure PrintState where
  remain : Int
  temp : Nat → Char
  i : Nat

/-- The first loop, `while (remain)`. -/
def print_round (T : IntType) (radix : IntRadix) (s : PrintState) :
    Outcome PrintState (Except PrintFault PrintState) :=
  if s.remain = 0 then .done (.ok s)
  else
    let newRemain := T.divide s.remain radix.value
    -- `alphabet[remain % radix]`, with the sign of `remain`
    let index := T.modulo s.remain radix.value
    if index < 0 ∨ 16 ≤ index then .done (.error (.alphabet index))
    else if 20 ≤ s.i then .done (.error (.temp s.i))
    else
      let digit := alphabet.getD index.toNat ' '
      -- `newRemain` has the common type and is converted back
      .next ⟨T.convert newRemain, Function.update s.temp s.i digit, s.i + 1⟩

/-- The second loop, `while (i > 0)`: the characters that are put. -/
def put_digits (temp : Nat → Char) : Nat → List Char
  | 0 => []
  | i + 1 => temp i :: put_digits temp i

/-- The characters sent to the port, if at most `fuel` rounds are enough. The buffer holds
    anything at the start. -/
def print (fuel : Nat) (T : IntType) (radix : IntRadix) (temp : Nat → Char) (n : Int) :
    Option (Except PrintFault (List Char)) :=
  if n = 0 then some (.ok ['0'])
  else
    (run (print_round T radix) fuel ⟨n, temp, 0⟩).map fun r => r.map fun s => put_digits s.temp s.i

/-! ## What the output should be -/

/-- The usual representation. -/
def canonical (radix : Nat) (n : Int) : List Char :=
  if n < 0 then '-' :: Nat.toDigits radix n.natAbs else Nat.toDigits radix n.natAbs

def digit_value (c : Char) : Nat :=
  if c.isDigit then c.toNat - '0'.toNat else c.toNat - 'a'.toNat + 10

def read_nat (radix : Nat) (cs : List Char) : Nat :=
  cs.foldl (fun v c => radix * v + digit_value c) 0

/-- Reading a number with an optional sign. -/
def read_int (radix : Nat) : List Char → Int
  | '-' :: cs => -(read_nat radix cs : Int)
  | cs => read_nat radix cs

/-- The output is the usual representation: it reads back as the number, and starts with a zero
    only if it is the zero. -/
structure Printed (radix : Nat) (n : Int) (out : List Char) : Prop where
  canonical : out = canonical radix n
  reads : read_int radix out = n
  leading : out.head? = some '0' → out = ['0'] ∧ n = 0

/-! ## Arithmetic in a type -/

namespace IntType

variable {T : IntType} {v r : Int}

theorem lo_nonpos (T : IntType) : T.lo ≤ 0 := by
  unfold lo
  split
  · exact Int.neg_nonpos_of_nonneg (Int.pow_nonneg (by decide))
  · exact Int.le_refl 0

theorem hi_pos (T : IntType) : 0 < T.hi := by
  unfold hi
  split
  · exact Int.pow_pos (by decide)
  · exact Int.pow_pos (by decide)

theorem hi_eq (T : IntType) : T.hi = T.lo + 2 ^ T.bits := by
  obtain ⟨k, hk⟩ := Nat.exists_eq_add_of_le' T.pos
  unfold lo hi
  rw [hk, Nat.add_sub_cancel, pow_succ]
  split <;> omega

/-- A value of the type stays what it is. -/
theorem convert_eq (h : T.Contains v) : T.convert v = v := by
  have hhi := T.hi_eq
  unfold Contains at h
  unfold convert
  rw [Int.emod_eq_of_lt (by omega) (by omega)]
  omega

theorem hi_le_pow (T : IntType) {k : Nat} (h : T.bits ≤ k) : T.hi ≤ 2 ^ k := by
  unfold hi
  split
  · exact pow_le_pow_right₀ (by decide) (by omega)
  · exact pow_le_pow_right₀ (by decide) h

theorem pow_le_hi (T : IntType) {k : Nat} (h : k < T.bits) : 2 ^ k ≤ T.hi := by
  unfold hi
  split
  · exact pow_le_pow_right₀ (by decide) (by omega)
  · exact pow_le_pow_right₀ (by decide) (Nat.le_of_lt h)

theorem neg_hi_le_lo (T : IntType) : -T.hi ≤ T.lo := by
  unfold lo
  split
  · rename_i hsigned
    rw [hi, if_pos hsigned]
  · exact Int.neg_nonpos_of_nonneg (Int.le_of_lt T.hi_pos)

/-- Every value of the type and every small number is a value of the common type. -/
theorem contains_common (h : T.Contains v ∨ 0 ≤ v ∧ v < 2 ^ 31) : T.common.Contains v := by
  unfold common
  by_cases hbits : T.bits < 32
  · -- A smaller type, which is a part of `int`.
    rw [if_pos hbits]
    have hhi := T.hi_le_pow (Nat.le_of_lt_succ hbits)
    have hlo := T.neg_hi_le_lo
    show -2 ^ 31 ≤ v ∧ v < 2 ^ 31
    unfold Contains at h
    omega
  · rw [if_neg hbits]
    have hhi := T.pow_le_hi (Nat.not_lt.mp hbits)
    have hlo := T.lo_nonpos
    unfold Contains at *
    omega

/-- Truncation towards zero stays in the type. -/
theorem contains_tdiv (h : T.Contains v) (hr : 0 < r) : T.Contains (v.tdiv r) := by
  have habs := Int.natAbs_tdiv_le_natAbs v r
  have hlo := T.lo_nonpos
  have hhi := T.hi_pos
  unfold Contains at *
  rcases Int.le_total 0 v with hv | hv
  · have := Int.tdiv_nonneg hv (Int.le_of_lt hr)
    omega
  · have hneg := Int.tdiv_nonneg (Int.neg_nonneg_of_nonpos hv) (Int.le_of_lt hr)
    rw [Int.neg_tdiv] at hneg
    omega

theorem divide_eq (h : T.Contains v) (hr : 0 < r) (hr' : r < 2 ^ 31) :
    T.convert (T.divide v r) = v.tdiv r := by
  unfold divide
  rw [convert_eq (contains_common (.inl h)),
    convert_eq (contains_common (.inr ⟨Int.le_of_lt hr, hr'⟩)), convert_eq (contains_tdiv h hr)]

theorem modulo_eq (h : T.Contains v) (hr : 0 < r) (hr' : r < 2 ^ 31) :
    T.modulo v r = v.tmod r := by
  unfold modulo
  rw [convert_eq (contains_common (.inl h)),
    convert_eq (contains_common (.inr ⟨Int.le_of_lt hr, hr'⟩))]

end IntType

/-! ## The loop -/

section loop

variable {T : IntType} (radix : IntRadix)

theorem IntRadix.value_cases (radix : IntRadix) : radix.value = 10 ∨ radix.value = 16 := by
  cases radix with
  | Hex => exact .inr rfl
  | Binary | Oct | Dec => exact .inl rfl

/-- A round on a number that is not zero. -/
theorem print_round_eq {v : Int} (hT : T.Contains v) (hv : v ≠ 0) (temp : Nat → Char) (i : Nat) :
    print_round T radix ⟨v, temp, i⟩ =
      if v.tmod radix.value < 0 then .done (.error (.alphabet (v.tmod radix.value)))
      else if 20 ≤ i then .done (.error (.temp i))
      else .next ⟨v.tdiv radix.value,
        Function.update temp i (alphabet.getD (v.tmod radix.value).toNat ' '), i + 1⟩ := by
  have hradix := radix.value_cases
  have hpos : (0 : Int) < radix.value := by omega
  have hlt := Int.tmod_lt_of_pos v hpos
  unfold print_round
  simp only [T.divide_eq hT hpos (by omega), T.modulo_eq hT hpos (by omega), if_neg hv]
  -- The remainder is below the radix, so the alphabet is never left at its end.
  have hindex : (v.tmod radix.value < 0 ∨ 16 ≤ v.tmod radix.value) ↔ v.tmod radix.value < 0 := by
    omega
  simp only [hindex]

theorem alphabet_digit {d : Nat} (hd : d < 16) : alphabet.getD d ' ' = d.digitChar := by
  have hall : ∀ d < 16, alphabet.getD d ' ' = d.digitChar := by decide
  exact hall d hd

/-- A round on a positive number stores its last digit. -/
theorem print_round_of_pos {n : Nat} (hT : T.Contains n) (hn : 0 < n) (temp : Nat → Char)
    {i : Nat} (hi : i < 20) :
    print_round T radix ⟨n, temp, i⟩ = .next ⟨(n / radix.value : Nat),
      Function.update temp i (n % radix.value).digitChar, i + 1⟩ := by
  have hradix := radix.value_cases
  have hmod : (n : Int).tmod radix.value = (n % radix.value : Nat) := (Int.ofNat_tmod ..).symm
  have hdiv : (n : Int).tdiv radix.value = (n / radix.value : Nat) := (Int.ofNat_tdiv ..).symm
  have hdigit : n % radix.value < 16 := by
    have := Nat.mod_lt n (by omega : 0 < radix.value)
    omega
  rw [print_round_eq radix hT (by omega), hmod, hdiv, if_neg (by omega), if_neg (by omega),
    Int.toNat_natCast, alphabet_digit hdigit]

/-- What is put lies below the index. -/
theorem put_digits_update (temp : Nat → Char) (c : Char) {i j : Nat} (h : i ≤ j) :
    put_digits (Function.update temp j c) i = put_digits temp i := by
  induction i with
  | zero => rfl
  | succ i ih =>
    rw [put_digits, put_digits, ih (by omega), Function.update_of_ne (by omega)]

/-- **The loop on a positive number.** With room for its digits behind those that are stored
    already, they are put first. The induction is on the number. -/
theorem run_print_round {n : Nat} (hT : T.Contains n) (hn : 0 < n) (temp : Nat → Char) {i : Nat}
    (hi : i + (Nat.toDigits radix.value n).length ≤ 20) :
    ∃ fuel s, run (print_round T radix) fuel ⟨n, temp, i⟩ = some (.ok s) ∧
      put_digits s.temp s.i = Nat.toDigits radix.value n ++ put_digits temp i := by
  induction n using Nat.strong_induction_on generalizing temp i with
  | _ n ih =>
    have hradix := radix.value_cases
    have hlength : 0 < (Nat.toDigits radix.value n).length := Nat.length_toDigits_pos
    have hround := print_round_of_pos radix hT hn temp (i := i) (by omega)
    have hput : put_digits (Function.update temp i (n % radix.value).digitChar) (i + 1) =
        (n % radix.value).digitChar :: put_digits temp i := by
      rw [put_digits, Function.update_self, put_digits_update _ _ (Nat.le_refl i)]
    by_cases hlt : n < radix.value
    · -- The first digit of the output: the next round ends the loop.
      rw [Nat.div_eq_of_lt hlt] at hround
      refine ⟨2, _, (run_of_next hround).trans (run_of_done (if_pos rfl)), ?_⟩
      rw [hput, Nat.toDigits_of_lt_base hlt, Nat.mod_eq_of_lt hlt]
      rfl
    · have hdigits := Nat.toDigits_of_base_le (b := radix.value) (by omega) (Nat.not_lt.mp hlt)
      rw [hdigits, List.length_append, List.length_singleton] at hi
      have hquotient : T.Contains (n / radix.value : Nat) := by
        rw [Int.ofNat_tdiv]
        exact T.contains_tdiv hT (by omega)
      obtain ⟨fuel, s, hrun, hs⟩ := ih (n / radix.value) (Nat.div_lt_self hn (by omega))
        hquotient (Nat.div_pos (Nat.not_lt.mp hlt) (by omega))
        (Function.update temp i (n % radix.value).digitChar) (i := i + 1) (by omega)
      refine ⟨fuel + 1, s, (run_of_next hround).trans hrun, ?_⟩
      rw [hs, hput, hdigits, List.append_assoc]
      rfl

/-- Without a last digit a negative number is divided to a smaller one. -/
theorem tdiv_of_neg {v r : Int} (hv : v < 0) (hr : 1 < r) (hmod : ¬ v.tmod r < 0) :
    v.tdiv r < 0 ∧ (v.tdiv r).natAbs < v.natAbs := by
  have hsum := Int.mul_tdiv_add_tmod v r
  have hsign := Int.tmod_nonneg r (Int.neg_nonneg_of_nonpos (Int.le_of_lt hv))
  rw [Int.neg_tmod] at hsign
  constructor
  · by_contra hq
    have := Int.mul_nonneg (by omega : 0 ≤ r) (Int.not_lt.mp hq)
    omega
  · rw [Int.natAbs_tdiv]
    exact Nat.div_lt_self (by omega) (by omega)

/-- **The loop on a negative number** ends with an access outside of an array. -/
theorem run_print_round_of_neg {v : Int} (hT : T.Contains v) (hv : v < 0) (temp : Nat → Char)
    (i : Nat) : ∃ fuel e, run (print_round T radix) fuel ⟨v, temp, i⟩ = some (.error e) := by
  induction hm : v.natAbs using Nat.strong_induction_on generalizing v temp i with
  | _ m ih =>
    have hradix := radix.value_cases
    have hpos : (0 : Int) < radix.value := by omega
    have hround := print_round_eq radix hT (by omega) temp i
    by_cases hmod : v.tmod radix.value < 0
    · rw [if_pos hmod] at hround
      exact ⟨1, _, run_of_done hround⟩
    · rw [if_neg hmod] at hround
      by_cases hi : 20 ≤ i
      · rw [if_pos hi] at hround
        exact ⟨1, _, run_of_done hround⟩
      · rw [if_neg hi] at hround
        -- The digit is zero, and what remains is negative again.
        obtain ⟨hneg, hsmaller⟩ := tdiv_of_neg hv (by omega) hmod
        rw [hm] at hsmaller
        obtain ⟨fuel, e, hrun⟩ := ih _ hsmaller (T.contains_tdiv hT hpos) hneg _ (i + 1) rfl
        exact ⟨fuel + 1, e, (run_of_next hround).trans hrun⟩

end loop

/-! ## The usual representation -/

theorem digit_value_digitChar {d : Nat} (hd : d < 16) : digit_value d.digitChar = d := by
  have hall : ∀ d < 16, digit_value d.digitChar = d := by decide
  exact hall d hd

theorem read_nat_concat (radix : Nat) (cs : List Char) (c : Char) :
    read_nat radix (cs ++ [c]) = radix * read_nat radix cs + digit_value c :=
  List.foldl_concat ..

theorem read_nat_toDigits {r : Nat} (h1 : 1 < r) (h16 : r ≤ 16) (n : Nat) :
    read_nat r (Nat.toDigits r n) = n := by
  induction n using Nat.strong_induction_on with
  | _ n ih =>
    by_cases hlt : n < r
    · rw [Nat.toDigits_of_lt_base hlt]
      show r * 0 + digit_value n.digitChar = n
      rw [digit_value_digitChar (by omega), Nat.mul_zero, Nat.zero_add]
    · have hmod := Nat.mod_lt n (by omega : 0 < r)
      rw [Nat.toDigits_of_base_le h1 (Nat.not_lt.mp hlt), read_nat_concat,
        ih _ (Nat.div_lt_self (by omega) h1), digit_value_digitChar (by omega), Nat.div_add_mod]

/-- The first digit of a positive number is not zero, and no digit is a sign. -/
theorem head_toDigits {r : Nat} (h1 : 1 < r) {n : Nat} (hn : 0 < n) :
    ∃ d cs, d ≠ 0 ∧ Nat.toDigits r n = d.digitChar :: cs := by
  induction n using Nat.strong_induction_on with
  | _ n ih =>
    by_cases hlt : n < r
    · exact ⟨n, [], by omega, Nat.toDigits_of_lt_base hlt⟩
    · obtain ⟨d, cs, hd, hcs⟩ := ih _ (Nat.div_lt_self hn h1)
        (Nat.div_pos (Nat.not_lt.mp hlt) (by omega))
      refine ⟨d, cs ++ [(n % r).digitChar], hd, ?_⟩
      rw [Nat.toDigits_of_base_le h1 (Nat.not_lt.mp hlt), hcs]
      rfl

theorem printed_toDigits (radix : IntRadix) (n : Nat) :
    Printed radix.value n (Nat.toDigits radix.value n) := by
  have hradix := radix.value_cases
  have hread := read_nat_toDigits (r := radix.value) (by omega) (by omega) n
  have hcanonical : Nat.toDigits radix.value n = canonical radix.value n := by
    rw [canonical, if_neg (by omega), Int.natAbs_natCast]
  rcases Nat.eq_zero_or_pos n with hn | hn
  · subst hn
    rw [Nat.toDigits_zero] at hcanonical hread ⊢
    exact ⟨hcanonical, congrArg Int.ofNat hread, fun _ => ⟨rfl, rfl⟩⟩
  · obtain ⟨d, cs, hd, hcs⟩ := head_toDigits (r := radix.value) (by omega) hn
    have hsign : d.digitChar ≠ '-' := Nat.digitChar_ne '-' (by decide)
    refine ⟨hcanonical, ?_, ?_⟩
    · rw [hcs] at hread ⊢
      unfold read_int
      split
      · rename_i heq
        exact absurd (List.cons.inj heq).1 hsign
      · rw [hread]
    · intro hzero
      rw [hcs, List.head?_cons, Option.some.injEq, Nat.digitChar_eq_zero] at hzero
      exact absurd hzero hd

/-- **Printing.** The output of an integer is its usual representation exactly when it is not
    negative, whatever its type, the radix and the bytes in the buffer before: then neither array
    is accessed outside of its bounds. -/
theorem print_canonical_iff (T : IntType) (radix : IntRadix) (temp : Nat → Char) (n : Int)
    (hn : T.Contains n) :
    (∃ fuel out, print fuel T radix temp n = some (.ok out) ∧ Printed radix.value n out) ↔
      0 ≤ n := by
  constructor
  · intro ⟨fuel, out, hprint, _⟩
    by_contra hneg
    have hneg := Int.not_le.mp hneg
    obtain ⟨fuel', e, hrun⟩ := run_print_round_of_neg radix hn hneg temp 0
    rw [print, if_neg (by omega)] at hprint
    obtain ⟨r, hr, hout⟩ := Option.map_eq_some_iff.mp hprint
    rw [run_unique hr hrun] at hout
    cases hout
  · intro hpos
    obtain ⟨m, rfl⟩ := Int.eq_ofNat_of_zero_le hpos
    have hprinted := printed_toDigits radix m
    rcases Nat.eq_zero_or_pos m with hm | hm
    · rw [hm, Nat.toDigits_zero] at hprinted
      rw [hm]
      exact ⟨0, ['0'], rfl, hprinted⟩
    · -- `10 ^ 20` and `16 ^ 20` are both above `2 ^ 64`.
      have hradix := radix.value_cases
      have hlength : (Nat.toDigits radix.value m).length ≤ 20 := by
        have hlt := Int.lt_of_lt_of_le hn.2 (T.hi_le_pow T.le)
        rw [Nat.length_toDigits_le_iff (by omega) (by omega)]
        rcases hradix with hr | hr
        · rw [hr]
          omega
        · rw [hr]
          omega
      obtain ⟨fuel, s, hrun, hs⟩ := run_print_round radix hn hm temp (i := 0) (by omega)
      refine ⟨fuel, _, ?_, hprinted⟩
      rw [print, if_neg (by omega), hrun]
      show some (Except.ok (put_digits s.temp s.i)) = _
      rw [hs]
      simp [put_digits]

/-- The largest `u64` takes all twenty characters of the buffer. -/
theorem largest_u64_printed :
    ∃ fuel out, print fuel ⟨false, 64, by decide, by decide⟩ .Dec (fun _ => ' ') (2 ^ 64 - 1) =
        some (.ok out) ∧
      Printed 10 (2 ^ 64 - 1) out :=
  (print_canonical_iff ⟨false, 64, by decide, by decide⟩ .Dec (fun _ => ' ') (2 ^ 64 - 1)
    (by decide)).mpr (by decide)

/-- The digit of -1 is looked up before the alphabet, and so is the first digit of -10. -/
theorem negative_int_not_printed :
    print 2 .int .Dec (fun _ => ' ') (-1) = some (.error (.alphabet (-1))) ∧
      print 2 .int .Dec (fun _ => ' ') (-10) = some (.error (.alphabet (-1))) ∧
      canonical 10 (-1) = ['-', '1'] := by
  decide

end Modern05
