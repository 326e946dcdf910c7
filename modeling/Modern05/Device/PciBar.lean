import Mathlib.Data.Nat.Bitwise

/-! # Base address registers

    `bar_parse` in `device/pci.cpp`. It finds the size of the window behind a base address register
    by writing ones to all address bits and looking which of them stay zero.

    * `BarRegister` is the register as the device has it: its flags cannot be written, and the
      address bits below the size of the window are wired to zero.
    * `bar_parse_eq` says what the probe returns for every register, and that it leaves the register
      as it was.
    * `bar_decoded_iff` says when this is what the register means.
-/

namespace Modern05

/-! ## The register -/

/-- All bits from `k` on. -/
def bits_from (k : Nat) : BitVec 32 := BitVec.allOnes 32 <<< k

/-- The number of flag bits of a register for I/O space or for memory. -/
def flag_bits (value : BitVec 32) : Nat := if value.getLsbD 0 then 2 else 4

/-- A register for a window of `2 ^ window` bytes. -/
structure BarRegister where
  value : BitVec 32
  window : Nat
  wired : ∀ i, flag_bits value ≤ i → i < window → value.getLsbD i = false
  deriving DecidableEq

theorem getLsbD_bits_from (k i : Nat) :
    (bits_from k).getLsbD i = (decide (i < 32) && decide (k ≤ i)) := by
  unfold bits_from
  rw [BitVec.getLsbD_shiftLeft, BitVec.getLsbD_allOnes]
  by_cases hk : k ≤ i
  · by_cases hi : i < 32
    · simp [hk, hi, show i - k < 32 by omega]
    · simp [hi]
  · simp [hk]

namespace BarRegister

/-- The bits that can be written. -/
def writable (bar : BarRegister) : BitVec 32 := bits_from (max bar.window (flag_bits bar.value))

/-- The value after a write. -/
def written (bar : BarRegister) (v : BitVec 32) : BitVec 32 :=
  (bar.value &&& ~~~bar.writable) ||| (v &&& bar.writable)

theorem getLsbD_written (bar : BarRegister) (v : BitVec 32) {i : Nat} (hi : i < 32) :
    (bar.written v).getLsbD i =
      if max bar.window (flag_bits bar.value) ≤ i then v.getLsbD i else bar.value.getLsbD i := by
  simp only [written, writable, BitVec.getLsbD_or, BitVec.getLsbD_and, BitVec.getLsbD_not,
    getLsbD_bits_from]
  by_cases h : max bar.window (flag_bits bar.value) ≤ i
  · simp [hi, h]
  · simp [hi, h]

/-- A write does not change the flags, and so not the kind of the register. -/
theorem flag_bits_written (bar : BarRegister) (v : BitVec 32) :
    flag_bits (bar.written v) = flag_bits bar.value := by
  have hpos : ¬ max bar.window (flag_bits bar.value) ≤ 0 := by
    have htwo : 2 ≤ flag_bits bar.value := by
      unfold flag_bits
      split <;> omega
    omega
  have hbit : (bar.written v).getLsbD 0 = bar.value.getLsbD 0 := by
    rw [getLsbD_written bar v (by omega), if_neg hpos]
  unfold flag_bits
  rw [hbit]

/-- The register after a write. -/
def write (bar : BarRegister) (v : BitVec 32) : BarRegister where
  value := bar.written v
  window := bar.window
  wired := by
    intro i hflag hwindow
    rw [flag_bits_written] at hflag
    by_cases hi : i < 32
    · rw [getLsbD_written bar v hi, if_neg (by omega)]
      exact bar.wired i hflag hwindow
    · exact BitVec.getLsbD_of_ge _ _ (by omega)

/-- Writing the old value again undoes a write. -/
theorem write_write_value (bar : BarRegister) (v : BitVec 32) :
    (bar.write v).write bar.value = bar := by
  have hvalue : (bar.write v).written bar.value = bar.value := by
    apply BitVec.eq_of_getLsbD_eq
    intro i hi
    have hflags : flag_bits (bar.write v).value = flag_bits bar.value := flag_bits_written bar v
    rw [getLsbD_written _ _ hi, hflags]
    by_cases h : max (bar.write v).window (flag_bits bar.value) ≤ i
    · rw [if_pos h]
    · rw [if_neg h]
      exact (getLsbD_written bar v hi).trans (if_neg h)
  unfold write
  congr

end BarRegister

/-! ## The code -/

/-- The start of the window, its size and whether it is in I/O space; and the register after the
    call. -/
def bar_parse (bar : BarRegister) : (BitVec 32 × BitVec 32 × Bool) × BarRegister :=
  let old := bar.value
  if old &&& 0x1 ≠ 0 then
    -- IO space bar
    let bar := bar.write (0xfffffffc ||| (old &&& 0x3))
    let size := ~~~(bar.value &&& 0xfffffffc) + 1
    let bar := bar.write old
    ((old &&& 0xfffffffc, size, true), bar)
  else
    -- memory space bar
    let bar := bar.write (0xfffffff0 ||| (old &&& 0xf))
    let size := ~~~(bar.value &&& 0xfffffff0) + 1
    let bar := bar.write old
    ((old &&& 0xffffffff, size, false), bar)

/-! ## The probe -/

section probe

variable {bar : BarRegister}

theorem and_one_ne_zero_iff (x : BitVec 32) : x &&& 0x1 ≠ 0 ↔ x.getLsbD 0 = true := by
  have hbit : x.getLsbD 0 = x.toNat.testBit 0 := rfl
  have hone : (0x1 : BitVec 32).toNat = 2 ^ 1 - 1 := rfl
  have hzero : (0 : BitVec 32).toNat = 0 := rfl
  rw [hbit, Nat.testBit_zero, ne_eq, ← BitVec.toNat_inj, BitVec.toNat_and, hone,
    Nat.and_two_pow_sub_one_eq_mod, hzero, decide_eq_true_eq]
  omega

/-- **What is read after ones were written**: the bits that can be written. -/
theorem probe_value (v : BitVec 32) {n : Nat} (hflags : flag_bits bar.value = n) :
    (bar.write (bits_from n ||| v)).value &&& bits_from n = bits_from (max bar.window n) := by
  apply BitVec.eq_of_getLsbD_eq
  intro i hi
  have hwritten := BarRegister.getLsbD_written bar (bits_from n ||| v) hi
  show ((bar.written (bits_from n ||| v)) &&& bits_from n).getLsbD i = _
  rw [BitVec.getLsbD_and, hwritten, hflags, getLsbD_bits_from, getLsbD_bits_from,
    BitVec.getLsbD_or, getLsbD_bits_from]
  by_cases hmax : max bar.window n ≤ i
  · have hlow : n ≤ i := by omega
    simp [hi, hmax, hlow]
  · by_cases hlow : n ≤ i
    · -- the bits between the flags and the window are zero
      have hzero : bar.value.getLsbD i = false := bar.wired i (by omega) (by omega)
      rw [if_neg hmax, hzero, decide_eq_false hmax, Bool.and_false, Bool.false_and]
    · simp [hmax, hlow]

/-- The negative of a mask is its lowest bit. -/
theorem toNat_size (m : Nat) : (~~~bits_from m + 1).toNat = 2 ^ m % 2 ^ 32 := by
  have hneg : ~~~bits_from m + 1 = 1#32 <<< m := by
    have hone : (1 : BitVec 32) = 1#32 := rfl
    unfold bits_from
    rw [hone, ← BitVec.neg_eq_not_add, ← BitVec.shiftLeft_neg]
    rfl
  rw [hneg, BitVec.toNat_shiftLeft, Nat.shiftLeft_eq]
  have hone : (1#32).toNat = 1 := rfl
  rw [hone, Nat.one_mul]

/-- **What the probe returns**, for every register: the size of the smallest window that the
    address bits can tell, and a base address whose flags are only cleared in I/O space. The
    register is as it was. -/
theorem bar_parse_eq (bar : BarRegister) :
    bar_parse bar =
      ((if bar.value.getLsbD 0 then bar.value &&& bits_from 2 else bar.value,
        ~~~bits_from (max bar.window (flag_bits bar.value)) + 1, bar.value.getLsbD 0), bar) := by
  have hio : (0xfffffffc : BitVec 32) = bits_from 2 := by decide
  have hmemory : (0xfffffff0 : BitVec 32) = bits_from 4 := by decide
  have hall : (0xffffffff : BitVec 32) = BitVec.allOnes 32 := by decide
  unfold bar_parse
  by_cases h : bar.value.getLsbD 0 = true
  · have hflags : flag_bits bar.value = 2 := if_pos h
    simp only [(and_one_ne_zero_iff bar.value).mpr h, not_false_eq_true, ↓reduceIte, h, hio,
      probe_value _ hflags, BarRegister.write_write_value, hflags, ne_eq]
  · have hflags : flag_bits bar.value = 4 := if_neg h
    have hbit : bar.value.getLsbD 0 = false := by simpa using h
    rw [if_neg fun hand => h ((and_one_ne_zero_iff bar.value).mp hand)]
    simp only [hmemory, hall, probe_value _ hflags, BarRegister.write_write_value, hflags, hbit,
      BitVec.and_allOnes, Bool.false_eq_true, ↓reduceIte]

end probe

/-! ## What the register means -/

/-- The call returns the base address without the flags, the size of the window and the kind of the
    register, and leaves the register as it was. -/
def BarDecoded (bar : BarRegister) : Prop :=
  (bar_parse bar).1.1 = bar.value &&& bits_from (flag_bits bar.value) ∧
  (bar_parse bar).1.2.1.toNat = 2 ^ bar.window ∧
  (bar_parse bar).1.2.2 = bar.value.getLsbD 0 ∧
  (bar_parse bar).2 = bar

instance (bar : BarRegister) : Decidable (BarDecoded bar) :=
  inferInstanceAs (Decidable (_ ∧ _ ∧ _ ∧ _))

/-- The size is right for every window that is as large as the flags and fits in 32 bits. -/
theorem size_eq_iff {w f : Nat} (hf : f < 32) :
    2 ^ max w f % 2 ^ 32 = 2 ^ w ↔ f ≤ w ∧ w < 32 := by
  constructor
  · intro h
    have hlt : 2 ^ w < 2 ^ 32 := h ▸ Nat.mod_lt _ (by decide)
    have hw : w < 32 := (Nat.pow_lt_pow_iff_right (by decide)).mp hlt
    have hmax : 2 ^ max w f < 2 ^ 32 := Nat.pow_lt_pow_right (by decide) (by omega)
    rw [Nat.mod_eq_of_lt hmax] at h
    have heq : max w f = w := Nat.pow_right_injective (Nat.le_refl 2) h
    exact ⟨by omega, hw⟩
  · intro ⟨hle, hw⟩
    rw [Nat.max_eq_left hle]
    exact Nat.mod_eq_of_lt (Nat.pow_lt_pow_right (by decide) hw)

theorem eq_and_bits_from_iff (x : BitVec 32) : x = x &&& bits_from 4 ↔ x &&& 0xf = 0 := by
  have hmask : bits_from 4 = ~~~(0xf : BitVec 32) := by decide
  rw [hmask]
  constructor
  · intro h
    rw [h, BitVec.and_assoc, BitVec.not_and_self]
    exact BitVec.and_zero
  · intro h
    have hsplit : x &&& ((0xf : BitVec 32) ||| ~~~0xf) = x := by
      rw [BitVec.or_not_self, BitVec.and_allOnes]
    rw [BitVec.and_or_distrib_left, h] at hsplit
    simpa using hsplit.symm

/-- **When a register is decoded right**: its window is one that a register of its kind can have,
    and, for memory, none of its flags is set. The code does not clear the flags of a register for
    memory: a prefetchable window or one with a 64-bit address starts at the wrong byte. -/
theorem bar_decoded_iff (bar : BarRegister) :
    BarDecoded bar ↔
      (flag_bits bar.value ≤ bar.window ∧ bar.window < 32) ∧
      (bar.value.getLsbD 0 = false → bar.value &&& 0xf = 0) := by
  have hflags : flag_bits bar.value < 32 := by
    unfold flag_bits
    split <;> omega
  unfold BarDecoded
  rw [bar_parse_eq]
  dsimp only
  rw [toNat_size, size_eq_iff hflags]
  by_cases h : bar.value.getLsbD 0 = true
  · have htwo : flag_bits bar.value = 2 := if_pos h
    simp [h, htwo]
  · have hfour : flag_bits bar.value = 4 := if_neg h
    have hbit : bar.value.getLsbD 0 = false := by simpa using h
    rw [if_neg h, hfour, eq_and_bits_from_iff]
    simp only [hbit, and_true, forall_const]
    exact and_comm

/-- A register for memory with 4 KiB at `0xfebf1000`. -/
def memory_bar : BarRegister where
  value := 0xfebf1000
  window := 12
  wired := fun i hflag hi =>
    (by decide : ∀ i < 12, 4 ≤ i → (0xfebf1000#32).getLsbD i = false) i hi hflag

/-- A register for 256 bytes of I/O space. -/
def io_bar : BarRegister where
  value := 0xc001
  window := 8
  wired := fun i hflag hi =>
    (by decide : ∀ i < 8, 2 ≤ i → (0xc001#32).getLsbD i = false) i hi hflag

/-- Both are decoded right. -/
theorem plain_bars_decoded : BarDecoded memory_bar ∧ BarDecoded io_bar :=
  ⟨(bar_decoded_iff memory_bar).mpr (by decide), (bar_decoded_iff io_bar).mpr (by decide)⟩

/-- The same window of memory, prefetchable. -/
def prefetchable_bar : BarRegister where
  value := 0xfebf1008
  window := 12
  wired := fun i hflag hi =>
    (by decide : ∀ i < 12, 4 ≤ i → (0xfebf1008#32).getLsbD i = false) i hi hflag

/-- Its flag stays in the base address. -/
theorem prefetchable_flag_kept :
    bar_parse prefetchable_bar = ((0xfebf1008, 0x1000, false), prefetchable_bar) ∧
    ¬ BarDecoded prefetchable_bar := by
  constructor <;> decide +kernel

end Modern05
