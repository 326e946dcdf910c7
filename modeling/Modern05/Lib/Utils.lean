import Mathlib.Algebra.Order.Ring.Nat
import Mathlib.Data.UInt
import Mathlib.Data.Nat.Log
import Mathlib.Data.Nat.Size

/-! # Faults and integer utilities

    The ways code of the kernel stops without returning. `log2` and `log2_ceil` as
    `include/lib/utils.h` computes them (do-while loops that shift the argument right), the
    constants of `include/cpu_defs.h` and `include/mm/page_alloc.h`, and subtraction of
    unsigned 64-bit numbers.
-/

namespace Modern05

/-! ## Faults -/

/-- The ways a program of the kernel stops without returning. -/
inductive Fault where
  | panic (message : String)
  | assertion (message : String)
  | null_deref
  | out_of_bounds (index : Nat)
  | endless_loop
  /-- Data is written to the address that a failed allocation returns. -/
  | kernel_overwritten
  deriving DecidableEq, Repr

/-- A sequence that returns has returned from its first part. -/
theorem except_bind_ok {ε α β : Type} {x : Except ε α} {f : α → Except ε β} {b : β}
    (h : (x >>= f) = .ok b) : ∃ a, x = .ok a ∧ f a = .ok b := by
  cases x with
  | error e => cases h
  | ok a => exact ⟨a, rfl, h⟩

theorem of_guard {p : Prop} [Decidable p] {u : Unit} (h : (guard p : Option Unit) = some u) :
    p := by
  by_contra hne
  rw [guard, if_neg hne] at h
  cases h

/-! ## Constants -/

def PAGE_SIZE : Nat := 4096

def PAGES_PER_TABLE : Nat := 512

/-- The kernel window, 4 GiB. -/
def KERNEL_SPACE_PAGES : Nat := 4 * 512 * 512

/-- The kernel image window, 64 MiB. -/
def KERNEL_IMAGE_PAGES : Nat := 32 * 512

def KERNEL_START : Nat := 0xffff800000000000

def IDENTITY_MAP_SIZE : Nat := KERNEL_SPACE_PAGES * PAGE_SIZE - KERNEL_IMAGE_PAGES * PAGE_SIZE

def IDENTITY_MAP_PHY_START : Nat := KERNEL_IMAGE_PAGES * PAGE_SIZE

def IDENTITY_MAP_PHY_END : Nat := KERNEL_IMAGE_PAGES * PAGE_SIZE + IDENTITY_MAP_SIZE

/-- 64 KiB, the smallest block of the page allocator. -/
def Log2MinSize : Nat := 16

/-- 4 GiB. -/
def Log2MaxSize : Nat := 32

/-! ## Unsigned subtraction -/

/-- `a - b` on `u64`: it wraps below zero. -/
def u64_sub (a b : Nat) : Nat := (a + 2 ^ 64 - b) % 2 ^ 64

theorem u64_sub_of_le {a b : Nat} (h : b ≤ a) (ha : a < 2 ^ 64) : u64_sub a b = a - b := by
  unfold u64_sub
  rw [show a + 2 ^ 64 - b = (a - b) + 2 ^ 64 by omega, Nat.add_mod_right]
  exact Nat.mod_eq_of_lt (by omega)

/-! ## Logarithms -/

/-- The loop of `log2`: shift, count, and go on while something is left. -/
def log2_loop (n ret : Nat) : Nat :=
  if n >>> 1 > 0 then log2_loop (n >>> 1) (ret + 1) else ret + 1
termination_by n
decreasing_by
  rw [Nat.shiftRight_one] at *
  omega

def log2 (n : Nat) : Nat := log2_loop n 0 - 1

theorem log2_loop_eq (n ret : Nat) : log2_loop n ret = Nat.log2 n + 1 + ret := by
  induction n using Nat.strong_induction_on generalizing ret with
  | _ n ih =>
    rw [log2_loop]
    rw [Nat.shiftRight_one]
    split
    · rename_i h
      rw [ih (n / 2) (by omega), Nat.log2_def n, if_pos (by omega)]
      omega
    · rename_i h
      rw [Nat.log2_def n, if_neg (by omega)]
      omega

/-- The loop computes the integer logarithm. -/
@[simp] theorem log2_eq (n : Nat) : log2 n = Nat.log2 n := by
  unfold log2
  rw [log2_loop_eq]
  omega

/-- The loop of `log2_ceil`, which also counts the bits that are set. -/
def log2_ceil_loop (n ones ret : Nat) : Nat × Nat :=
  let ones := if n &&& 1 ≠ 0 then ones + 1 else ones
  if n >>> 1 > 0 then log2_ceil_loop (n >>> 1) ones (ret + 1) else (ones, ret + 1)
termination_by n
decreasing_by
  rw [Nat.shiftRight_one] at *
  omega

def log2_ceil (n : Nat) : Nat :=
  let (ones, ret) := log2_ceil_loop n 0 0
  if ones > 1 then ret else ret - 1

/-- The loop counts the binary digits. If it counts at most one that is set, the number
    is that power of two, or zero. -/
theorem log2_ceil_loop_spec (n ones ret : Nat) :
    (log2_ceil_loop n ones ret).2 = Nat.log2 n + 1 + ret ∧
      ones ≤ (log2_ceil_loop n ones ret).1 ∧
      (n ≠ 0 → ones < (log2_ceil_loop n ones ret).1) ∧
      ((log2_ceil_loop n ones ret).1 ≤ ones + 1 → n ≤ 2 ^ Nat.log2 n) := by
  induction n using Nat.strong_induction_on generalizing ones ret with
  | _ n ih =>
    have hlog := Nat.log2_def n
    rw [log2_ceil_loop]
    simp only [Nat.and_one_is_mod, Nat.shiftRight_one]
    by_cases hhalf : n / 2 > 0
    · rw [if_pos hhalf]
      rw [if_pos (by omega : 2 ≤ n)] at hlog
      have hdigit : (if n % 2 ≠ 0 then ones + 1 else ones) = ones + n % 2 := by
        split <;> omega
      rw [hdigit]
      obtain ⟨hret, hle, hpos, hone⟩ := ih (n / 2) (by omega) (ones + n % 2) (ret + 1)
      have hpos := hpos (by omega)
      refine ⟨by omega, by omega, fun _ => by omega, ?_⟩
      -- With one digit set, the number is even and its half has one digit set.
      intro h
      have heven : n % 2 = 0 := by omega
      have hhalf := hone (by omega)
      rw [hlog, Nat.pow_succ]
      omega
    · rw [if_neg hhalf]
      rw [if_neg (by omega : ¬ 2 ≤ n)] at hlog
      rw [hlog]
      have hn : n = 0 ∨ n = 1 := by omega
      rcases hn with rfl | rfl
      · exact ⟨by omega, Nat.le_refl _, fun h => absurd rfl h, fun _ => by omega⟩
      · exact ⟨by omega, Nat.le_succ _, fun _ => Nat.lt_succ_self _, fun _ => Nat.le_refl _⟩

/-- `log2_ceil` rounds up. -/
theorem le_two_pow_log2_ceil (n : Nat) : n ≤ 2 ^ log2_ceil n := by
  obtain ⟨hret, _, _, hone⟩ := log2_ceil_loop_spec n 0 0
  unfold log2_ceil
  generalize log2_ceil_loop n 0 0 = r at hret hone
  obtain ⟨ones, ret⟩ := r
  have hret : ret = Nat.log2 n + 1 := hret
  show n ≤ 2 ^ (if ones > 1 then ret else ret - 1)
  split
  · rw [hret]
    exact Nat.le_of_lt Nat.lt_log2_self
  · rw [hret]
    exact hone (by show ones ≤ 0 + 1; omega)

/-- A power of two has one digit that is set. -/
theorem log2_ceil_loop_two_pow (k ones ret : Nat) :
    log2_ceil_loop (2 ^ k) ones ret = (ones + 1, ret + k + 1) := by
  induction k generalizing ret with
  | zero => rw [log2_ceil_loop]; rfl
  | succ k ih =>
    have heven : ¬ (2 ^ (k + 1) &&& 1 ≠ 0) := by
      rw [Nat.and_one_is_mod, Nat.pow_succ]
      omega
    have hhalf : 2 ^ (k + 1) >>> 1 = 2 ^ k := by
      rw [Nat.shiftRight_one, Nat.pow_succ]
      omega
    rw [log2_ceil_loop]
    simp only [if_neg heven, hhalf]
    rw [if_pos (Nat.two_pow_pos k), ih]
    congr 1
    omega

/-- `log2_ceil` rounds up by less than a power of two. -/
theorem log2_ceil_le {n k : Nat} (hn : n ≠ 0) (h : n ≤ 2 ^ k) : log2_ceil n ≤ k := by
  unfold log2_ceil
  rcases Nat.eq_or_lt_of_le h with rfl | hlt
  · rw [log2_ceil_loop_two_pow]
    simp
  · have hret := (log2_ceil_loop_spec n 0 0).1
    generalize log2_ceil_loop n 0 0 = r at hret
    obtain ⟨ones, ret⟩ := r
    have hret : ret = Nat.log2 n + 1 := hret
    have hlog : Nat.log2 n < k := (Nat.log2_lt hn).mpr hlt
    show (if ones > 1 then ret else ret - 1) ≤ k
    split <;> omega

theorem log2_ceil_eq_clog {n : Nat} (hn : n ≠ 0) : log2_ceil n = Nat.clog 2 n :=
  Nat.le_antisymm (log2_ceil_le hn (Nat.le_pow_clog (by decide) n))
    (Nat.clog_le_of_le_pow (le_two_pow_log2_ceil n))

end Modern05
