import Modern05.Framework.Memory
import Modern05.Lib.String

/-! # Functions on memory

    `memmove` and `memcmp` of `lib/string.cpp`, byte by byte.

    * `memmove_eq`: `memmove` replaces the range by what the other range held before, from
      whichever end it starts. Each round of its loop extends the part that is done by one byte
      and reads a byte that has not been replaced yet.
    * `memcmp_loop_eq`: the loop of `memcmp` is a comparison of lists of bytes, as long as its
      index, an `int`, does not overflow.
    * `comparesTo_memcmp`: the comparison is the lexicographic one.
-/

namespace Modern05

open Loop Memory

/-! ## `memmove` -/

/-- `((u8*)dest)[i] = ((u8*)src)[i]` -/
def assign_byte (dest src i : UInt64) (m : Bytes) : Bytes :=
  overwrite m (dest + i).toNat 1 (fun _ => m (src + i).toNat)

/-- The pointer that is returned, and the memory afterwards. -/
def memmove (dest src size : UInt64) (m : Bytes) : UInt64 × Bytes :=
  if src > dest then
    -- from the lower end up
    (dest, (List.range size.toNat).foldl (fun m i => assign_byte dest src (.ofNat i) m) m)
  else
    -- from the upper end down
    (dest, (List.range size.toNat).foldl
      (fun m i => assign_byte dest src (size - .ofNat i - 1) m) m)

section memmove

variable {dest src size : UInt64} {m : Bytes}

/-- An index inside of a range that does not wrap. -/
theorem toNat_add_of_range {p i : UInt64} (h : p.toNat + size.toNat ≤ 2 ^ 64)
    (hi : i.toNat < size.toNat) : (p + i).toNat = p.toNat + i.toNat := by
  rw [UInt64.toNat_add, Nat.mod_eq_of_lt (by omega)]

/-- From the lower end: after `k` rounds the first `k` bytes are there. -/
theorem assign_forward (hdest : dest.toNat + size.toNat ≤ 2 ^ 64)
    (hsrc : src.toNat + size.toNat ≤ 2 ^ 64) (hlt : dest < src) {k : Nat}
    (hk : k ≤ size.toNat) :
    (List.range k).foldl (fun m i => assign_byte dest src (.ofNat i) m) m =
      overwrite m dest.toNat k (fun i => m (src.toNat + i)) := by
  have hlt : dest.toNat < src.toNat := hlt
  induction k with
  | zero => exact (overwrite_zero ..).symm
  | succ k ih =>
    have hindex : (UInt64.ofNat k).toNat = k :=
      UInt64.toNat_ofNat_of_lt' (Nat.lt_of_lt_of_le hk (Nat.le_of_lt size.toNat_lt))
    have hi : (UInt64.ofNat k).toNat < size.toNat := by omega
    rw [List.range_succ, List.foldl_concat, ih (by omega), ← overwrite_add, assign_byte,
      toNat_add_of_range hdest hi, toNat_add_of_range hsrc hi, hindex]
    -- The byte that is read lies above those that have been replaced.
    rw [overwrite_of_notMem (fun hx => by have := hx.2; omega)]
    apply overwrite_congr
    intro i hi
    rw [Nat.lt_one_iff.mp hi, Nat.add_zero]

/-- From the upper end: after `k` rounds the last `k` bytes are there. -/
theorem assign_backward (hdest : dest.toNat + size.toNat ≤ 2 ^ 64)
    (hsrc : src.toNat + size.toNat ≤ 2 ^ 64) (hle : src ≤ dest) {k : Nat}
    (hk : k ≤ size.toNat) :
    (List.range k).foldl (fun m i => assign_byte dest src (size - .ofNat i - 1) m) m =
      overwrite m (dest.toNat + (size.toNat - k)) k
        (fun i => m (src.toNat + (size.toNat - k + i))) := by
  have hle : src.toNat ≤ dest.toNat := hle
  induction k with
  | zero => exact (overwrite_zero ..).symm
  | succ k ih =>
    have hsize := size.toNat_lt
    have hindex : (size - UInt64.ofNat k - 1).toNat = size.toNat - (k + 1) := by
      rw [UInt64.toNat_sub, UInt64.toNat_sub, UInt64.toNat_ofNat']
      show (2 ^ 64 - 1 + (2 ^ 64 - k % 2 ^ 64 + size.toNat) % 2 ^ 64) % 2 ^ 64 = _
      omega
    have hi : (size - UInt64.ofNat k - 1).toNat < size.toNat := by omega
    have hstart : size.toNat - k = size.toNat - (k + 1) + 1 := by omega
    rw [List.range_succ, List.foldl_concat, ih (by omega), Nat.add_comm k 1,
      ← overwrite_add_before, assign_byte, toNat_add_of_range hdest hi,
      toNat_add_of_range hsrc hi, hindex, Nat.add_comm 1 k, hstart]
    generalize size.toNat - (k + 1) = p
    -- The byte that is read lies below those that have been replaced.
    rw [overwrite_of_notMem (fun hx => by have := hx.1; omega)]
    have hrest : (fun i => m (src.toNat + (p + 1 + i))) =
        fun i => m (src.toNat + (p + (1 + i))) := by
      funext i
      rw [Nat.add_assoc p 1 i]
    rw [hrest, ← Nat.add_assoc]
    apply overwrite_congr
    intro i hi
    rw [Nat.lt_one_iff.mp hi, Nat.add_zero]

/-- **The result of `memmove`**, for ranges that do not wrap. -/
theorem memmove_eq (hdest : dest.toNat + size.toNat ≤ 2 ^ 64)
    (hsrc : src.toNat + size.toNat ≤ 2 ^ 64) :
    memmove dest src size m =
      (dest, overwrite m dest.toNat size.toNat (fun i => m (src.toNat + i))) := by
  unfold memmove
  by_cases h : src > dest
  · rw [if_pos h, assign_forward hdest hsrc h (Nat.le_refl _)]
  · rw [if_neg h, assign_backward hdest hsrc (UInt64.not_lt.mp h) (Nat.le_refl _), Nat.sub_self,
      Nat.add_zero]
    simp only [Nat.zero_add]

end memmove

/-- **`memmove` moves.** Whatever the overlap, the destination then holds what the source held
    before, and no other byte has changed. -/
theorem memmove_moves (m : Bytes) (dest src size : UInt64)
    (hdest : dest.toNat + size.toNat ≤ 2 ^ 64) (hsrc : src.toNat + size.toNat ≤ 2 ^ 64) :
    (memmove dest src size m).1 = dest ∧
      bytes (memmove dest src size m).2 dest.toNat size.toNat = bytes m src.toNat size.toNat ∧
      ∀ x, x ∉ Set.Ico dest.toNat (dest.toNat + size.toNat) →
        (memmove dest src size m).2 x = m x := by
  rw [memmove_eq hdest hsrc]
  refine ⟨rfl, ?_, ?_⟩
  · exact bytes_overwrite m dest.toNat size.toNat (fun i => m (src.toNat + i))
  · intro x hx
    exact overwrite_of_notMem (f := fun i => m (src.toNat + i)) hx

/-- Three bytes are moved up by one and down by one. -/
theorem memmove_overlapping :
    bytes (memmove 11 10 3 (fun x => .ofNat x)).2 10 4 = [10, 10, 11, 12] ∧
      bytes (memmove 11 10 3 (fun x => .ofNat x)).2 11 3 = [10, 11, 12] ∧
      bytes (memmove 10 11 3 (fun x => .ofNat x)).2 10 3 = [11, 12, 13] := by
  have hup := memmove_moves (fun x => .ofNat x) 11 10 3 (by decide) (by decide)
  have hdown := memmove_moves (fun x => .ofNat x) 10 11 3 (by decide) (by decide)
  refine ⟨by decide, ?_, ?_⟩
  · exact hup.2.1
  · exact hdown.2.1

/-! ## `memcmp` -/

/-- The comparison of two lists of bytes of the same length. -/
def memcmp : List UInt8 → List UInt8 → Int
  | a :: as, b :: bs => if a < b then -1 else if a > b then 1 else memcmp as bs
  | _, _ => 0

/-- The body of the loop with index `i`, over the bytes from the two pointers on. Behind the
    largest `int` the index overflows, which is undefined. -/
def memcmp_round (a b : Nat → UInt8) (size : UInt64) (i : Nat) : Outcome Nat (Option Int) :=
  if i < size.toNat then
    let lhs := a i
    let rhs := b i
    if lhs < rhs then .done (some (-1))
    else if lhs > rhs then .done (some 1)
    else if i + 1 < 2 ^ 31 then .next (i + 1)
    else .done none
  else .done (some 0)

/-- The result, if at most `fuel` rounds are enough. -/
def memcmp_loop (fuel : Nat) (a b : Nat → UInt8) (size : UInt64) : Option (Option Int) :=
  run (memcmp_round a b size) fuel 0

section memcmp

variable {a b : Nat → UInt8} {size : UInt64} {as bs : List UInt8}

/-- The loop from index `i` on compares the `k` bytes that are left. The induction is on them. -/
theorem run_memcmp_round (hsize : size.toNat < 2 ^ 31) {i k : Nat} (hk : i + k = size.toNat) :
    run (memcmp_round a b size) (k + 1) i = some (some (memcmp (bytes a i k) (bytes b i k))) := by
  induction k generalizing i with
  | zero =>
    apply run_of_done
    rw [memcmp_round, if_neg (by omega)]
    rfl
  | succ k ih =>
    have hfirst : ∀ p : Nat → UInt8, bytes p i (k + 1) = p i :: bytes p (i + 1) k := by
      intro p
      rw [Nat.add_comm k 1, bytes_add]
      rfl
    have hround : memcmp_round a b size i =
        if a i < b i then .done (some (-1)) else if a i > b i then .done (some 1)
        else .next (i + 1) := by
      rw [memcmp_round, if_pos (by omega), if_pos (by omega : i + 1 < 2 ^ 31)]
    rw [hfirst, hfirst, memcmp]
    by_cases hlt : a i < b i
    · rw [if_pos hlt] at hround ⊢
      exact run_of_done hround
    · by_cases hgt : a i > b i
      · rw [if_neg hlt, if_pos hgt] at hround ⊢
        exact run_of_done hround
      · rw [if_neg hlt, if_neg hgt] at hround ⊢
        rw [run_of_next hround]
        exact ih (by omega)

/-- **The loop** compares the bytes at the two pointers. -/
theorem memcmp_loop_eq (hsize : size.toNat < 2 ^ 31) :
    memcmp_loop (size.toNat + 1) a b size =
      some (some (memcmp (bytes a 0 size.toNat) (bytes b 0 size.toNat))) :=
  run_memcmp_round hsize (Nat.zero_add _)

/-- **The comparison** is the lexicographic one. -/
theorem comparesTo_memcmp (h : as.length = bs.length) : ComparesTo (memcmp as bs) as bs := by
  induction as generalizing bs with
  | nil =>
    obtain rfl := List.length_eq_zero_iff.mp h.symm
    exact comparesTo_zero_iff.mpr rfl
  | cons a as ih =>
    cases bs with
    | nil => cases h
    | cons b bs =>
      rw [memcmp]
      by_cases hlt : a < b
      · rw [if_pos hlt]
        exact comparesTo_of_lt (List.cons_lt_cons_iff.mpr (.inl hlt))
      · rw [if_neg hlt]
        by_cases hgt : a > b
        · rw [if_pos hgt]
          exact comparesTo_of_gt (List.cons_lt_cons_iff.mpr (.inl hgt))
        · obtain rfl : a = b := UInt8.le_antisymm (UInt8.not_lt.mp hgt) (UInt8.not_lt.mp hlt)
          rw [if_neg hgt]
          exact (ih (Nat.succ.inj h)).cons a

end memcmp

end Modern05
