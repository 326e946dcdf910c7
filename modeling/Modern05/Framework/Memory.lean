import Mathlib.Algebra.Order.Ring.Nat
import Mathlib.Order.CompletePartialOrder
import Mathlib.Order.Interval.Set.Disjoint

/-! # Memory of bytes

    A memory is a map from addresses to bytes. `overwrite` replaces the bytes of one
    range; storing a 64-bit word, least significant byte first, and clearing a range are
    cases of it.

    `ChangesOnly S m m'` says that the two memories agree outside `S`. It is what a
    program that stays inside its own memory guarantees to everybody else: whatever is
    read outside `S` is still there (`ChangesOnly.load64`).
-/

namespace Memory

/-- Byte-addressed memory. -/
abbrev Bytes := Nat → UInt8

variable {m m' m'' : Bytes} {S T : Set Nat} {a n : Nat}

/-- Replace `n` bytes from `a` on. -/
def overwrite (m : Bytes) (a n : Nat) (f : Nat → UInt8) : Bytes :=
  fun x => if a ≤ x ∧ x < a + n then f (x - a) else m x

/-- Clear `n` bytes from `a` on. -/
def clear (m : Bytes) (a n : Nat) : Bytes := overwrite m a n (fun _ => 0)

/-- Byte `i` of a word. -/
def byte (w i : Nat) : UInt8 := UInt8.ofNat (w / 256 ^ i)

/-- Store a 64-bit word. -/
def store64 (m : Bytes) (a w : Nat) : Bytes := overwrite m a 8 (byte w)

/-- The 64-bit word at an address. -/
def load64 (m : Bytes) (a : Nat) : Nat :=
  (m a).toNat + 256 * (m (a + 1)).toNat + 256 ^ 2 * (m (a + 2)).toNat +
    256 ^ 3 * (m (a + 3)).toNat + 256 ^ 4 * (m (a + 4)).toNat + 256 ^ 5 * (m (a + 5)).toNat +
    256 ^ 6 * (m (a + 6)).toNat + 256 ^ 7 * (m (a + 7)).toNat

/-- The 32-bit word at an address. -/
def load32 (m : Bytes) (a : Nat) : Nat :=
  (m a).toNat + 256 * (m (a + 1)).toNat + 256 ^ 2 * (m (a + 2)).toNat +
    256 ^ 3 * (m (a + 3)).toNat

/-- The number in `n` bytes, least significant byte first. -/
def load_le (m : Bytes) (a : Nat) : Nat → Nat
  | 0 => 0
  | n + 1 => (m a).toNat + 256 * load_le m (a + 1) n

/-- The `n` bytes from `a` on. -/
def bytes (m : Bytes) (a n : Nat) : List UInt8 := (List.range n).map (fun i => m (a + i))

/-- The bytes of a 32-bit word. -/
def word32 (w : Nat) : List UInt8 := [byte w 0, byte w 1, byte w 2, byte w 3]

/-- Copy a list of bytes to an address. -/
def copy (m : Bytes) (a : Nat) (data : List UInt8) : Bytes :=
  overwrite m a data.length (fun i => data.getD i 0)

/-! ## Reading what was written -/

theorem overwrite_of_mem {f : Nat → UInt8} {x : Nat} (hx : x ∈ Set.Ico a (a + n)) :
    overwrite m a n f x = f (x - a) := if_pos hx

theorem overwrite_of_notMem {f : Nat → UInt8} {x : Nat} (hx : x ∉ Set.Ico a (a + n)) :
    overwrite m a n f x = m x := if_neg hx

/-- The bytes of a list that was copied, and the others. -/
theorem copy_eq_ite (m : Bytes) (data : List UInt8) (a x : Nat) :
    copy m a data x =
      if a ≤ x ∧ x < a + data.length then data.getD (x - a) 0 else m x := by
  split
  · rename_i h
    exact overwrite_of_mem h
  · rename_i h
    exact overwrite_of_notMem h

theorem load64_lt (m : Bytes) (a : Nat) : load64 m a < 2 ^ 64 := by
  have hbyte : ∀ x, (m x).toNat < 256 := fun x => (m x).toNat_lt
  have h0 := hbyte a
  have h1 := hbyte (a + 1)
  have h2 := hbyte (a + 2)
  have h3 := hbyte (a + 3)
  have h4 := hbyte (a + 4)
  have h5 := hbyte (a + 5)
  have h6 := hbyte (a + 6)
  have h7 := hbyte (a + 7)
  unfold load64
  omega

/-- Words are equal when their eight bytes are, at whatever addresses. -/
theorem load64_eq_of_bytes {b : Nat} (h : ∀ i < 8, m' (b + i) = m (a + i)) :
    load64 m' b = load64 m a := by
  have h0 : m' b = m a := h 0 (by omega)
  unfold load64
  rw [h0, h 1 (by omega), h 2 (by omega), h 3 (by omega), h 4 (by omega), h 5 (by omega),
    h 6 (by omega), h 7 (by omega)]

theorem load64_congr (h : ∀ x ∈ Set.Ico a (a + 8), m' x = m x) : load64 m' a = load64 m a :=
  load64_eq_of_bytes fun i hi =>
    h (a + i) ⟨Nat.le_add_right a i, Nat.add_lt_add_left hi a⟩

theorem load64_store64 (m : Bytes) (a : Nat) {w : Nat} (hw : w < 2 ^ 64) :
    load64 (store64 m a w) a = w := by
  have hbyte : ∀ i < 8, (store64 m a w (a + i)).toNat = w / 256 ^ i % 256 := by
    intro i hi
    unfold store64
    rw [overwrite_of_mem ⟨Nat.le_add_right a i, Nat.add_lt_add_left hi a⟩,
      Nat.add_sub_cancel_left]
    rfl
  have h0 : (store64 m a w a).toNat = w / 256 ^ 0 % 256 := hbyte 0 (by omega)
  unfold load64
  rw [h0, hbyte 1 (by omega), hbyte 2 (by omega), hbyte 3 (by omega), hbyte 4 (by omega),
    hbyte 5 (by omega), hbyte 6 (by omega), hbyte 7 (by omega)]
  omega

/-- A word inside a cleared range is zero. -/
theorem load64_clear {x : Nat} (hlow : a ≤ x) (hhigh : x + 8 ≤ a + n) :
    load64 (clear m a n) x = 0 := by
  have hzero : load64 (clear m a n) x = load64 (fun _ => 0) x := by
    apply load64_congr
    intro y hy
    have hy : x ≤ y ∧ y < x + 8 := hy
    exact overwrite_of_mem ⟨by omega, by omega⟩
  rw [hzero]
  rfl

theorem load32_congr (h : ∀ x ∈ Set.Ico a (a + 4), m' x = m x) : load32 m' a = load32 m a := by
  have hbyte : ∀ i < 4, m' (a + i) = m (a + i) :=
    fun i hi => h (a + i) ⟨Nat.le_add_right a i, Nat.add_lt_add_left hi a⟩
  have h0 : m' a = m a := hbyte 0 (by omega)
  unfold load32
  rw [h0, hbyte 1 (by omega), hbyte 2 (by omega), hbyte 3 (by omega)]

theorem load32_of_bytes {w : Nat} (h : bytes m a 4 = word32 w) (hw : w < 2 ^ 32) :
    load32 m a = w := by
  obtain ⟨h0, h1, h2, h3⟩ : m a = byte w 0 ∧ m (a + 1) = byte w 1 ∧ m (a + 2) = byte w 2 ∧
      m (a + 3) = byte w 3 := by
    simpa [bytes, word32, List.range_succ] using h
  rw [load32, h0, h1, h2, h3]
  simp only [byte, UInt8.toNat_ofNat']
  omega

theorem load_le_congr {b : Nat} (h : ∀ i < n, m' (b + i) = m (a + i)) :
    load_le m' b n = load_le m a n := by
  induction n generalizing a b with
  | zero => rfl
  | succ n ih =>
    have hfirst : m' b = m a := h 0 (by omega)
    have hrest := ih (a := a + 1) (b := b + 1) fun i hi => by
      rw [Nat.add_right_comm, Nat.add_right_comm a]
      exact h (i + 1) (by omega)
    rw [load_le, load_le, hfirst, hrest]

theorem load_le_lt (m : Bytes) (a n : Nat) : load_le m a n < 256 ^ n := by
  induction n generalizing a with
  | zero => exact Nat.one_pos
  | succ n ih =>
    have hbyte := (m a).toNat_lt
    have hrest := ih (a + 1)
    rw [load_le, Nat.pow_succ]
    omega

theorem bytes_congr (h : ∀ x ∈ Set.Ico a (a + n), m' x = m x) : bytes m' a n = bytes m a n := by
  refine List.map_congr_left fun i hi => h _ ?_
  have hi : i < n := List.mem_range.mp hi
  exact ⟨Nat.le_add_right a i, Nat.add_lt_add_left hi a⟩

theorem length_bytes (m : Bytes) (a n : Nat) : (bytes m a n).length = n := by simp [bytes]

theorem getD_of_bytes {data : List UInt8} {i : Nat} (h : bytes m a data.length = data)
    (hi : i < data.length) : m (a + i) = data.getD i 0 := by
  have hget : (bytes m a data.length).getD i 0 = m (a + i) := by simp [bytes, hi]
  rw [← hget, h]

theorem bytes_copy (m : Bytes) (a : Nat) (data : List UInt8) :
    bytes (copy m a data) a data.length = data := by
  refine List.ext_getElem (length_bytes _ _ _) fun i hi hi' => ?_
  have hmem : a + i ∈ Set.Ico a (a + data.length) := ⟨Nat.le_add_right a i, by omega⟩
  simp only [bytes, List.getElem_map, List.getElem_range, copy]
  rw [overwrite_of_mem hmem, Nat.add_sub_cancel_left]
  exact (List.getElem_eq_getD 0).symm

/-- The bytes of a range are those of its two parts. -/
theorem bytes_add (m : Bytes) (a k n : Nat) :
    bytes m a (k + n) = bytes m a k ++ bytes m (a + k) n := by
  simp only [bytes, List.range_add, List.map_append, List.map_map]
  congr 1
  refine List.map_congr_left fun i _ => ?_
  simp [Nat.add_assoc]

/-- Data that is copied behind a range. -/
theorem bytes_copy_behind (m : Bytes) (a k : Nat) (data : List UInt8) :
    bytes (copy m (a + k) data) a (k + data.length) = bytes m a k ++ data := by
  rw [bytes_add, bytes_copy, bytes_congr]
  intro x hx
  refine overwrite_of_notMem fun hmem => ?_
  exact absurd hmem.1 (Nat.not_le.mpr hx.2)

/-! ## Copies inside the memory -/

/-- Copy `n` bytes to `dst`, one after the other; `src i` is the address of the byte `i`. -/
def memcpy (m : Bytes) (dst : Nat) (src : Nat → Nat) : Nat → Bytes
  | 0 => m
  | n + 1 =>
    let m' := memcpy m dst src n
    overwrite m' (dst + n) 1 (fun _ => m' (src n))

/-- What is copied is what was there, if nothing is copied over the source. -/
theorem memcpy_eq {dst : Nat} {src : Nat → Nat}
    (h : ∀ i < n, src i ∉ Set.Ico dst (dst + n)) :
    memcpy m dst src n = overwrite m dst n (fun i => m (src i)) := by
  induction n with
  | zero =>
    funext x
    rw [memcpy, overwrite_of_notMem (fun hx => absurd hx.2 (Nat.not_lt.mpr hx.1))]
  | succ n ih =>
    have hprev : ∀ i < n, src i ∉ Set.Ico dst (dst + n) := fun i hi hmem =>
      h i (Nat.lt_succ_of_lt hi) ⟨hmem.1, Nat.lt_succ_of_lt hmem.2⟩
    have hlast : src n ∉ Set.Ico dst (dst + n) := fun hmem =>
      h n (Nat.lt_succ_self n) ⟨hmem.1, Nat.lt_succ_of_lt hmem.2⟩
    funext x
    rw [memcpy, ih hprev, overwrite_of_notMem hlast]
    by_cases hx : x = dst + n
    · rw [hx, overwrite_of_mem ⟨by omega, by omega⟩, overwrite_of_mem ⟨by omega, by omega⟩,
        Nat.add_sub_cancel_left]
    · by_cases hin : x ∈ Set.Ico dst (dst + n)
      · have hin' : dst ≤ x ∧ x < dst + n := hin
        rw [overwrite_of_notMem (fun hmem => by have hmem : _ ≤ x ∧ x < _ := hmem; omega),
          overwrite_of_mem hin, overwrite_of_mem ⟨hin'.1, by omega⟩]
      · have hout : ¬ (dst ≤ x ∧ x < dst + n) := hin
        rw [overwrite_of_notMem (fun hmem => by have hmem : _ ≤ x ∧ x < _ := hmem; omega),
          overwrite_of_notMem hin,
          overwrite_of_notMem (fun hmem => by have hmem : _ ≤ x ∧ x < _ := hmem; omega)]

/-! ## Transfers to several regions -/

/-- Bring `rest` bytes of `data`, from the byte `off` on, to regions given by address and length,
    in order. What does not fit is dropped. -/
def scatter (m : Bytes) (data : Nat → UInt8) : List (Nat × Nat) → Nat → Nat → Bytes
  | [], _, _ => m
  | (addr, len) :: regions, off, rest =>
    scatter (overwrite m addr (min len rest) (fun i => data (off + i))) data regions (off + len)
      (rest - len)

/-- Each region starts where the one before it ends. -/
def Consecutive : Nat → List (Nat × Nat) → Prop
  | _, [] => True
  | addr, region :: regions => region.1 = addr ∧ Consecutive (addr + region.2) regions

theorem overwrite_zero (m : Bytes) (a : Nat) (f : Nat → UInt8) : overwrite m a 0 f = m := by
  funext x
  exact overwrite_of_notMem (fun hx => absurd hx.2 (Nat.not_lt.mpr hx.1))

theorem overwrite_congr {f g : Nat → UInt8} (h : ∀ i < n, f i = g i) :
    overwrite m a n f = overwrite m a n g := by
  funext x
  unfold overwrite
  split
  · exact h _ (by omega)
  · rfl

theorem overwrite_add (m : Bytes) (a k n : Nat) (f : Nat → UInt8) :
    overwrite (overwrite m a k f) (a + k) n (fun i => f (k + i)) = overwrite m a (k + n) f := by
  funext x
  unfold overwrite
  by_cases hfirst : a ≤ x ∧ x < a + k
  · rw [if_neg (by omega), if_pos hfirst, if_pos (by omega)]
  · by_cases hsecond : a + k ≤ x ∧ x < a + k + n
    · have hindex : k + (x - (a + k)) = x - a := by omega
      rw [if_pos hsecond, if_pos (by omega)]
      exact congrArg f hindex
    · rw [if_neg hsecond, if_neg hfirst, if_neg (by omega)]

/-- The same range, its end first. -/
theorem overwrite_add_before (m : Bytes) (a k n : Nat) (f : Nat → UInt8) :
    overwrite (overwrite m (a + k) n (fun i => f (k + i))) a k f = overwrite m a (k + n) f := by
  rw [← overwrite_add]
  funext x
  unfold overwrite
  by_cases hfirst : a ≤ x ∧ x < a + k
  · rw [if_pos hfirst, if_neg (by omega), if_pos hfirst]
  · rw [if_neg hfirst, if_neg hfirst]

/-- What is read in a range that was overwritten. -/
theorem bytes_overwrite (m : Bytes) (a n : Nat) (f : Nat → UInt8) :
    bytes (overwrite m a n f) a n = (List.range n).map f := by
  apply List.map_congr_left
  intro i hi
  have hi := List.mem_range.mp hi
  rw [overwrite_of_mem ⟨Nat.le_add_right a i, Nat.add_lt_add_left hi a⟩, Nat.add_sub_cancel_left]

theorem scatter_zero (m : Bytes) (data : Nat → UInt8) (regions : List (Nat × Nat)) (off : Nat) :
    scatter m data regions off 0 = m := by
  induction regions generalizing off with
  | nil => rfl
  | cons region regions ih =>
    rw [scatter, Nat.min_zero, overwrite_zero, Nat.zero_sub, ih]

/-- **Consecutive regions are one range.** -/
theorem scatter_consecutive {data : Nat → UInt8} {regions : List (Nat × Nat)} {addr off rest : Nat}
    (hregions : Consecutive addr regions) (hrest : rest ≤ (regions.map Prod.snd).sum) :
    scatter m data regions off rest = overwrite m addr rest (fun i => data (off + i)) := by
  induction regions generalizing m addr off rest with
  | nil =>
    have hzero : rest = 0 := Nat.le_zero.mp hrest
    rw [hzero, overwrite_zero]
    rfl
  | cons region regions ih =>
    obtain ⟨first, len⟩ := region
    obtain ⟨haddr, hregions⟩ := hregions
    have haddr : first = addr := haddr
    rw [List.map_cons, List.sum_cons] at hrest
    rw [scatter, haddr]
    by_cases hlast : rest ≤ len
    · -- the transfer ends in this region
      rw [Nat.min_eq_right hlast, Nat.sub_eq_zero_of_le hlast, scatter_zero]
    · have hmore : rest = len + (rest - len) := by omega
      have hassoc : (fun i => data (off + len + i)) = fun i => data (off + (len + i)) := by
        funext i
        rw [Nat.add_assoc]
      rw [Nat.min_eq_left (by omega), ih hregions (by omega), hassoc,
        overwrite_add m addr len (rest - len) (fun i => data (off + i)), ← hmore]

/-- The address of the byte `k` of a transfer. -/
def locate : List (Nat × Nat) → Nat → Option Nat
  | [], _ => none
  | (addr, len) :: regions, k => if k < len then some (addr + k) else locate regions (k - len)

theorem locate_consecutive {regions : List (Nat × Nat)} {addr k : Nat}
    (hregions : Consecutive addr regions) (hk : k < (regions.map Prod.snd).sum) :
    locate regions k = some (addr + k) := by
  induction regions generalizing addr k with
  | nil => exact absurd hk (Nat.not_lt_zero k)
  | cons region regions ih =>
    obtain ⟨first, len⟩ := region
    obtain ⟨haddr, hregions⟩ := hregions
    have haddr : first = addr := haddr
    rw [List.map_cons, List.sum_cons] at hk
    by_cases hlen : k < len
    · rw [locate, if_pos hlen, haddr]
    · have hbehind : addr + len + (k - len) = addr + k := by omega
      rw [locate, if_neg hlen, ih hregions (by omega), hbehind]

/-- Consecutive regions are in a set exactly when their range is. -/
theorem consecutive_subset_iff {regions : List (Nat × Nat)} {addr : Nat} {S : Set Nat}
    (hregions : Consecutive addr regions) :
    (∀ r ∈ regions, Set.Ico r.1 (r.1 + r.2) ⊆ S) ↔
      Set.Ico addr (addr + (regions.map Prod.snd).sum) ⊆ S := by
  induction regions generalizing addr with
  | nil => simp
  | cons r regions ih =>
    obtain ⟨haddr, hregions⟩ := hregions
    have hsplit : Set.Ico addr (addr + r.2) ∪
        Set.Ico (addr + r.2) (addr + r.2 + (regions.map Prod.snd).sum) =
          Set.Ico addr (addr + ((r :: regions).map Prod.snd).sum) := by
      rw [Set.Ico_union_Ico_eq_Ico (by omega) (by omega), List.map_cons, List.sum_cons,
        Nat.add_assoc]
    rw [List.forall_mem_cons, ih hregions, haddr, ← hsplit, Set.union_subset_iff]

/-- `n` regions of `size` bytes and one of `last` bytes, each where the one before it ends. -/
def tiles (size last : Nat) : Nat → Nat → List (Nat × Nat)
  | 0, addr => [(addr, last)]
  | n + 1, addr => (addr, size) :: tiles size last n (addr + size)

section tiles

variable {size last addr : Nat}

theorem consecutive_tiles : Consecutive addr (tiles size last n addr) := by
  induction n generalizing addr with
  | zero => exact ⟨rfl, trivial⟩
  | succ n ih => exact ⟨rfl, ih⟩

theorem sum_tiles : ((tiles size last n addr).map Prod.snd).sum = size * n + last := by
  induction n generalizing addr with
  | zero => simp [tiles]
  | succ n ih =>
    rw [tiles, List.map_cons, List.sum_cons, ih, Nat.mul_succ]
    omega

theorem length_tiles : (tiles size last n addr).length = n + 1 := by
  induction n generalizing addr with
  | zero => rfl
  | succ n ih => rw [tiles, List.length_cons, ih]

theorem getElem?_tiles {i : Nat} {r : Nat × Nat} (h : (tiles size last n addr)[i]? = some r) :
    r.1 = addr + size * i ∧ (r.2 = size ∨ r.2 = last) := by
  induction n generalizing addr i with
  | zero =>
    cases i with
    | zero =>
      cases h
      exact ⟨rfl, .inr rfl⟩
    | succ i => cases h
  | succ n ih =>
    cases i with
    | zero =>
      cases h
      exact ⟨rfl, .inl rfl⟩
    | succ i =>
      obtain ⟨haddr, hlen⟩ := ih h
      refine ⟨?_, hlen⟩
      rw [haddr, Nat.mul_succ]
      omega

end tiles

/-! ## Frames -/

theorem disjoint_of_le {a b c d : Nat} (h : b ≤ c) : Disjoint (Set.Ico a b) (Set.Ico c d) :=
  (Set.Iio_disjoint_Ici h).mono Set.Ico_subset_Iio_self Set.Ico_subset_Ici_self

/-- The memories agree outside `S`. -/
def ChangesOnly (S : Set Nat) (m m' : Bytes) : Prop := ∀ x, x ∉ S → m' x = m x

namespace ChangesOnly

theorem refl (S : Set Nat) (m : Bytes) : ChangesOnly S m m := fun _ _ => rfl

theorem trans (h : ChangesOnly S m m') (h' : ChangesOnly S m' m'') : ChangesOnly S m m'' :=
  fun x hx => (h' x hx).trans (h x hx)

theorem mono (h : ChangesOnly S m m') (hST : S ⊆ T) : ChangesOnly T m m' :=
  fun x hx => h x (fun hS => hx (hST hS))

theorem overwrite (f : Nat → UInt8) (h : Set.Ico a (a + n) ⊆ S) :
    ChangesOnly S m (overwrite m a n f) :=
  fun _ hx => overwrite_of_notMem (fun hmem => hx (h hmem))

theorem overwrite_byte (f : Nat → UInt8) (h : a ∈ S) :
    ChangesOnly S m (Memory.overwrite m a 1 f) := by
  apply overwrite f
  intro x hx
  have hx : a ≤ x ∧ x < a + 1 := hx
  have e : x = a := by omega
  rw [e]
  exact h

/-- A copy changes its destination. -/
theorem memcpy (m : Bytes) (dst : Nat) (src : Nat → Nat) (n : Nat) :
    ChangesOnly (Set.Ico dst (dst + n)) m (Memory.memcpy m dst src n) := by
  induction n with
  | zero => exact .refl _ m
  | succ n ih =>
    have hprev := ih.mono (Set.Ico_subset_Ico_right (by omega : dst + n ≤ dst + (n + 1)))
    have hlast : Set.Ico (dst + n) (dst + n + 1) ⊆ Set.Ico dst (dst + (n + 1)) :=
      Set.Ico_subset_Ico (by omega) (by omega)
    rw [Memory.memcpy]
    exact hprev.trans (.overwrite _ hlast)

/-- The same write to both memories. -/
theorem overwrite_both (h : ChangesOnly S m m') (a n : Nat) (f : Nat → UInt8) :
    ChangesOnly S (Memory.overwrite m a n f) (Memory.overwrite m' a n f) := by
  intro x hx
  unfold Memory.overwrite
  rw [h x hx]

/-- A word outside of what changed is still there. -/
theorem load64 (h : ChangesOnly S m m') (hS : Disjoint S (Set.Ico a (a + 8))) :
    load64 m' a = load64 m a :=
  load64_congr (fun x hx => h x (fun hmem => Set.disjoint_left.mp hS hmem hx))

/-- A word behind or before the range that changed is still there. -/
theorem load64_outside {b : Nat} (h : ChangesOnly (Set.Ico a (a + n)) m m')
    (hb : a + n ≤ b ∨ b + 8 ≤ a) : Memory.load64 m' b = Memory.load64 m b := by
  apply h.load64
  rw [Set.Ico_disjoint_Ico]
  omega

end ChangesOnly

/-! ## Words -/

/-- The `n` words from `a` on. -/
def load_words (m : Bytes) : Nat → Nat → List UInt64
  | _, 0 => []
  | a, n + 1 => UInt64.ofNat (load64 m a) :: load_words m (a + 8) n

/-- Write words one behind the other. -/
def store_words (m : Bytes) : Nat → List UInt64 → Bytes
  | _, [] => m
  | a, w :: ws => store_words (store64 m a w.toNat) (a + 8) ws

theorem load_words_congr (h : ∀ x ∈ Set.Ico a (a + 8 * n), m' x = m x) :
    load_words m' a n = load_words m a n := by
  induction n generalizing a with
  | zero => rfl
  | succ n ih =>
    have hfirst : Set.Ico a (a + 8) ⊆ Set.Ico a (a + 8 * (n + 1)) :=
      Set.Ico_subset_Ico_right (by omega)
    have hrest : Set.Ico (a + 8) (a + 8 + 8 * n) ⊆ Set.Ico a (a + 8 * (n + 1)) :=
      Set.Ico_subset_Ico (by omega) (by omega)
    rw [load_words, load_words, load64_congr fun x hx => h x (hfirst hx),
      ih fun x hx => h x (hrest hx)]

theorem changesOnly_store_words (m : Bytes) (a : Nat) (ws : List UInt64) :
    ChangesOnly (Set.Ico a (a + 8 * ws.length)) m (store_words m a ws) := by
  induction ws generalizing m a with
  | nil => exact .refl _ m
  | cons w ws ih =>
    have hlength : (w :: ws).length = ws.length + 1 := rfl
    have hfirst : ChangesOnly (Set.Ico a (a + 8 * (w :: ws).length)) m (store64 m a w.toNat) :=
      .overwrite _ (Set.Ico_subset_Ico_right (by omega))
    exact hfirst.trans ((ih _ _).mono (Set.Ico_subset_Ico (by omega) (by omega)))

/-- The words that were written are read. -/
theorem load_words_store_words (m : Bytes) (a : Nat) (ws : List UInt64) :
    load_words (store_words m a ws) a ws.length = ws := by
  induction ws generalizing m a with
  | nil => rfl
  | cons w ws ih =>
    have hfirst : load64 (store_words (store64 m a w.toNat) (a + 8) ws) a = w.toNat := by
      rw [(changesOnly_store_words _ _ _).load64_outside (Or.inr le_rfl),
        load64_store64 m a w.toNat_lt]
    rw [store_words, List.length_cons, load_words, hfirst, UInt64.ofNat_toNat, ih]

/-! ## Pieces of data -/

/-- Data for the `len` bytes from `addr` on. -/
structure Piece where
  addr : Nat
  len : Nat
  data : Nat → UInt8

def Piece.range (p : Piece) : Set Nat := Set.Ico p.addr (p.addr + p.len)

def write_all (m : Bytes) (ps : List Piece) : Bytes :=
  ps.foldl (fun m p => overwrite m p.addr p.len p.data) m

variable {p : Piece} {ps : List Piece}

theorem write_all_concat (m : Bytes) (ps : List Piece) (p : Piece) :
    write_all m (ps ++ [p]) = overwrite (write_all m ps) p.addr p.len p.data := by
  simp [write_all]

theorem changesOnly_write_all (m : Bytes) (h : ∀ p ∈ ps, p.range ⊆ S) :
    ChangesOnly S m (write_all m ps) := by
  induction ps generalizing m with
  | nil => exact .refl S m
  | cons p ps ih =>
    rw [List.forall_mem_cons] at h
    exact (ChangesOnly.overwrite p.data h.1).trans (ih _ h.2)

/-- **Each piece is found** when no two of them share a byte. -/
theorem write_all_of_mem (m : Bytes) (hps : ps.Pairwise (fun p q => Disjoint p.range q.range))
    (hp : p ∈ ps) {k : Nat} (hk : k < p.len) : write_all m ps (p.addr + k) = p.data k := by
  induction ps generalizing m with
  | nil => cases hp
  | cons q ps ih =>
    rw [List.pairwise_cons] at hps
    rcases List.mem_cons.mp hp with rfl | hmem
    · -- the pieces behind do not reach this byte
      have hin : p.addr + k ∈ p.range := ⟨by omega, by omega⟩
      have hrest : ChangesOnly (Set.compl p.range) (overwrite m p.addr p.len p.data)
          (write_all (overwrite m p.addr p.len p.data) ps) :=
        changesOnly_write_all _ fun q hq x hx hxp =>
          Set.disjoint_left.mp (hps.1 q hq) hxp hx
      have hsame := hrest (p.addr + k) (fun hout => hout hin)
      rw [show write_all m (p :: ps) = write_all (overwrite m p.addr p.len p.data) ps from rfl,
        hsame, overwrite_of_mem hin, Nat.add_sub_cancel_left]
    · exact ih _ hps.2 hmem

end Memory
