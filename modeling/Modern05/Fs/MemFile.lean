import Mathlib.Data.List.GetD
import Modern05.Framework.Memory
import Modern05.Mm.PageAlloc

/-! # Files in memory

    `MemFsFileNode` of `include/fs/mem_fs_node.hpp`: `Read`, `Write` and `Resize` on a vector of
    characters, which grows as `std::vector` does.

    A vector is modelled with the memory from `data()` on, of which only a part is its own. A larger
    block comes from `kmalloc` with the memory that is there, and shares no byte with the old one.
    So a copy that runs over the end of the vector can be told from one that does not. The memory
    behind a vector is taken to be mapped, and the address 0, where a vector without storage is
    written to, is not.

    The abstract file is a list of bytes. `Write` grows the vector when the offset is behind the
    end, and not when the bytes are: `Write_inside` and `Write_behind` give what is stored, and
    `file_semantics_iff` the sequences of calls after which a file is what it should be.
-/

namespace Modern05

open BuddyAllocator LTS Memory

/-! ## Blocks for vectors -/

/-- The allocator and the memory at the time of a call. -/
structure FileHeap (R : Region) where
  buddy : BuddyState
  mem : Bytes
  reachable : Reachable (buddy_system R.allocator) buddy

variable {R : Region} {h : FileHeap R}

namespace FileHeap

/-- The memory from the block on that `kmalloc` returns, if there is one. -/
def kmalloc (h : FileHeap R) (size : Nat) : Option Bytes :=
  match try_kmalloc R.allocator h.buddy size with
  | some (some l, _) => some (fun i => h.mem ((l.addr R.allocator).toNat + i))
  | _ => none

/-- The allocator has a block for this size. -/
def HasBlock (h : FileHeap R) (size : Nat) : Prop :=
  HasRoom R.allocator h.buddy (kmalloc_log2size size)

theorem kmalloc_cases (h : FileHeap R) (size : Nat) :
    (h.HasBlock size ∧ ∃ fresh, h.kmalloc size = some fresh) ∨
      ¬ h.HasBlock size ∧ h.kmalloc size = none := by
  unfold kmalloc HasBlock try_kmalloc
  rcases try_page_alloc_cases h.reachable (min_le_kmalloc_log2size size) with
    ⟨hroom, l, s', _, htry⟩ | ⟨hnoroom, _, htry⟩
  · exact .inl ⟨hroom, _, by rw [htry]⟩
  · exact .inr ⟨hnoroom, by rw [htry]⟩

end FileHeap

/-! ## The vector -/

/-- `max_size()` of a vector of characters. -/
def max_size : Nat := 2 ^ 63 - 1

/-- `kvector<char>` -/
structure CharVector where
  /-- The memory from `data()` on. -/
  storage : Bytes
  size : Nat
  capacity : Nat
  size_le : size ≤ capacity
  capacity_le : capacity ≤ max_size

namespace CharVector

/-- The capacity that a vector is given when it has to grow to `n` elements. -/
def grown_capacity (v : CharVector) (n : Nat) : Nat :=
  min (v.size + max v.size (n - v.size)) max_size

theorem grown_capacity_le (v : CharVector) (n : Nat) : v.grown_capacity n ≤ max_size :=
  Nat.min_le_right _ _

theorem le_grown_capacity {v : CharVector} {n : Nat} (hn : v.size ≤ n) (hmax : n ≤ max_size) :
    n ≤ v.grown_capacity n := by
  unfold grown_capacity
  omega

/-- New elements are zero. A failed `kmalloc` returns the start of the kernel image, and the
    elements are made there. -/
def resize (h : FileHeap R) (v : CharVector) (n : Nat) : Except Fault CharVector :=
  if hsmall : n ≤ v.size then .ok { v with size := n, size_le := hsmall.trans v.size_le }
  else if hroom : n ≤ v.capacity then
    .ok { v with storage := clear v.storage v.size (n - v.size), size := n, size_le := hroom }
  else if hmax : max_size - v.size < n - v.size then .error (.panic "__throw_length_error")
  else
    match h.kmalloc (v.grown_capacity n) with
    | none => .error .kernel_overwritten
    | some fresh =>
      -- the old elements are moved after the new ones were made
      .ok {
        storage := overwrite (clear fresh v.size (n - v.size)) 0 v.size v.storage
        size := n
        capacity := v.grown_capacity n
        size_le := by
          have hle := v.size_le.trans v.capacity_le
          exact le_grown_capacity (by omega) (by omega)
        capacity_le := v.grown_capacity_le n }

/-- The vector has room for `n` elements, or gets a block for them. -/
def CanHold (h : FileHeap R) (v : CharVector) (n : Nat) : Prop :=
  n ≤ v.capacity ∨ n ≤ max_size ∧ h.HasBlock (v.grown_capacity n)

/-- The vector after a copy to `data_.data() + offset`. -/
def copy_to (v : CharVector) (offset : Nat) (buffer : List UInt8) : CharVector :=
  { v with storage := copy v.storage offset buffer }

/-- `memcpy(data_.data() + offset, buffer, size)`, which does not look at the size of the vector.
    Without storage `data()` is null. -/
def memcpy_to (v : CharVector) (offset : Nat) (buffer : List UInt8) : Except Fault CharVector :=
  if v.capacity = 0 ∧ buffer ≠ [] then .error .null_deref else .ok (v.copy_to offset buffer)

@[simp] theorem size_copy_to (v : CharVector) (offset : Nat) (buffer : List UInt8) :
    (v.copy_to offset buffer).size = v.size := rfl

/-- The elements. -/
def contents (v : CharVector) : List UInt8 := bytes v.storage 0 v.size

variable {v : CharVector} {n i : Nat}

@[simp] theorem length_contents (v : CharVector) : v.contents.length = v.size :=
  length_bytes _ _ _

theorem getD_contents (hi : i < v.size) : v.contents.getD i 0 = v.storage i := by
  simp [contents, bytes, List.getD, hi]

theorem getD_contents_of_le (hi : v.size ≤ i) : v.contents.getD i 0 = 0 := by
  rw [List.getD_eq_default _ _ (by simpa using hi)]

/-- The elements are a list when they are so byte for byte. -/
theorem contents_eq_of_forall {d : List UInt8} (hsize : v.size = d.length)
    (h : ∀ i < v.size, v.storage i = d.getD i 0) : v.contents = d := by
  apply List.ext_getElem (by simpa using hsize)
  intro i hi hi'
  have hlt : i < v.size := by simpa using hi
  have hget := getD_contents hlt
  rw [h i hlt, List.getD_eq_getElem _ _ hi, List.getD_eq_getElem _ _ hi'] at hget
  exact hget

/-- Zeros behind the elements, in the same place. -/
theorem clear_eq_getD (v : CharVector) (hi : i < n) :
    clear v.storage v.size (n - v.size) i = v.contents.getD i 0 := by
  rcases Nat.lt_or_ge i v.size with hold | hnew
  · rw [getD_contents hold, clear, overwrite_of_notMem (fun h => Nat.not_le.mpr hold h.1)]
  · rw [getD_contents_of_le hnew, clear, overwrite_of_mem ⟨hnew, by omega⟩]

/-- Zeros behind the elements, in another place. -/
theorem moved_eq_getD (fresh : Bytes) (v : CharVector) (hi : i < n) :
    overwrite (clear fresh v.size (n - v.size)) 0 v.size v.storage i = v.contents.getD i 0 := by
  rcases Nat.lt_or_ge i v.size with hold | hnew
  · rw [getD_contents hold, overwrite_of_mem ⟨Nat.zero_le _, by omega⟩, Nat.sub_zero]
  · rw [getD_contents_of_le hnew, overwrite_of_notMem (fun h => by have := h.2; omega), clear,
      overwrite_of_mem ⟨hnew, by omega⟩]

/-- Nothing behind the end of the vector changes, where it is or where it was moved to. -/
def Framed (h : FileHeap R) (v v' : CharVector) : Prop :=
  (∀ i, v'.size ≤ i → v'.storage i = v.storage i) ∨
    ∃ fresh, h.kmalloc v'.capacity = some fresh ∧ ∀ i, v'.size ≤ i → v'.storage i = fresh i

/-- **What `resize` does**: it keeps what is there and adds zeros, if there is room. -/
theorem resize_cases (h : FileHeap R) (v : CharVector) (n : Nat) :
    (v.CanHold h n ∧ ∃ v', v.resize h n = .ok v' ∧ v'.size = n ∧
      (∀ i < n, v'.storage i = v.contents.getD i 0) ∧ Framed h v v') ∨
    (¬ v.CanHold h n ∧ ∃ e, v.resize h n = .error e) := by
  have hsize := v.size_le
  have hcapacity := v.capacity_le
  unfold resize
  by_cases hsmall : n ≤ v.size
  · -- fewer elements
    left
    rw [dif_pos hsmall]
    refine ⟨.inl (by omega), _, rfl, rfl, fun i hi => ?_, .inl fun _ _ => rfl⟩
    rw [getD_contents (by omega)]
  rw [dif_neg hsmall]
  by_cases hroom : n ≤ v.capacity
  · -- in the same block
    left
    rw [dif_pos hroom]
    refine ⟨.inl hroom, _, rfl, rfl, fun i hi => clear_eq_getD v hi, .inl fun i hi => ?_⟩
    have hi : n ≤ i := hi
    show clear v.storage v.size (n - v.size) i = v.storage i
    rw [clear, overwrite_of_notMem (fun h => by have := h.2; omega)]
  rw [dif_neg hroom]
  by_cases hmax : max_size - v.size < n - v.size
  · right
    rw [dif_pos hmax]
    refine ⟨?_, _, rfl⟩
    rintro (hle | ⟨hle, _⟩) <;> omega
  rw [dif_neg hmax]
  rcases h.kmalloc_cases (v.grown_capacity n) with ⟨hblock, fresh, hfresh⟩ | ⟨hnone, hfresh⟩
  · -- in a larger block
    left
    rw [hfresh]
    refine ⟨.inr ⟨by omega, hblock⟩, _, rfl, rfl, fun i hi => moved_eq_getD fresh v hi,
      .inr ⟨fresh, hfresh, fun i hi => ?_⟩⟩
    have hi : n ≤ i := hi
    show overwrite (clear fresh v.size (n - v.size)) 0 v.size v.storage i = fresh i
    rw [overwrite_of_notMem (fun h => by have := h.2; omega), clear,
      overwrite_of_notMem (fun h => by have := h.2; omega)]
  · right
    rw [hfresh]
    refine ⟨?_, _, rfl⟩
    rintro (hle | ⟨_, hblock⟩)
    · omega
    · exact hnone hblock

/-- A copy to elements of the vector does not change what is behind them. -/
theorem Framed.copy_to {v' : CharVector} {offset : Nat} {buffer : List UInt8}
    (hframe : Framed h v v') (hend : offset + buffer.length ≤ v'.size) :
    Framed h v (v'.copy_to offset buffer) := by
  have hkept : ∀ i, v'.size ≤ i → (v'.copy_to offset buffer).storage i = v'.storage i :=
    fun i hi => (copy_eq_ite _ _ _ _).trans (if_neg (by omega))
  rcases hframe with hsame | ⟨fresh, hfresh, hmoved⟩
  · exact .inl fun i hi => (hkept i hi).trans (hsame i hi)
  · exact .inr ⟨fresh, hfresh, fun i hi => (hkept i hi).trans (hmoved i hi)⟩

/-- With elements there is storage. -/
theorem memcpy_to_eq {offset : Nat} {buffer : List UInt8} (hend : offset + buffer.length ≤ v.size) :
    v.memcpy_to offset buffer = .ok (v.copy_to offset buffer) := by
  have hsize := v.size_le
  apply if_neg
  rintro ⟨hzero, hne⟩
  have hlength := List.length_pos_iff.mpr hne
  omega

/-- A copy that returns leaves the bytes where it was told to. -/
theorem copy_to_of_memcpy_to {v' : CharVector} {offset : Nat} {buffer : List UInt8}
    (hcopy : v.memcpy_to offset buffer = .ok v') : v' = v.copy_to offset buffer := by
  unfold memcpy_to at hcopy
  split_ifs at hcopy
  exact (Except.ok.inj hcopy).symm

end CharVector

/-! ## The calls -/

/-- A file, of which only the data is used here. -/
structure MemFsFileNode where
  data_ : CharVector

namespace MemFsFileNode

/-- The size that is read and the bytes that are copied to the buffer. The sum wraps around, and
    then the copy goes on behind the file: it is given here as all the bytes it would copy, and in
    fact ends with a fault at the first address that is not mapped, of the file or the buffer. -/
def Read (f : MemFsFileNode) (size offset : Nat) : Except Fault (Nat × List UInt8) :=
  if f.data_.size ≤ offset then .error (.assertion "offset < data_.size()")
  else
    let read_size :=
      if f.data_.size < (offset + size) % 2 ^ 64 then f.data_.size - offset else size
    .ok (read_size, bytes f.data_.storage offset read_size)

/-- `if (offset > data_.size()) data_.resize(offset + size)` -/
def grow (h : FileHeap R) (v : CharVector) (size offset : Nat) : Except Fault CharVector :=
  if v.size < offset then v.resize h ((offset + size) % 2 ^ 64) else .ok v

/-- The size that is returned, and the file. -/
def Write (h : FileHeap R) (f : MemFsFileNode) (buffer : List UInt8) (offset : Nat) :
    Except Fault (Nat × MemFsFileNode) := do
  let data_ ← grow h f.data_ buffer.length offset
  let data_ ← data_.memcpy_to offset buffer
  .ok (buffer.length, ⟨data_⟩)

def Resize (h : FileHeap R) (f : MemFsFileNode) (new_size : Nat) : Except Fault MemFsFileNode := do
  let data_ ← f.data_.resize h new_size
  .ok ⟨data_⟩

def size (f : MemFsFileNode) : Nat := f.data_.size

def contents (f : MemFsFileNode) : List UInt8 := f.data_.contents

end MemFsFileNode

/-! ## Reading -/

namespace MemFsFileNode

variable {f : MemFsFileNode} {size offset : Nat}

/-- What is read without wrapping is a part of the file. -/
theorem Read_of_no_wrap (hoffset : offset < f.size) (hwrap : offset + size < 2 ^ 64) :
    f.Read size offset =
      .ok (min size (f.size - offset), (f.contents.drop offset).take size) := by
  have hread : (if f.data_.size < (offset + size) % 2 ^ 64 then f.data_.size - offset else size) =
      min size (f.size - offset) := by
    unfold MemFsFileNode.size at *
    rw [Nat.mod_eq_of_lt hwrap]
    split <;> omega
  have hbytes : bytes f.data_.storage offset (min size (f.size - offset)) =
      (f.contents.drop offset).take size := by
    apply List.ext_getElem
    · simp [length_bytes, contents, MemFsFileNode.size]
    · intro i hi hi'
      simp [bytes, contents, CharVector.contents]
  have hin : ¬ f.data_.size ≤ offset := Nat.not_le.mpr hoffset
  unfold Read
  rw [if_neg hin]
  dsimp only
  rw [hread, hbytes]

/-- A sum that wraps around is small, and all is read that was asked for. -/
theorem Read_of_wrap (hoffset : offset < f.size) (hsize : size < 2 ^ 64)
    (hwrap : 2 ^ 64 ≤ offset + size) :
    f.Read size offset = .ok (size, bytes f.data_.storage offset size) := by
  have hle := f.data_.size_le.trans f.data_.capacity_le
  have hmax : max_size = 2 ^ 63 - 1 := rfl
  have hsmall : ¬ f.data_.size < (offset + size) % 2 ^ 64 := by
    unfold MemFsFileNode.size at hoffset
    omega
  have hin : ¬ f.data_.size ≤ offset := Nat.not_le.mpr hoffset
  unfold Read
  rw [if_neg hin]
  dsimp only
  rw [if_neg hsmall]

end MemFsFileNode

/-- **A read stays in the file exactly when `offset + size` does not wrap around.** -/
theorem read_bounded_iff (f : MemFsFileNode) (size offset : Nat) (hsize : size < 2 ^ 64)
    (hoffset : offset < f.size) :
    (∃ n data, f.Read size offset = .ok (n, data) ∧ n = min size (f.size - offset) ∧
      data = (f.contents.drop offset).take size ∧
      Set.Ico offset (offset + n) ⊆ Set.Ico 0 f.size) ↔
    offset + size < 2 ^ 64 := by
  constructor
  · rintro ⟨n, data, hread, hn, _, _⟩
    by_contra hwrap
    rw [MemFsFileNode.Read_of_wrap hoffset hsize (Nat.not_lt.mp hwrap)] at hread
    cases hread
    have hle := f.data_.size_le.trans f.data_.capacity_le
    have hmax : max_size = 2 ^ 63 - 1 := rfl
    unfold MemFsFileNode.size at *
    omega
  · intro hwrap
    refine ⟨_, _, MemFsFileNode.Read_of_no_wrap hoffset hwrap, rfl, rfl, ?_⟩
    exact Set.Ico_subset_Ico (Nat.zero_le _) (by omega)

/-- Three bytes in a vector that has no more. -/
def abc : MemFsFileNode :=
  ⟨⟨copy (fun _ => 0) 0 [0x61, 0x62, 0x63], 3, 3, by decide, by decide⟩⟩

theorem abc_read_bounded : ∃ n data, abc.Read 10 1 = .ok (n, data) ∧ n = 2 ∧
    data = [0x62, 0x63] := by
  obtain ⟨n, data, hread, hn, hdata, _⟩ :=
    (read_bounded_iff abc 10 1 (by decide) (by decide)).mpr (by decide)
  exact ⟨n, data, hread, hn.trans (by decide), hdata.trans (by decide)⟩

/-- The largest size, from the second byte on: the sum is 0, and all of it is read. -/
theorem abc_read_unbounded : ∃ data, abc.Read (2 ^ 64 - 1) 1 = .ok (2 ^ 64 - 1, data) ∧
    min (2 ^ 64 - 1) (abc.size - 1) = 2 :=
  ⟨_, MemFsFileNode.Read_of_wrap (by decide) (by decide) (by decide), by decide⟩

/-! ## The abstract file -/

/-- Bytes that no call has given are zero. -/
def write_bytes (d b : List UInt8) (offset : Nat) : List UInt8 :=
  (List.range (max d.length (offset + b.length))).map (fun i =>
    if offset ≤ i ∧ i < offset + b.length then b.getD (i - offset) 0 else d.getD i 0)

def resize_bytes (d : List UInt8) (n : Nat) : List UInt8 :=
  (List.range n).map (fun i => d.getD i 0)

@[simp] theorem length_write_bytes (d b : List UInt8) (offset : Nat) :
    (write_bytes d b offset).length = max d.length (offset + b.length) := by simp [write_bytes]

@[simp] theorem length_resize_bytes (d : List UInt8) (n : Nat) :
    (resize_bytes d n).length = n := by simp [resize_bytes]

theorem getD_write_bytes (d b : List UInt8) (offset : Nat) {i : Nat}
    (hi : i < max d.length (offset + b.length)) :
    (write_bytes d b offset).getD i 0 =
      if offset ≤ i ∧ i < offset + b.length then b.getD (i - offset) 0 else d.getD i 0 := by
  rw [List.getD_eq_getElem _ _ (by simpa using hi)]
  simp [write_bytes]

theorem getD_resize_bytes (d : List UInt8) {n i : Nat} (hi : i < n) :
    (resize_bytes d n).getD i 0 = d.getD i 0 := by
  rw [List.getD_eq_getElem _ _ (by simpa using hi)]
  simp [resize_bytes]

/-- The calls that change a file. -/
inductive FileCall where
  | Write (buffer : List UInt8) (offset : Nat)
  | Resize (new_size : Nat)

namespace FileCall

/-- The arguments are numbers of 64 bits, and so is the end of what is written. -/
def NoWrap : FileCall → Prop
  | .Write buffer offset => offset + buffer.length < 2 ^ 64
  | .Resize new_size => new_size < 2 ^ 64

/-- What the call is for. -/
def apply (d : List UInt8) : FileCall → List UInt8
  | .Write buffer offset => write_bytes d buffer offset
  | .Resize new_size => resize_bytes d new_size

/-- The written bytes are in the file, or they start behind its end and the vector can be as
    large. -/
def Fits (h : FileHeap R) (f : MemFsFileNode) : FileCall → Prop
  | .Write buffer offset => offset + buffer.length ≤ f.size ∨
      f.size < offset ∧ f.data_.CanHold h (offset + buffer.length)
  | .Resize new_size => f.data_.CanHold h new_size

end FileCall

/-! ## Writing -/

namespace MemFsFileNode

variable {f f' : MemFsFileNode} {buffer : List UInt8} {offset : Nat}

theorem length_contents_eq (f : MemFsFileNode) : f.contents.length = f.size :=
  CharVector.length_contents _

/-- **A write that starts in the file** keeps its size, and what is behind the end is not part of
    it. -/
theorem contents_of_Write (hle : offset ≤ f.size) {n : Nat}
    (hwrite : f.Write h buffer offset = .ok (n, f')) :
    f'.contents = (write_bytes f.contents buffer offset).take f.size := by
  have hgrow : grow h f.data_ buffer.length offset = .ok f.data_ := if_neg (Nat.not_lt.mpr hle)
  obtain ⟨v₀, hv₀, hwrite⟩ := except_bind_ok hwrite
  obtain rfl : f.data_ = v₀ := Except.ok.inj (hgrow.symm.trans hv₀)
  obtain ⟨v, hcopy, hwrite⟩ := except_bind_ok hwrite
  cases hwrite
  rw [CharVector.copy_to_of_memcpy_to hcopy]
  apply CharVector.contents_eq_of_forall
  · simp [contents, MemFsFileNode.size]
  · intro i hi
    have hi : i < f.data_.size := hi
    have hmax : i < max f.contents.length (offset + buffer.length) := by
      simp [contents]
      omega
    rw [List.getD_eq_getElem _ _ (by simpa [contents, MemFsFileNode.size] using hi),
      List.getElem_take, ← List.getD_eq_getElem _ 0, getD_write_bytes _ _ _ hmax]
    show copy f.data_.storage offset buffer i = _
    rw [copy_eq_ite, ← CharVector.getD_contents hi]
    rfl

/-- **A write to bytes of the file** is what it should be. -/
theorem Write_inside (h : FileHeap R) (hend : offset + buffer.length ≤ f.size) :
    ∃ f', f.Write h buffer offset = .ok (buffer.length, f') ∧
      f'.contents = write_bytes f.contents buffer offset ∧
      CharVector.Framed h f.data_ f'.data_ := by
  have hle : offset ≤ f.size := (Nat.le_add_right _ _).trans hend
  have hgrow : grow h f.data_ buffer.length offset = .ok f.data_ := if_neg (Nat.not_lt.mpr hle)
  have hwrite : f.Write h buffer offset =
      .ok (buffer.length, ⟨f.data_.copy_to offset buffer⟩) := by
    rw [Write, hgrow]
    show (do
      let data_ ← f.data_.memcpy_to offset buffer
      Except.ok (buffer.length, (⟨data_⟩ : MemFsFileNode))) = _
    rw [CharVector.memcpy_to_eq hend]
    rfl
  have hframe : CharVector.Framed h f.data_ f.data_ := .inl fun _ _ => rfl
  refine ⟨_, hwrite, ?_, hframe.copy_to hend⟩
  rw [contents_of_Write hle hwrite, List.take_of_length_le]
  rw [length_write_bytes, f.length_contents_eq]
  exact max_le le_rfl hend

/-- **A write behind the end** is what it should be, if the vector can be as large. -/
theorem Write_behind (h : FileHeap R) (hbehind : f.size < offset)
    (hwrap : offset + buffer.length < 2 ^ 64) :
    (f.data_.CanHold h (offset + buffer.length) ∧
      ∃ f', f.Write h buffer offset = .ok (buffer.length, f') ∧
        f'.contents = write_bytes f.contents buffer offset ∧
        CharVector.Framed h f.data_ f'.data_) ∨
    (¬ f.data_.CanHold h (offset + buffer.length) ∧
      ∃ e, f.Write h buffer offset = .error e) := by
  have hgrow : grow h f.data_ buffer.length offset =
      f.data_.resize h (offset + buffer.length) := by
    have hlt : f.data_.size < offset := hbehind
    rw [grow, if_pos hlt, Nat.mod_eq_of_lt hwrap]
  rw [Write, hgrow]
  rcases f.data_.resize_cases h (offset + buffer.length) with
    ⟨hhold, v, hv, hsize, hstorage, hframe⟩ | ⟨hhold, e, hv⟩
  · left
    have hlength := f.length_contents_eq
    have hcopy : v.memcpy_to offset buffer = .ok (v.copy_to offset buffer) :=
      CharVector.memcpy_to_eq (by omega)
    refine ⟨hhold, ⟨v.copy_to offset buffer⟩, ?_, ?_, ?_⟩
    · rw [hv]
      show (do
        let data_ ← v.memcpy_to offset buffer
        Except.ok (buffer.length, (⟨data_⟩ : MemFsFileNode))) = _
      rw [hcopy]
      rfl
    · -- zeros up to the offset, and the buffer from there
      apply CharVector.contents_eq_of_forall
      · rw [CharVector.size_copy_to, length_write_bytes, hsize, hlength]
        omega
      · intro i hi
        have hi : i < offset + buffer.length := by rwa [← hsize]
        rw [getD_write_bytes _ _ _ (lt_max_of_lt_right hi)]
        show copy v.storage offset buffer i = _
        rw [copy_eq_ite, hstorage i hi]
        rfl
    · exact hframe.copy_to (by omega)
  · right
    refine ⟨hhold, e, ?_⟩
    rw [hv]
    rfl

/-- A write that fits does what it should. -/
theorem Write_of_fits (hwrap : offset + buffer.length < 2 ^ 64)
    (hfits : (FileCall.Write buffer offset).Fits h f) :
    ∃ f', f.Write h buffer offset = .ok (buffer.length, f') ∧
      f'.contents = write_bytes f.contents buffer offset ∧
      CharVector.Framed h f.data_ f'.data_ := by
  rcases hfits with hinside | ⟨hbehind, hhold⟩
  · exact Write_inside h hinside
  · rcases Write_behind h hbehind hwrap with ⟨_, hwrite⟩ | ⟨hnot, _⟩
    · exact hwrite
    · exact absurd hhold hnot

/-- A write that does what it should fits: otherwise the size of the file is not what it should
    be, or the vector cannot be as large. -/
theorem fits_of_Write (hwrap : offset + buffer.length < 2 ^ 64) {n : Nat}
    (hf' : f.Write h buffer offset = .ok (n, f'))
    (hcontents : f'.contents = write_bytes f.contents buffer offset) :
    (FileCall.Write buffer offset).Fits h f := by
  rcases Nat.lt_or_ge f.size offset with hbehind | hinside
  · rcases Write_behind h hbehind hwrap with ⟨hhold, _⟩ | ⟨_, e, hfail⟩
    · exact .inr ⟨hbehind, hhold⟩
    · cases hfail.symm.trans hf'
  · left
    have hle := congrArg List.length ((contents_of_Write hinside hf').symm.trans hcontents)
    rw [List.length_take, length_write_bytes, f.length_contents_eq] at hle
    omega

/-- `Resize` gives the size that it is called with, if the vector can be as large. -/
theorem Resize_cases (h : FileHeap R) (f : MemFsFileNode) (n : Nat) :
    (f.data_.CanHold h n ∧ ∃ f', f.Resize h n = .ok f' ∧
      f'.contents = resize_bytes f.contents n) ∨
    (¬ f.data_.CanHold h n ∧ ∃ e, f.Resize h n = .error e) := by
  unfold Resize
  rcases f.data_.resize_cases h n with ⟨hhold, v, hv, hsize, hstorage, _⟩ | ⟨hhold, e, hv⟩
  · left
    refine ⟨hhold, ⟨v⟩, by rw [hv]; rfl, ?_⟩
    apply CharVector.contents_eq_of_forall
    · simpa using hsize
    · intro i hi
      have hi : i < n := by rwa [← hsize]
      rw [hstorage i hi, getD_resize_bytes _ hi]
      rfl
  · right
    refine ⟨hhold, e, ?_⟩
    rw [hv]
    rfl

/-! ## Sequences of calls -/

/-- One call, with the allocator as it is then. -/
def exec (f : MemFsFileNode) (h : FileHeap R) : FileCall → Except Fault MemFsFileNode
  | .Write buffer offset => (f.Write h buffer offset).map Prod.snd
  | .Resize new_size => f.Resize h new_size

def run (f : MemFsFileNode) : List (FileHeap R × FileCall) → Except Fault MemFsFileNode
  | [] => .ok f
  | (h, c) :: cs => do
    let f' ← f.exec h c
    f'.run cs

/-- Each call of a sequence fits the file that it finds. -/
def AllFit (f : MemFsFileNode) : List (FileHeap R × FileCall) → Prop
  | [] => True
  | (h, c) :: cs => c.Fits h f ∧ ∀ f', f.exec h c = .ok f' → f'.AllFit cs

/-- What is read from the file, and its size, are those of the abstract one. -/
def Reads (f : MemFsFileNode) (d : List UInt8) : Prop :=
  f.size = d.length ∧ ∀ size offset, offset < d.length → offset + size < 2 ^ 64 →
    f.Read size offset = .ok (min size (d.length - offset), (d.drop offset).take size)

theorem reads_iff (f : MemFsFileNode) (d : List UInt8) : f.Reads d ↔ f.contents = d := by
  have hlength := f.length_contents_eq
  constructor
  · rintro ⟨hsize, hread⟩
    rcases Nat.eq_zero_or_pos d.length with hzero | hpos
    · have hempty : f.contents.length = 0 := by omega
      rw [List.length_eq_zero_iff.mp hzero, List.length_eq_zero_iff.mp hempty]
    · -- all of it is read at once
      have hmax : max_size = 2 ^ 63 - 1 := rfl
      have hle : f.size ≤ max_size := f.data_.size_le.trans f.data_.capacity_le
      have hall := hread d.length 0 hpos (by omega)
      rw [Read_of_no_wrap (by omega) (by omega)] at hall
      have hdata : (f.contents.drop 0).take d.length = (d.drop 0).take d.length :=
        congrArg Prod.snd (Except.ok.inj hall)
      rwa [List.drop_zero, List.drop_zero, List.take_of_length_le (by omega), List.take_length]
        at hdata
  · rintro rfl
    refine ⟨hlength.symm, fun size offset hoffset hwrap => ?_⟩
    rw [hlength] at hoffset ⊢
    exact Read_of_no_wrap hoffset hwrap

/-- **One call** leaves the file as it should be, exactly if it fits. -/
theorem exec_iff {c : FileCall} (hwrap : c.NoWrap) (f : MemFsFileNode) (h : FileHeap R) :
    (∃ f', f.exec h c = .ok f' ∧ f'.contents = c.apply f.contents) ↔ c.Fits h f := by
  cases c with
  | Write buffer offset =>
    constructor
    · rintro ⟨f', hf', hcontents⟩
      rw [exec] at hf'
      cases hwrite : f.Write h buffer offset with
      | error e =>
        rw [hwrite] at hf'
        cases hf'
      | ok r =>
        rw [hwrite] at hf'
        cases hf'
        exact fits_of_Write hwrap hwrite hcontents
    · intro hfits
      obtain ⟨f', hf', hcontents, _⟩ := Write_of_fits hwrap hfits
      exact ⟨f', by rw [exec, hf']; rfl, hcontents⟩
  | Resize n =>
    simp only [exec, FileCall.apply, FileCall.Fits]
    rcases Resize_cases h f n with ⟨hhold, f', hf', hcontents⟩ | ⟨hhold, e, hf'⟩
    · exact ⟨fun _ => hhold, fun _ => ⟨f', hf', hcontents⟩⟩
    · rw [hf']
      constructor
      · rintro ⟨_, hok, _⟩
        cases hok
      · exact fun hcan => absurd hcan hhold

/-- **A sequence of calls**: the file is what it should be after each of them, exactly if all
    fit. -/
theorem run_iff {cs : List (FileHeap R × FileCall)} (hwrap : ∀ c ∈ cs, c.2.NoWrap)
    (f : MemFsFileNode) :
    (∀ l, l <+: cs → ∃ f', f.run l = .ok f' ∧
      f'.Reads ((l.map Prod.snd).foldl FileCall.apply f.contents)) ↔ f.AllFit cs := by
  induction cs generalizing f with
  | nil =>
    refine ⟨fun _ => trivial, fun _ l hl => ?_⟩
    rw [List.prefix_nil.mp hl]
    exact ⟨f, rfl, (reads_iff f _).mpr rfl⟩
  | cons c cs ih =>
    obtain ⟨h, c⟩ := c
    have hexec := exec_iff (hwrap (h, c) List.mem_cons_self) f h
    replace ih := ih (fun c hc => hwrap c (List.mem_cons_of_mem _ hc))
    rw [AllFit]
    constructor
    · intro hall
      -- the sequence of this call alone, and then those that start with it
      obtain ⟨f₁, hf₁, hreads⟩ := hall [(h, c)] (List.prefix_append [(h, c)] cs)
      obtain ⟨f', hf', hrun⟩ := except_bind_ok hf₁
      obtain rfl : f' = f₁ := Except.ok.inj hrun
      have hcontents : f'.contents = c.apply f.contents := (reads_iff f' _).mp hreads
      refine ⟨hexec.mp ⟨f', hf', hcontents⟩, ?_⟩
      intro f₂ hf₂
      obtain rfl : f' = f₂ := Except.ok.inj (hf'.symm.trans hf₂)
      refine (ih f').mp (fun l hl => ?_)
      obtain ⟨f'', hf'', hreads⟩ := hall ((h, c) :: l) ((List.prefix_cons_inj _).mpr hl)
      obtain ⟨g, hg, hrun⟩ := except_bind_ok hf''
      obtain rfl : f' = g := Except.ok.inj (hf'.symm.trans hg)
      rw [List.map_cons, List.foldl_cons, ← hcontents] at hreads
      exact ⟨f'', hrun, hreads⟩
    · rintro ⟨hfits, hrest⟩ l hl
      obtain ⟨f', hf', hcontents⟩ := hexec.mpr hfits
      rcases List.prefix_cons_iff.mp hl with rfl | ⟨l', rfl, hl'⟩
      · exact ⟨f, rfl, (reads_iff f _).mpr rfl⟩
      · obtain ⟨f'', hrun, hreads⟩ := (ih f').mpr (hrest f' hf') l' hl'
        refine ⟨f'', by rw [run, hf']; exact hrun, ?_⟩
        rwa [List.map_cons, List.foldl_cons, ← hcontents]

end MemFsFileNode

/-- **A write does what it should exactly when it fits**: the bytes are in the file already, or they
    start behind its end and there is memory for them. A sequence of calls leaves a file that reads
    as the abstract one, after each of them, exactly when all of them fit. -/
theorem file_semantics_iff (R : Region) (f : MemFsFileNode) :
    (∀ (h : FileHeap R) (buffer : List UInt8) (offset : Nat), offset + buffer.length < 2 ^ 64 →
      ((∃ f', f.Write h buffer offset = .ok (buffer.length, f') ∧
          f'.contents = write_bytes f.contents buffer offset ∧
          Set.Ico offset (offset + buffer.length) ⊆ Set.Ico 0 f'.size ∧
          CharVector.Framed h f.data_ f'.data_) ↔
        offset + buffer.length ≤ f.size ∨
          f.size < offset ∧ f.data_.CanHold h (offset + buffer.length))) ∧
    (∀ cs : List (FileHeap R × FileCall), (∀ c ∈ cs, c.2.NoWrap) →
      ((∀ l, l <+: cs → ∃ f', f.run l = .ok f' ∧
          f'.Reads ((l.map Prod.snd).foldl FileCall.apply f.contents)) ↔ f.AllFit cs)) := by
  constructor
  · intro h buffer offset hwrap
    constructor
    · rintro ⟨f', hf', hcontents, _, _⟩
      exact MemFsFileNode.fits_of_Write hwrap hf' hcontents
    · intro hfits
      obtain ⟨f', hf', hcontents, hframe⟩ := MemFsFileNode.Write_of_fits hwrap hfits
      refine ⟨f', hf', hcontents, Set.Ico_subset_Ico (Nat.zero_le _) ?_, hframe⟩
      rw [← f'.length_contents_eq, hcontents, length_write_bytes]
      exact le_max_right _ _
  · exact fun cs hwrap => MemFsFileNode.run_iff hwrap f

/-- Nothing is allocated yet. -/
def heap_128K : FileHeap region_128K := ⟨.start region_128K.allocator, fun _ => 0, .init rfl⟩

theorem heap_128K_hasBlock {n : Nat} (hn : kmalloc_log2size n = 16) : heap_128K.HasBlock n := by
  unfold FileHeap.HasBlock
  rw [hn]
  exact ⟨17, by decide, by decide, by decide +kernel⟩

/-- A byte is replaced; and a file is cut, and then written to behind its end, in a larger block. -/
theorem abc_semantics :
    (∃ f', abc.Write heap_128K [0x78] 1 = .ok (1, f') ∧ f'.contents = [0x61, 0x78, 0x63]) ∧
    ∃ f', abc.run [(heap_128K, .Resize 1), (heap_128K, .Write [0x79] 3)] = .ok f' ∧
      f'.Reads [0x61, 0, 0, 0x79] := by
  constructor
  · obtain ⟨f', hf', hcontents, _⟩ :=
      ((file_semantics_iff region_128K abc).1 heap_128K [0x78] 1 (by decide)).mpr
        (.inl (by decide))
    exact ⟨f', hf', hcontents.trans (by decide)⟩
  · have hrun := ((file_semantics_iff region_128K abc).2
      [(heap_128K, .Resize 1), (heap_128K, .Write [0x79] 3)] ?_).mpr ?_ _ (List.prefix_refl _)
    · exact hrun
    · intro c hc
      rcases List.mem_pair.mp hc with rfl | rfl
      · show 1 < 2 ^ 64
        decide
      · show 3 + 1 < 2 ^ 64
        decide
    · refine ⟨.inl (by decide), ?_⟩
      intro f' hf'
      cases hf'
      refine ⟨.inr ⟨by decide, .inr ⟨by decide, heap_128K_hasBlock (by decide +kernel)⟩⟩, ?_⟩
      exact fun _ _ => trivial

/-- A file that was just made. -/
def new_file : MemFsFileNode := ⟨⟨fun _ => 0, 0, 0, by decide, by decide⟩⟩

theorem heap_128K_zero {n : Nat} {fresh : Bytes} (hfresh : heap_128K.kmalloc n = some fresh)
    (i : Nat) : fresh i = 0 := by
  unfold FileHeap.kmalloc at hfresh
  split at hfresh
  · cases hfresh
    rfl
  · cases hfresh

/-- Three bytes, of which the last is written, together with the one behind it: the file does not
    grow, and the second byte goes behind the end of the vector. -/
theorem byte_behind_end_lost : ∃ f f', new_file.Resize heap_128K 3 = .ok f ∧
    f.contents = [0, 0, 0] ∧ f.data_.storage 3 = 0 ∧
    f.Write heap_128K [0x61, 0x62] 2 = .ok (2, f') ∧
    f'.contents = [0, 0, 0x61] ∧ f'.data_.storage 3 = 0x62 ∧
    write_bytes f.contents [0x61, 0x62] 2 = [0, 0, 0x61, 0x62] := by
  have hblock : heap_128K.HasBlock (new_file.data_.grown_capacity 3) :=
    heap_128K_hasBlock (by decide +kernel)
  rcases new_file.data_.resize_cases heap_128K 3 with
    ⟨_, v, hv, hsize, hstorage, hframe⟩ | ⟨hnot, _⟩
  · have hzeros : v.contents = [0, 0, 0] := by
      have hnone : ∀ i < 3, new_file.data_.contents.getD i 0 = [0, 0, 0].getD i 0 := by decide
      apply CharVector.contents_eq_of_forall hsize
      rw [hsize]
      intro i hi
      exact (hstorage i hi).trans (hnone i hi)
    -- the byte behind the end is one of the new block
    have hbehind : v.storage 3 = 0 := by
      rcases hframe with hsame | ⟨fresh, hfresh, hmoved⟩
      · exact hsame 3 (by omega)
      · exact (hmoved 3 (by omega)).trans (heap_128K_zero hfresh 3)
    have hcapacity : ¬ (v.capacity = 0 ∧ [(0x61 : UInt8), 0x62] ≠ []) := by
      have hle := v.size_le
      omega
    have hwrite : (⟨v⟩ : MemFsFileNode).Write heap_128K [0x61, 0x62] 2 =
        .ok (2, ⟨v.copy_to 2 [0x61, 0x62]⟩) := by
      have hgrow : MemFsFileNode.grow heap_128K v 2 2 = .ok v := if_neg (by omega)
      have hcopy : v.memcpy_to 2 [0x61, 0x62] = .ok (v.copy_to 2 [0x61, 0x62]) := if_neg hcapacity
      simp [MemFsFileNode.Write, hgrow, hcopy, bind, Except.bind]
    -- `Write` does not grow a file that its offset lies in
    have hcontents := MemFsFileNode.contents_of_Write (by show 2 ≤ v.size; omega) hwrite
    have hnew : (⟨v⟩ : MemFsFileNode).contents = [0, 0, 0] := hzeros
    have hnewsize : (⟨v⟩ : MemFsFileNode).size = 3 := hsize
    rw [hnew, hnewsize] at hcontents
    refine ⟨⟨v⟩, _, ?_, hnew, hbehind, hwrite, hcontents.trans (by decide), ?_, ?_⟩
    · rw [MemFsFileNode.Resize, hv]
      rfl
    · show copy v.storage 2 [0x61, 0x62] 3 = 0x62
      rw [copy_eq_ite, if_pos (by decide)]
      rfl
    · rw [hnew]
      decide
  · exact absurd (.inr ⟨by decide, hblock⟩) hnot

end Modern05
