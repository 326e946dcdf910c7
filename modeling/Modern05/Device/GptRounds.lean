import Modern05.Device.GptVector

/-! # The rounds of the listing

    The loop of `gpt::ListPrimaryPartitions`, for a table of any length with entries of any size.

    * `listing` is the loop as a system, whose states are those at the head of the loop, and `Round`
      are the rounds that a call comes to.
    * `ListState` is what every round keeps of the allocator, the vector and the header. Each read
      leaves its block behind, so that the memory in use follows from the numbers of rounds and
      items.
-/

namespace Modern05

open BuddyAllocator LTS Memory

/-! ## The rounds of the loop -/

/-- The index and the state at the head of the loop. -/
def listing (P : Platform) (ports : Nat → HBA_PORT) (disk : Nat → UInt8)
    (header_buf partition_entry_buf : Nat) (start : UInt64) (st₀ : GptState) :
    System (Nat × GptState) Unit where
  init x := x = (0, st₀)
  step x _ y := x.1 < (PartitionEntryCount x.2.mem header_buf).toNat ∧
    list_entry P (ports (x.1 + 1)) disk header_buf partition_entry_buf start x.1 x.2 = .ok y.2 ∧
    y.1 = x.1 + 1

section rounds

variable {P : Platform} {ports : Nat → HBA_PORT} {disk : Nat → UInt8}
  {header_buf partition_entry_buf : Nat} {start : UInt64} {st₀ st st₁ : GptState}

/-- The loop goes on from every state it comes to. -/
theorem list_entries_of_reachable (n : Nat) : ∀ x,
    Reachable (listing P ports disk header_buf partition_entry_buf start st₀) x → x.1 ≤ n →
    list_entries P ports disk header_buf partition_entry_buf start 0 n st₀ =
      list_entries P ports disk header_buf partition_entry_buf start x.1 (n - x.1) x.2 := by
  apply invariant_of_step
  · intro x hx _
    rw [show x = (0, st₀) from hx]
    rfl
  · intro x _ y _ ih hstep hy
    obtain ⟨hcount, hentry, hindex⟩ := hstep
    rw [ih (by omega), show n - x.1 = (n - y.1) + 1 by omega, list_entries, if_pos hcount, hentry,
      hindex]
    rfl

/-- A loop that returns goes on from there. -/
theorem list_entries_of_round {i : Nat}
    (h : Reachable (listing P ports disk header_buf partition_entry_buf start st₀) (i, st))
    (hi : i < 2 ^ 31) (hmore : i < (PartitionEntryCount st.mem header_buf).toNat)
    (hall : list_entries P ports disk header_buf partition_entry_buf start 0 (2 ^ 31) st₀ =
      .ok st₁) :
    ∃ n st', list_entry P (ports (i + 1)) disk header_buf partition_entry_buf start i st =
        .ok st' ∧
      list_entries P ports disk header_buf partition_entry_buf start (i + 1) n st' = .ok st₁ := by
  have hstep : 2 ^ 31 - (i, st).1 = (2 ^ 31 - i - 1) + 1 := by
    show 2 ^ 31 - i = _
    omega
  rw [list_entries_of_reachable (2 ^ 31) _ h hi.le, hstep, list_entries, if_pos hmore] at hall
  obtain ⟨st', hentry, hrest⟩ := except_bind_ok hall
  exact ⟨_, st', hentry, hrest⟩

/-- The loop returns where it comes to the end of the table. -/
theorem list_entries_of_end {i : Nat}
    (h : Reachable (listing P ports disk header_buf partition_entry_buf start st₀) (i, st))
    (hi : i < 2 ^ 31) (hend : ¬ i < (PartitionEntryCount st.mem header_buf).toNat) :
    list_entries P ports disk header_buf partition_entry_buf start 0 (2 ^ 31) st₀ = .ok st := by
  rw [list_entries_of_reachable (2 ^ 31) _ h hi.le,
    show 2 ^ 31 - (i, st).1 = (2 ^ 31 - i - 1) + 1 by show 2 ^ 31 - i = _; omega, list_entries]
  exact if_neg hend

theorem list_entry_eq {port : HBA_PORT} {i : Nat}
    (hsize : PartitionEntrySize st.mem header_buf = 128)
    (hread : read_to_buffer P port disk st partition_entry_buf
      (start + (128 * UInt32.ofNat i).toUInt64) 128 = .ok (.ErrSuccess, st₁)) :
    list_entry P port disk header_buf partition_entry_buf start i st =
      if PartitionTypeGUID st₁.mem partition_entry_buf ≠ 0 then
        add_partition P st₁ header_buf partition_entry_buf
      else .ok st₁ := by
  have hread : read_to_buffer P port disk st partition_entry_buf
      (start + (128 * UInt32.ofNat i).toUInt64) (128 : UInt32).toUInt64 =
        .ok (.ErrSuccess, st₁) := hread
  rw [list_entry, hsize]
  simp only [hread, bind, Except.bind, ne_eq, not_true_eq_false, if_false]

end rounds

section call

variable (P : Platform) (ports : Nat → HBA_PORT) (disk : Nat → UInt8) (s : BuddyState) (mem : Bytes)
  (header_buf partition_entry_buf : Nat)

/-- The header was read and has the magic. -/
def HeaderRead (st₀ : GptState) : Prop :=
  read_to_buffer P (ports 0) disk ⟨s, mem, ⟨none, 0, 0⟩⟩ header_buf 512 512 =
      .ok (.ErrSuccess, st₀) ∧
    bytes st₀.mem header_buf 8 = EFI_PART

/-- The call comes to round `i`, in the state `st`. The index is an `int`. -/
def Round (start : UInt64) (i : Nat) (st : GptState) : Prop := ∃ st₀,
  HeaderRead P ports disk s mem header_buf st₀ ∧
    start = PartitionEntryLBA st₀.mem header_buf * SectorSize ∧
    Reachable (listing P ports disk header_buf partition_entry_buf start st₀) (i, st) ∧
    i < (PartitionEntryCount st.mem header_buf).toNat ∧ i < 2 ^ 31

/-- The read of a round. It has a result if the copy to the buffer was made. -/
def round_read (start : UInt64) (i : Nat) (st : GptState) : Option (Error × BuddyState × Bytes) :=
  Read P (ports (i + 1)) disk st.buddy st.mem partition_entry_buf
    (start + (PartitionEntrySize st.mem header_buf * UInt32.ofNat i).toUInt64)
    (PartitionEntrySize st.mem header_buf).toUInt64

end call

/-! ## The header -/

def entry_count (disk : Nat → UInt8) : Nat := (PartitionEntryCount disk 512).toNat

/-- The buffer has the second sector of the disk. -/
def HasHeader (disk : Nat → UInt8) (mem : Bytes) (header_buf : Nat) : Prop :=
  ∀ i < 512, mem (header_buf + i) = disk (512 + i)

namespace HasHeader

variable {disk : Nat → UInt8} {mem mem' : Bytes} {header_buf : Nat}

theorem field (h : HasHeader disk mem header_buf) {k n : Nat} (hk : k + n ≤ 512) :
    load_le mem (header_buf + k) n = load_le disk (512 + k) n := by
  refine load_le_congr fun i hi => ?_
  rw [Nat.add_assoc, Nat.add_assoc]
  exact h (k + i) (by omega)

theorem lba (h : HasHeader disk mem header_buf) :
    PartitionEntryLBA mem header_buf = PartitionEntryLBA disk 512 :=
  congrArg UInt64.ofNat (h.field (by decide))

theorem count (h : HasHeader disk mem header_buf) :
    (PartitionEntryCount mem header_buf).toNat = entry_count disk :=
  congrArg (fun n => (UInt32.ofNat n).toNat) (h.field (by decide))

theorem entry_size (h : HasHeader disk mem header_buf) :
    PartitionEntrySize mem header_buf = PartitionEntrySize disk 512 :=
  congrArg UInt32.ofNat (h.field (by decide))

theorem magic (h : HasHeader disk mem header_buf) :
    bytes mem header_buf 8 = bytes disk 512 8 :=
  List.map_congr_left fun i hi => h i (Nat.lt_trans (List.mem_range.mp hi) (by decide))

theorem of_changesOnly {S : Set Nat} (h : HasHeader disk mem header_buf)
    (hframe : ChangesOnly S mem mem')
    (hapart : Disjoint (Set.Ico header_buf (header_buf + 512)) S) :
    HasHeader disk mem' header_buf := by
  intro i hi
  rw [← h i hi]
  exact hframe _ fun hmem => Set.disjoint_left.mp hapart ⟨by omega, by omega⟩ hmem

end HasHeader

/-- The loop comes to the next round. -/
theorem reachable_next {P : Platform} {ports : Nat → HBA_PORT} {disk : Nat → UInt8}
    {header_buf partition_entry_buf i : Nat} {start : UInt64} {st₀ st st' : GptState}
    (h : Reachable (listing P ports disk header_buf partition_entry_buf start st₀) (i, st))
    (hheader : HasHeader disk st.mem header_buf) (hi : i < entry_count disk)
    (hentry : list_entry P (ports (i + 1)) disk header_buf partition_entry_buf start i st =
      .ok st') :
    Reachable (listing P ports disk header_buf partition_entry_buf start st₀) (i + 1, st') :=
  .step (l := ()) h ⟨hheader.count.symm ▸ hi, hentry, rfl⟩

/-! ## Rounds and memory -/

/-- With so many items the vector needs another block for the next one. -/
def Grows (n : Nat) : Prop := n = 0 ∨ ∃ k, n = 2 ^ k

/-- The capacity of a vector of `n` items: the least power of two that is large enough. -/
def CapacityFor (n capacity : Nat) : Prop :=
  n = 0 ∧ capacity = 0 ∨ ∃ k, capacity = 2 ^ k ∧ n ≤ capacity ∧ capacity < 2 * n

section capacity

variable {n capacity : Nat}

theorem CapacityFor.grows_iff (h : CapacityFor n capacity) : ¬ n < capacity ↔ Grows n := by
  rcases h with ⟨rfl, rfl⟩ | ⟨k, rfl, hle, hlt⟩
  · exact ⟨fun _ => .inl rfl, fun _ => Nat.lt_irrefl 0⟩
  · constructor
    · intro hfull
      exact .inr ⟨k, by omega⟩
    · rintro (rfl | ⟨j, rfl⟩) hspace
      · omega
      · -- no power of two lies between one and its double
        rw [← Nat.pow_succ', Nat.pow_lt_pow_iff_right (by decide)] at hlt
        rw [Nat.pow_lt_pow_iff_right (by decide)] at hspace
        omega

/-- The 182 items that fit in a block are not a power of two. -/
theorem not_grows_182 : ¬ Grows 182 := by
  rintro (hzero | ⟨k, hpow⟩)
  · exact absurd hzero (by decide)
  · have hk : k < 8 := by
      rw [← Nat.pow_lt_pow_iff_right (show 1 < 2 by decide), ← hpow]
      decide
    have hnone : ∀ k < 8, 182 ≠ 2 ^ k := by decide
    exact hnone k hk hpow

theorem CapacityFor.next (h : CapacityFor n capacity) :
    CapacityFor (n + 1) (if n < capacity then capacity else n + max n 1) := by
  rcases h with ⟨rfl, rfl⟩ | ⟨k, rfl, hle, hlt⟩
  · exact .inr ⟨0, by decide, by decide, by decide⟩
  · by_cases hspace : n < 2 ^ k
    · rw [if_pos hspace]
      exact .inr ⟨k, rfl, hspace, by omega⟩
    · have hn : n = 2 ^ k := by omega
      have hpos : 0 < 2 ^ k := Nat.two_pow_pos k
      rw [if_neg hspace, hn]
      refine .inr ⟨k + 1, ?_, ?_, ?_⟩
      · rw [Nat.pow_succ]
        omega
      · omega
      · omega

theorem CapacityFor.owned_bytes {v : PartitionVector} (h : CapacityFor v.size v.capacity) :
    v.owned_bytes = min v.size 1 * 65536 := by
  unfold PartitionVector.owned_bytes
  rcases h with ⟨hn, hc⟩ | ⟨k, hc, hle, hlt⟩
  · rw [if_pos hc, hn]
    rfl
  · rw [if_neg (by omega), Nat.min_eq_right (by omega)]

end capacity

/-- The state after the header and the entries before `i` were read, with `n` items and with `used`
    bytes that were live before. A read takes a block while there is one. -/
structure ListState (P : Platform) (disk : Nat → UInt8) (kept : List Live)
    (header_buf used i n : Nat) (st : GptState) : Prop where
  owned : Owned P kept st.buddy st.ret
  header : HasHeader disk st.mem header_buf
  size : st.ret.size = n
  capacity : CapacityFor st.ret.size st.ret.capacity
  used_eq : used_bytes st.buddy =
    min (2 ^ P.region.root_log2size) (used + (i + 1 + min n 1) * 65536)

/-- There was no block for the items, which are at the start of the kernel window now. -/
structure Lost (P : Platform) (s : BuddyState) (v : PartitionVector) : Prop where
  reachable : Reachable (buddy_system P.region.allocator) s
  block : v.block = none
  capacity : 0 < v.capacity
  size : 0 < v.size

section state

variable {P : Platform} {disk : Nat → UInt8} {kept : List Live}
  {header_buf partition_entry_buf used i n : Nat} {st st₁ : GptState}

/-- The state after the header was read. -/
theorem ListState.start {port : HBA_PORT} {s : BuddyState} {mem : Bytes}
    (hs : Reachable (buddy_system P.region.allocator) s)
    (hlayout : Layout P s.live header_buf partition_entry_buf)
    (hread : read_to_buffer P port disk ⟨s, mem, ⟨none, 0, 0⟩⟩ header_buf 512 512 =
      .ok (.ErrSuccess, st₁)) :
    ReadTo P s.live disk ⟨s, mem, ⟨none, 0, 0⟩⟩ header_buf 512 512 st₁ ∧
      (HasHeader disk st₁.mem header_buf →
        ListState P disk s.live header_buf (used_bytes s) 0 0 st₁) := by
  have hst₁ : ReadTo P s.live disk ⟨s, mem, ⟨none, 0, 0⟩⟩ header_buf 512 512 st₁ :=
    Owned.read hlayout hlayout.header (Owned.empty hs) (Nat.zero_le _) (by decide) hread
  refine ⟨hst₁, fun hheader => ⟨hst₁.owned, hheader, ?_, ?_, ?_⟩⟩
  · rw [hst₁.ret]
  · rw [hst₁.ret]
    exact .inl ⟨rfl, rfl⟩
  · have hused : used_bytes st₁.buddy = min _ (used_bytes s + 65536) := hst₁.used
    rw [hused]
    omega

/-- **A read keeps the state**, with one more block in use. -/
theorem ListState.read {port : HBA_PORT} {start size : UInt64}
    (hlayout : Layout P kept header_buf partition_entry_buf)
    (h : ListState P disk kept header_buf used i n st) (hn : n ≤ 182) (hsize : size.toNat ≤ 512)
    (hread : read_to_buffer P port disk st partition_entry_buf start size =
      .ok (.ErrSuccess, st₁)) :
    ReadTo P kept disk st partition_entry_buf start.toNat size.toNat st₁ ∧
      ListState P disk kept header_buf used (i + 1) n st₁ := by
  have hst₁ := h.owned.read hlayout hlayout.entry (by rw [h.size]; exact hn) hsize hread
  have hfresh : Disjoint (Set.Ico header_buf (header_buf + 512)) (Set.Iio 1024) := by
    have habove := hlayout.above.1
    rw [Set.disjoint_left]
    intro x hx hlow
    have hx : header_buf ≤ x ∧ _ := hx
    have hlow : x < 1024 := hlow
    omega
  have hbuffer : Disjoint (Set.Ico header_buf (header_buf + 512))
      (Set.Ico partition_entry_buf (partition_entry_buf + size.toNat)) :=
    hlayout.buffers.mono_right (Set.Ico_subset_Ico_right (by omega))
  refine ⟨hst₁, hst₁.owned, ?_, ?_, ?_, ?_⟩
  · exact h.header.of_changesOnly hst₁.frame (Set.disjoint_union_right.mpr
      ⟨Set.disjoint_union_right.mpr ⟨hlayout.header, hfresh⟩, hbuffer⟩)
  · rw [hst₁.ret, h.size]
  · rw [hst₁.ret]
    exact h.capacity
  · rw [hst₁.used, h.used_eq]
    omega

/-- A free block is there when the vector needs one. -/
theorem ListState.room (h : ListState P disk kept header_buf used i n st)
    (hroom : Grows n → used + (i + 1 + min n 1) * 65536 < 2 ^ P.region.root_log2size) :
    ¬ st.ret.size < st.ret.capacity → used_bytes st.buddy < 2 ^ P.region.root_log2size := by
  intro hfull
  have hless := hroom (h.size ▸ h.capacity.grows_iff.mp hfull)
  have hused := h.used_eq
  omega

/-- The item that an `emplace_back` has added. -/
theorem ListState.emplaced {item : Nat} (hlayout : Layout P kept header_buf partition_entry_buf)
    (h : ListState P disk kept header_buf used i n st) (hn : n < 182)
    (hroom : Grows n → used + (i + 1 + min n 1) * 65536 < 2 ^ P.region.root_log2size)
    (hback : emplace_back P st = .ok (item, st₁)) :
    ∃ l, Emplaced P kept st l item st₁ := by
  obtain ⟨l, item', st', hback', hemplaced⟩ := emplace_back_spec hlayout h.owned (h.room hroom)
    (h.size ▸ hn)
  obtain ⟨rfl, rfl⟩ : item' = item ∧ st' = st₁ :=
    Prod.mk.inj (Except.ok.inj (hback'.symm.trans hback))
  exact ⟨l, hemplaced⟩

/-- **An entry with a type keeps the state**, with one more item, if the items fit in a block and
    there is a free one when another is needed. -/
theorem ListState.add (hlayout : Layout P kept header_buf partition_entry_buf)
    (h : ListState P disk kept header_buf used i n st) (hn : n < 182)
    (hroom : Grows n → used + (i + 1 + min n 1) * 65536 < 2 ^ P.region.root_log2size)
    (hsize : (PartitionEntrySize disk 512).toNat ≤ sizeof_GPTPartitionEntry) :
    ∃ st', add_partition P st header_buf partition_entry_buf = .ok st' ∧
      Added P kept header_buf partition_entry_buf st st' ∧
      ListState P disk kept header_buf used i (n + 1) st' := by
  have hgrows := h.capacity.grows_iff
  have hused := h.used_eq
  have hbytes := h.capacity.owned_bytes
  obtain ⟨st', hadd, hadded⟩ := add_partition_spec hlayout h.owned (h.room hroom) (h.size ▸ hn)
    (h.header.entry_size ▸ hsize)
  refine ⟨st', hadd, hadded, hadded.owned,
    h.header.of_changesOnly hadded.frame hlayout.header, ?_, ?_, ?_⟩
  · rw [hadded.size, h.size]
  · rw [hadded.size, hadded.capacity]
    exact h.capacity.next
  · rw [hadded.used]
    rw [h.size] at hbytes hgrows ⊢
    by_cases hin : n < st.ret.capacity
    · have hsome : n ≠ 0 := by
        intro hzero
        exact absurd hin (hgrows.mpr (.inl hzero))
      rw [if_pos hin, hused]
      omega
    · -- another block is taken, and the old one, if there was one, is given back
      have hless := hroom (hgrows.mp hin)
      have hle := used_bytes_le hadded.owned.reachable
      rw [hadded.used, h.size, if_neg hin] at hle
      rw [if_neg hin, hbytes]
      omega

/-- Without a free block the items go to the start of the kernel window. -/
theorem ListState.lost {item : Nat} {st' : GptState}
    (h : ListState P disk kept header_buf used i n st) (hgrows : Grows n)
    (hfull : ¬ used + (i + 1 + min n 1) * 65536 < 2 ^ P.region.root_log2size) (hn : n ≤ 182)
    (hback : emplace_back P st = .ok (item, st')) : Lost P st'.buddy st'.ret := by
  have hused := h.used_eq
  have hsize := h.size
  rcases (emplace_back_cases hback).2 with ⟨hspace, _⟩ | ⟨_, block, s₁, hbuf, hfree, hret⟩
  · exact absurd hspace (h.capacity.grows_iff.mpr (hsize.symm ▸ hgrows))
  · have hnone : block = none := by
      cases block with
      | none => rfl
      | some l =>
        have hnew := newLeaf_of_kmalloc h.owned.reachable (by omega) hbuf
        have hle := used_bytes_le hnew.reachable
        rw [hnew.used] at hle
        omega
    have hkeeps := h.owned.toKeepsLive.emplace_back hback
    rw [hret]
    exact ⟨hkeeps.reachable, hnone, by show 0 < st.ret.size + _; omega, Nat.succ_pos _⟩

end state

end Modern05
