import Modern05.Device.GptBounds

/-! # The listing of a whole table

    `gpt::ListPrimaryPartitions` over a table of any length, against what it is to return: the
    entries that have a type, in the order of the table.

    * `Listing` is the invariant: after `i` rounds the items of the vector are the partitions among
      the first `i` entries.
    * `partitions_listed` says when all is listed, for reads that bring the bytes of the disk: 182
      items fit in the 64 KiB that the vector gets, however many it asks for, and it has to get them
      each time. `readsDisk_of_fits` has such reads.
    * With more items the rest is behind the block, where the buffer of a later read can be.
-/

namespace Modern05

open BuddyAllocator LTS Memory

/-! ## What is to be returned -/

/-- Where an entry is on the disk. -/
def entry_address (disk : Nat → UInt8) (i : Nat) : Nat :=
  (PartitionEntryLBA disk 512).toNat * 512 + 128 * i

/-- The entries with a type, among the first `n`. -/
def typed_entries (disk : Nat → UInt8) (n : Nat) : List Nat :=
  (List.range n).filter (fun i => PartitionTypeGUID disk (entry_address disk i) ≠ 0)

/-- The partitions among the first `n` entries. -/
def listed (disk : Nat → UInt8) (n : Nat) : List Partition :=
  (typed_entries disk n).map (fun i => partition_of disk (entry_address disk i))

/-- A table with entries of 128 bytes. A disk has at most `2 ^ 48` sectors. -/
structure PrimaryTable (disk : Nat → UInt8) : Prop where
  magic : bytes disk 512 8 = EFI_PART
  entry_size : PartitionEntrySize disk 512 = 128
  count : entry_count disk ≤ 2 ^ 24
  in_reach : entry_address disk (entry_count disk) < 2 ^ 57

theorem typed_entries_succ (disk : Nat → UInt8) (i : Nat) :
    typed_entries disk (i + 1) = typed_entries disk i ++
      if PartitionTypeGUID disk (entry_address disk i) ≠ 0 then [i] else [] := by
  rw [typed_entries, List.range_succ, List.filter_append, List.filter_singleton, Bool.cond_decide]
  rfl

theorem length_typed_entries_mono (disk : Nat → UInt8) {i n : Nat} (h : i ≤ n) :
    (typed_entries disk i).length ≤ (typed_entries disk n).length :=
  ((List.range_sublist.mpr h).filter _).length_le

theorem toNat_entry_address {disk : Nat → UInt8} (htable : PrimaryTable disk) {i : Nat}
    (hi : i < entry_count disk) :
    (PartitionEntryLBA disk 512 * SectorSize + (128 * UInt32.ofNat i).toUInt64).toNat =
      entry_address disk i := by
  have hcount := htable.count
  have hreach := htable.in_reach
  unfold entry_address at hreach ⊢
  have hoffset : (128 * UInt32.ofNat i).toUInt64.toNat = 128 * i := by
    rw [UInt32.toNat_toUInt64, UInt32.toNat_mul, UInt32.toNat_ofNat']
    show 128 * (i % 2 ^ 32) % 2 ^ 32 = 128 * i
    omega
  rw [UInt64.toNat_add, UInt64.toNat_mul, hoffset]
  show ((PartitionEntryLBA disk 512).toNat * 512 % 2 ^ 64 + 128 * i) % 2 ^ 64 = _
  omega

theorem typed_of_bytes {disk : Nat → UInt8} {mem : Bytes} {buf a : Nat}
    (h : ∀ j < 128, mem (buf + j) = disk (a + j)) :
    PartitionTypeGUID mem buf = PartitionTypeGUID disk a :=
  load_le_congr fun j hj => h j (by omega)

/-- An entry is within a sector. -/
theorem entry_in_sector {disk : Nat → UInt8} (htable : PrimaryTable disk) {i : Nat}
    (hi : i < entry_count disk) :
    entry_address disk i % 512 + 128 ≤ 512 ∧ entry_address disk i + 128 < 2 ^ 57 := by
  have hreach := htable.in_reach
  unfold entry_address at *
  omega

/-! ## Reads -/

section reads

variable (P : Platform) (ports : Nat → HBA_PORT) (disk : Nat → UInt8) (s : BuddyState) (mem : Bytes)
  (header_buf partition_entry_buf : Nat)

/-- **Every read that the call makes succeeds and brings the bytes of the disk.** -/
structure ReadsDisk : Prop where
  header : ∃ s₁ mem₁, Read P (ports 0) disk s mem header_buf 512 512 =
      some (.ErrSuccess, s₁, mem₁) ∧
    ∀ j < 512, mem₁ (header_buf + j) = disk (512 + j)
  entry : ∀ start i st, Round P ports disk s mem header_buf partition_entry_buf start i st →
    ∃ s₁ mem₁, round_read P ports disk header_buf partition_entry_buf start i st =
        some (.ErrSuccess, s₁, mem₁) ∧
      ∀ j < (PartitionEntrySize st.mem header_buf).toNat, mem₁ (partition_entry_buf + j) =
        disk ((start + (PartitionEntrySize st.mem header_buf *
          UInt32.ofNat i).toUInt64).toNat + j)

end reads

/-- **Reads that bring the bytes of the disk**, from a device that answers, to a call that writes to
    its buffers only. -/
theorem readsDisk_of_fits {P : Platform} {ports : Nat → HBA_PORT} {disk : Nat → UInt8}
    {s : BuddyState} {mem : Bytes} {header_buf partition_entry_buf : Nat}
    (hs : Reachable (buddy_system P.region.allocator) s) (htable : PrimaryTable disk)
    (hlayout : Layout P s.live header_buf partition_entry_buf) (hports : ∀ i, (ports i).Ready)
    (hfits : TableFits P disk s mem partition_entry_buf) :
    ReadsDisk P ports disk s mem header_buf partition_entry_buf := by
  constructor
  · obtain ⟨st₀, hread⟩ : ∃ st₀, read_to_buffer P (ports 0) disk ⟨s, mem, ⟨none, 0, 0⟩⟩ header_buf
        512 512 = .ok (.ErrSuccess, st₀) :=
      (Owned.empty hs).read_returns disk mem hlayout (hports 0) (by decide)
    exact ⟨st₀.buddy, st₀.mem, (read_to_buffer_cases hread).1,
      (Safe.start hs hlayout hfits.1 hread).header⟩
  · intro start i st hround
    obtain ⟨rfl, hi, hround, hsafe⟩ := safe_of_round hs hlayout hfits hround
    obtain ⟨st₁, hread⟩ := hsafe.read_returns hlayout (hports (i + 1)) hround.buffer
    obtain ⟨_, hseen, _⟩ := hsafe.read hlayout hround.buffer hround.read hread
    refine ⟨st₁.buddy, st₁.mem, (round_read_eq hsafe.header).trans (read_to_buffer_cases hread).1,
      ?_⟩
    rw [hsafe.header.round_start, hsafe.header.entry_size]
    intro j hj
    have hbuffer := hround.buffer
    have haddress : (entry_start disk i).toNat = entry_address disk i := by
      rw [entry_start, htable.entry_size]
      exact toNat_entry_address htable hi
    have hreach := (entry_in_sector htable hi).2
    rw [hseen j (by omega), seen_entry, if_pos hj, haddress, disk_address_of_lt (by omega)]

/-! ## The invariant -/

/-- The entry has a type. -/
def Typed (disk : Nat → UInt8) (i : Nat) : Prop :=
  PartitionTypeGUID disk (entry_address disk i) ≠ 0

/-- The first `i` entries have been listed. -/
structure Listing (P : Platform) (disk : Nat → UInt8) (s : BuddyState) (header_buf i : Nat)
    (st : GptState) : Prop extends
    ListState P disk s.live header_buf (used_bytes s) i (typed_entries disk i).length st where
  items : partitions P st = listed disk i

/-- Should the vector need another block for the entry, there is a free one: the header and the
    entries up to this one have been read, and it has a block already unless it is empty. -/
def GrowthFits (P : Platform) (disk : Nat → UInt8) (s : BuddyState) (i : Nat) : Prop :=
  Typed disk i → Grows (typed_entries disk i).length →
    used_bytes s + (i + 2 + min (typed_entries disk i).length 1) * 65536 <
      2 ^ P.region.root_log2size

section listing

variable {P : Platform} {ports : Nat → HBA_PORT} {disk : Nat → UInt8} {s : BuddyState} {mem : Bytes}
  {header_buf partition_entry_buf i : Nat} {st st₀ : GptState}

/-- There is space in the block for an entry that has a type. -/
theorem length_lt_of_typed (hfit : (typed_entries disk (entry_count disk)).length ≤ 182)
    (hi : i < entry_count disk) (htyped : Typed disk i) : (typed_entries disk i).length < 182 := by
  have htype : PartitionTypeGUID disk (entry_address disk i) ≠ 0 := htyped
  have hmore := length_typed_entries_mono disk (Nat.succ_le_of_lt hi)
  rw [typed_entries_succ, if_pos htype, List.length_append, List.length_singleton] at hmore
  omega

/-- The read of a round brings the entry to the buffer. -/
theorem ReadsDisk.read (hreads : ReadsDisk P ports disk s mem header_buf partition_entry_buf)
    (htable : PrimaryTable disk) (hi : i < entry_count disk)
    (hround : Round P ports disk s mem header_buf partition_entry_buf
      (PartitionEntryLBA disk 512 * SectorSize) i st)
    (hheader : HasHeader disk st.mem header_buf) :
    ∃ st₁, read_to_buffer P (ports (i + 1)) disk st partition_entry_buf
        (PartitionEntryLBA disk 512 * SectorSize + (128 * UInt32.ofNat i).toUInt64) 128 =
          .ok (.ErrSuccess, st₁) ∧
      ∀ j < 128, st₁.mem (partition_entry_buf + j) = disk (entry_address disk i + j) := by
  obtain ⟨s₁, mem₁, hread, hbytes⟩ := hreads.entry _ _ _ hround
  have hsize : PartitionEntrySize st.mem header_buf = 128 :=
    hheader.entry_size.trans htable.entry_size
  rw [round_read, hsize] at hread
  rw [hsize, toNat_entry_address htable hi] at hbytes
  exact ⟨_, read_to_buffer_of_Read hread (by decide), hbytes⟩

/-- **The step**: a round lists one more entry. -/
theorem Listing.step (htable : PrimaryTable disk)
    (hlayout : Layout P s.live header_buf partition_entry_buf)
    (hreads : ReadsDisk P ports disk s mem header_buf partition_entry_buf)
    (hfit : (typed_entries disk (entry_count disk)).length ≤ 182) (hgrowth : GrowthFits P disk s i)
    (h : Listing P disk s header_buf i st) (hi : i < entry_count disk)
    (hround : Round P ports disk s mem header_buf partition_entry_buf
      (PartitionEntryLBA disk 512 * SectorSize) i st) :
    ∃ st', list_entry P (ports (i + 1)) disk header_buf partition_entry_buf
        (PartitionEntryLBA disk 512 * SectorSize) i st = .ok st' ∧
      Listing P disk s header_buf (i + 1) st' := by
  have hall := length_typed_entries_mono disk hi.le
  obtain ⟨st₁, hread, hbytes⟩ := hreads.read htable hi hround h.header
  obtain ⟨hst₁, hstate⟩ := h.toListState.read hlayout (by omega) (by decide) hread
  have hnext := typed_entries_succ disk i
  rw [list_entry_eq (h.header.entry_size.trans htable.entry_size) hread, typed_of_bytes hbytes]
  by_cases htyped : PartitionTypeGUID disk (entry_address disk i) ≠ 0
  · -- one more item, which is what the disk has at the entry
    rw [if_pos htyped] at hnext ⊢
    have hspace := length_lt_of_typed hfit hi htyped
    have h128 : (PartitionEntrySize disk 512).toNat ≤ sizeof_GPTPartitionEntry := by
      rw [htable.entry_size]
      decide
    obtain ⟨st', hadd, hadded, hstate'⟩ := hstate.add hlayout hspace (hgrowth htyped) h128
    have hlength : (typed_entries disk (i + 1)).length = (typed_entries disk i).length + 1 := by
      rw [hnext, List.length_append, List.length_singleton]
    refine ⟨st', hadd, hlength ▸ hstate', ?_⟩
    rw [hadded.partitions (hstate.header.entry_size.trans htable.entry_size), hst₁.partitions,
      h.items, partition_of_congr hbytes, listed, listed, hnext, List.map_append]
    rfl
  · rw [if_neg htyped] at hnext ⊢
    rw [List.append_nil] at hnext
    refine ⟨st₁, rfl, hnext ▸ hstate, ?_⟩
    rw [hst₁.partitions, h.items, listed, listed, hnext]

/-- The state after the header was read. -/
theorem Listing.start (hs : Reachable (buddy_system P.region.allocator) s)
    (hlayout : Layout P s.live header_buf partition_entry_buf)
    (hreads : ReadsDisk P ports disk s mem header_buf partition_entry_buf) :
    ∃ st₀, read_to_buffer P (ports 0) disk ⟨s, mem, ⟨none, 0, 0⟩⟩ header_buf 512 512 =
        .ok (.ErrSuccess, st₀) ∧ Listing P disk s header_buf 0 st₀ := by
  obtain ⟨s₁, mem₁, hRead, hbytes⟩ := hreads.header
  have hread : read_to_buffer P (ports 0) disk ⟨s, mem, ⟨none, 0, 0⟩⟩ header_buf 512 512 =
      .ok (.ErrSuccess, ⟨s₁, mem₁, ⟨none, 0, 0⟩⟩) := read_to_buffer_of_Read hRead (by decide)
  obtain ⟨hst₁, hstate⟩ := ListState.start hs hlayout hread
  have hheader : HasHeader disk mem₁ header_buf := hbytes
  have hnone : typed_entries disk 0 = [] := rfl
  refine ⟨_, hread, ?_, ?_⟩
  · rw [hnone, List.length_nil]
    exact hstate hheader
  · rw [hst₁.partitions, partitions, listed, hnone, List.map_nil]
    exact List.map_nil

theorem Listing.round (htable : PrimaryTable disk)
    (hread : read_to_buffer P (ports 0) disk ⟨s, mem, ⟨none, 0, 0⟩⟩ header_buf 512 512 =
      .ok (.ErrSuccess, st₀)) (hstart : Listing P disk s header_buf 0 st₀)
    (hreach : Reachable (listing P ports disk header_buf partition_entry_buf
      (PartitionEntryLBA disk 512 * SectorSize) st₀) (i, st))
    (h : Listing P disk s header_buf i st) (hi : i < entry_count disk) :
    Round P ports disk s mem header_buf partition_entry_buf
      (PartitionEntryLBA disk 512 * SectorSize) i st := by
  have hcount := htable.count
  exact ⟨st₀, ⟨hread, hstart.header.magic.trans htable.magic⟩, by rw [hstart.header.lba], hreach,
    h.header.count.symm ▸ hi, by omega⟩

/-- **The run**: the loop comes to every round up to one for which there is no block. -/
theorem Listing.reachable (htable : PrimaryTable disk)
    (hlayout : Layout P s.live header_buf partition_entry_buf)
    (hreads : ReadsDisk P ports disk s mem header_buf partition_entry_buf)
    (hfit : (typed_entries disk (entry_count disk)).length ≤ 182)
    (hread : read_to_buffer P (ports 0) disk ⟨s, mem, ⟨none, 0, 0⟩⟩ header_buf 512 512 =
      .ok (.ErrSuccess, st₀)) (h : Listing P disk s header_buf 0 st₀) (hi : i ≤ entry_count disk)
    (hgrowth : ∀ j < i, GrowthFits P disk s j) :
    ∃ st, Reachable (listing P ports disk header_buf partition_entry_buf
        (PartitionEntryLBA disk 512 * SectorSize) st₀) (i, st) ∧
      Listing P disk s header_buf i st := by
  induction i with
  | zero => exact ⟨st₀, .init rfl, h⟩
  | succ i ih =>
    obtain ⟨st, hreach, hlisting⟩ := ih (by omega) fun j hj => hgrowth j (by omega)
    obtain ⟨st', hentry, hnext⟩ := hlisting.step htable hlayout hreads hfit
      (hgrowth i (Nat.lt_succ_self i)) hi (h.round htable hread hreach hlisting hi)
    exact ⟨st', reachable_next hreach hlisting.header hi hentry, hnext⟩

end listing

/-! ## Vectors without a block of their own -/

/-- The items are in a live block of the vector. -/
def PartitionVector.Stored (v : PartitionVector) (s : BuddyState) : Prop :=
  v.size = 0 ∨ ∃ l ∈ s.live, v.block = some l ∧ sizeof_GPTPrimaryPartition * v.size ≤ 2 ^ l.log2size

/-- The block was asked for with the number of items, not of bytes. -/
def PartitionVector.Requested (v : PartitionVector) : Prop :=
  ∀ l, v.block = some l → l.log2size = kmalloc_log2size v.capacity ∧ v.capacity ≤ 2 * v.size

section vectors

variable {P : Platform} {ports : Nat → HBA_PORT} {disk : Nat → UInt8} {s : BuddyState} {mem : Bytes}
  {header_buf partition_entry_buf i n : Nat} {start : UInt64} {st st' st₀ : GptState}

theorem log2size_of_try_kmalloc {ba : BuddyAllocator} {size : Nat} {l : Live} {s' : BuddyState}
    (h : try_kmalloc ba s size = some (some l, s')) : l.log2size = kmalloc_log2size size := by
  unfold try_kmalloc try_page_alloc at h
  split at h
  · cases h
    rfl
  · cases h
  · cases h

theorem requested_of_list
    (h : list_entries P ports disk header_buf partition_entry_buf start i n st = .ok st')
    (hst : st.ret.Requested) : st'.ret.Requested := by
  refine list_invariant (I := fun _ v => v.Requested) ?_ ?_ n i st hst h
  · intro _ _ _ _ _ _ _ _ _ v hv _
    exact hv
  · intro st₁ item st₂ hv hback
    rcases (emplace_back_cases hback).2 with ⟨hspace, _, hret⟩ | ⟨_, block, s₁, hbuf, _, hret⟩
    · intro l hl
      rw [hret] at hl ⊢
      obtain ⟨hlog2size, hcapacity⟩ := hv l hl
      exact ⟨hlog2size, by show st₁.ret.capacity ≤ 2 * (st₁.ret.size + 1); omega⟩
    · intro l hl
      rw [hret] at hl ⊢
      cases hl
      refine ⟨log2size_of_try_kmalloc hbuf, ?_⟩
      show st₁.ret.size + max st₁.ret.size 1 ≤ 2 * (st₁.ret.size + 1)
      omega

/-- **182 items fit in a block**, and no more in any. -/
theorem size_le_of_stored {v : PartitionVector} (h : v.Requested) (hstored : v.Stored s) :
    v.size ≤ 182 := by
  rcases hstored with hzero | ⟨l, _, hblock, hfits⟩
  · omega
  · obtain ⟨hlog2size, hcapacity⟩ := h l hblock
    have hbytes : 360 * v.size ≤ 2 ^ l.log2size := hfits
    rw [hlog2size] at hbytes
    by_cases hlarge : 65536 < 2 ^ kmalloc_log2size v.capacity
    · -- a larger block is less than twice as large as what was asked for
      have hmost := two_pow_kmalloc_log2size_lt v.capacity hlarge
      omega
    · omega

/-- An address that no block has cannot be released. -/
theorem deallocate_ne_ok_of_lost (hs : Reachable (buddy_system P.region.allocator) s)
    {v : PartitionVector} (hblock : v.block = none) (hcapacity : 0 < v.capacity) {s' : BuddyState} :
    deallocate P s v ≠ .ok s' := by
  intro h
  rw [deallocate, if_neg (by omega), hblock] at h
  obtain ⟨l, hl, haddr⟩ := valid_of_exec (or_stuck_ok h)
  have hlow := (addr_bounds hs hl).2.1
  rw [haddr] at hlow
  have hlow : IDENTITY_MAP_PHY_START ≤ 0 := hlow
  exact absurd hlow (by decide)

theorem lost_of_list
    (h : list_entries P ports disk header_buf partition_entry_buf start i n st = .ok st')
    (hst : Lost P st.buddy st.ret) : Lost P st'.buddy st'.ret := by
  refine list_invariant (I := Lost P) ?_ ?_ n i st hst h
  · intro _ _ _ _ _ _ s s' _ v hv hread
    obtain ⟨buf, _, _, _, _, hbuf, _⟩ := Read_cases hread
    exact ⟨(try_kmalloc_cases hv.reachable hbuf).1, hv.block, hv.capacity, hv.size⟩
  · intro st₁ item st₂ hv hback
    rcases (emplace_back_cases hback).2 with ⟨hspace, hbuddy, hret⟩ | ⟨_, block, s₁, hbuf, hfree, _⟩
    · rw [hbuddy, hret]
      exact ⟨hv.reachable, hv.block, hv.capacity, Nat.succ_pos _⟩
    · have hs₁ := (try_kmalloc_cases hv.reachable hbuf).1
      exact absurd hfree (deallocate_ne_ok_of_lost hs₁ hv.block hv.capacity)

theorem Lost.not_stored (h : Lost P s st.ret) : ¬ st.ret.Stored s := by
  rintro (hzero | ⟨l, _, hblock, _⟩)
  · exact absurd hzero (Nat.pos_iff_ne_zero.mp h.size)
  · cases h.block.symm.trans hblock

end vectors

/-! ## What is listed -/

/-- The call returns the partitions of the table in order, in memory that the vector owns. -/
def ListedRight (P : Platform) (ports : Nat → HBA_PORT) (disk : Nat → UInt8) (s : BuddyState)
    (mem : Bytes) (header_buf partition_entry_buf : Nat) : Prop :=
  ∃ st, ListPrimaryPartitions P ports disk s mem header_buf partition_entry_buf = .ok st ∧
    partitions P st = listed disk (entry_count disk) ∧ st.ret.Stored st.buddy

section right

variable {P : Platform} {ports : Nat → HBA_PORT} {disk : Nat → UInt8} {s : BuddyState} {mem : Bytes}
  {header_buf partition_entry_buf i : Nat} {st : GptState}

theorem length_partitions (P : Platform) (st : GptState) :
    (partitions P st).length = st.ret.size := by
  rw [partitions, List.length_map, List.length_range]

theorem length_listed (disk : Nat → UInt8) (n : Nat) :
    (listed disk n).length = (typed_entries disk n).length :=
  List.length_map _

/-- All is listed if the vector has a block for all items. -/
theorem listedRight_of_fits (hs : Reachable (buddy_system P.region.allocator) s)
    (htable : PrimaryTable disk) (hlayout : Layout P s.live header_buf partition_entry_buf)
    (hreads : ReadsDisk P ports disk s mem header_buf partition_entry_buf)
    (hfit : (typed_entries disk (entry_count disk)).length ≤ 182)
    (hgrowth : ∀ i < entry_count disk, GrowthFits P disk s i) :
    ListedRight P ports disk s mem header_buf partition_entry_buf := by
  obtain ⟨st₀, hread, hstart⟩ := Listing.start hs hlayout hreads
  obtain ⟨st, hreach, hlisting⟩ := hstart.reachable htable hlayout hreads hfit hread le_rfl hgrowth
  have hcount := htable.count
  refine ⟨st, ?_, hlisting.items, ?_⟩
  · rw [ListPrimaryPartitions_eq ports st₀ hread (hstart.header.magic.trans htable.magic),
      hstart.header.lba]
    exact list_entries_of_end hreach (by omega) (by rw [hlisting.header.count]; exact lt_irrefl _)
  · obtain ⟨_, hzero⟩ | ⟨l, hblock, hlog2size, _⟩ := hlisting.owned.block
    · have hbound := hlisting.owned.bound
      exact .inl (by omega)
    · refine .inr ⟨l, (hlisting.owned.owned l hblock).1, hblock, ?_⟩
      rw [hlisting.size, hlog2size]
      show 360 * (typed_entries disk (entry_count disk)).length ≤ 65536
      omega

/-- **The first entry for which there is no block** leaves the vector without one. -/
theorem growthFits_of_listedRight (hs : Reachable (buddy_system P.region.allocator) s)
    (htable : PrimaryTable disk) (hlayout : Layout P s.live header_buf partition_entry_buf)
    (hreads : ReadsDisk P ports disk s mem header_buf partition_entry_buf)
    (hfit : (typed_entries disk (entry_count disk)).length ≤ 182)
    (hright : ListedRight P ports disk s mem header_buf partition_entry_buf) :
    ∀ i < entry_count disk, GrowthFits P disk s i := by
  intro i
  induction i using Nat.strong_induction_on with
  | _ i ih =>
    intro hi htyped hgrows
    by_contra hfull
    obtain ⟨st, hlist, _, hstored⟩ := hright
    obtain ⟨st₀, hread, hstart⟩ := Listing.start hs hlayout hreads
    obtain ⟨stᵢ, hreach, hlisting⟩ := hstart.reachable htable hlayout hreads hfit hread hi.le
      fun j hj => ih j hj (by omega)
    have hcount := htable.count
    have hmore : i < (PartitionEntryCount stᵢ.mem header_buf).toNat :=
      hlisting.header.count.symm ▸ hi
    have hmagic := hstart.header.magic.trans htable.magic
    rw [ListPrimaryPartitions_eq ports st₀ hread hmagic, hstart.header.lba] at hlist
    obtain ⟨n, st', hentry, hrest⟩ := list_entries_of_round hreach (by omega) hmore hlist
    -- the round comes to the item, for which there is no block
    have hround := hstart.round htable hread hreach hlisting hi
    have hall := length_typed_entries_mono disk hi.le
    obtain ⟨st₁, hread₁, hbytes⟩ := hreads.read htable hi hround hlisting.header
    obtain ⟨_, hstate⟩ := hlisting.toListState.read hlayout (by omega) (by decide) hread₁
    rw [list_entry_eq (hlisting.header.entry_size.trans htable.entry_size) hread₁,
      typed_of_bytes hbytes] at hentry
    replace hentry := (if_pos htyped).symm.trans hentry
    obtain ⟨item, st₂, hback, hbuddy, hret⟩ := add_partition_cases hentry
    have hlost := hstate.lost hgrows hfull (by omega) hback
    rw [← hbuddy, ← hret] at hlost
    exact (lost_of_list hrest hlost).not_stored hstored

end right

/-- **What is listed.** When every read brings the bytes of the disk, the call returns the
    partitions of the table in order, in memory of the vector, exactly when at most 182 entries have
    a type and there is a free block each time that the vector grows. -/
theorem partitions_listed (P : Platform) (ports : Nat → HBA_PORT) (disk : Nat → UInt8)
    (s : BuddyState) (mem : Bytes) (header_buf partition_entry_buf : Nat)
    (hs : Reachable (buddy_system P.region.allocator) s) (htable : PrimaryTable disk)
    (hlayout : Layout P s.live header_buf partition_entry_buf)
    (hreads : ReadsDisk P ports disk s mem header_buf partition_entry_buf) :
    ListedRight P ports disk s mem header_buf partition_entry_buf ↔
      (typed_entries disk (entry_count disk)).length ≤ 182 ∧
        ∀ i < entry_count disk, GrowthFits P disk s i := by
  constructor
  · intro hright
    have hfit : (typed_entries disk (entry_count disk)).length ≤ 182 := by
      obtain ⟨st, hlist, hitems, hstored⟩ := hright
      obtain ⟨s₁, mem₁, _, _, hentries⟩ := ListPrimaryPartitions_cases hlist
      have hsize := size_le_of_stored (requested_of_list hentries nofun) hstored
      rwa [← length_partitions P st, hitems, length_listed] at hsize
    exact ⟨hfit, growthFits_of_listedRight hs htable hlayout hreads hfit hright⟩
  · intro ⟨hfit, hgrowth⟩
    exact listedRight_of_fits hs htable hlayout hreads hfit hgrowth

/-! ## Two tables -/

/-- Three entries, the second without a type. -/
theorem gap_listed : ∃ st, ListPrimaryPartitions platform_1G (fun _ => idle_port)
      (gpt_disk 3 gap_entry) (.start platform_1G.region.allocator) (fun _ => 0) 0x3000000
      0x3001000 = .ok st ∧
    partitions platform_1G st = listed (gpt_disk 3 gap_entry) 3 ∧
    (partitions platform_1G st).map (fun p => (p.start_offset, p.size)) =
      [(17408, 5120), (27648, 5120)] := by
  have htable : PrimaryTable (gpt_disk 3 gap_entry) :=
    ⟨by decide +kernel, by decide +kernel, by decide +kernel, by decide +kernel⟩
  have hcount : entry_count (gpt_disk 3 gap_entry) = 3 := by decide +kernel
  have hfew : (typed_entries (gpt_disk 3 gap_entry) 3).length ≤ 182 := by decide +kernel
  have hgrowth : ∀ i < 3,
      GrowthFits platform_1G (gpt_disk 3 gap_entry) (.start platform_1G.region.allocator) i := by
    intro i hi _ _
    have hnone : used_bytes (.start platform_1G.region.allocator) = 0 := rfl
    have hroot : 2 ^ platform_1G.region.root_log2size = 2 ^ 30 := rfl
    rw [hnone, hroot]
    omega
  obtain ⟨st, hlist, hpartitions, _⟩ := (partitions_listed platform_1G (fun _ => idle_port)
    (gpt_disk 3 gap_entry) (.start platform_1G.region.allocator) (fun _ => 0) 0x3000000 0x3001000
    (.init rfl) htable layout_1G (readsDisk_of_fits (.init rfl) htable layout_1G
      (fun _ => idle_port_ready) (fits_1G htable.entry_size (by omega) _ _))).mpr
    (hcount.symm ▸ ⟨hfew, hgrowth⟩)
  rw [hcount] at hpartitions
  refine ⟨st, hlist, hpartitions, ?_⟩
  rw [hpartitions]
  decide +kernel

/-! ## More than 182 partitions -/

instance (P : Platform) (l : Live) : Decidable (l.Mapped P) :=
  decidable_of_iff (IDENTITY_MAP_PHY_START ≤ (l.addr P.region.allocator).toNat ∧
      (l.addr P.region.allocator).toNat + 65536 ≤ IDENTITY_MAP_PHY_END)
    ⟨fun h => ⟨h.1, h.2⟩, fun h => ⟨h.low, h.high⟩⟩

/-- The allocator and the vector after a round whose entry has a type. The blocks are to be in the
    identity map, but the items need not be in the block. -/
def typed_round (P : Platform) (x : BuddyState × PartitionVector) :
    Option (BuddyState × PartitionVector) := do
  let r ← try_kmalloc P.region.allocator x.1 128
  let l ← r.1
  let y ← x.2.grow P r.2
  let l' ← y.2.block
  guard (l.Mapped P ∧ l'.Mapped P ∧ y.2.offset P y.2.size ≤ IDENTITY_MAP_PHY_END)
  pure y

def typed_rounds (P : Platform) : Nat → BuddyState × PartitionVector →
    Option (BuddyState × PartitionVector)
  | 0, x => some x
  | n + 1, x => (typed_rounds P n x).bind (typed_round P)

section typed

variable {P : Platform} {ports : Nat → HBA_PORT} {disk : Nat → UInt8}
  {header_buf partition_entry_buf : Nat} {s' : BuddyState} {v' : PartitionVector}

theorem typed_round_cases {x y : BuddyState × PartitionVector} (h : typed_round P x = some y) :
    ∃ l s₁ l', try_kmalloc P.region.allocator x.1 128 = some (some l, s₁) ∧ l.Mapped P ∧
      x.2.grow P s₁ = some y ∧ y.2.block = some l' ∧ l'.Mapped P ∧
      y.2.offset P y.2.size ≤ IDENTITY_MAP_PHY_END := by
  obtain ⟨⟨buf, s₁⟩, hbuf, h⟩ := Option.bind_eq_some_iff.mp h
  obtain ⟨l, rfl, h⟩ := Option.bind_eq_some_iff.mp h
  obtain ⟨y', hgrow, h⟩ := Option.bind_eq_some_iff.mp h
  obtain ⟨l', hblock, h⟩ := Option.bind_eq_some_iff.mp h
  obtain ⟨_, hguard, h⟩ := Option.bind_eq_some_iff.mp h
  obtain ⟨hl, hl', hoffset⟩ := of_guard hguard
  obtain rfl : y' = y := Option.some.inj h
  exact ⟨l, s₁, l', hbuf, hl, hgrow, hblock, hl', hoffset⟩

theorem item_subset_identity_map {v : PartitionVector} {l : Live} (hblock : v.block = some l)
    (hl : l.Mapped P) (k n : Nat) :
    Set.Ico (v.item P k) (v.item P k + n) ⊆ Set.Ici IDENTITY_MAP_PHY_START := by
  rw [PartitionVector.item_eq hblock hl]
  exact Set.Ico_subset_Ici_self.trans (Set.Ici_subset_Ici.mpr (hl.low.trans (Nat.le_add_right _ _)))

/-- **A round whose entry has a type**, with the memory after it. The buffers are below all
    blocks. -/
theorem list_entry_of_typed_round (st : GptState) {port : HBA_PORT} {i : Nat} (hport : port.Ready)
    (htable : PrimaryTable disk) (hi : i < entry_count disk)
    (htyped : PartitionTypeGUID disk (entry_address disk i) ≠ 0)
    (hheader : HasHeader disk st.mem header_buf)
    (hbuffers : header_buf + 512 ≤ partition_entry_buf)
    (hlow : partition_entry_buf + 512 ≤ IDENTITY_MAP_PHY_START)
    (hround : typed_round P (st.buddy, st.ret) = some (s', v')) :
    ∃ l s₁ mem₁ mem', try_kmalloc P.region.allocator st.buddy 128 = some (some l, s₁) ∧
      SectorRead P disk l partition_entry_buf (entry_address disk i) 128 st.mem mem₁ ∧
      mem' = put_entry (st.ret.emplaced P mem₁ v') (v'.item P st.ret.size) partition_entry_buf 128 ∧
      list_entry P port disk header_buf partition_entry_buf
        (PartitionEntryLBA disk 512 * SectorSize) i st = .ok ⟨s', mem', v'⟩ ∧
      HasHeader disk mem' header_buf := by
  obtain ⟨l, s₁, l', hbuf, hl, hgrow, hblock, hl', hoffset⟩ := typed_round_cases hround
  have hlow₁ := hl.low
  have haddress := toNat_entry_address htable hi
  obtain ⟨hsector, hend⟩ := entry_in_sector htable hi
  -- the read
  have h128 : (128 : UInt64).toNat = 128 := rfl
  obtain ⟨mem₁, hread, hmem₁⟩ := read_to_buffer_sector disk st partition_entry_buf
    (PartitionEntryLBA disk 512 * SectorSize + (128 * UInt32.ofNat i).toUInt64) 128 hport
    (by decide) (by rw [haddress, h128]; exact hsector) (by rw [haddress, h128]; exact hend) hbuf hl
    (disjoint_of_le (by rw [h128]; omega))
  rw [haddress, h128] at hmem₁
  have hheader₁ : HasHeader disk mem₁ header_buf := hheader.of_changesOnly hmem₁.frame
    (Set.disjoint_union_right.mpr ⟨disjoint_of_le (by omega), disjoint_of_le hbuffers⟩)
  -- the item, in the identity map
  have habove : ∀ k n, Set.Ico (v'.item P k) (v'.item P k + n) ⊆ Set.Ici IDENTITY_MAP_PHY_START :=
    item_subset_identity_map hblock hl'
  have hheader_apart : Disjoint (Set.Ico header_buf (header_buf + 512))
      (Set.Ici IDENTITY_MAP_PHY_START) :=
    (Set.Iio_disjoint_Ici (by omega)).mono_left Set.Ico_subset_Iio_self
  have hheader₂ : HasHeader disk (st.ret.emplaced P mem₁ v') header_buf :=
    hheader₁.of_changesOnly (PartitionVector.changesOnly_emplaced fun k _ => habove k 360)
      hheader_apart
  have hsource : ∀ j < 128, partition_entry_buf + j ∉ Set.Ico (v'.item P st.ret.size + 16)
      (v'.item P st.ret.size + 16 + 128) := by
    intro j hj hmem
    have hle : v'.item P st.ret.size + 16 ≤ _ := hmem.1
    have hstart : IDENTITY_MAP_PHY_START ≤ _ := habove st.ret.size 144 ⟨by omega, hmem.2⟩
    omega
  refine ⟨l, s₁, mem₁, _, hbuf, hmem₁, rfl, ?_, hheader₂.of_changesOnly
    ((changesOnly_put_entry hsource).mono (habove _ _)) hheader_apart⟩
  have hback : emplace_back P ⟨s₁, mem₁, st.ret⟩ =
      .ok (v'.item P st.ret.size, ⟨s', st.ret.emplaced P mem₁ v', v'⟩) :=
    emplace_back_eq hgrow hoffset
  rw [list_entry_eq (hheader.entry_size.trans htable.entry_size) hread,
    typed_of_bytes hmem₁.output, if_pos htyped]
  have hsize : (128 : UInt32).toNat = 128 := rfl
  have hadd : add_partition P ⟨s₁, mem₁, st.ret⟩ header_buf partition_entry_buf = _ :=
    add_partition_eq hback (hheader₂.entry_size.trans htable.entry_size) (by decide)
  rw [hsize] at hadd
  exact hadd

/-- The loop comes to the end of these rounds. -/
theorem reachable_of_typed_rounds (st₀ : GptState) {n : Nat} {x : BuddyState × PartitionVector}
    (hports : ∀ i, (ports i).Ready) (htable : PrimaryTable disk)
    (htyped : ∀ i < n, PartitionTypeGUID disk (entry_address disk i) ≠ 0)
    (hn : n ≤ entry_count disk) (hheader : HasHeader disk st₀.mem header_buf)
    (hbuffers : header_buf + 512 ≤ partition_entry_buf)
    (hlow : partition_entry_buf + 512 ≤ IDENTITY_MAP_PHY_START)
    (hrounds : typed_rounds P n (st₀.buddy, st₀.ret) = some x) :
    ∃ mem, Reachable (listing P ports disk header_buf partition_entry_buf
        (PartitionEntryLBA disk 512 * SectorSize) st₀) (n, ⟨x.1, mem, x.2⟩) ∧
      HasHeader disk mem header_buf := by
  induction n generalizing x with
  | zero =>
    obtain rfl : (st₀.buddy, st₀.ret) = x := Option.some.inj hrounds
    exact ⟨st₀.mem, .init rfl, hheader⟩
  | succ n ih =>
    obtain ⟨y, hprev, hround⟩ := Option.bind_eq_some_iff.mp hrounds
    obtain ⟨mem, hreach, hheader'⟩ := ih (fun i hi => htyped i (by omega)) (by omega) hprev
    obtain ⟨_, _, _, mem', _, _, _, hentry, hkept⟩ := list_entry_of_typed_round ⟨y.1, mem, y.2⟩
      (hports (n + 1)) htable (by omega) (htyped n (by omega)) hheader' hbuffers hlow hround
    exact ⟨mem', reachable_next hreach hheader' hn hentry, hkept⟩

/-- A round that adds an item in place changes nothing between the buffer and the item. -/
theorem kept_below_item {v : PartitionVector} {mem : Bytes} {x : Nat} (hspace : v.size < v.capacity)
    (hbuffer : partition_entry_buf + 128 ≤ v'.item P v.size) (hx : x < v'.item P v.size) :
    put_entry (v.emplaced P mem v') (v'.item P v.size) partition_entry_buf 128 x = mem x := by
  have hsource : ∀ j < 128, partition_entry_buf + j ∉
      Set.Ico (v'.item P v.size + 16) (v'.item P v.size + 16 + 128) := by
    intro j hj hmem
    have hmem : _ ≤ _ ∧ _ := hmem
    omega
  have hout : ∀ n, x ∉ Set.Ico (v'.item P v.size) (v'.item P v.size + n) :=
    fun n hmem => Nat.not_le.mpr hx hmem.1
  rw [changesOnly_put_entry hsource x (hout 144), PartitionVector.emplaced, if_pos hspace, clear,
    overwrite_of_notMem (hout _)]

end typed

/-- The blocks of the last rounds: the vector has got its last block three rounds before, and the
    read gets the one behind it. -/
theorem last_rounds : ∃ s₀ s s' s₁,
    try_kmalloc platform_1G.region.allocator (.start platform_1G.region.allocator) 512 =
      some (some ⟨16383, 16⟩, s₀) ∧
    typed_rounds platform_1G 258 (s₀, ⟨none, 0, 0⟩) = some (s, ⟨some ⟨16642, 16⟩, 512, 258⟩) ∧
    typed_round platform_1G (s, ⟨some ⟨16642, 16⟩, 512, 258⟩) =
      some (s', ⟨some ⟨16642, 16⟩, 512, 259⟩) ∧
    try_kmalloc platform_1G.region.allocator s 128 = some (some ⟨16643, 16⟩, s₁) := by
  have hrun : (do
      let r ← try_kmalloc platform_1G.region.allocator (.start platform_1G.region.allocator) 512
      let x ← typed_rounds platform_1G 258 (r.2, ⟨none, 0, 0⟩)
      let y ← typed_round platform_1G x
      let q ← try_kmalloc platform_1G.region.allocator x.1 128
      pure (r.1, x.2, y.2, q.1)) =
        some (some ⟨16383, 16⟩, ⟨some ⟨16642, 16⟩, 512, 258⟩, ⟨some ⟨16642, 16⟩, 512, 259⟩,
          some ⟨16643, 16⟩) := by decide +kernel
  obtain ⟨⟨buf, s₀⟩, hbuf, hrun⟩ := Option.bind_eq_some_iff.mp hrun
  obtain ⟨⟨s, v⟩, hrounds, hrun⟩ := Option.bind_eq_some_iff.mp hrun
  obtain ⟨⟨s', v'⟩, hround, hrun⟩ := Option.bind_eq_some_iff.mp hrun
  obtain ⟨⟨buf', s₁⟩, hbuf', hrun⟩ := Option.bind_eq_some_iff.mp hrun
  cases hrun
  exact ⟨s₀, s, s', s₁, hbuf, hrounds, hround, hbuf'⟩

theorem item_of_last_block (k : Nat) :
    PartitionVector.item platform_1G ⟨some ⟨16642, 16⟩, 512, 259⟩ k = 0x45020000 + 360 * k := by
  have haddr : (Live.addr platform_1G.region.allocator ⟨16642, 16⟩).toNat = 0x45020000 := by
    decide +kernel
  rw [PartitionVector.item_eq rfl (by decide), haddr]

theorem entry_182_of_bytes {mem : Bytes} {data : List UInt8} (s : BuddyState)
    (h : bytes mem (0x45020000 + 360 * 182 + 16) 128 = data) :
    (partitions platform_1G ⟨s, mem, ⟨some ⟨16642, 16⟩, 512, 259⟩⟩)[182]?.map (·.entry) =
      some data := by
  have hindex : (List.range 259)[182]? = some 182 := List.getElem?_range (by decide)
  rw [partitions, List.getElem?_map, hindex, Option.map_some, Option.map_some, item_of_last_block,
    partition_at, h]

/-- The entry of item 182 is at the start of the block of the last read, and the last item is behind
    it. -/
theorem entry_182_of_read {disk : Nat → UInt8} {buf start : Nat} {mem mem₁ : Bytes}
    (h : SectorRead platform_1G disk ⟨16643, 16⟩ buf start 128 mem mem₁) :
    bytes (put_entry
        (PartitionVector.emplaced platform_1G mem₁ ⟨some ⟨16642, 16⟩, 512, 258⟩
          ⟨some ⟨16642, 16⟩, 512, 259⟩)
        (PartitionVector.item platform_1G ⟨some ⟨16642, 16⟩, 512, 259⟩ 258) 0x3001000 128)
      (0x45020000 + 360 * 182 + 16) 128 = bytes disk (512 * (start / 512)) 128 := by
  have hnext : (Live.addr platform_1G.region.allocator ⟨16643, 16⟩).toNat =
      0x45020000 + 360 * 182 + 16 := by decide +kernel
  refine List.map_congr_left fun i hi => ?_
  have hi := List.mem_range.mp hi
  rw [kept_below_item (by show 258 < 512; decide)
    (by rw [item_of_last_block]; show _ ≤ 0x45020000 + 360 * 258; decide)
    (by rw [item_of_last_block]; show _ < 0x45020000 + 360 * 258; omega), ← hnext]
  exact h.sector i (by omega)

/-- **A table of 259 partitions** is listed right after the start. `entry_` of item 182 is at the
    start of the block behind the vector's, where the last read puts its sector. -/
theorem entry_182_of_259 {disk : Nat → UInt8} (htable : PrimaryTable disk)
    (hcount : entry_count disk = 259)
    (htyped : ∀ i < 259, PartitionTypeGUID disk (entry_address disk i) ≠ 0) :
    ∃ st, ListPrimaryPartitions platform_1G (fun _ => idle_port) disk
        (.start platform_1G.region.allocator) (fun _ => 0) 0x3000000 0x3001000 = .ok st ∧
      (partitions platform_1G st)[182]?.map (·.entry) =
        some (bytes disk (512 * (entry_address disk 258 / 512)) 128) := by
  obtain ⟨s₀, s, s', s₁, hbuf₀, hrounds, hround, hbuf⟩ := last_rounds
  have hbuffers : 0x3000000 + 512 ≤ 0x3001000 := by decide
  have hlow : 0x3001000 + 512 ≤ IDENTITY_MAP_PHY_START := by decide
  -- the header, and 258 rounds
  obtain ⟨mem₀, hread, hmem₀⟩ := read_to_buffer_sector disk
    ⟨.start platform_1G.region.allocator, fun _ => 0, ⟨none, 0, 0⟩⟩ 0x3000000 512 512
    idle_port_ready (by decide) (by decide) (by decide) hbuf₀ (by decide)
    (disjoint_of_le (by decide))
  have hheader₀ : HasHeader disk mem₀ 0x3000000 := hmem₀.output
  obtain ⟨mem, hreach, hheader⟩ := reachable_of_typed_rounds ⟨s₀, mem₀, ⟨none, 0, 0⟩⟩
    (fun _ => idle_port_ready) htable (fun i hi => htyped i (by omega)) (by omega) hheader₀
    hbuffers hlow hrounds
  -- the last round
  obtain ⟨l, s₂, mem₁, mem', hbuf', hmem₁, hmem', hentry, hheader'⟩ := list_entry_of_typed_round
    ⟨s, mem, ⟨some ⟨16642, 16⟩, 512, 258⟩⟩ idle_port_ready htable (by omega) (htyped 258 (by omega))
    hheader hbuffers hlow hround
  obtain rfl : l = ⟨16643, 16⟩ := by
    rw [hbuf] at hbuf'
    cases hbuf'
    rfl
  have hreach' := reachable_next hreach hheader (by omega) hentry
  have hmagic : bytes mem₀ 0x3000000 8 = EFI_PART := hheader₀.magic.trans htable.magic
  have hlist : ListPrimaryPartitions platform_1G (fun _ => idle_port) disk
      (.start platform_1G.region.allocator) (fun _ => 0) 0x3000000 0x3001000 =
        .ok ⟨s', mem', ⟨some ⟨16642, 16⟩, 512, 259⟩⟩ := by
    rw [ListPrimaryPartitions_eq (fun _ => idle_port) ⟨s₀, mem₀, ⟨none, 0, 0⟩⟩ hread hmagic,
      hheader₀.lba]
    apply list_entries_of_end hreach' (by omega)
    rw [hheader'.count, hcount]
    exact lt_irrefl _
  refine ⟨_, hlist, entry_182_of_bytes s' ?_⟩
  rw [hmem']
  exact entry_182_of_read hmem₁

/-- Every entry has its number as type. -/
def numbered_entry (k o : Nat) : UInt8 :=
  if o = 0 then UInt8.ofNat (k + 1) else if o = 1 then UInt8.ofNat ((k + 1) / 256) else 0

/-- Entry 182 is listed with the bytes of entry 256. -/
theorem item_182_overwritten : PrimaryTable (gpt_disk 259 numbered_entry) ∧
    ∃ st, ListPrimaryPartitions platform_1G (fun _ => idle_port) (gpt_disk 259 numbered_entry)
        (.start platform_1G.region.allocator) (fun _ => 0) 0x3000000 0x3001000 = .ok st ∧
      (partitions platform_1G st)[182]?.map (·.entry) =
        some (bytes (gpt_disk 259 numbered_entry)
          (entry_address (gpt_disk 259 numbered_entry) 256) 128) ∧
      partitions platform_1G st ≠ listed (gpt_disk 259 numbered_entry) 259 := by
  have htable : PrimaryTable (gpt_disk 259 numbered_entry) :=
    ⟨by decide +kernel, by decide +kernel, by decide +kernel, by decide +kernel⟩
  have htyped : ∀ i < 259, PartitionTypeGUID (gpt_disk 259 numbered_entry)
      (entry_address (gpt_disk 259 numbered_entry) i) ≠ 0 := by decide +kernel
  have hsector : 512 * (entry_address (gpt_disk 259 numbered_entry) 258 / 512) =
      entry_address (gpt_disk 259 numbered_entry) 256 := by decide +kernel
  have hother : (listed (gpt_disk 259 numbered_entry) 259)[182]?.map (·.entry) ≠
      some (bytes (gpt_disk 259 numbered_entry)
        (entry_address (gpt_disk 259 numbered_entry) 256) 128) := by decide +kernel
  obtain ⟨st, hlist, hentry⟩ := entry_182_of_259 htable (by decide +kernel) htyped
  rw [hsector] at hentry
  refine ⟨htable, st, hlist, hentry, fun heq => ?_⟩
  rw [heq] at hentry
  exact hother hentry

end Modern05
