import Modern05.Device.Gpt
import Modern05.Mm.SmallestBlocks

/-! # The partitions in memory

    What a round of `gpt::ListPrimaryPartitions` does to memory: `Read` leaves a sector in the block
    it got and an entry in the buffer, `emplace_back` moves the items when the vector gets another
    block, and the entry in the buffer becomes an item.

    * `read_to_buffer_sector`, `emplace_back_eq` and `add_partition_eq` are these three with the
      memory after them.
    * `Owned` is what the vector is to be between the calls. `Owned.read` says that a read leaves
      its items as they are, and `add_partition_spec` that an item is added to them, as long as
      there is space for all of them in a block of 64 KiB.
-/

namespace Modern05

open BuddyAllocator LTS Memory

/-- The block is in the identity map. -/
structure Live.Mapped (P : Platform) (l : Live) : Prop where
  low : IDENTITY_MAP_PHY_START ≤ (l.addr P.region.allocator).toNat
  high : (l.addr P.region.allocator).toNat + 65536 ≤ IDENTITY_MAP_PHY_END

/-! ## A read within a sector -/

/-- The sector is in the block and the range in the buffer. The rest of memory is as before. -/
structure SectorRead (P : Platform) (disk : Nat → UInt8) (l : Live) (buf start size : Nat)
    (mem mem' : Bytes) : Prop where
  sector : ∀ i < 512, mem' ((l.addr P.region.allocator).toNat + i) = disk (512 * (start / 512) + i)
  output : ∀ i < size, mem' (buf + i) = disk (start + i)
  frame : ChangesOnly (Set.Ico (l.addr P.region.allocator).toNat
    ((l.addr P.region.allocator).toNat + 512) ∪ Set.Ico buf (buf + size)) mem mem'

theorem read_to_buffer_sector {P : Platform} {port : HBA_PORT} {s' : BuddyState} {l : Live}
    (disk : Nat → UInt8) (st : GptState) (buf : Nat) (start size : UInt64) (hport : port.Ready)
    (hsize : 1 ≤ size.toNat) (hsector : start.toNat % 512 + size.toNat ≤ 512)
    (hend : start.toNat + size.toNat < 2 ^ 57)
    (hbuf : try_kmalloc P.region.allocator st.buddy size.toNat = some (some l, s'))
    (hl : l.Mapped P)
    (houtput : Disjoint (Set.Ico buf (buf + size.toNat)) (Set.Ico (l.addr P.region.allocator).toNat
      ((l.addr P.region.allocator).toNat + 512))) :
    ∃ mem', read_to_buffer P port disk st buf start size = .ok (.ErrSuccess, ⟨s', mem', st.ret⟩) ∧
      SectorRead P disk l buf start.toNat size.toNat st.mem mem' := by
  obtain ⟨hlow, hhigh⟩ := hl
  generalize ha : (l.addr P.region.allocator).toNat = a at *
  have hone : sectors start.toNat size.toNat = 1 := by
    unfold sectors
    omega
  -- memory after the transfer of the one sector, from which the range is copied
  let mem₁ := overwrite st.mem a 512 (fun i => disk (512 * (start.toNat / 512) + i))
  have hblock : ∀ i < 512, mem₁ (a + i) = disk (512 * (start.toNat / 512) + i) := by
    intro i hi
    show overwrite st.mem a 512 _ (a + i) = _
    rw [overwrite_of_mem ⟨by omega, by omega⟩, Nat.add_sub_cancel_left]
  have hwindow : ∀ i, window_addr P (a + start.toNat % 512 + i) = a + start.toNat % 512 + i :=
    fun i => if_neg (by omega)
  have hsource : ∀ i < size.toNat, window_addr P (a + start.toNat % 512 + i) ∉
      Set.Ico buf (buf + size.toNat) := by
    intro i hi hmem
    rw [hwindow] at hmem
    exact Set.disjoint_left.mp houtput hmem ⟨by omega, by omega⟩
  have hread : Read P port disk st.buddy st.mem buf start size = some (.ErrSuccess, s',
      overwrite mem₁ buf size.toNat (fun i => mem₁ (a + start.toNat % 512 + i))) := by
    have haddr : (buf_phy P.region.allocator (some l)).toNat = a := ha
    rw [Read_eq hport (by omega) hbuf (by rw [hone, haddr]; omega), hone, haddr,
      min_transferred (by decide), Nat.mod_eq_of_lt (by omega), memcpy_eq hsource]
    simp only [hwindow]
    rfl
  refine ⟨overwrite mem₁ buf size.toNat (fun i => mem₁ (a + start.toNat % 512 + i)),
    read_to_buffer_of_Read hread (by omega), ?_⟩
  constructor
  · intro i hi
    have hnot : a + i ∉ Set.Ico buf (buf + size.toNat) :=
      fun hmem => Set.disjoint_left.mp houtput hmem ⟨by omega, by omega⟩
    rw [ha, overwrite_of_notMem hnot, hblock i hi]
  · intro i hi
    rw [overwrite_of_mem ⟨by omega, by omega⟩, Nat.add_sub_cancel_left, Nat.add_assoc,
      hblock _ (by omega), ← Nat.add_assoc, Nat.div_add_mod]
  · rw [ha]
    exact (ChangesOnly.overwrite _ Set.subset_union_left).trans
      (ChangesOnly.overwrite _ Set.subset_union_right)

/-! ## Growth -/

namespace PartitionVector

variable {P : Platform} {v v' : PartitionVector} {l l' : Live} {mem : Bytes} {n : Nat}

theorem offset_eq (hblock : v.block = some l) (i : Nat) :
    v.offset P i = (l.addr P.region.allocator).toNat + 360 * i := by
  rw [offset, hblock]
  rfl

theorem item_eq (hblock : v.block = some l) (hl : l.Mapped P) (i : Nat) :
    v.item P i = (l.addr P.region.allocator).toNat + 360 * i := by
  have hlow := hl.low
  rw [item, window_addr, offset_eq hblock, if_neg (by omega)]

/-- The allocator and the vector after an `emplace_back`, which do not depend on memory. -/
def grow (P : Platform) (s : BuddyState) (v : PartitionVector) :
    Option (BuddyState × PartitionVector) :=
  if v.size < v.capacity then some (s, { v with size := v.size + 1 })
  else do
    let r ← try_kmalloc P.region.allocator s (v.size + max v.size 1)
    let s' ← (deallocate P r.2 v).toOption
    some (s', ⟨r.1, v.size + max v.size 1, v.size + 1⟩)

/-- Memory after an `emplace_back`. -/
def emplaced (P : Platform) (mem : Bytes) (v v' : PartitionVector) : Bytes :=
  if v.size < v.capacity then clear mem (v'.item P v.size) sizeof_GPTPrimaryPartition
  else relocate P (clear mem (v'.item P v.size) sizeof_GPTPrimaryPartition) v v' v.size

/-- Items are moved to a block as one piece. -/
theorem relocate_eq (hblock : v.block = some l) (hl : l.Mapped P) (hblock' : v'.block = some l')
    (hl' : l'.Mapped P)
    (hapart : Disjoint (Set.Ico (l.addr P.region.allocator).toNat
        ((l.addr P.region.allocator).toNat + 360 * n))
      (Set.Ico (l'.addr P.region.allocator).toNat
        ((l'.addr P.region.allocator).toNat + 360 * n))) :
    relocate P mem v v' n = overwrite mem (l'.addr P.region.allocator).toNat (360 * n)
      (fun i => mem ((l.addr P.region.allocator).toNat + i)) := by
  induction n with
  | zero => exact (overwrite_zero mem _ _).symm
  | succ n ih =>
    have hless : ∀ a, Set.Ico a (a + 360 * n) ⊆ Set.Ico a (a + 360 * (n + 1)) :=
      fun a => Set.Ico_subset_Ico_right (by omega)
    have hprev := ih (hapart.mono (hless _) (hless _))
    rw [relocate, hprev, item_eq hblock hl, item_eq hblock' hl', sizeof_GPTPrimaryPartition,
      Nat.mul_succ, ← overwrite_add]
    apply overwrite_congr
    intro i hi
    rw [overwrite_of_notMem, Nat.add_assoc]
    intro hmem
    have hmem : _ ∧ _ < (l'.addr P.region.allocator).toNat + 360 * n := hmem
    exact Set.disjoint_left.mp hapart ⟨by omega, by omega⟩ ⟨hmem.1, by omega⟩

theorem changesOnly_relocate {S : Set Nat}
    (h : ∀ k < n, Set.Ico (v'.item P k) (v'.item P k + 360) ⊆ S) :
    ChangesOnly S mem (relocate P mem v v' n) := by
  induction n with
  | zero => exact .refl S mem
  | succ n ih =>
    rw [relocate]
    exact (ih (fun k hk => h k (by omega))).trans (.overwrite _ (h n (by omega)))

/-- An `emplace_back` writes to the items of the new vector only. -/
theorem changesOnly_emplaced {S : Set Nat}
    (h : ∀ k ≤ v.size, Set.Ico (v'.item P k) (v'.item P k + 360) ⊆ S) :
    ChangesOnly S mem (emplaced P mem v v') := by
  have hclear : ChangesOnly S mem (clear mem (v'.item P v.size) sizeof_GPTPrimaryPartition) :=
    .overwrite _ (h _ le_rfl)
  unfold emplaced
  split
  · exact hclear
  · exact hclear.trans (changesOnly_relocate fun k hk => h k hk.le)

end PartitionVector

theorem emplace_back_eq {P : Platform} {st : GptState} {s' : BuddyState} {v' : PartitionVector}
    (hgrow : st.ret.grow P st.buddy = some (s', v'))
    (hmapped : v'.offset P v'.size ≤ IDENTITY_MAP_PHY_END) :
    emplace_back P st = .ok (v'.item P st.ret.size, ⟨s', st.ret.emplaced P st.mem v', v'⟩) := by
  unfold PartitionVector.grow at hgrow
  split at hgrow
  · rename_i hspace
    obtain ⟨rfl, rfl⟩ := Prod.mk.inj (Option.some.inj hgrow)
    simp only [emplace_back, hspace, PartitionVector.emplaced, if_true, if_neg hmapped.not_gt]
  · rename_i hfull
    obtain ⟨⟨block, s₁⟩, hbuf, hgrow⟩ := Option.bind_eq_some_iff.mp hgrow
    obtain ⟨s₂, hfree, hgrow⟩ := Option.bind_eq_some_iff.mp hgrow
    obtain ⟨rfl, rfl⟩ := Prod.mk.inj (Option.some.inj hgrow)
    have hfree : deallocate P s₁ st.ret = .ok s₂ := by
      cases hd : deallocate P s₁ st.ret with
      | error e => rw [hd] at hfree; cases hfree
      | ok s => rw [hd] at hfree; exact congrArg _ (Option.some.inj hfree)
    simp only [emplace_back, hfull, PartitionVector.emplaced, if_false, hbuf, or_stuck, hfree,
      if_neg hmapped.not_gt, bind, Except.bind]

/-! ## The entry becomes an item -/

/-- What the caller sees of an item, or is to see of an entry. -/
structure Partition where
  start_offset : UInt64
  size : UInt64
  /-- The first 128 bytes of `entry_` -/
  entry : List UInt8
  deriving DecidableEq, Repr

/-- The item at an address. -/
def partition_at (mem : Bytes) (item : Nat) : Partition :=
  ⟨UInt64.ofNat (load64 mem item), UInt64.ofNat (load64 mem (item + 8)), bytes mem (item + 16) 128⟩

/-- The entry at an address, in memory or on the disk. -/
def partition_of (disk : Nat → UInt8) (entry : Nat) : Partition :=
  ⟨FirstLBA disk entry * 512, (LastLBA disk entry - FirstLBA disk entry + 1) * 512,
    bytes disk entry 128⟩

/-- The items that are returned. -/
def partitions (P : Platform) (st : GptState) : List Partition :=
  (List.range st.ret.size).map (fun k => partition_at st.mem (st.ret.item P k))

/-- Memory after an entry was copied to an item and its offset and size were set. -/
def put_entry (mem : Bytes) (item entry size : Nat) : Bytes :=
  let mem := memcpy mem (item + 16) (fun i => entry + i) size
  let mem := store64 mem item (FirstLBA mem (item + 16) * SectorSize).toNat
  store64 mem (item + 8)
    ((LastLBA mem (item + 16) - FirstLBA mem (item + 16) + 1) * SectorSize).toNat

theorem add_partition_eq {P : Platform} {st st₁ : GptState} {header_buf entry item : Nat}
    {size : UInt32} (hback : emplace_back P st = .ok (item, st₁))
    (hsize : PartitionEntrySize st₁.mem header_buf = size)
    (hfits : size.toNat ≤ sizeof_GPTPartitionEntry) :
    add_partition P st header_buf entry =
      .ok { st₁ with mem := put_entry st₁.mem item entry size.toNat } := by
  simp only [add_partition, hback, hsize, bind, Except.bind, if_neg (Nat.not_lt.mpr hfits)]
  rfl

section entries

variable {mem mem' disk : Bytes} {item entry addr : Nat}

theorem field_congr (h : ∀ i < 128, mem' (addr + i) = mem (entry + i)) (k n : Nat)
    (hk : k + n ≤ 128) : load_le mem' (addr + k) n = load_le mem (entry + k) n := by
  refine load_le_congr fun i hi => ?_
  rw [Nat.add_assoc, Nat.add_assoc]
  exact h (k + i) (by omega)

theorem partition_of_congr (h : ∀ i < 128, mem' (addr + i) = mem (entry + i)) :
    partition_of mem' addr = partition_of mem entry := by
  have hbytes : bytes mem' addr 128 = bytes mem entry 128 :=
    List.map_congr_left fun i hi => h i (List.mem_range.mp hi)
  unfold partition_of FirstLBA LastLBA
  rw [field_congr h 32 8 (by omega), field_congr h 40 8 (by omega), hbytes]

theorem partition_at_congr (h : ∀ i < 360, mem' (addr + i) = mem (item + i)) :
    partition_at mem' addr = partition_at mem item := by
  have hfirst : load64 mem' addr = load64 mem item :=
    load64_eq_of_bytes fun i hi => h i (by omega)
  have hsecond : load64 mem' (addr + 8) = load64 mem (item + 8) := by
    refine load64_eq_of_bytes fun i hi => ?_
    rw [Nat.add_assoc, Nat.add_assoc]
    exact h (8 + i) (by omega)
  have hentry : bytes mem' (addr + 16) 128 = bytes mem (item + 16) 128 := by
    refine List.map_congr_left fun i hi => ?_
    rw [Nat.add_assoc, Nat.add_assoc]
    exact h (16 + i) (by have := List.mem_range.mp hi; omega)
  rw [partition_at, partition_at, hfirst, hsecond, hentry]

/-- An entry that is not too long stays in its item. -/
theorem changesOnly_put_entry_item {size : Nat} (hsize : size ≤ sizeof_GPTPartitionEntry) :
    ChangesOnly (Set.Ico item (item + 360)) mem (put_entry mem item entry size) := by
  have hsub : ∀ k n, k + n ≤ 360 →
      Set.Ico (item + k) (item + k + n) ⊆ Set.Ico item (item + 360) :=
    fun k n h => Set.Ico_subset_Ico (by omega) (by omega)
  have hentry : size ≤ 344 := hsize
  unfold put_entry
  exact (((ChangesOnly.memcpy mem (item + 16) _ size).mono (hsub 16 size (by omega))).trans
    (.overwrite _ (hsub 0 8 (by omega)))).trans (.overwrite _ (hsub 8 8 (by omega)))

theorem changesOnly_put_entry
    (happart : ∀ i < 128, entry + i ∉ Set.Ico (item + 16) (item + 16 + 128)) :
    ChangesOnly (Set.Ico item (item + 144)) mem (put_entry mem item entry 128) := by
  have hsub : ∀ k n, k + n ≤ 144 →
      Set.Ico (item + k) (item + k + n) ⊆ Set.Ico item (item + 144) :=
    fun k n h => Set.Ico_subset_Ico (by omega) (by omega)
  unfold put_entry
  rw [memcpy_eq happart]
  exact ((ChangesOnly.overwrite _ (hsub 16 128 (by omega))).trans
    (.overwrite _ (hsub 0 8 (by omega)))).trans (.overwrite _ (hsub 8 8 (by omega)))

/-- **The item is the entry**, with the offset and the size that the entry says. -/
theorem partition_at_put_entry
    (happart : ∀ i < 128, entry + i ∉ Set.Ico (item + 16) (item + 16 + 128)) :
    partition_at (put_entry mem item entry 128) item = partition_of mem entry := by
  let mem₁ := overwrite mem (item + 16) 128 (fun i => mem (entry + i))
  let mem₂ := store64 mem₁ item (FirstLBA mem₁ (item + 16) * SectorSize).toNat
  have hput : put_entry mem item entry 128 = store64 mem₂ (item + 8)
      ((LastLBA mem₂ (item + 16) - FirstLBA mem₂ (item + 16) + 1) * SectorSize).toNat := by
    unfold put_entry
    rw [memcpy_eq happart]
  have hcopied : ∀ i < 128, mem₁ (item + 16 + i) = mem (entry + i) := by
    intro i hi
    show overwrite mem (item + 16) 128 _ (item + 16 + i) = _
    rw [overwrite_of_mem ⟨by omega, by omega⟩, Nat.add_sub_cancel_left]
  -- the two words do not touch the entry
  have hkept : ∀ m w k i, k + 8 ≤ 16 →
      store64 m (item + k) w (item + 16 + i) = m (item + 16 + i) := by
    intro m w k i hk
    exact overwrite_of_notMem fun hmem => by
      have hmem : _ ∧ item + 16 + i < item + k + 8 := hmem
      omega
  have hcopied₂ : ∀ i < 128, mem₂ (item + 16 + i) = mem (entry + i) :=
    fun i hi => (hkept mem₁ _ 0 i (by omega)).trans (hcopied i hi)
  have hpartition := partition_of_congr hcopied₂
  have hpartition₁ := partition_of_congr hcopied
  obtain ⟨hstart₁, -, -⟩ := Partition.mk.inj hpartition₁
  obtain ⟨-, hsize₂, -⟩ := Partition.mk.inj hpartition
  have hfirst : load64 (put_entry mem item entry 128) item =
      (FirstLBA mem entry * 512).toNat := by
    have hframe : ChangesOnly (Set.Ico (item + 8) (item + 8 + 8)) mem₂
        (put_entry mem item entry 128) := hput ▸ .overwrite _ subset_rfl
    rw [hframe.load64_outside (.inr (by omega)), load64_store64 _ _ (UInt64.toNat_lt _)]
    exact congrArg UInt64.toNat hstart₁
  have hsecond : load64 (put_entry mem item entry 128) (item + 8) =
      ((LastLBA mem entry - FirstLBA mem entry + 1) * 512).toNat := by
    rw [hput, load64_store64 _ _ (UInt64.toNat_lt _)]
    exact congrArg UInt64.toNat hsize₂
  have hentry : bytes (put_entry mem item entry 128) (item + 16) 128 = bytes mem entry 128 := by
    refine List.map_congr_left fun i hi => ?_
    rw [hput, hkept _ _ 8 i (by omega)]
    exact hcopied₂ i (List.mem_range.mp hi)
  rw [partition_at, hfirst, hsecond, hentry, UInt64.ofNat_toNat, UInt64.ofNat_toNat]
  rfl

end entries

/-! ## The vector between two calls -/

/-- The two buffers are apart from each other, from the start of memory and from all leaves that can
    come, and leaves are in the identity map. -/
structure Layout (P : Platform) (kept : List Live) (header_buf partition_entry_buf : Nat) :
    Prop where
  leaves : P.region.phy_start.toNat + 2 ^ (P.region.root_log2size + 1) ≤
    IDENTITY_MAP_PHY_END + 65536
  /-- A read without a block of its own goes to the start of memory. -/
  above : 1024 ≤ header_buf ∧ 1024 ≤ partition_entry_buf
  header : Disjoint (Set.Ico header_buf (header_buf + 512)) (fresh_area P.region.toRegion kept)
  entry : Disjoint (Set.Ico partition_entry_buf (partition_entry_buf + 512))
    (fresh_area P.region.toRegion kept)
  buffers : Disjoint (Set.Ico header_buf (header_buf + 512))
    (Set.Ico partition_entry_buf (partition_entry_buf + 512))

/-- The vector has a leaf, or has not allocated anything. -/
structure Owned (P : Platform) (kept : List Live) (s : BuddyState) (v : PartitionVector) : Prop
    extends KeepsLive P kept s v where
  bound : v.size ≤ v.capacity
  block : v.block = none ∧ v.capacity = 0 ∨
    ∃ l, v.block = some l ∧ l.log2size = Log2MinSize ∧ 0 < v.capacity

/-- The bytes that are live for the vector. -/
def PartitionVector.owned_bytes (v : PartitionVector) : Nat := if v.capacity = 0 then 0 else 65536

section owned

variable {P : Platform} {kept : List Live} {header_buf partition_entry_buf : Nat}
  {s : BuddyState} {v : PartitionVector} {st : GptState} {l : Live}

theorem Layout.mapped (h : Layout P kept header_buf partition_entry_buf)
    (hs : Reachable (buddy_system P.region.allocator) s) (hl : l ∈ s.live)
    (hlog2size : l.log2size = Log2MinSize) : l.Mapped P := by
  have hsub := bytes_subset_leaf_area P.region.high hs hl hlog2size
  rw [bytes_leaf hlog2size, leaf_area, Set.Ico_subset_Ico_iff (by omega)] at hsub
  have hleaves := h.leaves
  exact ⟨(addr_bounds hs hl).2.1, by omega⟩

/-- A leaf that is live now and was not kept is apart from the buffers. -/
theorem KeepsLive.subset_fresh_area (h : KeepsLive P kept s v) (hl : l ∈ s.live)
    (hlog2size : l.log2size = Log2MinSize) (hnot : l ∉ kept) :
    l.bytes P.region.allocator ⊆ fresh_area P.region.toRegion kept :=
  bytes_subset_fresh_area P.region.high h.reachable h.live hl hlog2size hnot

theorem Owned.empty (hs : Reachable (buddy_system P.region.allocator) s) :
    Owned P s.live s ⟨none, 0, 0⟩ :=
  ⟨⟨hs, fun _ hl => hl, nofun⟩, le_rfl, .inl ⟨rfl, rfl⟩⟩

theorem Owned.mapped (h : Owned P kept s v) (hlayout : Layout P kept header_buf partition_entry_buf)
    (hblock : v.block = some l) : l.Mapped P := by
  obtain ⟨hnone, _⟩ | ⟨l', hblock', hlog2size, _⟩ := h.block
  · cases hnone.symm.trans hblock
  · obtain rfl : l' = l := Option.some.inj (hblock'.symm.trans hblock)
    exact hlayout.mapped h.reachable (h.owned l' hblock').1 hlog2size

theorem deallocate_of_live (hs : Reachable (buddy_system P.region.allocator) s)
    (hblock : v.block = some l) (hpos : 0 < v.capacity) (hl : l ∈ s.live) :
    ∃ s', deallocate P s v = .ok s' ∧ Reachable (buddy_system P.region.allocator) s' ∧
      s'.live = s.live.erase l := by
  obtain ⟨s', hexec, hs', hlive⟩ := kfree_live hs hl
  refine ⟨s', ?_, hs', hlive⟩
  rw [deallocate, if_neg hpos.ne', hblock]
  show or_stuck (exec P.region.allocator s (.free_pages (l.addr P.region.allocator))) = _
  rw [hexec]
  rfl

/-- What one read does. The vector and its items are as before. Without a block the bytes in the
    buffer are not those of the disk. -/
structure ReadTo (P : Platform) (kept : List Live) (disk : Nat → UInt8) (st : GptState)
    (buf start size : Nat) (st' : GptState) : Prop where
  ret : st'.ret = st.ret
  owned : Owned P kept st'.buddy st'.ret
  used : used_bytes st'.buddy = min (2 ^ P.region.root_log2size) (used_bytes st.buddy + 65536)
  output : used_bytes st.buddy < 2 ^ P.region.root_log2size →
    ∀ i < size, st'.mem (buf + i) = disk (disk_address start + i)
  frame : ChangesOnly (fresh_area P.region.toRegion kept ∪ Set.Iio 1024 ∪ Set.Ico buf (buf + size))
    st.mem st'.mem
  partitions : partitions P st' = partitions P st

/-- The buffer of the entries is apart from what a read writes for itself. -/
theorem Layout.entry_notMem {j : Nat} {S : Set Nat}
    (h : Layout P kept header_buf partition_entry_buf) (hj : j < 512)
    (hS : partition_entry_buf + j ∉ S) :
    partition_entry_buf + j ∉ fresh_area P.region.toRegion kept ∪ Set.Iio 1024 ∪ S := by
  have habove := h.above.2
  rintro ((hmem | hmem) | hmem)
  · exact Set.disjoint_left.mp h.entry ⟨by omega, by omega⟩ hmem
  · have hmem : _ < 1024 := hmem
    omega
  · exact hS hmem

/-- The blocks that a read can get: a leaf that is not kept, or none. -/
theorem Owned.read_block {size : Nat} {buf' : Option Live} {s' : BuddyState}
    (hlayout : Layout P kept header_buf partition_entry_buf) (h : Owned P kept s v)
    (hsize : size ≤ 512) (hbuf : try_kmalloc P.region.allocator s size = some (buf', s')) :
    buf' = none ∧ used_bytes s = 2 ^ P.region.root_log2size ∨
    ∃ l, buf' = some l ∧ NewLeaf P.region.toRegion s l s' ∧ l.Mapped P ∧
      l.bytes P.region.allocator ⊆ fresh_area P.region.toRegion kept := by
  cases buf' with
  | none => exact .inl ⟨rfl, (used_of_kmalloc h.reachable (by omega) hbuf).2 rfl⟩
  | some l =>
    have hnew := newLeaf_of_kmalloc h.reachable (by omega) hbuf
    refine .inr ⟨l, rfl, hnew, hlayout.mapped hnew.reachable hnew.mem hnew.log2size, ?_⟩
    exact bytes_subset_fresh_area P.region.high hnew.reachable
      (fun l' hl' => hnew.live ▸ List.mem_cons_of_mem l (h.live l' hl')) hnew.mem hnew.log2size
      (fun hmem => hnew.fresh (h.live l hmem))

theorem Owned.read_high {size : Nat} {buf' : Option Live} {s' : BuddyState}
    (hlayout : Layout P kept header_buf partition_entry_buf) (h : Owned P kept s v)
    (hsize : size ≤ 512) (hbuf : try_kmalloc P.region.allocator s size = some (buf', s')) :
    (buf_phy P.region.allocator buf').toNat + 1024 ≤ IDENTITY_MAP_PHY_END := by
  rcases h.read_block hlayout hsize hbuf with ⟨rfl, _⟩ | ⟨l, rfl, _, hl, _⟩
  · show 0 + 1024 ≤ IDENTITY_MAP_PHY_END
    decide
  · have hend := hl.high
    show (l.addr P.region.allocator).toNat + 1024 ≤ _
    omega

/-- The items of the vector are apart from the buffers, from a new leaf and from the start of
    memory. -/
theorem Owned.item_notMem {k j buf size : Nat} {S : Set Nat}
    (hlayout : Layout P kept header_buf partition_entry_buf) (h : Owned P kept s v)
    (hitems : v.size ≤ 182) (hk : k < v.size) (hj : j < 360)
    (hbuffer : Disjoint (Set.Ico buf (buf + size)) (fresh_area P.region.toRegion kept))
    (hS : ∀ l, v.block = some l → l.log2size = Log2MinSize → l ∈ s.live →
      Disjoint S (l.bytes P.region.allocator)) :
    v.item P k + j ∉ S ∪ Set.Iio 1024 ∪ Set.Ico buf (buf + size) := by
  obtain ⟨_, hzero⟩ | ⟨l, hblock, hlog2size, _⟩ := h.block
  · have hbound := h.bound
    omega
  · obtain ⟨hlive, hnot⟩ := h.owned l hblock
    have hl := hlayout.mapped h.reachable hlive hlog2size
    have hlow := hl.low
    have hstart : IDENTITY_MAP_PHY_START = 2 ^ 26 := rfl
    have hitem : v.item P k + j ∈ l.bytes P.region.allocator := by
      rw [PartitionVector.item_eq hblock hl, bytes_leaf hlog2size]
      exact ⟨by omega, by omega⟩
    rintro ((hmem | hmem) | hmem)
    · exact Set.disjoint_left.mp (hS l hblock hlog2size hlive) hmem hitem
    · rw [PartitionVector.item_eq hblock hl] at hmem
      have hmem : _ < 1024 := hmem
      omega
    · exact Set.disjoint_left.mp hbuffer hmem
        (h.toKeepsLive.subset_fresh_area hlive hlog2size hnot hitem)

/-- **A read that succeeds**, with a block of its own or without one. -/
theorem Owned.read {port : HBA_PORT} {disk : Nat → UInt8} {buf : Nat} {start size : UInt64}
    {st' : GptState} (hlayout : Layout P kept header_buf partition_entry_buf)
    (hbuffer : Disjoint (Set.Ico buf (buf + 512)) (fresh_area P.region.toRegion kept))
    (h : Owned P kept st.buddy st.ret) (hitems : st.ret.size ≤ 182) (hsize : size.toNat ≤ 512)
    (hread : read_to_buffer P port disk st buf start size = .ok (.ErrSuccess, st')) :
    ReadTo P kept disk st buf start.toNat size.toNat st' := by
  obtain ⟨hRead, hret⟩ := read_to_buffer_cases hread
  obtain ⟨buf', _, _, _, _, hbuf, _⟩ := Read_cases hRead
  have hkeeps : KeepsLive P kept st'.buddy st.ret := h.toKeepsLive.Read hRead
  have howned : Owned P kept st'.buddy st'.ret := hret ▸ ⟨hkeeps, h.bound, h.block⟩
  have hused := (used_of_kmalloc h.reachable (by omega) hbuf).1
  have hrange : Disjoint (Set.Ico buf (buf + size.toNat)) (fresh_area P.region.toRegion kept) :=
    hbuffer.mono_left (Set.Ico_subset_Ico_right (by omega))
  have hhigh := h.read_high hlayout hsize hbuf
  have hframe := changesOnly_short_Read hRead hsize hbuf hhigh
  -- the items are apart from what was written, in the block of the read or at the start of memory
  have hitems_kept : ∀ S, Set.Ico (buf_phy P.region.allocator buf').toNat
        ((buf_phy P.region.allocator buf').toNat + 1024) ⊆ S ∪ Set.Iio 1024 →
      (∀ l, st.ret.block = some l → l.log2size = Log2MinSize → l ∈ st.buddy.live →
        Disjoint S (l.bytes P.region.allocator)) →
      partitions P st' = partitions P st := by
    intro S hS hapart
    rw [partitions, partitions, hret]
    refine List.map_congr_left fun k hk => partition_at_congr fun j hj =>
      hframe.mono (Set.union_subset_union_left _ hS) _ ?_
    exact h.item_notMem hlayout hitems (List.mem_range.mp hk) hj hrange hapart
  rcases h.read_block hlayout hsize hbuf with ⟨rfl, hfull⟩ | ⟨l, rfl, hnew, hl, hfresh⟩
  · have hlow : Set.Ico (buf_phy P.region.allocator none).toNat
        ((buf_phy P.region.allocator none).toNat + 1024) ⊆ Set.Iio 1024 := Set.Ico_subset_Iio_self
    refine ⟨hret, howned, hused, fun hless => absurd hfull (Nat.ne_of_lt hless), ?_, ?_⟩
    · exact hframe.mono (Set.union_subset_union_left _ (hlow.trans Set.subset_union_right))
    · exact hitems_kept ∅ (hlow.trans Set.subset_union_right) fun _ _ _ _ => Set.empty_disjoint _
  · have hbytes : Set.Ico (buf_phy P.region.allocator (some l)).toNat
        ((buf_phy P.region.allocator (some l)).toNat + 1024) ⊆ l.bytes P.region.allocator := by
      rw [bytes_leaf hnew.log2size]
      exact Set.Ico_subset_Ico_right (Nat.add_le_add_left (by decide) _)
    refine ⟨hret, howned, hused, fun _ => ?_, ?_, ?_⟩
    · exact output_of_short_Read hRead hsize hbuf hl.low hhigh
        (hrange.mono_right (hbytes.trans hfresh))
    · exact hframe.mono (Set.union_subset_union_left _
        ((hbytes.trans hfresh).trans Set.subset_union_left))
    · exact hitems_kept _ (hbytes.trans Set.subset_union_left) fun l₀ _ hlog2size hlive =>
        hnew.disjoint hlive hlog2size

/-- A read of a ready port succeeds, whatever the allocator has. -/
theorem Owned.read_returns {port : HBA_PORT} {buf : Nat} {start size : UInt64}
    (disk : Nat → UInt8) (mem : Bytes) (hlayout : Layout P kept header_buf partition_entry_buf)
    (h : Owned P kept s v) (hport : port.Ready) (hsize : size.toNat ≤ 512) :
    ∃ st', read_to_buffer P port disk ⟨s, mem, v⟩ buf start size = .ok (.ErrSuccess, st') := by
  obtain ⟨buf', s', hbuf⟩ := try_kmalloc_returns h.reachable size.toNat
  have hhigh := h.read_high hlayout hsize hbuf
  have hfew : sectors start.toNat size.toNat ≤ 2 := by
    unfold sectors
    omega
  exact ⟨⟨s', _, v⟩, read_to_buffer_of_Read (Read_eq hport (by omega) hbuf (by omega)) hsize⟩

/-- What one `emplace_back` does to the allocator and the vector. -/
structure Grown (P : Platform) (s : BuddyState) (v : PartitionVector) (l : Live) (s' : BuddyState)
    (v' : PartitionVector) : Prop where
  reachable : Reachable (buddy_system P.region.allocator) s'
  live : l ∈ s'.live
  block : v'.block = some l
  log2size : l.log2size = Log2MinSize
  size : v'.size = v.size + 1
  bound : v'.size ≤ v'.capacity
  capacity : v'.capacity = if v.size < v.capacity then v.capacity else v.size + max v.size 1
  used : used_bytes s' = if v.size < v.capacity then used_bytes s
    else used_bytes s + 65536 - v.owned_bytes
  /-- The block stays the same, or it is apart from the old one. -/
  apart : v.size < v.capacity ∧ v.block = some l ∨ ¬ v.size < v.capacity ∧
    ∀ l₀, v.block = some l₀ → Disjoint (l₀.bytes P.region.allocator) (l.bytes P.region.allocator)

theorem Owned.grow (h : Owned P kept s v)
    (hroom : ¬ v.size < v.capacity → used_bytes s < 2 ^ P.region.root_log2size)
    (hsize : v.size < 182) :
    ∃ l s' v', v.grow P s = some (s', v') ∧ Grown P s v l s' v' := by
  by_cases hspace : v.size < v.capacity
  · obtain ⟨_, hzero⟩ | ⟨l, hblock, hlog2size, hpos⟩ := h.block
    · omega
    · exact ⟨l, s, { v with size := v.size + 1 }, if_pos hspace, h.reachable,
        (h.owned l hblock).1, hblock, hlog2size, rfl, hspace, (if_pos hspace).symm,
        (if_pos hspace).symm, .inl ⟨hspace, hblock⟩⟩
  · have hcapacity : v.size + max v.size 1 ≤ 65536 := by omega
    obtain ⟨l, s₁, hbuf⟩ := kmalloc_smallest h.reachable (hroom hspace) hcapacity
    have hnew := newLeaf_of_kmalloc h.reachable hcapacity hbuf
    have hmore : v.size + 1 ≤ v.size + max v.size 1 := by omega
    have hgrow : ∀ s₂, deallocate P s₁ v = .ok s₂ →
        v.grow P s = some (s₂, ⟨some l, v.size + max v.size 1, v.size + 1⟩) := by
      intro s₂ hfree
      rw [PartitionVector.grow, if_neg hspace, hbuf]
      show (deallocate P s₁ v).toOption.bind _ = _
      rw [hfree]
      rfl
    obtain ⟨hnone, hzero⟩ | ⟨l₀, hblock, hlog2size, hpos⟩ := h.block
    · -- the first block
      refine ⟨l, s₁, _, hgrow s₁ (if_pos hzero), hnew.reachable, hnew.mem, rfl, hnew.log2size, rfl,
        hmore, (if_neg hspace).symm, ?_, .inr ⟨hspace, fun l₀ hl₀ => ?_⟩⟩
      · rw [if_neg hspace, PartitionVector.owned_bytes, if_pos hzero, hnew.used, Nat.sub_zero]
      · rw [hnone] at hl₀
        cases hl₀
    · -- a larger one, and the old one is released
      have hold := (h.owned l₀ hblock).1
      have hold₁ : l₀ ∈ s₁.live := hnew.live ▸ List.mem_cons_of_mem l hold
      obtain ⟨s₂, hfree, hs₂, hlive₂⟩ := deallocate_of_live hnew.reachable hblock hpos hold₁
      have hne : l ≠ l₀ := fun e => hnew.fresh (e ▸ hold)
      refine ⟨l, s₂, _, hgrow s₂ hfree, hs₂, ?_, rfl, hnew.log2size, rfl, hmore,
        (if_neg hspace).symm, ?_, .inr ⟨hspace, fun l' hl' => ?_⟩⟩
      · rw [hlive₂]
        exact (List.mem_erase_of_ne hne).mpr hnew.mem
      · rw [if_neg hspace, PartitionVector.owned_bytes, if_neg hpos.ne', ← hnew.used,
          ← used_bytes_erase hold₁ hlog2size hlive₂, Nat.add_sub_cancel]
      · obtain rfl : l₀ = l' := Option.some.inj (hblock.symm.trans hl')
        exact (hnew.disjoint hold hlog2size).symm

/-- What one `emplace_back` does, with memory. -/
structure Emplaced (P : Platform) (kept : List Live) (st : GptState) (l : Live) (item : Nat)
    (st' : GptState) : Prop where
  owned : Owned P kept st'.buddy st'.ret
  block : st'.ret.block = some l
  log2size : l.log2size = Log2MinSize
  mapped : l.Mapped P
  size : st'.ret.size = st.ret.size + 1
  capacity : st'.ret.capacity = if st.ret.size < st.ret.capacity then st.ret.capacity
    else st.ret.size + max st.ret.size 1
  used : used_bytes st'.buddy = if st.ret.size < st.ret.capacity then used_bytes st.buddy
    else used_bytes st.buddy + 65536 - st.ret.owned_bytes
  item : item = (l.addr P.region.allocator).toNat + 360 * st.ret.size
  frame : ChangesOnly (l.bytes P.region.allocator) st.mem st'.mem
  items : ∀ k < st.ret.size, ∀ j < 360,
    st'.mem (st'.ret.item P k + j) = st.mem (st.ret.item P k + j)

/-- The block is apart from the buffers. -/
theorem Emplaced.subset_fresh_area {item : Nat} {st' : GptState}
    (h : Emplaced P kept st l item st') :
    l.bytes P.region.allocator ⊆ fresh_area P.region.toRegion kept := by
  obtain ⟨hlive, hnot⟩ := h.owned.owned l h.block
  exact h.owned.toKeepsLive.subset_fresh_area hlive h.log2size hnot

/-- The items are the same after they were moved, or left where they are. -/
theorem Grown.items {s' : BuddyState} {v' : PartitionVector} {mem : Bytes} {k j : Nat}
    (h : Owned P kept s v) (hgrown : Grown P s v l s' v')
    (hmapped : ∀ l₀, v.block = some l₀ → l₀.Mapped P) (hl : l.Mapped P) (hsize : v.size < 182)
    (hk : k < v.size) (hj : j < 360) :
    v.emplaced P mem v' (v'.item P k + j) = mem (v.item P k + j) := by
  have hitem := PartitionVector.item_eq hgrown.block hl
  have hbytes := bytes_leaf (A := P.region.allocator) hgrown.log2size
  unfold PartitionVector.emplaced
  rw [hitem, hitem, sizeof_GPTPrimaryPartition]
  obtain ⟨hspace, hblock⟩ | ⟨hfull, happart⟩ := hgrown.apart
  · rw [if_pos hspace, PartitionVector.item_eq hblock hl, clear, overwrite_of_notMem]
    intro hmem
    have hmem : _ ≤ _ ∧ _ := hmem
    omega
  · obtain ⟨_, hzero⟩ | ⟨l₀, hblock, hlog2size, _⟩ := h.block
    · have hbound := h.bound
      omega
    · have hl₀ := hmapped l₀ hblock
      have happart := happart l₀ hblock
      rw [hbytes, bytes_leaf hlog2size] at happart
      have hless : ∀ a, Set.Ico a (a + 360 * v.size) ⊆ Set.Ico a (a + 65536) :=
        fun a => Set.Ico_subset_Ico_right (by omega)
      rw [if_neg hfull, PartitionVector.item_eq hblock hl₀,
        PartitionVector.relocate_eq hblock hl₀ hgrown.block hl (happart.mono (hless _) (hless _)),
        overwrite_of_mem ⟨by omega, by omega⟩, Nat.add_assoc, Nat.add_sub_cancel_left,
        ← Nat.add_assoc, clear, overwrite_of_notMem]
      -- the new item is in the new block, and the old ones are in the old block
      intro hmem
      have hmem : _ ≤ _ ∧ _ := hmem
      have hold : (l₀.addr P.region.allocator).toNat + 360 * k + j ∈
          Set.Ico (l₀.addr P.region.allocator).toNat
            ((l₀.addr P.region.allocator).toNat + 65536) := ⟨by omega, by omega⟩
      exact Set.disjoint_left.mp happart hold ⟨by omega, by omega⟩

/-- **An `emplace_back` adds an item** and keeps the others, while the items fit in a block and
    there is a free one when another is needed. -/
theorem emplace_back_spec (hlayout : Layout P kept header_buf partition_entry_buf)
    (h : Owned P kept st.buddy st.ret)
    (hroom : ¬ st.ret.size < st.ret.capacity → used_bytes st.buddy < 2 ^ P.region.root_log2size)
    (hsize : st.ret.size < 182) :
    ∃ l item st', emplace_back P st = .ok (item, st') ∧ Emplaced P kept st l item st' := by
  obtain ⟨l, s', v', hgrow, hgrown⟩ := h.grow hroom hsize
  have hl := hlayout.mapped hgrown.reachable hgrown.live hgrown.log2size
  have hhigh := hl.high
  have hmapped : v'.offset P v'.size ≤ IDENTITY_MAP_PHY_END := by
    have hitems : 360 * (st.ret.size + 1) ≤ 65536 := by omega
    rw [PartitionVector.offset_eq hgrown.block, hgrown.size]
    exact (Nat.add_le_add_left hitems _).trans hhigh
  have hitem := PartitionVector.item_eq hgrown.block hl
  have hback := emplace_back_eq hgrow hmapped
  refine ⟨l, _, _, hback, ⟨h.toKeepsLive.emplace_back hback, hgrown.bound, .inr ⟨l, hgrown.block,
    hgrown.log2size, ?_⟩⟩, hgrown.block, hgrown.log2size, hl, hgrown.size, hgrown.capacity,
    hgrown.used, hitem _, ?_, ?_⟩
  · have hbound := hgrown.bound
    have hnext := hgrown.size
    show 0 < v'.capacity
    omega
  · apply PartitionVector.changesOnly_emplaced
    intro k hk
    rw [hitem, bytes_leaf hgrown.log2size]
    exact Set.Ico_subset_Ico (by omega) (by omega)
  · intro k hk j hj
    exact hgrown.items h (fun _ hblock => h.mapped hlayout hblock) hl hsize hk hj

/-- What a round does with an entry that has a type. -/
structure Added (P : Platform) (kept : List Live) (header_buf partition_entry_buf : Nat)
    (st st' : GptState) : Prop where
  owned : Owned P kept st'.buddy st'.ret
  size : st'.ret.size = st.ret.size + 1
  capacity : st'.ret.capacity = if st.ret.size < st.ret.capacity then st.ret.capacity
    else st.ret.size + max st.ret.size 1
  used : used_bytes st'.buddy = if st.ret.size < st.ret.capacity then used_bytes st.buddy
    else used_bytes st.buddy + 65536 - st.ret.owned_bytes
  frame : ChangesOnly (fresh_area P.region.toRegion kept) st.mem st'.mem
  /-- The new item is the entry in the buffer, the others are as before. -/
  partitions : PartitionEntrySize st.mem header_buf = 128 →
    partitions P st' = partitions P st ++ [partition_of st.mem partition_entry_buf]

/-- The header is as it was. -/
theorem Emplaced.entry_size {item : Nat} {st₁ : GptState}
    (hlayout : Layout P kept header_buf partition_entry_buf)
    (h : Emplaced P kept st l item st₁) :
    PartitionEntrySize st₁.mem header_buf = PartitionEntrySize st.mem header_buf := by
  refine congrArg UInt32.ofNat (load_le_congr fun i hi => ?_)
  refine h.frame.mono h.subset_fresh_area _ fun hmem => ?_
  exact Set.disjoint_left.mp hlayout.header ⟨by omega, by omega⟩ hmem

/-- **One more partition**, while the items fit in a block and there is a free one when another is
    needed. -/
theorem add_partition_spec (hlayout : Layout P kept header_buf partition_entry_buf)
    (h : Owned P kept st.buddy st.ret)
    (hroom : ¬ st.ret.size < st.ret.capacity → used_bytes st.buddy < 2 ^ P.region.root_log2size)
    (hsize : st.ret.size < 182)
    (hentry_size : (PartitionEntrySize st.mem header_buf).toNat ≤ sizeof_GPTPartitionEntry) :
    ∃ st', add_partition P st header_buf partition_entry_buf = .ok st' ∧
      Added P kept header_buf partition_entry_buf st st' := by
  obtain ⟨l, item, st₁, hback, hemplaced⟩ := emplace_back_spec hlayout h hroom hsize
  have hsize₁ := hemplaced.entry_size hlayout
  have hfresh := hemplaced.subset_fresh_area
  obtain ⟨howned, hblock, hlog2size, hl, hnext, hcapacity, hused₁, rfl, hframe, hitems⟩ := hemplaced
  have hbytes := bytes_leaf (A := P.region.allocator) hlog2size
  have hframe₁ := hframe.mono hfresh
  generalize ha : (l.addr P.region.allocator).toNat = a at *
  have hitem := PartitionVector.item_eq hblock hl
  rw [ha] at hitem
  have hin : Set.Ico (a + 360 * st.ret.size) (a + 360 * st.ret.size + 360) ⊆
      fresh_area P.region.toRegion kept := by
    refine subset_trans ?_ hfresh
    rw [hbytes]
    exact Set.Ico_subset_Ico (by omega) (by omega)
  refine ⟨_, add_partition_eq hback hsize₁ hentry_size, howned, hnext, hcapacity, hused₁,
    hframe₁.trans ((changesOnly_put_entry_item hentry_size).mono hin), ?_⟩
  intro h128
  rw [h128]
  have hentry : ∀ i < 128, st₁.mem (partition_entry_buf + i) = st.mem (partition_entry_buf + i) :=
    fun i hi => hframe₁ _ fun hmem =>
      Set.disjoint_left.mp hlayout.entry ⟨by omega, by omega⟩ hmem
  have hsource : ∀ i < 128, partition_entry_buf + i ∉
      Set.Ico (a + 360 * st.ret.size + 16) (a + 360 * st.ret.size + 16 + 128) := by
    intro i hi hmem
    have hmem : _ ≤ _ ∧ _ < _ := hmem
    have hbuffer : partition_entry_buf + i ∈
        Set.Ico partition_entry_buf (partition_entry_buf + 512) := ⟨by omega, by omega⟩
    exact Set.disjoint_left.mp hlayout.entry hbuffer (hin ⟨by omega, by omega⟩)
  have hput : ChangesOnly _ st₁.mem _ := changesOnly_put_entry hsource
  -- the first 144 bytes of the new item are behind the others
  have hothers : (List.range st.ret.size).map (fun k => partition_at
      (put_entry st₁.mem (a + 360 * st.ret.size) partition_entry_buf 128) (st₁.ret.item P k)) =
        partitions P st := by
    refine List.map_congr_left fun k hk => partition_at_congr fun j hj => ?_
    have hk := List.mem_range.mp hk
    have hnot : st₁.ret.item P k + j ∉
        Set.Ico (a + 360 * st.ret.size) (a + 360 * st.ret.size + 144) := by
      rw [hitem]
      intro hmem
      have hmem : _ ≤ _ ∧ _ := hmem
      omega
    rw [hput _ hnot, hitems k hk j hj]
  show partitions P ⟨st₁.buddy, put_entry st₁.mem _ _ 128, st₁.ret⟩ = _
  rw [partitions, hnext, List.range_succ, List.map_append, List.map_singleton, hitem,
    partition_at_put_entry hsource, partition_of_congr hentry]
  exact congrArg (· ++ _) hothers

end owned

end Modern05
