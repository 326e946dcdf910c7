import Modern05.Device.GptRounds

/-! # The copies of the listing

    A round of `gpt::ListPrimaryPartitions` copies twice with the size of an entry that the header
    says: `Read` copies from the disk to `partition_entry_buf`, which has 512 bytes, and from there
    the entry is copied to `entry_` of the new item, which has 344 bytes. The size is not checked,
    and the format allows all sizes of `128 * 2 ^ n` bytes. Nor is the result of `kmalloc` checked,
    for the sectors or for the items.

    * `CopiesInBounds`: a call writes to its buffers only.
    * `TableFits` is a condition on the disk and on what is there before the call. It speaks of the
      entries as the buffer has them after their reads (`seen_entry`): the bytes behind a short
      entry are those that were there before.
    * `copies_in_bounds_iff` says that `TableFits` is enough, and that nothing less is if the device
      answers every read.
-/

namespace Modern05

open BuddyAllocator LTS Memory

/-! ## What a call writes to -/

section call

variable (P : Platform) (ports : Nat → HBA_PORT) (disk : Nat → UInt8) (s : BuddyState) (mem : Bytes)
  (header_buf partition_entry_buf : Nat)

/-- The round comes to the copy to an item, after a read that fits in the buffer. -/
def Stores (start : UInt64) (i : Nat) (st : GptState) (item : Nat) (st₂ : GptState) : Prop :=
  ∃ s₁ mem₁, round_read P ports disk header_buf partition_entry_buf start i st =
      some (.ErrSuccess, s₁, mem₁) ∧
    (PartitionEntrySize st.mem header_buf).toNat ≤ 512 ∧
    PartitionTypeGUID mem₁ partition_entry_buf ≠ 0 ∧
    emplace_back P ⟨s₁, mem₁, st.ret⟩ = .ok (item, st₂)

/-- **The call writes to its buffers only.** Every read has a block for its sectors and copies at
    most 512 bytes to the buffer. Every item is in the block of the vector, and the copy to it has
    at most 344 bytes, no more than were read in the same round. -/
structure CopiesInBounds : Prop where
  header : ∃ l s', try_kmalloc P.region.allocator s 512 = some (some l, s')
  read : ∀ start i st, Round P ports disk s mem header_buf partition_entry_buf start i st →
    ∃ l s', try_kmalloc P.region.allocator st.buddy (PartitionEntrySize st.mem header_buf).toNat =
      some (some l, s')
  buffer : ∀ start i st, Round P ports disk s mem header_buf partition_entry_buf start i st →
    ∀ r, round_read P ports disk header_buf partition_entry_buf start i st = some r →
      (PartitionEntrySize st.mem header_buf).toNat ≤ 512
  item : ∀ start i st, Round P ports disk s mem header_buf partition_entry_buf start i st →
    ∀ item st₂, Stores P ports disk header_buf partition_entry_buf start i st item st₂ →
      ∃ l ∈ st₂.buddy.live, st₂.ret.block = some l ∧
        Set.Ico item (item + sizeof_GPTPrimaryPartition) ⊆ l.bytes P.region.allocator
  entry : ∀ start i st, Round P ports disk s mem header_buf partition_entry_buf start i st →
    ∀ item st₂, Stores P ports disk header_buf partition_entry_buf start i st item st₂ →
      (PartitionEntrySize st₂.mem header_buf).toNat ≤ sizeof_GPTPartitionEntry ∧
      (PartitionEntrySize st₂.mem header_buf).toNat ≤ (PartitionEntrySize st.mem header_buf).toNat

end call

/-! ## The condition -/

section condition

variable (P : Platform) (disk : Nat → UInt8) (s : BuddyState) (mem : Bytes)
  (partition_entry_buf : Nat)

/-- Where an entry starts, as the call computes it. The product is one of 32 bits. -/
def entry_start (i : Nat) : UInt64 :=
  PartitionEntryLBA disk 512 * SectorSize +
    (PartitionEntrySize disk 512 * UInt32.ofNat i).toUInt64

/-- What the buffer has after the read of an entry. -/
def seen_entry (i : Nat) : Nat → UInt8 := fun j =>
  if j < (PartitionEntrySize disk 512).toNat then disk (disk_address (entry_start disk i).toNat + j)
  else mem (partition_entry_buf + j)

/-- The entry is seen with a type. -/
def SeenTyped (i : Nat) : Prop :=
  PartitionTypeGUID (seen_entry disk mem partition_entry_buf i) 0 ≠ 0

instance (i : Nat) : Decidable (SeenTyped disk mem partition_entry_buf i) :=
  inferInstanceAs (Decidable (_ ≠ _))

/-- The entries before `i` that are seen with a type. -/
def seen_count (i : Nat) : Nat :=
  (List.range i).countP fun k => SeenTyped disk mem partition_entry_buf k

/-- A round writes to its buffers only, if the rounds before it did. The header and the entries
    before it have been read, each to a block of its own, and the vector has one if it has items. -/
structure RoundFits (i : Nat) : Prop where
  buffer : (PartitionEntrySize disk 512).toNat ≤ 512
  read : used_bytes s + (i + 1 + min (seen_count disk mem partition_entry_buf i) 1) * 65536 <
    2 ^ P.region.root_log2size
  entry : SeenTyped disk mem partition_entry_buf i →
    (PartitionEntrySize disk 512).toNat ≤ sizeof_GPTPartitionEntry ∧
    seen_count disk mem partition_entry_buf i < 182 ∧
    (Grows (seen_count disk mem partition_entry_buf i) →
      used_bytes s + (i + 2 + min (seen_count disk mem partition_entry_buf i) 1) * 65536 <
        2 ^ P.region.root_log2size)

/-- There is a block for the header, and every round of a table fits. -/
def TableFits : Prop :=
  used_bytes s < 2 ^ P.region.root_log2size ∧
    (bytes disk 512 8 = EFI_PART → ∀ i < entry_count disk, i < 2 ^ 31 →
      RoundFits P disk s mem partition_entry_buf i)

end condition

section rounds

variable {P : Platform} {ports : Nat → HBA_PORT} {disk : Nat → UInt8} {s : BuddyState} {mem : Bytes}
  {header_buf partition_entry_buf i : Nat} {st st' st₀ : GptState}

theorem seen_count_succ (disk : Nat → UInt8) (mem : Bytes) (partition_entry_buf i : Nat) :
    seen_count disk mem partition_entry_buf (i + 1) = seen_count disk mem partition_entry_buf i +
      if SeenTyped disk mem partition_entry_buf i then 1 else 0 := by
  rw [seen_count, List.range_succ, List.countP_append, List.countP_singleton]
  simp [seen_count]

theorem seen_count_le (disk : Nat → UInt8) (mem : Bytes) (partition_entry_buf i : Nat) :
    seen_count disk mem partition_entry_buf i ≤ i := by
  have hle := List.countP_le_length (p := fun k => SeenTyped disk mem partition_entry_buf k)
    (l := List.range i)
  rwa [List.length_range] at hle

/-- What a call keeps that has written to its buffers only. -/
structure Safe (P : Platform) (disk : Nat → UInt8) (s : BuddyState) (mem : Bytes)
    (header_buf partition_entry_buf i : Nat) (st : GptState) : Prop extends
    ListState P disk s.live header_buf (used_bytes s) i (seen_count disk mem partition_entry_buf i)
      st where
  few : seen_count disk mem partition_entry_buf i ≤ 182
  /-- The buffer is as it was behind the entries. -/
  rest : ∀ j < 512, (PartitionEntrySize disk 512).toNat ≤ j →
    st.mem (partition_entry_buf + j) = mem (partition_entry_buf + j)

/-- The read of a round, with an entry that fits in the buffer and a block for its sectors. -/
theorem Safe.read {port : HBA_PORT} {st₁ : GptState}
    (hlayout : Layout P s.live header_buf partition_entry_buf)
    (h : Safe P disk s mem header_buf partition_entry_buf i st)
    (hsize : (PartitionEntrySize disk 512).toNat ≤ 512)
    (hroom : used_bytes s + (i + 1 + min (seen_count disk mem partition_entry_buf i) 1) * 65536 <
      2 ^ P.region.root_log2size)
    (hread : read_to_buffer P port disk st partition_entry_buf (entry_start disk i)
      (PartitionEntrySize disk 512).toUInt64 = .ok (.ErrSuccess, st₁)) :
    ListState P disk s.live header_buf (used_bytes s) (i + 1)
        (seen_count disk mem partition_entry_buf i) st₁ ∧
      (∀ j < 512, st₁.mem (partition_entry_buf + j) =
        seen_entry disk mem partition_entry_buf i j) ∧
      st₁.ret = st.ret := by
  have hused := h.used_eq
  have hnat : (PartitionEntrySize disk 512).toUInt64.toNat = (PartitionEntrySize disk 512).toNat :=
    UInt32.toNat_toUInt64 _
  obtain ⟨hst₁, hstate⟩ := h.toListState.read hlayout h.few (hnat ▸ hsize) hread
  refine ⟨hstate, ?_, hst₁.ret⟩
  intro j hj
  rw [hnat] at hst₁
  by_cases hin : j < (PartitionEntrySize disk 512).toNat
  · rw [seen_entry, if_pos hin]
    exact hst₁.output (by omega) j hin
  · -- the read changes its block and the entry, not the rest of the buffer
    rw [seen_entry, if_neg hin, ← h.rest j hj (Nat.le_of_not_lt hin)]
    refine hst₁.frame _ (hlayout.entry_notMem hj fun hmem => ?_)
    have hmem : _ ∧ _ < partition_entry_buf + _ := hmem
    omega

/-- A device that is ready answers the read. -/
theorem Safe.read_returns {port : HBA_PORT}
    (hlayout : Layout P s.live header_buf partition_entry_buf) (hport : port.Ready)
    (h : Safe P disk s mem header_buf partition_entry_buf i st)
    (hsize : (PartitionEntrySize disk 512).toNat ≤ 512) :
    ∃ st₁, read_to_buffer P port disk st partition_entry_buf (entry_start disk i)
      (PartitionEntrySize disk 512).toUInt64 = .ok (.ErrSuccess, st₁) :=
  h.owned.read_returns disk st.mem hlayout hport (UInt32.toNat_toUInt64 _ ▸ hsize)

/-- The type that the round sees. -/
theorem typed_of_seen {mem₁ : Bytes}
    (h : ∀ j < 512, mem₁ (partition_entry_buf + j) = seen_entry disk mem partition_entry_buf i j) :
    PartitionTypeGUID mem₁ partition_entry_buf ≠ 0 ↔ SeenTyped disk mem partition_entry_buf i := by
  have hsame : PartitionTypeGUID mem₁ partition_entry_buf =
      PartitionTypeGUID (seen_entry disk mem partition_entry_buf i) 0 := by
    refine load_le_congr fun j hj => ?_
    rw [Nat.zero_add]
    exact h j (by omega)
  rw [hsame]
  rfl

/-- The read and the entry of a round, in the words of the header on the disk. -/
theorem HasHeader.round_start (h : HasHeader disk st.mem header_buf) (i : Nat) :
    PartitionEntryLBA disk 512 * SectorSize +
        (PartitionEntrySize st.mem header_buf * UInt32.ofNat i).toUInt64 = entry_start disk i := by
  rw [h.entry_size]
  rfl

/-- **The step**: a round that fits keeps it. -/
theorem Safe.step {port : HBA_PORT} (hlayout : Layout P s.live header_buf partition_entry_buf)
    (hfits : RoundFits P disk s mem partition_entry_buf i)
    (h : Safe P disk s mem header_buf partition_entry_buf i st)
    (hentry : list_entry P port disk header_buf partition_entry_buf
      (PartitionEntryLBA disk 512 * SectorSize) i st = .ok st') :
    Safe P disk s mem header_buf partition_entry_buf (i + 1) st' := by
  obtain ⟨st₁, hread, hrest⟩ := list_entry_ok_iff.mp hentry
  rw [h.header.round_start, h.header.entry_size] at hread
  obtain ⟨hstate, hseen, _⟩ := h.read hlayout hfits.buffer hfits.read hread
  have hkept : ∀ j < 512, (PartitionEntrySize disk 512).toNat ≤ j →
      st₁.mem (partition_entry_buf + j) = mem (partition_entry_buf + j) := by
    intro j hj hle
    rw [hseen j hj, seen_entry, if_neg (Nat.not_lt.mpr hle)]
  have hcount := seen_count_succ disk mem partition_entry_buf i
  have hfew := h.few
  rcases hrest with ⟨htype, hadd⟩ | ⟨htype, rfl⟩
  · -- an item is added, in a block that is apart from the buffer
    have htyped := (typed_of_seen hseen).mp htype
    obtain ⟨hsize, hspace, hroom⟩ := hfits.entry htyped
    obtain ⟨st₂, hadd', hadded, hstate'⟩ := hstate.add hlayout hspace hroom hsize
    obtain rfl : st₂ = st' := Except.ok.inj (hadd'.symm.trans hadd)
    rw [if_pos htyped] at hcount
    refine ⟨hcount ▸ hstate', by omega, ?_⟩
    intro j hj hle
    rw [← hkept j hj hle]
    refine hadded.frame _ fun hmem => ?_
    exact Set.disjoint_left.mp hlayout.entry ⟨by omega, by omega⟩ hmem
  · have htyped : ¬ SeenTyped disk mem partition_entry_buf i := by
      rw [← typed_of_seen hseen]
      exact not_not_intro htype
    rw [if_neg htyped, Nat.add_zero] at hcount
    exact ⟨hcount ▸ hstate, by omega, hkept⟩

/-- The state after the header was read to a block of its own. -/
theorem Safe.start {port : HBA_PORT} (hs : Reachable (buddy_system P.region.allocator) s)
    (hlayout : Layout P s.live header_buf partition_entry_buf)
    (hroom : used_bytes s < 2 ^ P.region.root_log2size)
    (hread : read_to_buffer P port disk ⟨s, mem, ⟨none, 0, 0⟩⟩ header_buf 512 512 =
      .ok (.ErrSuccess, st₀)) :
    Safe P disk s mem header_buf partition_entry_buf 0 st₀ := by
  obtain ⟨hst₀, hstate⟩ := ListState.start hs hlayout hread
  have hheader : HasHeader disk st₀.mem header_buf := hst₀.output hroom
  refine ⟨hstate hheader, Nat.zero_le _, ?_⟩
  intro j hj _
  refine hst₀.frame _ (hlayout.entry_notMem hj fun hmem => ?_)
  exact Set.disjoint_left.mp hlayout.buffers hmem ⟨by omega, by omega⟩

/-- **The run**: a call that fits keeps it, whatever the device answers. -/
theorem safe_of_round {start : UInt64} (hs : Reachable (buddy_system P.region.allocator) s)
    (hlayout : Layout P s.live header_buf partition_entry_buf)
    (hfits : TableFits P disk s mem partition_entry_buf)
    (hround : Round P ports disk s mem header_buf partition_entry_buf start i st) :
    start = PartitionEntryLBA disk 512 * SectorSize ∧ i < entry_count disk ∧
      RoundFits P disk s mem partition_entry_buf i ∧
      Safe P disk s mem header_buf partition_entry_buf i st := by
  obtain ⟨st₀, ⟨hread, hmagic⟩, rfl, hreach, hmore, hi⟩ := hround
  have hstart := Safe.start hs hlayout hfits.1 hread
  have hrounds := hfits.2 (hstart.header.magic.symm.trans hmagic)
  rw [hstart.header.lba] at hreach ⊢
  have hinv : ∀ x, Reachable (listing P ports disk header_buf partition_entry_buf
      (PartitionEntryLBA disk 512 * SectorSize) st₀) x → x.1 ≤ 2 ^ 31 →
      Safe P disk s mem header_buf partition_entry_buf x.1 x.2 := by
    apply invariant_of_step
    · intro x hx _
      rw [show x = (0, st₀) from hx]
      exact hstart
    · intro x _ y _ ih hstep hy
      obtain ⟨hcount, hentry, hindex⟩ := hstep
      have hx := ih (by omega)
      rw [hx.header.count] at hcount
      rw [hindex]
      exact hx.step hlayout (hrounds x.1 hcount (by omega)) hentry
  have hsafe := hinv (i, st) hreach hi.le
  rw [hsafe.header.count] at hmore
  exact ⟨rfl, hmore, hrounds i hmore hi, hsafe⟩

end rounds

/-! ## Fitting is enough -/

section enough

variable {P : Platform} {ports : Nat → HBA_PORT} {disk : Nat → UInt8} {s : BuddyState} {mem : Bytes}
  {header_buf partition_entry_buf i : Nat} {st : GptState}

theorem round_read_eq (hheader : HasHeader disk st.mem header_buf) :
    round_read P ports disk header_buf partition_entry_buf
        (PartitionEntryLBA disk 512 * SectorSize) i st =
      Read P (ports (i + 1)) disk st.buddy st.mem partition_entry_buf (entry_start disk i)
        (PartitionEntrySize disk 512).toUInt64 := by
  rw [round_read, hheader.round_start, hheader.entry_size]

/-- An item of a round that fits is in the block of the vector, and the entry in the item. -/
theorem Safe.stores {item : Nat} {st₂ : GptState}
    (hlayout : Layout P s.live header_buf partition_entry_buf)
    (hfits : RoundFits P disk s mem partition_entry_buf i)
    (h : Safe P disk s mem header_buf partition_entry_buf i st)
    (hstores : Stores P ports disk header_buf partition_entry_buf
      (PartitionEntryLBA disk 512 * SectorSize) i st item st₂) :
    (∃ l ∈ st₂.buddy.live, st₂.ret.block = some l ∧
      Set.Ico item (item + 360) ⊆ l.bytes P.region.allocator) ∧
    PartitionEntrySize st₂.mem header_buf = PartitionEntrySize disk 512 ∧
    (PartitionEntrySize disk 512).toNat ≤ sizeof_GPTPartitionEntry := by
  obtain ⟨s₁, mem₁, hread, hfit, htype, hback⟩ := hstores
  rw [h.header.entry_size] at hfit
  rw [round_read_eq h.header] at hread
  have hread₁ := read_to_buffer_of_Read hread ((UInt32.toNat_toUInt64 _).symm ▸ hfit)
  obtain ⟨hstate, hseen, hret⟩ := h.read hlayout hfit hfits.read hread₁
  obtain ⟨hsize, hspace, hroom⟩ := hfits.entry ((typed_of_seen hseen).mp htype)
  obtain ⟨l, hemplaced⟩ := hstate.emplaced hlayout hspace hroom hback
  refine ⟨⟨l, (hemplaced.owned.owned l hemplaced.block).1, hemplaced.block, ?_⟩, ?_, hsize⟩
  · have hless : st.ret.size < 182 := by
      rw [h.size]
      exact hspace
    rw [bytes_leaf hemplaced.log2size, hemplaced.item]
    exact Set.Ico_subset_Ico (Nat.le_add_right _ _) (by show _ + 360 * st.ret.size + 360 ≤ _; omega)
  · rw [hemplaced.entry_size hlayout]
    exact hstate.header.entry_size

theorem copiesInBounds_of_fits (ports : Nat → HBA_PORT)
    (hs : Reachable (buddy_system P.region.allocator) s)
    (hlayout : Layout P s.live header_buf partition_entry_buf)
    (hfits : TableFits P disk s mem partition_entry_buf) :
    CopiesInBounds P ports disk s mem header_buf partition_entry_buf := by
  constructor
  · exact kmalloc_smallest hs hfits.1 (by decide)
  · intro start i st hround
    obtain ⟨_, _, hround, hsafe⟩ := safe_of_round hs hlayout hfits hround
    have hused := hsafe.used_eq
    have hread := hround.read
    have hsize := hround.buffer
    rw [hsafe.header.entry_size]
    exact kmalloc_smallest hsafe.owned.reachable (by omega) (by omega)
  · intro start i st hround _ _
    obtain ⟨_, _, hround, hsafe⟩ := safe_of_round hs hlayout hfits hround
    rw [hsafe.header.entry_size]
    exact hround.buffer
  · intro start i st hround item st₂ hstores
    obtain ⟨rfl, _, hround, hsafe⟩ := safe_of_round hs hlayout hfits hround
    exact (hsafe.stores hlayout hround hstores).1
  · intro start i st hround item st₂ hstores
    obtain ⟨rfl, _, hround, hsafe⟩ := safe_of_round hs hlayout hfits hround
    obtain ⟨_, hsize, hle⟩ := hsafe.stores hlayout hround hstores
    rw [hsize, hsafe.header.entry_size]
    exact ⟨hle, le_rfl⟩

end enough

/-! ## Nothing less is -/

/-- All blocks end in the identity map, with a block to spare. -/
def Platform.Windowed (P : Platform) : Prop :=
  P.region.phy_start.toNat + 3 * 2 ^ P.region.root_log2size + 65536 ≤ IDENTITY_MAP_PHY_END

section nothing_less

variable {P : Platform} {ports : Nat → HBA_PORT} {disk : Nat → UInt8} {s : BuddyState} {mem : Bytes}
  {header_buf partition_entry_buf i : Nat} {st : GptState} {l : Live}

theorem Platform.Windowed.live (h : P.Windowed)
    (hs : Reachable (buddy_system P.region.allocator) s) (hl : l ∈ s.live)
    (hmin : Log2MinSize ≤ l.log2size) :
    (l.addr P.region.allocator).toNat + 2 ^ l.log2size + 65536 ≤ IDENTITY_MAP_PHY_END := by
  have haddr := (addr_of_live P.region.high hs hl).1
  obtain ⟨hend, hpow⟩ := block_add_size_le P.region.fits (hasSize_of_live hs hl) hmin
  have hroot : 2 ^ P.region.root_log2size = 2 ^ P.region.allocator.height * 65536 :=
    P.region.fits.pow_root
  unfold Platform.Windowed at h
  omega

/-- An `emplace_back` returns, with a block for the items or without one. -/
theorem emplace_back_returns (hwindow : P.Windowed) {kept : List Live}
    (h : Owned P kept st.buddy st.ret) (hsize : st.ret.size ≤ 182) :
    ∃ item st₂, emplace_back P st = .ok (item, st₂) := by
  by_cases hspace : st.ret.size < st.ret.capacity
  · -- in place: the block of the vector is in the window with 64 KiB behind it
    obtain ⟨_, hzero⟩ | ⟨l, hblock, hlog2size, _⟩ := h.block
    · omega
    · have hhigh := hwindow.live h.reachable (h.owned l hblock).1 hlog2size.ge
      rw [hlog2size] at hhigh
      have hoffset := PartitionVector.offset_eq (P := P)
        (v := { st.ret with size := st.ret.size + 1 }) hblock (st.ret.size + 1)
      have hmapped : ¬ IDENTITY_MAP_PHY_END < PartitionVector.offset P
          { st.ret with size := st.ret.size + 1 } (st.ret.size + 1) := by
        have h64K : 2 ^ Log2MinSize = 65536 := rfl
        omega
      simp only [emplace_back, hspace, if_true, if_neg hmapped]
      exact ⟨_, _, rfl⟩
  · -- `kmalloc` answers, the old block can be released, and the new items are in the window
    obtain ⟨block, s₁, hbuf⟩ := try_kmalloc_returns h.reachable (st.ret.size + max st.ret.size 1)
    obtain ⟨hs₁, hcases⟩ := try_kmalloc_cases h.reachable hbuf
    have hlive : ∀ l ∈ st.buddy.live, l ∈ s₁.live := by
      intro l hl
      rcases hcases with ⟨_, l', _, _, _, hlive⟩ | ⟨_, _, rfl⟩
      · rw [hlive]
        exact List.mem_cons_of_mem _ hl
      · exact hl
    obtain ⟨s₂, hfree⟩ : ∃ s₂, deallocate P s₁ st.ret = .ok s₂ := by
      obtain ⟨_, hzero⟩ | ⟨l, hblock, _, hpos⟩ := h.block
      · exact ⟨s₁, if_pos hzero⟩
      · obtain ⟨s₂, hfree, _⟩ := deallocate_of_live hs₁ hblock hpos (hlive l (h.owned l hblock).1)
        exact ⟨s₂, hfree⟩
    have hmapped : ¬ IDENTITY_MAP_PHY_END < PartitionVector.offset P
        ⟨block, st.ret.size + max st.ret.size 1, st.ret.size + 1⟩ (st.ret.size + 1) := by
      rcases hcases with ⟨_, l, rfl, hlog2size, _, hlive⟩ | ⟨_, rfl, _⟩
      · have hhigh := hwindow.live hs₁ (hlive ▸ List.mem_cons_self)
          (hlog2size ▸ min_le_kmalloc_log2size _)
        have hpow := min_le_two_pow_kmalloc_log2size (st.ret.size + max st.ret.size 1)
        rw [hlog2size] at hhigh
        show ¬ _ < (l.addr P.region.allocator).toNat + 360 * (st.ret.size + 1)
        omega
      · have hend : IDENTITY_MAP_PHY_END = 2 ^ 32 := rfl
        show ¬ _ < 0 + 360 * (st.ret.size + 1)
        omega
    simp only [emplace_back, hspace, if_false, hbuf, or_stuck, hfree, if_neg hmapped, bind,
      Except.bind]
    exact ⟨_, _, rfl⟩

/-- The vector has no block behind its 182nd item. -/
theorem Safe.not_full {item : Nat} {st₁ st₂ : GptState} {n : Nat}
    (hlayout : Layout P s.live header_buf partition_entry_buf)
    (h : ListState P disk s.live header_buf (used_bytes s) i n st₁) (hn : n = 182)
    (hback : emplace_back P st₁ = .ok (item, st₂)) :
    ¬ ∃ l ∈ st₂.buddy.live, st₂.ret.block = some l ∧
      Set.Ico item (item + 360) ⊆ l.bytes P.region.allocator := by
  rintro ⟨l, hlive, hblock, hsub⟩
  have hspace : st₁.ret.size < st₁.ret.capacity := by
    by_contra hfull
    have hgrows := h.capacity.grows_iff.mp hfull
    rw [h.size, hn] at hgrows
    exact not_grows_182 hgrows
  rcases (emplace_back_cases hback).2 with ⟨_, hbuddy, hret⟩ | ⟨hfull, _⟩
  · obtain ⟨_, hzero⟩ | ⟨l₁, hblock₁, hlog2size, _⟩ := h.owned.block
    · omega
    · have hl₁ := hlayout.mapped h.owned.reachable (h.owned.owned l₁ hblock₁).1 hlog2size
      obtain rfl : l₁ = l := by
        rw [hret] at hblock
        exact Option.some.inj (hblock₁.symm.trans hblock)
      have hitem := (emplace_back_cases hback).1
      rw [PartitionVector.item_eq hblock hl₁, h.size, hn] at hitem
      rw [bytes_leaf hlog2size, hitem, Set.Ico_subset_Ico_iff (by omega)] at hsub
      omega
  · exact hfull hspace

/-- The read of a ready device has copied the entry to the buffer, which it fits in. -/
theorem Safe.buffer_of_bounds {s' : BuddyState} (hwindow : P.Windowed)
    (hport : (ports (i + 1)).Ready)
    (hbounds : CopiesInBounds P ports disk s mem header_buf partition_entry_buf)
    (hround : Round P ports disk s mem header_buf partition_entry_buf
      (PartitionEntryLBA disk 512 * SectorSize) i st)
    (h : Safe P disk s mem header_buf partition_entry_buf i st)
    (hbuf : try_kmalloc P.region.allocator st.buddy (PartitionEntrySize disk 512).toNat =
      some (some l, s')) :
    (PartitionEntrySize disk 512).toNat ≤ 512 := by
  have hnat : (PartitionEntrySize disk 512).toUInt64.toNat = (PartitionEntrySize disk 512).toNat :=
    UInt32.toNat_toUInt64 _
  obtain ⟨hs', ⟨_, l', hl', hlog2size, _, hlive⟩ | ⟨_, hnone, _⟩⟩ :=
    try_kmalloc_cases h.owned.reachable hbuf
  · cases hl'
    have hhigh := hwindow.live hs' (hlive ▸ List.mem_cons_self)
      (hlog2size ▸ min_le_kmalloc_log2size _)
    have hpow := le_two_pow_kmalloc_log2size (PartitionEntrySize disk 512).toNat
    rw [hlog2size] at hhigh
    obtain ⟨r, hr⟩ : ∃ r, Read P (ports (i + 1)) disk st.buddy st.mem partition_entry_buf
        (entry_start disk i) (PartitionEntrySize disk 512).toUInt64 = some r :=
      ⟨_, Read_of_read (hnat.symm ▸ hbuf) (read_of_ready hport _ _ _ _) (by
        show (l.addr P.region.allocator).toNat + _ + _ ≤ _
        rw [hnat]
        omega)⟩
    have hle := hbounds.buffer _ _ _ hround r ((round_read_eq h.header).trans hr)
    rwa [h.header.entry_size] at hle
  · cases hnone

/-- **A round of a safe call fits**, if the call writes to its buffers only. -/
theorem Safe.roundFits (hwindow : P.Windowed)
    (hlayout : Layout P s.live header_buf partition_entry_buf) (hport : (ports (i + 1)).Ready)
    (hbounds : CopiesInBounds P ports disk s mem header_buf partition_entry_buf)
    (hround : Round P ports disk s mem header_buf partition_entry_buf
      (PartitionEntryLBA disk 512 * SectorSize) i st)
    (h : Safe P disk s mem header_buf partition_entry_buf i st) :
    RoundFits P disk s mem partition_entry_buf i := by
  obtain ⟨l, s', hbuf⟩ := hbounds.read _ _ _ hround
  rw [h.header.entry_size] at hbuf
  have hbuffer := h.buffer_of_bounds hwindow hport hbounds hround hbuf
  have hread : used_bytes s + (i + 1 + min (seen_count disk mem partition_entry_buf i) 1) * 65536 <
      2 ^ P.region.root_log2size := by
    have hleaf := newLeaf_of_kmalloc h.owned.reachable (by omega) hbuf
    have hle := used_bytes_le hleaf.reachable
    have hused := h.used_eq
    rw [hleaf.used] at hle
    omega
  refine ⟨hbuffer, hread, fun htyped => ?_⟩
  obtain ⟨st₁, hread₁⟩ := h.read_returns hlayout hport hbuffer
  obtain ⟨hRead, hret⟩ := read_to_buffer_cases hread₁
  obtain ⟨hstate, hseen, _⟩ := h.read hlayout hbuffer hread hread₁
  have hfew := h.few
  obtain ⟨item, st₂, hback⟩ := emplace_back_returns hwindow hstate.owned
    (by rw [hstate.size]; omega)
  have hstores : Stores P ports disk header_buf partition_entry_buf
      (PartitionEntryLBA disk 512 * SectorSize) i st item st₂ := by
    refine ⟨st₁.buddy, st₁.mem, (round_read_eq h.header).trans hRead, ?_,
      (typed_of_seen hseen).mpr htyped, hret ▸ hback⟩
    rw [h.header.entry_size]
    exact hbuffer
  have hitem := hbounds.item _ _ _ hround item st₂ hstores
  have hspace : seen_count disk mem partition_entry_buf i < 182 := by
    by_contra hfull
    exact Safe.not_full hlayout hstate (by omega) hback hitem
  have hroom : Grows (seen_count disk mem partition_entry_buf i) →
      used_bytes s + (i + 2 + min (seen_count disk mem partition_entry_buf i) 1) * 65536 <
        2 ^ P.region.root_log2size := by
    intro hgrows
    by_contra hfull
    have hlost := hstate.lost hgrows hfull hfew hback
    obtain ⟨l, _, hblock, _⟩ := hitem
    cases hlost.block.symm.trans hblock
  refine ⟨?_, hspace, hroom⟩
  -- with a block for the item the header is as it was
  have hle := (hbounds.entry _ _ _ hround item st₂ hstores).1
  obtain ⟨l, hemplaced⟩ := hstate.emplaced hlayout hspace hroom hback
  rwa [hemplaced.entry_size hlayout, hstate.header.entry_size] at hle

/-- A round that fits returns, if the device answers. -/
theorem Safe.returns (hlayout : Layout P s.live header_buf partition_entry_buf)
    {port : HBA_PORT} (hport : port.Ready) (hfits : RoundFits P disk s mem partition_entry_buf i)
    (h : Safe P disk s mem header_buf partition_entry_buf i st) :
    ∃ st', list_entry P port disk header_buf partition_entry_buf
      (PartitionEntryLBA disk 512 * SectorSize) i st = .ok st' := by
  obtain ⟨st₁, hread⟩ := h.read_returns hlayout hport hfits.buffer
  obtain ⟨hstate, hseen, _⟩ := h.read hlayout hfits.buffer hfits.read hread
  by_cases htype : PartitionTypeGUID st₁.mem partition_entry_buf = 0
  · refine ⟨st₁, list_entry_ok_iff.mpr ⟨st₁, ?_, .inr ⟨htype, rfl⟩⟩⟩
    rw [h.header.round_start, h.header.entry_size]
    exact hread
  · obtain ⟨hsize, hspace, hroom⟩ := hfits.entry ((typed_of_seen hseen).mp htype)
    obtain ⟨st', hadd, _⟩ := hstate.add hlayout hspace hroom hsize
    refine ⟨st', list_entry_ok_iff.mpr ⟨st₁, ?_, .inl ⟨htype, hadd⟩⟩⟩
    rw [h.header.round_start, h.header.entry_size]
    exact hread

/-- The call comes to every round, and every round fits. -/
theorem roundFits_of_bounds (hwindow : P.Windowed)
    (hlayout : Layout P s.live header_buf partition_entry_buf) (hports : ∀ i, (ports i).Ready)
    (hbounds : CopiesInBounds P ports disk s mem header_buf partition_entry_buf) {st₀ : GptState}
    (hheader : HeaderRead P ports disk s mem header_buf st₀)
    (hstart : Safe P disk s mem header_buf partition_entry_buf 0 st₀) :
    ∀ i ≤ entry_count disk, i ≤ 2 ^ 31 →
      (∀ j < i, RoundFits P disk s mem partition_entry_buf j) ∧
      ∃ st, Reachable (listing P ports disk header_buf partition_entry_buf
          (PartitionEntryLBA disk 512 * SectorSize) st₀) (i, st) ∧
        Safe P disk s mem header_buf partition_entry_buf i st := by
  intro i
  induction i with
  | zero =>
    intro _ _
    exact ⟨fun j hj => absurd hj (Nat.not_lt_zero j), st₀, .init rfl, hstart⟩
  | succ i ih =>
    intro hi hint
    obtain ⟨hfits, st, hreach, hsafe⟩ := ih (by omega) (by omega)
    have hround : Round P ports disk s mem header_buf partition_entry_buf
        (PartitionEntryLBA disk 512 * SectorSize) i st :=
      ⟨st₀, hheader, by rw [hstart.header.lba], hreach, hsafe.header.count.symm ▸ hi, hint⟩
    have hfit := hsafe.roundFits hwindow hlayout (hports (i + 1)) hbounds hround
    obtain ⟨st', hentry⟩ := hsafe.returns hlayout (hports (i + 1)) hfit
    refine ⟨?_, st', reachable_next hreach hsafe.header hi hentry, hsafe.step hlayout hfit hentry⟩
    intro j hj
    rcases Nat.lt_succ_iff_lt_or_eq.mp hj with hlt | rfl
    · exact hfits j hlt
    · exact hfit

theorem fits_of_copiesInBounds (hs : Reachable (buddy_system P.region.allocator) s)
    (hwindow : P.Windowed) (hlayout : Layout P s.live header_buf partition_entry_buf)
    (hports : ∀ i, (ports i).Ready)
    (hbounds : CopiesInBounds P ports disk s mem header_buf partition_entry_buf) :
    TableFits P disk s mem partition_entry_buf := by
  obtain ⟨l, s', hbuf⟩ := hbounds.header
  have hleaf := newLeaf_of_kmalloc hs (by decide) hbuf
  have hroom : used_bytes s < 2 ^ P.region.root_log2size := by
    have hle := used_bytes_le hleaf.reachable
    rw [hleaf.used] at hle
    omega
  refine ⟨hroom, ?_⟩
  intro hmagic i hi hint
  obtain ⟨st₀, hread⟩ : ∃ st₀, read_to_buffer P (ports 0) disk ⟨s, mem, ⟨none, 0, 0⟩⟩ header_buf
      512 512 = .ok (.ErrSuccess, st₀) :=
    (Owned.empty hs).read_returns disk mem hlayout (hports 0) (by decide)
  have hstart := Safe.start hs hlayout hroom hread
  have hheader : HeaderRead P ports disk s mem header_buf st₀ :=
    ⟨hread, hstart.header.magic.trans hmagic⟩
  obtain ⟨hfits, _⟩ := roundFits_of_bounds hwindow hlayout hports hbounds hheader hstart (i + 1) hi
    (by omega)
  exact hfits i (Nat.lt_succ_self i)

end nothing_less

/-- **When the call writes to its buffers only.** It is enough that the entries fit in the buffer,
    those with a type in an item and the items in the vector's block, and that there are blocks for
    the sectors and for the vector. If the device answers every read, and all blocks are in the
    kernel window, nothing less is. -/
theorem copies_in_bounds_iff (P : Platform) (disk : Nat → UInt8) (s : BuddyState) (mem : Bytes)
    (header_buf partition_entry_buf : Nat) (hs : Reachable (buddy_system P.region.allocator) s)
    (hlayout : Layout P s.live header_buf partition_entry_buf) :
    (TableFits P disk s mem partition_entry_buf →
      ∀ ports, CopiesInBounds P ports disk s mem header_buf partition_entry_buf) ∧
    (P.Windowed → ∀ ports : Nat → HBA_PORT, (∀ i, (ports i).Ready) →
      (CopiesInBounds P ports disk s mem header_buf partition_entry_buf ↔
        TableFits P disk s mem partition_entry_buf)) := by
  refine ⟨fun hfits ports => copiesInBounds_of_fits ports hs hlayout hfits, ?_⟩
  intro hwindow ports hports
  exact ⟨fits_of_copiesInBounds hs hwindow hlayout hports, copiesInBounds_of_fits ports hs hlayout⟩

/-! ## Two disks -/

/-- What `mm_init` gives to the allocator. -/
def platform_1G : Platform := boot_platform 0 0

/-- The buffers are below the region. -/
theorem layout_1G : Layout platform_1G [] 0x3000000 0x3001000 := by
  have hleaves : fresh_area platform_1G.region.toRegion [] ⊆ Set.Ico 0x43ff0000 0x83ff0000 :=
    Set.sdiff_subset
  have hbelow : ∀ a ≤ 0x3001000, Disjoint (Set.Ico a (a + 512))
      (fresh_area platform_1G.region.toRegion []) := by
    intro a ha
    refine Set.disjoint_of_subset_right hleaves ?_
    rw [Set.Ico_disjoint_Ico]
    omega
  refine ⟨by decide, by decide, hbelow _ (by decide), hbelow _ (by decide), ?_⟩
  rw [Set.Ico_disjoint_Ico]
  decide

/-- A disk with the table in the third sector. -/
def gpt_disk (count : Nat) (entry : Nat → Nat → UInt8) : Nat → UInt8 := fun a =>
  if 1024 ≤ a then entry ((a - 1024) / 128) (a % 128)
  else copy (copy (copy (copy (fun _ => 0) 512 EFI_PART) 584 [2]) 592 (word32 count)) 596 [128] a

/-- Partitions of ten sectors, and no type in the second entry. -/
def gap_entry (k o : Nat) : UInt8 :=
  if k = 1 then 0
  else if o = 0 then 0xaf
  else if o = 32 then UInt8.ofNat (34 + 10 * k)
  else if o = 40 then UInt8.ofNat (43 + 10 * k)
  else 0

/-- A table of few entries of 128 bytes fits right after the start. -/
theorem fits_1G {disk : Nat → UInt8} (hsize : PartitionEntrySize disk 512 = 128)
    (hcount : entry_count disk ≤ 182) (mem : Bytes) (partition_entry_buf : Nat) :
    TableFits platform_1G disk (.start platform_1G.region.allocator) mem partition_entry_buf := by
  have hnone : used_bytes (.start platform_1G.region.allocator) = 0 := rfl
  have hroot : 2 ^ platform_1G.region.root_log2size = 2 ^ 30 := rfl
  have h128 : (128 : UInt32).toNat = 128 := rfl
  refine ⟨by rw [hnone, hroot]; decide, fun _ i hi _ => ?_⟩
  have hle := seen_count_le disk mem partition_entry_buf i
  refine ⟨by rw [hsize, h128]; omega, by rw [hnone, hroot]; omega, fun _ => ⟨?_, by omega, ?_⟩⟩
  · rw [hsize]
    decide
  · intro _
    rw [hnone, hroot]
    omega

/-- The table with a gap. -/
theorem gap_in_bounds : CopiesInBounds platform_1G (fun _ => idle_port) (gpt_disk 3 gap_entry)
    (.start platform_1G.region.allocator) (fun _ => 0) 0x3000000 0x3001000 :=
  (copies_in_bounds_iff platform_1G (gpt_disk 3 gap_entry) (.start platform_1G.region.allocator)
    (fun _ => 0) 0x3000000 0x3001000 (.init rfl) layout_1G).1
    (fits_1G (by decide +kernel) (by decide +kernel) _ _) (fun _ => idle_port)

/-- A disk that says that entries have 1024 bytes. -/
def wide_disk : Nat → UInt8 := copy (gpt_disk 1 gap_entry) 596 [0, 4]

/-- The first read copies 1024 bytes to the buffer. -/
theorem wide_entry_overruns : PartitionEntrySize wide_disk 512 = 1024 ∧
    ListPrimaryPartitions platform_1G (fun _ => idle_port) wide_disk
      (.start platform_1G.region.allocator) (fun _ => 0) 0x3000000 0x3001000 =
        .error .overrun ∧
    ¬ CopiesInBounds platform_1G (fun _ => idle_port) wide_disk
      (.start platform_1G.region.allocator) (fun _ => 0) 0x3000000 0x3001000 := by
  have hsize : PartitionEntrySize wide_disk 512 = 1024 := by decide +kernel
  have hoverrun : ListPrimaryPartitions platform_1G (fun _ => idle_port) wide_disk
      (.start platform_1G.region.allocator) (fun _ => 0) 0x3000000 0x3001000 =
        .error .overrun := by
    have hrun : (match ListPrimaryPartitions platform_1G (fun _ => idle_port) wide_disk
        (.start platform_1G.region.allocator) (fun _ => 0) 0x3000000 0x3001000 with
      | .error e => some e
      | .ok _ => none) = some .overrun := by decide +kernel
    split at hrun
    · rename_i e he
      rw [he, Option.some.inj hrun]
    · cases hrun
  refine ⟨hsize, hoverrun, fun h => ?_⟩
  have hfits := fits_of_copiesInBounds (.init rfl) (by unfold Platform.Windowed; decide) layout_1G
    (fun _ => idle_port_ready) h
  have hround := hfits.2 (by decide +kernel) 0 (by decide +kernel) (by decide)
  have hle := hround.buffer
  rw [hsize] at hle
  exact absurd hle (by decide)

end Modern05
