import Modern05.Device.BounceBuffer

/-! # The partition table

    `gpt::ListPrimaryPartitions` of `device/gpt.cpp`. It reads the header from the second sector of
    the disk and then the entries of the table, each with a call of `AHCIDevice::Read`. An entry
    with a type is added to the vector that is returned.

    The two buffers are on the stack. The items of the vector are in a block of the allocator; when
    there is no space for one more, `emplace_back` gets a larger block and releases the old one.
    `kallocator` asks `kmalloc` for as many bytes as the block is to have items.

    * `list_invariant` is the rule for what is kept by all reads and all growth of the vector.
    * `KeepsLive`: what is live after the header was read stays live, and is not the vector's block.
    * `no_leak_iff` says when a call leaves no block behind: when there was none to be had.
-/

namespace Modern05

open BuddyAllocator LTS Memory

/-! ## The format -/

/-- `"EFI PART"` -/
def EFI_PART : List UInt8 := [0x45, 0x46, 0x49, 0x20, 0x50, 0x41, 0x52, 0x54]

def PartitionEntryLBA (mem : Bytes) (header : Nat) : UInt64 :=
  UInt64.ofNat (load_le mem (header + 72) 8)

def PartitionEntryCount (mem : Bytes) (header : Nat) : UInt32 :=
  UInt32.ofNat (load_le mem (header + 80) 4)

def PartitionEntrySize (mem : Bytes) (header : Nat) : UInt32 :=
  UInt32.ofNat (load_le mem (header + 84) 4)

/-- A number of 128 bits. -/
def PartitionTypeGUID (mem : Bytes) (entry : Nat) : Nat := load_le mem entry 16

def FirstLBA (mem : Bytes) (entry : Nat) : UInt64 := UInt64.ofNat (load_le mem (entry + 32) 8)

def LastLBA (mem : Bytes) (entry : Nat) : UInt64 := UInt64.ofNat (load_le mem (entry + 40) 8)

/-- The name has 72 characters of four bytes. -/
def sizeof_GPTPartitionEntry : Nat := 344

/-- `start_offset`, `size` and `entry_` -/
def sizeof_GPTPrimaryPartition : Nat := 360

/-! ## The vector -/

/-- `kvector<GPTPrimaryPartition>`. There is no block before the first item, and none when `kmalloc`
    had none. -/
structure PartitionVector where
  block : Option Live
  capacity : Nat
  size : Nat
  deriving DecidableEq, Repr

/-- Where an item is in the kernel window. -/
def PartitionVector.offset (P : Platform) (v : PartitionVector) (i : Nat) : Nat :=
  (buf_phy P.region.allocator v.block).toNat + sizeof_GPTPrimaryPartition * i

/-- The physical address of an item. -/
def PartitionVector.item (P : Platform) (v : PartitionVector) (i : Nat) : Nat :=
  window_addr P (v.offset P i)

/-- Why a call does not return. -/
inductive GptStop where
  | panic (message : String)
  /-- A copy runs over the end of its destination. -/
  | overrun
  /-- The index of the loop is an `int`. -/
  | int_overflow
  /-- An assertion fails, or an address is not that of memory or of a block. -/
  | stuck
  deriving DecidableEq, Repr

structure GptState where
  buddy : BuddyState
  mem : Bytes
  ret : PartitionVector

def or_stuck {α : Type} : Option α → Except GptStop α
  | some a => .ok a
  | none => .error .stuck

/-- Move the first items of a vector to another block, one after the other. -/
def relocate (P : Platform) (mem : Bytes) (v v' : PartitionVector) : Nat → Bytes
  | 0 => mem
  | n + 1 =>
    let mem := relocate P mem v v' n
    overwrite mem (v'.item P n) sizeof_GPTPrimaryPartition (fun i => mem (v.item P n + i))

/-- Nothing is released when nothing was allocated. -/
def deallocate (P : Platform) (s : BuddyState) (v : PartitionVector) : Except GptStop BuddyState :=
  if v.capacity = 0 then .ok s
  else or_stuck (exec P.region.allocator s (.free_pages (buf_phy P.region.allocator v.block)))

/-- The address of the new item, which is cleared, and the state after the call. -/
def emplace_back (P : Platform) (st : GptState) : Except GptStop (Nat × GptState) :=
  let v := st.ret
  if v.size < v.capacity then
    let v' := { v with size := v.size + 1 }
    if IDENTITY_MAP_PHY_END < v'.offset P v'.size then .error .stuck
    else
      .ok (v'.item P v.size,
        ⟨st.buddy, clear st.mem (v'.item P v.size) sizeof_GPTPrimaryPartition, v'⟩)
  else do
    let capacity := v.size + max v.size 1
    -- the result of `kmalloc` is not checked
    let r ← or_stuck (try_kmalloc P.region.allocator st.buddy capacity)
    let v' : PartitionVector := ⟨r.1, capacity, v.size + 1⟩
    if IDENTITY_MAP_PHY_END < v'.offset P v'.size then .error .stuck
    else
      -- the new item comes first, and the old block is released when its items have been moved
      let mem := clear st.mem (v'.item P v.size) sizeof_GPTPrimaryPartition
      let mem := relocate P mem v v' v.size
      let buddy ← deallocate P r.2 v
      .ok (v'.item P v.size, ⟨buddy, mem, v'⟩)

/-! ## The listing -/

/-- `device.Read` into a buffer of one sector. -/
def read_to_buffer (P : Platform) (port : HBA_PORT) (disk : Nat → UInt8) (st : GptState)
    (buf : Nat) (start size : UInt64) : Except GptStop (Error × GptState) := do
  let r ← or_stuck (Read P port disk st.buddy st.mem buf start size)
  if SectorSize < size then .error .overrun
  else .ok (r.1, { st with buddy := r.2.1, mem := r.2.2 })

/-- The entry in the buffer becomes an item. -/
def add_partition (P : Platform) (st : GptState) (header_buf entry : Nat) :
    Except GptStop GptState := do
  let r ← emplace_back P st
  let item := r.1
  let size := (PartitionEntrySize r.2.mem header_buf).toNat
  if sizeof_GPTPartitionEntry < size then .error .overrun
  else
    let mem := memcpy r.2.mem (item + 16) (fun i => entry + i) size
    let mem := store64 mem item (FirstLBA mem (item + 16) * SectorSize).toNat
    let mem := store64 mem (item + 8)
      ((LastLBA mem (item + 16) - FirstLBA mem (item + 16) + 1) * SectorSize).toNat
    .ok { r.2 with mem := mem }

/-- The body of the loop. The product is one of 32 bits. -/
def list_entry (P : Platform) (port : HBA_PORT) (disk : Nat → UInt8)
    (header_buf partition_entry_buf : Nat) (partition_entries_start : UInt64) (i : Nat)
    (st : GptState) : Except GptStop GptState := do
  let size := PartitionEntrySize st.mem header_buf
  let r ← read_to_buffer P port disk st partition_entry_buf
    (partition_entries_start + (size * UInt32.ofNat i).toUInt64) size.toUInt64
  if r.1 ≠ .ErrSuccess then .error (.panic "Failed to read partition entries")
  else if PartitionTypeGUID r.2.mem partition_entry_buf ≠ 0 then
    add_partition P r.2 header_buf partition_entry_buf
  else .ok r.2

/-- The loop from index `i` on. The header is in memory and is read every time. `ports i` is the
    port as the read before the loop and those in it find it. -/
def list_entries (P : Platform) (ports : Nat → HBA_PORT) (disk : Nat → UInt8)
    (header_buf partition_entry_buf : Nat) (partition_entries_start : UInt64) :
    Nat → Nat → GptState → Except GptStop GptState
  | _, 0, _ => .error .int_overflow
  | i, n + 1, st =>
    if i < (PartitionEntryCount st.mem header_buf).toNat then do
      let st' ← list_entry P (ports (i + 1)) disk header_buf partition_entry_buf
        partition_entries_start i st
      list_entries P ports disk header_buf partition_entry_buf partition_entries_start (i + 1) n st'
    else .ok st

/-- The state after the call, with the vector that is returned. The addresses are those of the two
    buffers. -/
def ListPrimaryPartitions (P : Platform) (ports : Nat → HBA_PORT) (disk : Nat → UInt8)
    (s : BuddyState) (mem : Bytes) (header_buf partition_entry_buf : Nat) :
    Except GptStop GptState := do
  let r ← read_to_buffer P (ports 0) disk ⟨s, mem, ⟨none, 0, 0⟩⟩ header_buf (SectorSize * 1)
    SectorSize
  if r.1 ≠ .ErrSuccess then .error (.panic "Failed to read LBA 1")
  else if bytes r.2.mem header_buf 8 ≠ EFI_PART then .error (.panic "EFI magic not match")
  else
    list_entries P ports disk header_buf partition_entry_buf
      (PartitionEntryLBA r.2.mem header_buf * SectorSize) 0 (2 ^ 31) r.2

/-! ## What a call has done -/

theorem or_stuck_ok {α : Type} {o : Option α} {a : α} (h : or_stuck o = .ok a) : o = some a := by
  cases o with
  | none => cases h
  | some b => exact congrArg some (Except.ok.inj h)

section cases

variable {P : Platform} {port : HBA_PORT} {ports : Nat → HBA_PORT} {disk : Nat → UInt8}
  {s : BuddyState} {mem : Bytes} {st st' : GptState}
  {buf header_buf partition_entry_buf item i : Nat} {start size : UInt64} {e : Error}

theorem read_to_buffer_cases
    (h : read_to_buffer P port disk st buf start size = .ok (e, st')) :
    Read P port disk st.buddy st.mem buf start size = some (e, st'.buddy, st'.mem) ∧
      st'.ret = st.ret := by
  obtain ⟨r, hread, h⟩ := except_bind_ok h
  have hread := or_stuck_ok hread
  split at h
  · cases h
  · cases h
    exact ⟨hread, rfl⟩

/-- A read that fits in its buffer, as the call makes it. -/
theorem read_to_buffer_of_Read
    (h : Read P port disk st.buddy st.mem buf start size = some (e, s, mem))
    (hsize : size.toNat ≤ 512) :
    read_to_buffer P port disk st buf start size = .ok (e, ⟨s, mem, st.ret⟩) := by
  have hfits : ¬ SectorSize < size := by
    rw [UInt64.lt_iff_toNat_lt]
    exact Nat.not_lt.mpr hsize
  rw [read_to_buffer, h]
  exact if_neg hfits

theorem deallocate_cases {s' : BuddyState} {v : PartitionVector}
    (h : deallocate P s v = .ok s') :
    s' = s ∨ exec P.region.allocator s (.free_pages (buf_phy P.region.allocator v.block)) =
      some s' := by
  unfold deallocate at h
  split at h
  · exact .inl (Except.ok.inj h).symm
  · exact .inr (or_stuck_ok h)

/-- **What `emplace_back` does**: one more item, in place while there is space. Otherwise the vector
    gets what `kmalloc` returns, and its old block is released if it had one. -/
theorem emplace_back_cases (h : emplace_back P st = .ok (item, st')) :
    item = st'.ret.item P st.ret.size ∧
      (st.ret.size < st.ret.capacity ∧ st'.buddy = st.buddy ∧
          st'.ret = { st.ret with size := st.ret.size + 1 } ∨
        ¬ st.ret.size < st.ret.capacity ∧ ∃ block s₁,
          try_kmalloc P.region.allocator st.buddy (st.ret.size + max st.ret.size 1) =
            some (block, s₁) ∧
          deallocate P s₁ st.ret = .ok st'.buddy ∧
          st'.ret = ⟨block, st.ret.size + max st.ret.size 1, st.ret.size + 1⟩) := by
  unfold emplace_back at h
  dsimp only at h
  split at h
  · rename_i hspace
    split at h
    · cases h
    · cases h
      exact ⟨rfl, .inl ⟨hspace, rfl, rfl⟩⟩
  · rename_i hfull
    obtain ⟨⟨block, s₁⟩, hbuf, h⟩ := except_bind_ok h
    dsimp only at h
    split at h
    · cases h
    · obtain ⟨s₂, hfree, h⟩ := except_bind_ok h
      cases h
      exact ⟨rfl, .inr ⟨hfull, block, s₁, or_stuck_ok hbuf, hfree, rfl⟩⟩

theorem add_partition_cases (h : add_partition P st header_buf buf = .ok st') :
    ∃ item st₁, emplace_back P st = .ok (item, st₁) ∧ st'.buddy = st₁.buddy ∧
      st'.ret = st₁.ret := by
  obtain ⟨⟨item, st₁⟩, hemplace, h⟩ := except_bind_ok h
  dsimp only at h
  split at h
  · cases h
  · cases h
    exact ⟨item, st₁, hemplace, rfl, rfl⟩

/-- **What a round does** when it returns. -/
theorem list_entry_ok_iff :
    list_entry P port disk header_buf partition_entry_buf start i st = .ok st' ↔
      ∃ st₁, read_to_buffer P port disk st partition_entry_buf
          (start + (PartitionEntrySize st.mem header_buf * UInt32.ofNat i).toUInt64)
          (PartitionEntrySize st.mem header_buf).toUInt64 = .ok (.ErrSuccess, st₁) ∧
        (PartitionTypeGUID st₁.mem partition_entry_buf ≠ 0 ∧
            add_partition P st₁ header_buf partition_entry_buf = .ok st' ∨
          PartitionTypeGUID st₁.mem partition_entry_buf = 0 ∧ st' = st₁) := by
  constructor
  · intro h
    obtain ⟨⟨e, st₁⟩, hread, h⟩ := except_bind_ok h
    dsimp only at h
    split at h
    · cases h
    · rename_i hsuccess
      rw [not_not.mp hsuccess] at hread
      refine ⟨st₁, hread, ?_⟩
      split at h
      · rename_i htype
        exact .inl ⟨htype, h⟩
      · rename_i htype
        cases h
        exact .inr ⟨not_not.mp htype, rfl⟩
  · rintro ⟨st₁, hread, hrest⟩
    simp only [list_entry, hread, bind, Except.bind, ne_eq, not_true_eq_false, if_false]
    rcases hrest with ⟨htype, hadd⟩ | ⟨htype, rfl⟩
    · rw [if_pos htype]
      exact hadd
    · rw [if_neg (not_not_intro htype)]

theorem ListPrimaryPartitions_cases
    (h : ListPrimaryPartitions P ports disk s mem header_buf partition_entry_buf = .ok st') :
    ∃ s₁ mem₁, Read P (ports 0) disk s mem header_buf 512 512 = some (.ErrSuccess, s₁, mem₁) ∧
      bytes mem₁ header_buf 8 = EFI_PART ∧
      list_entries P ports disk header_buf partition_entry_buf
        (PartitionEntryLBA mem₁ header_buf * SectorSize) 0 (2 ^ 31)
        ⟨s₁, mem₁, ⟨none, 0, 0⟩⟩ = .ok st' := by
  obtain ⟨⟨e, ⟨s₁, mem₁, v⟩⟩, hread, h⟩ := except_bind_ok h
  dsimp only at h
  split at h
  · cases h
  · rename_i hsuccess
    split at h
    · cases h
    · rename_i hmagic
      obtain ⟨hread, hret⟩ := read_to_buffer_cases hread
      have hempty : v = ⟨none, 0, 0⟩ := hret
      rw [not_not.mp hsuccess] at hread
      rw [hempty] at h
      exact ⟨s₁, mem₁, hread, not_not.mp hmagic, h⟩

/-- **The rule for the whole table.** What every read and every `emplace_back` keeps of the
    allocator and the vector is kept by the loop, however many entries there are. -/
theorem list_invariant {I : BuddyState → PartitionVector → Prop}
    (hread : ∀ port mem buf start size e s s' mem' v, I s v →
      Read P port disk s mem buf start size = some (e, s', mem') → I s' v)
    (hemplace : ∀ st item st', I st.buddy st.ret → emplace_back P st = .ok (item, st') →
      I st'.buddy st'.ret) (n : Nat) :
    ∀ i st, I st.buddy st.ret →
      list_entries P ports disk header_buf partition_entry_buf start i n st = .ok st' →
      I st'.buddy st'.ret := by
  induction n with
  | zero =>
    intro i st _ h
    cases h
  | succ n ih =>
    intro i st hI h
    unfold list_entries at h
    split at h
    · -- one entry: a read, and an item if the entry has a type
      obtain ⟨st₁, hentry, hrest⟩ := except_bind_ok h
      obtain ⟨st₂, hbuffer, hadd⟩ := list_entry_ok_iff.mp hentry
      obtain ⟨hcall, hret⟩ := read_to_buffer_cases hbuffer
      have hI₂ : I st₂.buddy st₂.ret := by
        rw [hret]
        exact hread _ _ _ _ _ _ _ _ _ _ hI hcall
      rcases hadd with ⟨_, hadd⟩ | ⟨_, rfl⟩
      · obtain ⟨item, st₃, hback, hbuddy, hret₃⟩ := add_partition_cases hadd
        have hI₃ := hemplace _ item st₃ hI₂ hback
        rw [← hbuddy, ← hret₃] at hI₃
        exact ih _ _ hI₃ hrest
      · exact ih _ _ hI₂ hrest
    · cases h
      exact hI

end cases

/-! ## Blocks that stay live -/

/-- The blocks of `kept` are live, and the vector has another one. -/
structure KeepsLive (P : Platform) (kept : List Live) (s : BuddyState) (v : PartitionVector) :
    Prop where
  reachable : Reachable (buddy_system P.region.allocator) s
  live : ∀ l ∈ kept, l ∈ s.live
  owned : ∀ l, v.block = some l → l ∈ s.live ∧ l ∉ kept

section keeps

variable {P : Platform} {port : HBA_PORT} {disk : Nat → UInt8} {kept : List Live}
  {s s' : BuddyState} {mem mem' : Bytes} {v : PartitionVector} {st st' : GptState}
  {buf item size : Nat} {e : Error} {buf' : Option Live}

/-- An allocation keeps the blocks, and what it returns is not one of them. -/
theorem KeepsLive.kmalloc (h : KeepsLive P kept s v)
    (hbuf : try_kmalloc P.region.allocator s size = some (buf', s')) :
    Reachable (buddy_system P.region.allocator) s' ∧ (∀ l ∈ s.live, l ∈ s'.live) ∧
      ∀ l, buf' = some l → l ∈ s'.live ∧ l ∉ s.live := by
  obtain ⟨hs', ⟨_, l, rfl, _, hfresh, hlive⟩ | ⟨_, rfl, rfl⟩⟩ := try_kmalloc_cases h.reachable hbuf
  · refine ⟨hs', fun l' hl' => hlive ▸ List.mem_cons_of_mem l hl', fun l' hl' => ?_⟩
    cases hl'
    exact ⟨hlive ▸ List.mem_cons_self, hfresh⟩
  · exact ⟨hs', fun _ hl => hl, nofun⟩

theorem KeepsLive.Read {start size : UInt64} (h : KeepsLive P kept s v)
    (hread : Read P port disk s mem buf start size = some (e, s', mem')) :
    KeepsLive P kept s' v := by
  obtain ⟨_, _, _, _, _, hbuf, _⟩ := Read_cases hread
  obtain ⟨hs', hlive, _⟩ := h.kmalloc hbuf
  exact ⟨hs', fun l hl => hlive l (h.live l hl),
    fun l hl => ⟨hlive l (h.owned l hl).1, (h.owned l hl).2⟩⟩

/-- What is released is the vector's old block: no other block has its address. -/
theorem KeepsLive.emplace_back (h : KeepsLive P kept st.buddy st.ret)
    (hback : emplace_back P st = .ok (item, st')) : KeepsLive P kept st'.buddy st'.ret := by
  rcases (emplace_back_cases hback).2 with ⟨_, hbuddy, hret⟩ | ⟨_, block, s₁, hbuf, hfree, hret⟩
  · rw [hbuddy, hret]
    exact ⟨h.reachable, h.live, h.owned⟩
  · obtain ⟨hs₁, hlive, hnew⟩ := h.kmalloc hbuf
    have hnotkept : ∀ l, block = some l → l ∉ kept :=
      fun l hl hmem => (hnew l hl).2 (h.live l hmem)
    rw [hret]
    rcases deallocate_cases hfree with hsame | hfree
    · rw [hsame]
      exact ⟨hs₁, fun l hl => hlive l (h.live l hl), fun l hl => ⟨(hnew l hl).1, hnotkept l hl⟩⟩
    · obtain ⟨hs', old, hold, haddr, herase⟩ := kfree_cases hs₁ hfree
      obtain ⟨l₀, hblock, rfl⟩ : ∃ l₀, st.ret.block = some l₀ ∧ l₀ = old := by
        cases hb : st.ret.block with
        | none =>
          -- the start of the kernel window is not the address of a block
          have hlow := (addr_bounds hs₁ hold).2.1
          rw [haddr, hb] at hlow
          exact absurd hlow (show ¬ IDENTITY_MAP_PHY_START ≤ (0 : UInt64).toNat by decide)
        | some l₀ =>
          rw [hb] at haddr
          obtain ⟨free, hinv⟩ := stateInv_of_reachable P.region.fits s₁ hs₁
          exact ⟨l₀, rfl, hinv.toSound.addr_inj P.region.fits
            (hlive l₀ (h.owned l₀ hb).1) hold haddr.symm⟩
      obtain ⟨hold', hnotkept'⟩ := h.owned l₀ hblock
      refine ⟨hs', fun l hl => ?_, fun l hl => ⟨?_, hnotkept l hl⟩⟩
      · have hne : l ≠ l₀ := fun e => hnotkept' (e ▸ hl)
        rw [herase]
        exact (List.mem_erase_of_ne hne).mpr (hlive l (h.live l hl))
      · have hne : l ≠ l₀ := fun e => (hnew l hl).2 (e ▸ hold')
        rw [herase]
        exact (List.mem_erase_of_ne hne).mpr (hnew l hl).1

/-- Without a free block the allocator stays as it is, and the vector gets none. -/
theorem nothing_allocated (hs : Reachable (buddy_system P.region.allocator) s)
    (hnoroom : ¬ HasRoom P.region.allocator s Log2MinSize)
    (hbuf : try_kmalloc P.region.allocator s size = some (buf', s')) : buf' = none ∧ s' = s := by
  obtain ⟨_, ⟨⟨j, hj, hroom⟩, _⟩ | ⟨_, hnone, hsame⟩⟩ := try_kmalloc_cases hs hbuf
  · have hmin := min_le_kmalloc_log2size size
    exact absurd ⟨j, by omega, hroom⟩ hnoroom
  · exact ⟨hnone, hsame⟩

end keeps

section listing

variable {P : Platform} {ports : Nat → HBA_PORT} {disk : Nat → UInt8} {s : BuddyState} {mem : Bytes}
  {header_buf partition_entry_buf : Nat} {st : GptState}

/-- **The buffer of the header stays live** when there was room for it. -/
theorem header_block_kept (hs : Reachable (buddy_system P.region.allocator) s)
    (hroom : HasRoom P.region.allocator s Log2MinSize)
    (h : ListPrimaryPartitions P ports disk s mem header_buf partition_entry_buf = .ok st) :
    ∃ l, l ∉ s.live ∧ l ∈ st.buddy.live ∧ st.ret.block ≠ some l := by
  obtain ⟨s₁, mem₁, hread, -, hloop⟩ := ListPrimaryPartitions_cases h
  obtain ⟨hs₁, ⟨_, l, hfresh, hlive⟩ | ⟨hnoroom, _⟩⟩ := live_of_Read hs hread
  · have hstart : KeepsLive P s₁.live s₁ ⟨none, 0, 0⟩ := ⟨hs₁, fun _ hl => hl, nofun⟩
    have hkeeps : KeepsLive P s₁.live st.buddy st.ret :=
      list_invariant (fun _ _ _ _ _ _ _ _ _ _ hI hread => hI.Read hread)
        (fun _ _ _ hI hback => hI.emplace_back hback) _ _ _ hstart hloop
    have hmem : l ∈ s₁.live := hlive ▸ List.mem_cons_self
    exact ⟨l, hfresh, hkeeps.live l hmem, fun hblock => (hkeeps.owned l hblock).2 hmem⟩
  · rw [show kmalloc_log2size (512 : UInt64).toNat = Log2MinSize by decide +kernel] at hnoroom
    exact absurd hroom hnoroom

/-- Without a free block the listing leaves the allocator as it is. -/
theorem buddy_unchanged (hs : Reachable (buddy_system P.region.allocator) s)
    (hnoroom : ¬ HasRoom P.region.allocator s Log2MinSize)
    (h : ListPrimaryPartitions P ports disk s mem header_buf partition_entry_buf = .ok st) :
    st.buddy = s ∧ st.ret.block = none := by
  have hread : ∀ port mem buf start size e s₁ s₂ mem₂ (v : PartitionVector),
      s₁ = s ∧ v.block = none →
      Read P port disk s₁ mem buf start size = some (e, s₂, mem₂) → s₂ = s ∧ v.block = none := by
    rintro port mem buf start size e _ s₂ mem₂ v ⟨rfl, hblock⟩ hcall
    obtain ⟨_, _, _, _, _, hbuf, _⟩ := Read_cases hcall
    exact ⟨(nothing_allocated hs hnoroom hbuf).2, hblock⟩
  have hemplace : ∀ st item st', st.buddy = s ∧ st.ret.block = none →
      emplace_back P st = .ok (item, st') → st'.buddy = s ∧ st'.ret.block = none := by
    rintro st₁ item st₂ ⟨rfl, hblock⟩ hback
    rcases (emplace_back_cases hback).2 with ⟨_, hbuddy, hret⟩ | ⟨_, block, s₁, hbuf, hfree, hret⟩
    · rw [hbuddy, hret]
      exact ⟨rfl, hblock⟩
    · obtain ⟨hnone, rfl⟩ := nothing_allocated hs hnoroom hbuf
      rw [hret]
      refine ⟨?_, hnone⟩
      rcases deallocate_cases hfree with hsame | hfree
      · exact hsame
      · -- the vector was full without a block, and what it releases is not the address of one
        obtain ⟨_, l, hl, haddr, _⟩ := kfree_cases hs hfree
        have hlow := (addr_bounds hs hl).2.1
        rw [haddr, hblock] at hlow
        exact absurd hlow (show ¬ IDENTITY_MAP_PHY_START ≤ (0 : UInt64).toNat by decide)
  obtain ⟨s₁, mem₁, hcall, -, hloop⟩ := ListPrimaryPartitions_cases h
  obtain ⟨rfl, -⟩ := hread _ _ _ _ _ _ _ _ _ ⟨none, 0, 0⟩ ⟨rfl, rfl⟩ hcall
  exact list_invariant hread hemplace _ _ _ ⟨rfl, rfl⟩ hloop

/-- After the header was read the call is the loop. -/
theorem ListPrimaryPartitions_eq (ports : Nat → HBA_PORT) (st₀ : GptState)
    (hread : read_to_buffer P (ports 0) disk ⟨s, mem, ⟨none, 0, 0⟩⟩ header_buf 512 512 =
      .ok (.ErrSuccess, st₀))
    (hmagic : bytes st₀.mem header_buf 8 = EFI_PART) :
    ListPrimaryPartitions P ports disk s mem header_buf partition_entry_buf =
      list_entries P ports disk header_buf partition_entry_buf
        (PartitionEntryLBA st₀.mem header_buf * SectorSize) 0 (2 ^ 31) st₀ := by
  have hread : read_to_buffer P (ports 0) disk ⟨s, mem, ⟨none, 0, 0⟩⟩ header_buf (SectorSize * 1)
      SectorSize = .ok (.ErrSuccess, st₀) := hread
  rw [ListPrimaryPartitions, hread]
  simp only [bind, Except.bind, ne_eq, not_true_eq_false, if_false, hmagic]

/-- A table without entries. -/
theorem list_of_no_entries {s' : BuddyState} {mem' : Bytes}
    (hread : Read P (ports 0) disk s mem header_buf 512 512 = some (.ErrSuccess, s', mem'))
    (hmagic : bytes mem' header_buf 8 = EFI_PART)
    (hcount : PartitionEntryCount mem' header_buf = 0) :
    ListPrimaryPartitions P ports disk s mem header_buf partition_entry_buf =
      .ok ⟨s', mem', ⟨none, 0, 0⟩⟩ := by
  have hbuffer : read_to_buffer P (ports 0) disk ⟨s, mem, ⟨none, 0, 0⟩⟩ header_buf 512 512 =
      .ok (.ErrSuccess, ⟨s', mem', ⟨none, 0, 0⟩⟩) := by
    rw [read_to_buffer, hread]
    rfl
  rw [ListPrimaryPartitions_eq ports _ hbuffer hmagic,
    show (2 : Nat) ^ 31 = (2 ^ 31 - 1) + 1 from rfl, list_entries, hcount]
  rfl

end listing

/-- **When no block is left behind.** `Read` leaves the live blocks as they were exactly when there
    was no room for its buffer, and the listing leaves none but the vector's exactly when there was
    no room for a block at all. -/
theorem no_leak_iff (P : Platform) (disk : Nat → UInt8) (s : BuddyState)
    (hs : Reachable (buddy_system P.region.allocator) s) :
    (∀ port mem output start size e s' mem',
      Read P port disk s mem output start size = some (e, s', mem') →
      ((∀ l, l ∈ s'.live ↔ l ∈ s.live) ↔
        ¬ HasRoom P.region.allocator s (kmalloc_log2size size.toNat))) ∧
    ∀ ports mem header_buf partition_entry_buf st,
      ListPrimaryPartitions P ports disk s mem header_buf partition_entry_buf = .ok st →
      ((∀ l, l ∈ st.buddy.live ↔ l ∈ s.live ∨ st.ret.block = some l) ↔
        ¬ HasRoom P.region.allocator s Log2MinSize) := by
  constructor
  · intro port mem output start size e s' mem' hread
    obtain ⟨_, ⟨hroom, l, hfresh, hlive⟩ | ⟨hnoroom, rfl⟩⟩ := live_of_Read hs hread
    · have hmem : l ∈ s'.live := hlive ▸ List.mem_cons_self
      exact ⟨fun hsame => absurd ((hsame l).mp hmem) hfresh, fun hnoroom => absurd hroom hnoroom⟩
    · exact ⟨fun _ => hnoroom, fun _ _ => Iff.rfl⟩
  · intro ports mem header_buf partition_entry_buf st hlist
    constructor
    · intro hsame hroom
      obtain ⟨l, hfresh, hmem, hother⟩ := header_block_kept hs hroom hlist
      rcases (hsame l).mp hmem with hold | hblock
      · exact hfresh hold
      · exact hother hblock
    · intro hnoroom l
      obtain ⟨hbuddy, hblock⟩ := buddy_unchanged hs hnoroom hlist
      simp [hbuddy, hblock]

/-- A machine with two smallest blocks. -/
def platform_128K : Platform := ⟨⟨region_128K, by decide, by decide, by decide⟩, 0, 0⟩

/-- A sector is read after all memory was allocated. -/
theorem read_without_memory : ∃ s e s' mem',
    Reachable (buddy_system platform_128K.region.allocator) s ∧
    Read platform_128K idle_port (fun _ => 0) s (fun _ => 0) 0x3000000 0 512 =
      some (e, s', mem') ∧
    ∀ l, l ∈ s'.live ↔ l ∈ s.live := by
  have hrun : (do
      let s ← after platform_128K.region.allocator [.allocate_pages 17]
      let _ ← Read platform_128K idle_port (fun _ => 0) s (fun _ => 0) 0x3000000 0 512
      pure (s.heap.first_block 0, s.heap.first_block 1)) = some (none, none) := by decide +kernel
  obtain ⟨s, hafter, hrun⟩ := Option.bind_eq_some_iff.mp hrun
  obtain ⟨⟨e, s', mem'⟩, hread, hrun⟩ := Option.bind_eq_some_iff.mp hrun
  obtain ⟨hsmall, hlarge⟩ := Prod.mk.inj (Option.some.inj hrun)
  have hs := reachable_after hafter
  exact ⟨s, e, s', mem', hs, hread, ((no_leak_iff platform_128K _ s hs).1 _ _ _ _ _ _ _ _
    hread).mpr (not_hasRoom_128K hsmall hlarge 512)⟩

/-- A disk with a table that has no entries. -/
def empty_table : Nat → UInt8 := copy (fun _ => 0) 512 EFI_PART

/-- The empty table is listed right after the start. The vector has no block, but one is live. -/
theorem header_block_leaked : ∃ s' mem',
    Read platform_2G idle_port empty_table (.start platform_2G.region.allocator) (fun _ => 0)
        0x3000000 512 512 = some (.ErrSuccess, s', mem') ∧
    ListPrimaryPartitions platform_2G (fun _ => idle_port) empty_table
      (.start platform_2G.region.allocator) (fun _ => 0) 0x3000000 0x3001000 =
        .ok ⟨s', mem', ⟨none, 0, 0⟩⟩ ∧
    (⟨32767, 16⟩ : Live) ∈ s'.live ∧
    (⟨32767, 16⟩ : Live) ∉ (BuddyState.start platform_2G.region.allocator).live := by
  obtain ⟨s', hbuf⟩ := first_buffer 512 (by decide +kernel)
  obtain ⟨mem', hread, hbytes⟩ := Read_bytes empty_table (fun _ => 0) 0x3000000 512 512
    idle_port_ready (by decide) (by decide) (by decide) hbuf (by decide) (by decide)
    (by rw [Set.Ico_disjoint_Ico]; decide)
  -- one sector is transferred, so that the buffer has the bytes of the disk
  have hheader : ∀ i < 512, mem' (0x3000000 + i) = empty_table (512 + i) := by
    intro i hi
    rw [hbytes i hi]
    exact (copied_iff empty_table (fun _ => 0) 0x83ff0000 0 512 512 512).mpr
      (fun j hj hout => absurd hout (by omega)) i hi
  have hmagic : bytes mem' 0x3000000 8 = EFI_PART := by
    have hdisk : bytes empty_table 512 8 = EFI_PART := bytes_copy _ _ _
    rw [← hdisk]
    exact List.map_congr_left fun i hi =>
      hheader i (Nat.lt_trans (List.mem_range.mp hi) (by decide))
  have hcount : PartitionEntryCount mem' 0x3000000 = 0 := by
    have hfield : load_le mem' (0x3000000 + 80) 4 = load_le empty_table (512 + 80) 4 := by
      refine load_le_congr fun i hi => ?_
      rw [Nat.add_assoc, Nat.add_assoc, hheader (80 + i) (by omega)]
    rw [PartitionEntryCount, hfield]
    decide +kernel
  obtain ⟨_, ⟨_, l, hl, _, _, hlive⟩ | ⟨_, hnone, _⟩⟩ := try_kmalloc_cases (.init rfl) hbuf
  · cases hl
    exact ⟨s', mem', hread, list_of_no_entries hread hmagic hcount,
      hlive ▸ List.mem_cons_self, by decide⟩
  · cases hnone

end Modern05
