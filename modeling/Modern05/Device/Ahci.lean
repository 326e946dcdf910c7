import Modern05.Kernel.Process

/-! # Reading from the disk

    `AHCIDevice::Read` and `read` of `device/ahci.cpp`. `Read` rounds the range of bytes out to
    sectors, has `read` bring the sectors to a buffer and copies the range from there. `read`
    describes the buffer to the device by a table of regions, 16 sectors each, and gives it the
    command: the first sector and the number of sectors.

    The device executes the command as it stands. It brings as many sectors as the command says to
    the regions, in order.

    The loop that fills the table counts `count` down, and the command gets what is left of it.
    `Read_bytes_iff` says what this means for the bytes that are read: all of them are right when at
    most 16 sectors are touched, and otherwise those behind the first `(n - 1) % 16 + 1` sectors
    are what was in the buffer before.
-/

namespace Modern05

open BuddyAllocator LTS Memory

/-! ## Commands -/

inductive Error where
  | ErrSuccess
  | ErrFailure
  deriving DecidableEq, Repr

def SectorSize : UInt64 := 512

def FIS_TYPE_REG_H2D : UInt8 := 0x27
def ATA_CMD_READ_DMA_EX : UInt8 := 0x25

structure HBA_PRDT_ENTRY where
  dba : UInt32
  dbau : UInt32
  /-- A field of 22 bits, one less than the number of bytes. -/
  dbc : Nat
  i : Bool
  deriving DecidableEq, Repr

structure FIS_REG_H2D where
  fis_type : UInt8
  c : Bool
  command : UInt8
  lba0 : UInt8
  lba1 : UInt8
  lba2 : UInt8
  device : UInt8
  lba3 : UInt8
  lba4 : UInt8
  lba5 : UInt8
  countl : UInt8
  counth : UInt8
  deriving DecidableEq, Repr

/-- The port as the driver finds it, and how it answers. -/
structure HBA_PORT where
  sact : UInt32
  ci : UInt32
  /-- `clb` and `clbu` -/
  cmdheader_phy : Nat
  /-- `ctba` and `ctbau` of each slot -/
  cmdtbl_phy : Nat → Nat
  /-- How often `tfd` reads as busy. -/
  busy : Nat
  /-- The memory that a command with a task file error leaves; without one there is none. -/
  error : Option Bytes

/-! ## The driver -/

def find_cmdslot_loop (slots : UInt32) : Nat → Nat → Option Nat
  | _, 0 => none
  | i, n + 1 => if slots &&& 1 = 0 then some i else find_cmdslot_loop (slots >>> 1) (i + 1) n

/-- The first slot that is neither active nor issued. -/
def find_cmdslot (port : HBA_PORT) : Option Nat := find_cmdslot_loop (port.sact ||| port.ci) 0 32

def prdt_entry (buf_phy_addr : UInt64) (dbc : UInt32) : HBA_PRDT_ENTRY :=
  ⟨buf_phy_addr.toUInt32, (buf_phy_addr >>> 32).toUInt32, dbc.toNat % 2 ^ 22, true⟩

/-- `n` regions of 16 sectors, and what is left of the arguments. -/
def prdt_loop : Nat → UInt64 → UInt32 → List HBA_PRDT_ENTRY × UInt64 × UInt32
  | 0, buf_phy_addr, count => ([], buf_phy_addr, count)
  | n + 1, buf_phy_addr, count =>
    let (entries, buf_phy_addr', count') := prdt_loop n (buf_phy_addr + 4 * 1024 * 2) (count - 16)
    (prdt_entry buf_phy_addr (8 * 1024 - 1) :: entries, buf_phy_addr', count')

/-- The number of entries, a field of 16 bits. The device reads so many. -/
def prdtl (count : UInt32) : UInt16 := ((count - 1) >>> 4).toUInt16 + 1

/-- The table, and `count` after it was filled. The last entry is written even if the number of
    entries has wrapped to zero. -/
def build_prdt (count : UInt32) (buf_phy_addr : UInt64) : List HBA_PRDT_ENTRY × UInt32 :=
  let (entries, buf_phy_addr, count) := prdt_loop ((prdtl count).toNat - 1) buf_phy_addr count
  -- last entry
  (entries ++ [prdt_entry buf_phy_addr ((count <<< 9) - 1)], count)

def build_fis (startl starth count : UInt32) : FIS_REG_H2D where
  fis_type := FIS_TYPE_REG_H2D
  c := true
  command := ATA_CMD_READ_DMA_EX
  lba0 := startl.toUInt8
  lba1 := (startl >>> 8).toUInt8
  lba2 := (startl >>> 16).toUInt8
  -- LBA mode
  device := 0x40
  lba3 := (startl >>> 24).toUInt8
  lba4 := starth.toUInt8
  lba5 := (starth >>> 8).toUInt8
  countl := (count &&& 0xff).toUInt8
  counth := ((count >>> 8) &&& 0xff).toUInt8

/-! ## The device -/

def FIS_REG_H2D.lba (fis : FIS_REG_H2D) : Nat :=
  fis.lba0.toNat + 2 ^ 8 * fis.lba1.toNat + 2 ^ 16 * fis.lba2.toNat + 2 ^ 24 * fis.lba3.toNat +
    2 ^ 32 * fis.lba4.toNat + 2 ^ 40 * fis.lba5.toNat

def FIS_REG_H2D.count (fis : FIS_REG_H2D) : Nat := fis.countl.toNat + 2 ^ 8 * fis.counth.toNat

def HBA_PRDT_ENTRY.region (e : HBA_PRDT_ENTRY) : Nat × Nat :=
  (e.dba.toNat + 2 ^ 32 * e.dbau.toNat, e.dbc + 1)

/-- The entries that the device reads. -/
def programmed_prdt (count : UInt32) (buf_phy_addr : UInt64) : List HBA_PRDT_ENTRY :=
  (build_prdt count buf_phy_addr).1.take (prdtl count).toNat

/-- The device brings the sectors to the regions. -/
def execute (disk : Nat → UInt8) (fis : FIS_REG_H2D) (prdt : List HBA_PRDT_ENTRY) (mem : Bytes) :
    Bytes :=
  scatter mem (fun i => disk (512 * fis.lba + i)) (prdt.map (·.region)) 0 (512 * fis.count)

/-- The result and the memory after it. The assertions are those on the addresses of the command
    list and of the table. -/
def read (port : HBA_PORT) (disk : Nat → UInt8) (mem : Bytes) (startl starth count : UInt32)
    (buf_phy_addr : UInt64) : Option (Bool × Bytes) :=
  match find_cmdslot port with
  | none => some (false, mem)
  | some slot => do
    guard (port.cmdheader_phy < IDENTITY_MAP_PHY_END)
    guard (port.cmdtbl_phy slot < IDENTITY_MAP_PHY_END)
    let fis := build_fis startl starth (build_prdt count buf_phy_addr).2
    if 1000000 ≤ port.busy then
      -- port hung
      some (false, mem)
    else
      match port.error with
      | some mem' => some (false, mem')
      | none => some (true, execute disk fis (programmed_prdt count buf_phy_addr) mem)

def align_left (value alignment : UInt64) : UInt64 := value / alignment * alignment

def align_right (value alignment : UInt64) : UInt64 :=
  (value + alignment - 1) / alignment * alignment

/-- `output` is the physical address of the destination. There is no next state when the call does
    not return: an assertion fails, or the buffer is not in the kernel window. -/
def Read (P : Platform) (port : HBA_PORT) (disk : Nat → UInt8) (s : BuddyState) (mem : Bytes)
    (output : Nat) (start size : UInt64) : Option (Error × BuddyState × Bytes) := do
  let sector_start_addr := align_left start SectorSize
  let sector_end_addr := align_right (start + size) SectorSize
  let start_offset := start - sector_start_addr
  let sector_start := sector_start_addr / SectorSize
  let sector_end := sector_end_addr / SectorSize
  let sector_count := sector_end - sector_start
  let starth := (sector_start >>> 32 &&& 0xffffffff).toUInt32
  let startl := (sector_start &&& 0xffffffff).toUInt32
  -- the result of `kmalloc` is not checked
  let (buf, s) ← try_kmalloc P.region.allocator s size.toNat
  let buf_phy := buf_phy P.region.allocator buf
  let (ok, mem) ← read port disk mem startl starth sector_count.toUInt32 buf_phy
  let src := (buf_phy + start_offset).toNat
  guard (src + size.toNat ≤ IDENTITY_MAP_PHY_END)
  let mem := memcpy mem output (fun i => window_addr P (src + i)) size.toNat
  pure (if ok then .ErrSuccess else .ErrFailure, s, mem)

/-! ## The table of regions -/

theorem toNat_shr_32 (x : UInt64) : (x >>> 32).toNat = x.toNat / 2 ^ 32 := by
  rw [UInt64.toNat_shiftRight, Nat.shiftRight_eq_div_pow]
  rfl

theorem region_prdt_entry (buf : UInt64) (dbc : UInt32) :
    (prdt_entry buf dbc).region = (buf.toNat, dbc.toNat % 2 ^ 22 + 1) := by
  have hlt := buf.toNat_lt
  have haddr : buf.toUInt32.toNat + 2 ^ 32 * (buf >>> 32).toUInt32.toNat = buf.toNat := by
    rw [UInt64.toNat_toUInt32, UInt64.toNat_toUInt32, toNat_shr_32]
    omega
  show (buf.toUInt32.toNat + 2 ^ 32 * (buf >>> 32).toUInt32.toNat, _) = _
  rw [haddr]
  rfl

/-- The regions of the loop with one behind them, and what is left of the arguments. -/
structure LoopSpec (n : Nat) (buf : UInt64) (count : UInt32)
    (r : List HBA_PRDT_ENTRY × UInt64 × UInt32) : Prop where
  regions : ∀ last, r.1.map (·.region) ++ [(buf.toNat + 8192 * n, last)] =
    tiles 8192 last n buf.toNat
  buf : r.2.1.toNat = buf.toNat + 8192 * n
  count : r.2.2.toNat = count.toNat - 16 * n

theorem prdt_loop_spec (n : Nat) (buf : UInt64) (count : UInt32)
    (hbuf : buf.toNat + 8192 * n < 2 ^ 64) (hcount : 16 * n ≤ count.toNat) :
    LoopSpec n buf count (prdt_loop n buf count) := by
  induction n generalizing buf count with
  | zero => exact ⟨fun _ => rfl, rfl, rfl⟩
  | succ n ih =>
    have hnext : (buf + 4 * 1024 * 2).toNat = buf.toNat + 8192 := by
      rw [UInt64.toNat_add]
      show (buf.toNat + 8192) % 2 ^ 64 = _
      omega
    have hrest : (count - 16).toNat = count.toNat - 16 :=
      UInt32.toNat_sub_of_le _ _ (UInt32.le_iff_toNat_le.mpr (by show 16 ≤ _; omega))
    have hspec := ih (buf + 4 * 1024 * 2) (count - 16) (by omega) (by omega)
    have hregion : (prdt_entry buf (8 * 1024 - 1)).region = (buf.toNat, 8192) :=
      region_prdt_entry buf _
    refine ⟨fun last => ?_, ?_, ?_⟩
    · have hbehind := hspec.regions last
      rw [hnext, show buf.toNat + 8192 + 8192 * n = buf.toNat + 8192 * (n + 1) by omega] at hbehind
      rw [prdt_loop, List.map_cons, List.cons_append, hregion, hbehind]
      rfl
    · show (prdt_loop n (buf + 4 * 1024 * 2) (count - 16)).2.1.toNat = _
      rw [hspec.buf, hnext]
      omega
    · show (prdt_loop n (buf + 4 * 1024 * 2) (count - 16)).2.2.toNat = _
      rw [hspec.count, hrest]
      omega

theorem toNat_prdtl {count : UInt32} (hpos : 1 ≤ count.toNat) :
    (prdtl count).toNat = ((count.toNat - 1) / 16 + 1) % 2 ^ 16 := by
  have hless : (count - 1).toNat = count.toNat - 1 :=
    UInt32.toNat_sub_of_le _ _ (UInt32.le_iff_toNat_le.mpr hpos)
  rw [prdtl, UInt16.toNat_add, UInt32.toNat_toUInt16, UInt32.toNat_shiftRight, hless]
  show ((count.toNat - 1) >>> 4 % 2 ^ 16 + 1) % 2 ^ 16 = _
  rw [Nat.shiftRight_eq_div_pow]
  omega

/-- **The regions of the table**, whatever the count: the loop's, and a last one for what the loop
    has left, as far as its length fits in the field. -/
theorem build_prdt_regions {count : UInt32} {buf : UInt64} {n : Nat} (hpos : 1 ≤ count.toNat)
    (hn : n = (prdtl count).toNat - 1) (hbuf : buf.toNat + 8192 * n < 2 ^ 64) :
    (build_prdt count buf).1.map (·.region) =
        tiles 8192 ((512 * (count.toNat - 16 * n) - 1) % 2 ^ 22 + 1) n buf.toNat ∧
      (build_prdt count buf).2.toNat = count.toNat - 16 * n := by
  have hlt := count.toNat_lt
  have hprdtl := toNat_prdtl hpos
  have hspec := prdt_loop_spec n buf count hbuf (by omega)
  obtain ⟨⟨entries, buf', count'⟩, hloop⟩ : ∃ r, prdt_loop n buf count = r := ⟨_, rfl⟩
  rw [hloop] at hspec
  have hbuild : build_prdt count buf =
      (entries ++ [prdt_entry buf' ((count' <<< 9) - 1)], count') := by
    rw [build_prdt, ← hn, hloop]
  have hcount' : count'.toNat = count.toNat - 16 * n := hspec.count
  have hbuf' : buf'.toNat = buf.toNat + 8192 * n := hspec.buf
  have hdbc : ((count' <<< 9) - 1).toNat % 2 ^ 22 =
      (512 * (count.toNat - 16 * n) - 1) % 2 ^ 22 := by
    have hshift : (count' <<< 9).toNat = 512 * (count.toNat - 16 * n) % 2 ^ 32 := by
      rw [UInt32.toNat_shiftLeft, hcount']
      show (count.toNat - 16 * n) <<< 9 % 2 ^ 32 = _
      rw [Nat.shiftLeft_eq, Nat.mul_comm]
    rw [UInt32.toNat_sub, hshift]
    show (2 ^ 32 - 1 + 512 * (count.toNat - 16 * n) % 2 ^ 32) % 2 ^ 32 % 2 ^ 22 = _
    omega
  rw [hbuild]
  refine ⟨?_, hcount'⟩
  rw [List.map_append, List.map_singleton, region_prdt_entry, hdbc, hbuf']
  exact hspec.regions _

/-- The device reads all of the table, unless the number of entries has wrapped to zero. -/
theorem programmed_prdt_of_pos {count : UInt32} {buf : UInt64} {n : Nat} (hpos : 1 ≤ count.toNat)
    (hn : (prdtl count).toNat = n + 1) (hbuf : buf.toNat + 8192 * n < 2 ^ 64) :
    (programmed_prdt count buf).map (·.region) =
      tiles 8192 ((512 * (count.toNat - 16 * n) - 1) % 2 ^ 22 + 1) n buf.toNat := by
  obtain ⟨hregions, -⟩ := build_prdt_regions hpos (by omega) hbuf
  rw [programmed_prdt, List.map_take, hregions, hn]
  exact List.take_of_length_le (Nat.le_of_eq length_tiles)

/-- The sectors that a command for `n` sectors asks for. -/
def transferred (n : Nat) : Nat := (n - 1) % 16 + 1

theorem min_transferred {n : Nat} (h : n ≤ 16) : min n (transferred n) = n := by
  unfold transferred
  omega

/-- **The table covers the buffer, and the count is what the loop has left of it**, as long as the
    number of entries fits in its field. -/
theorem build_prdt_spec {count : UInt32} {buf : UInt64} (hpos : 1 ≤ count.toNat)
    (hcount : count.toNat ≤ 2 ^ 20 - 16) (hbuf : buf.toNat + 512 * count.toNat ≤ 2 ^ 64) :
    (prdtl count).toNat = (count.toNat - 1) / 16 + 1 ∧
      (build_prdt count buf).1.map (·.region) =
        tiles 8192 (512 * transferred count.toNat) ((count.toNat - 1) / 16) buf.toNat ∧
      (build_prdt count buf).2.toNat = transferred count.toNat := by
  have hprdtl : (prdtl count).toNat = (count.toNat - 1) / 16 + 1 := by
    rw [toNat_prdtl hpos]
    omega
  have hleft : count.toNat - 16 * ((count.toNat - 1) / 16) = transferred count.toNat := by
    unfold transferred
    omega
  have hlast : (512 * transferred count.toNat - 1) % 2 ^ 22 + 1 =
      512 * transferred count.toNat := by
    unfold transferred
    omega
  have hroom : buf.toNat + 8192 * ((count.toNat - 1) / 16) < 2 ^ 64 := by omega
  obtain ⟨hregions, hcount'⟩ := build_prdt_regions hpos (by omega) hroom
  rw [hleft, hlast] at hregions
  rw [hleft] at hcount'
  exact ⟨hprdtl, hregions, hcount'⟩

theorem programmed_prdt_regions {count : UInt32} {buf : UInt64} (hpos : 1 ≤ count.toNat)
    (hcount : count.toNat ≤ 2 ^ 20 - 16) (hbuf : buf.toNat + 512 * count.toNat ≤ 2 ^ 64) :
    (programmed_prdt count buf).map (·.region) =
      tiles 8192 (512 * transferred count.toNat) ((count.toNat - 1) / 16) buf.toNat := by
  obtain ⟨hprdtl, hregions, -⟩ := build_prdt_spec hpos hcount hbuf
  rw [programmed_prdt, List.map_take, hregions, hprdtl]
  exact List.take_of_length_le (Nat.le_of_eq length_tiles)

/-- What the entries of the table are to be, for `count` sectors at `buf`. -/
structure ExactPrdt (count buf : Nat) (prdtl : Nat) (prdt : List HBA_PRDT_ENTRY) : Prop where
  length : prdt.length = prdtl
  consecutive : Consecutive buf (prdt.map (·.region))
  covers : ((prdt.map (·.region)).map Prod.snd).sum = 512 * count
  not_empty : ∀ e ∈ prdt, 512 ≤ e.dbc + 1
  at_most_8K : ∀ e ∈ prdt, e.dbc + 1 ≤ 8192
  /-- The halves of the address. -/
  address : ∀ i e, prdt[i]? = some e → e.dba.toNat + 2 ^ 32 * e.dbau.toNat = buf + 8192 * i

/-- **The table is exact**, for all counts that a command can ask for. -/
theorem prdt_exact (count : UInt32) (buf : UInt64) (hpos : 1 ≤ count.toNat)
    (hcount : count.toNat ≤ 65536) (hbuf : buf.toNat + 512 * count.toNat ≤ 2 ^ 64) :
    ExactPrdt count.toNat buf.toNat (prdtl count).toNat (build_prdt count buf).1 := by
  obtain ⟨hprdtl, hregions, -⟩ := build_prdt_spec hpos (by omega) hbuf
  have hlast : 1 ≤ transferred count.toNat ∧ transferred count.toNat ≤ 16 := by
    unfold transferred
    omega
  -- each entry is the tile with its number
  have hentry : ∀ i e, (build_prdt count buf).1[i]? = some e →
      e.region.1 = buf.toNat + 8192 * i ∧
        (e.region.2 = 8192 ∨ e.region.2 = 512 * transferred count.toNat) := by
    intro i e he
    apply getElem?_tiles
    rw [← hregions, List.getElem?_map, he, Option.map_some]
  have hlength : ∀ e ∈ (build_prdt count buf).1,
      e.dbc + 1 = 8192 ∨ e.dbc + 1 = 512 * transferred count.toNat := by
    intro e he
    obtain ⟨i, hi⟩ := List.mem_iff_getElem?.mp he
    exact (hentry i e hi).2
  refine ⟨?_, ?_, ?_, fun e he => ?_, fun e he => ?_, fun i e he => (hentry i e he).1⟩
  · rw [hprdtl, ← List.length_map (f := fun e : HBA_PRDT_ENTRY => e.region), hregions, length_tiles]
  · rw [hregions]
    exact consecutive_tiles
  · rw [hregions, sum_tiles]
    unfold transferred
    omega
  · have := hlength e he
    omega
  · have := hlength e he
    omega

/-- Seventeen sectors: a full entry, and one with a single sector. -/
theorem seventeen_sectors : ExactPrdt 17 0x4000000 2 (build_prdt 17 0x4000000).1 :=
  prdt_exact 17 0x4000000 (by decide) (by decide) (by decide)

/-! ## The command -/

theorem lba_build_fis (startl starth count : UInt32) :
    (build_fis startl starth count).lba = startl.toNat + 2 ^ 32 * (starth.toNat % 2 ^ 16) := by
  have hlt := startl.toNat_lt
  have hshift : ∀ x : UInt32, (x >>> 8).toNat = x.toNat / 2 ^ 8 ∧
      (x >>> 16).toNat = x.toNat / 2 ^ 16 ∧ (x >>> 24).toNat = x.toNat / 2 ^ 24 := by
    intro x
    simp only [UInt32.toNat_shiftRight, Nat.shiftRight_eq_div_pow]
    exact ⟨rfl, rfl, rfl⟩
  obtain ⟨h8, h16, h24⟩ := hshift startl
  obtain ⟨h8', -, -⟩ := hshift starth
  unfold FIS_REG_H2D.lba build_fis
  simp only [UInt32.toNat_toUInt8, h8, h16, h24, h8']
  omega

theorem count_build_fis {startl starth count : UInt32} (h : count.toNat < 2 ^ 16) :
    (build_fis startl starth count).count = count.toNat := by
  have hshift : (count >>> 8).toNat = count.toNat / 2 ^ 8 := by
    rw [UInt32.toNat_shiftRight, Nat.shiftRight_eq_div_pow]
    rfl
  have hlow : ∀ x : UInt32, (x &&& 0xff).toNat = x.toNat % 2 ^ 8 := by
    intro x
    rw [UInt32.toNat_and]
    exact Nat.and_two_pow_sub_one_eq_mod x.toNat 8
  unfold FIS_REG_H2D.count build_fis
  simp only [UInt32.toNat_toUInt8, hlow, hshift]
  omega

/-- The port takes a command and completes it. -/
structure HBA_PORT.Ready (port : HBA_PORT) : Prop where
  slot : ∃ slot, find_cmdslot port = some slot ∧ port.cmdtbl_phy slot < IDENTITY_MAP_PHY_END
  cmdheader : port.cmdheader_phy < IDENTITY_MAP_PHY_END
  not_hung : port.busy < 1000000
  no_error : port.error = none

section read

variable {port : HBA_PORT} {disk : Nat → UInt8} {mem : Bytes}

/-- A port that is ready does what the command says. -/
theorem read_of_ready (hport : port.Ready) (startl starth count : UInt32) (buf : UInt64) :
    read port disk mem startl starth count buf = some (true,
      execute disk (build_fis startl starth (build_prdt count buf).2) (programmed_prdt count buf)
        mem) := by
  obtain ⟨slot, hslot, htable⟩ := hport.slot
  simp only [read, hslot, hport.cmdheader, htable, hport.no_error, guard, if_true,
    if_neg (Nat.not_le.mpr hport.not_hung), Option.bind_eq_bind, Option.pure_def, Option.bind_some]

/-- **What `read` brings to the buffer**: as many sectors as the command asks for. -/
theorem read_eq (hport : port.Ready) (startl starth count : UInt32) (buf : UInt64)
    (hcount : count.toNat ≤ 65535) (hbuf : buf.toNat + 512 * count.toNat ≤ 2 ^ 64) :
    read port disk mem startl starth count buf = some (true,
      overwrite mem buf.toNat (512 * min count.toNat (transferred count.toNat))
        (fun i => disk (512 * (startl.toNat + 2 ^ 32 * (starth.toNat % 2 ^ 16)) + i))) := by
  rw [read_of_ready hport]
  rcases Nat.eq_zero_or_pos count.toNat with hnone | hpos
  · -- no region for the device to write to
    have hzero : count = 0 := UInt32.toNat_inj.mp hnone
    have hprdt : programmed_prdt 0 buf = [] := by
      have hlength : (prdtl 0).toNat = 0 := by decide
      rw [programmed_prdt, hlength, List.take_zero]
    rw [hnone, hzero, execute, hprdt, Nat.zero_min, Nat.mul_zero, overwrite_zero]
    rfl
  · obtain ⟨-, -, hleft⟩ := build_prdt_spec hpos (by omega) hbuf
    have hbound : transferred count.toNat ≤ 16 ∧ transferred count.toNat ≤ count.toNat := by
      unfold transferred
      omega
    have hroom : 512 * transferred count.toNat ≤ ((tiles 8192 (512 * transferred count.toNat)
        ((count.toNat - 1) / 16) buf.toNat).map Prod.snd).sum := by
      rw [sum_tiles]
      omega
    rw [execute, programmed_prdt_regions hpos (by omega) hbuf, count_build_fis (by omega), hleft,
      lba_build_fis, scatter_consecutive consecutive_tiles hroom, Nat.min_eq_right hbound.2]
    simp only [Nat.zero_add]

/-! ## The range in sectors -/

/-- The sectors that a range of bytes touches. -/
def sectors (start size : Nat) : Nat := (start + size + 511) / 512 - start / 512

/-- The number of sectors that `Read` asks for. -/
def sector_count (start size : UInt64) : UInt32 :=
  (align_right (start + size) SectorSize / SectorSize -
    align_left start SectorSize / SectorSize).toUInt32

theorem toNat_align_left (x : UInt64) : (align_left x SectorSize).toNat = x.toNat / 512 * 512 := by
  have hlt := x.toNat_lt
  have hsize : SectorSize.toNat = 512 := rfl
  rw [align_left, UInt64.toNat_mul, UInt64.toNat_div, hsize]
  omega

theorem toNat_and_32 (x : UInt64) : (x &&& 0xffffffff).toNat = x.toNat % 2 ^ 32 := by
  rw [UInt64.toNat_and]
  exact Nat.and_two_pow_sub_one_eq_mod x.toNat 32

theorem toNat_first_sector (start : UInt64) :
    (align_left start SectorSize / SectorSize).toNat = start.toNat / 512 := by
  have hsize : SectorSize.toNat = 512 := rfl
  rw [UInt64.toNat_div, toNat_align_left, hsize]
  omega

/-- The number of sectors is right in the 32 bits that it has. That addresses can wrap makes no
    difference: 2^64 bytes are a multiple of 2^32 sectors. -/
theorem toNat_sector_count (start size : UInt64) :
    (sector_count start size).toNat = sectors start.toNat size.toNat % 2 ^ 32 := by
  have hlt := start.toNat_lt
  have hsize : SectorSize.toNat = 512 := rfl
  have hone : (1 : UInt64).toNat = 1 := rfl
  rw [sector_count, UInt64.toNat_toUInt32, UInt64.toNat_sub, toNat_first_sector, UInt64.toNat_div,
    align_right, UInt64.toNat_mul, UInt64.toNat_div, UInt64.toNat_sub, UInt64.toNat_add,
    UInt64.toNat_add, hsize, hone]
  unfold sectors
  omega

/-- The number of the first sector, from its two halves. A command has 48 bits for it. -/
theorem first_sector (start : UInt64) :
    (align_left start SectorSize / SectorSize &&& 0xffffffff).toUInt32.toNat +
      2 ^ 32 * (((align_left start SectorSize / SectorSize) >>> 32 &&&
        0xffffffff).toUInt32.toNat % 2 ^ 16) = start.toNat / 512 % 2 ^ 48 := by
  simp only [UInt64.toNat_toUInt32, toNat_and_32, toNat_shr_32, toNat_first_sector]
  omega

/-- Where the device reads for an address. -/
def disk_address (start : Nat) : Nat := 512 * (start / 512 % 2 ^ 48) + start % 512

theorem disk_address_of_lt {start : Nat} (h : start < 2 ^ 57) : disk_address start = start := by
  unfold disk_address
  omega

section call

variable {P : Platform} {s s' : BuddyState} {output : Nat} {start size : UInt64} {l : Live}
  {buf : Option Live}

/-- A call whose command was completed, with a buffer or without one. -/
theorem Read_of_read {mem₁ : Bytes}
    (hbuf : try_kmalloc P.region.allocator s size.toNat = some (buf, s'))
    (hread : read port disk mem (align_left start SectorSize / SectorSize &&& 0xffffffff).toUInt32
      ((align_left start SectorSize / SectorSize) >>> 32 &&& 0xffffffff).toUInt32
      (sector_count start size) (buf_phy P.region.allocator buf) = some (true, mem₁))
    (hhigh : (buf_phy P.region.allocator buf).toNat + start.toNat % 512 + size.toNat ≤
      IDENTITY_MAP_PHY_END) :
    Read P port disk s mem output start size = some (.ErrSuccess, s', memcpy mem₁ output
      (fun i => window_addr P ((buf_phy P.region.allocator buf).toNat + start.toNat % 512 + i))
      size.toNat) := by
  have hIM : IDENTITY_MAP_PHY_END = 2 ^ 32 := rfl
  have hleft := toNat_align_left start
  have hsrc : (buf_phy P.region.allocator buf + (start - align_left start SectorSize)).toNat =
      (buf_phy P.region.allocator buf).toNat + start.toNat % 512 := by
    rw [UInt64.toNat_add, UInt64.toNat_sub_of_le _ _ (UInt64.le_iff_toNat_le.mpr (by omega)), hleft]
    omega
  rw [sector_count] at hread
  simp only [Read, hbuf, hread, hsrc, hhigh, guard, if_true, Option.bind_eq_bind, Option.pure_def,
    Option.bind_some]

/-- **The call in terms of sectors.** -/
theorem Read_eq (hport : port.Ready) (hsectors : sectors start.toNat size.toNat ≤ 65535)
    (hbuf : try_kmalloc P.region.allocator s size.toNat = some (buf, s'))
    (hhigh : (buf_phy P.region.allocator buf).toNat + 512 * sectors start.toNat size.toNat ≤
      IDENTITY_MAP_PHY_END) :
    Read P port disk s mem output start size = some (.ErrSuccess, s',
      memcpy (overwrite mem (buf_phy P.region.allocator buf).toNat
          (512 * min (sectors start.toNat size.toNat)
            (transferred (sectors start.toNat size.toNat)))
          (fun i => disk (512 * (start.toNat / 512 % 2 ^ 48) + i)))
        output (fun i => window_addr P ((buf_phy P.region.allocator buf).toNat +
          start.toNat % 512 + i)) size.toNat) := by
  have hIM : IDENTITY_MAP_PHY_END = 2 ^ 32 := rfl
  have hcount : (sector_count start size).toNat = sectors start.toNat size.toNat := by
    rw [toNat_sector_count]
    omega
  have hread : read port disk mem _ _ (sector_count start size) (buf_phy P.region.allocator buf) =
      _ := read_eq hport (align_left start SectorSize / SectorSize &&& 0xffffffff).toUInt32
    ((align_left start SectorSize / SectorSize) >>> 32 &&& 0xffffffff).toUInt32 _ _ (by omega)
    (by omega)
  rw [hcount, first_sector] at hread
  refine Read_of_read hbuf hread ?_
  unfold sectors at hhigh
  omega

/-- The output is what the buffer has after the transfer. -/
theorem Read_bytes (disk : Nat → UInt8) (mem : Bytes) (output : Nat) (start size : UInt64)
    (hport : port.Ready) (hsize : 1 ≤ size.toNat)
    (hend : start.toNat + size.toNat < 2 ^ 57)
    (hsectors : sectors start.toNat size.toNat ≤ 65535)
    (hbuf : try_kmalloc P.region.allocator s size.toNat = some (some l, s'))
    (hlow : IDENTITY_MAP_PHY_START ≤ (l.addr P.region.allocator).toNat)
    (hhigh : (l.addr P.region.allocator).toNat + 512 * sectors start.toNat size.toNat ≤
      IDENTITY_MAP_PHY_END)
    (houtput : Disjoint (Set.Ico output (output + size.toNat))
      (Set.Ico (l.addr P.region.allocator).toNat
        ((l.addr P.region.allocator).toNat + 512 * sectors start.toNat size.toNat))) :
    ∃ mem', Read P port disk s mem output start size = some (.ErrSuccess, s', mem') ∧
      ∀ i < size.toNat, mem' (output + i) =
        overwrite mem (l.addr P.region.allocator).toNat
          (512 * transferred (sectors start.toNat size.toNat))
          (fun i => disk (512 * (start.toNat / 512) + i))
          ((l.addr P.region.allocator).toNat + start.toNat % 512 + i) := by
  let a := (l.addr P.region.allocator).toNat
  let o := start.toNat % 512
  have hrange : o + size.toNat ≤ 512 * sectors start.toNat size.toNat := by
    show start.toNat % 512 + size.toNat ≤ 512 * ((start.toNat + size.toNat + 511) / 512 - _)
    omega
  -- the source is in the identity map, and the output is not copied over it
  have hwindow : ∀ i, window_addr P (a + o + i) = a + o + i := fun i => if_neg (by omega)
  have hsource : ∀ i < size.toNat,
      window_addr P (a + o + i) ∉ Set.Ico output (output + size.toNat) := by
    intro i hi hmem
    rw [hwindow] at hmem
    exact Set.disjoint_left.mp houtput hmem ⟨by omega, by omega⟩
  have hpos : transferred (sectors start.toNat size.toNat) ≤ sectors start.toNat size.toNat := by
    unfold transferred sectors
    omega
  have hread : Read P port disk s mem output start size = _ := Read_eq hport hsectors hbuf hhigh
  rw [Nat.min_eq_right hpos, Nat.mod_eq_of_lt (by omega)] at hread
  refine ⟨_, hread, fun i hi => ?_⟩
  show memcpy _ output (fun i => window_addr P (a + o + i)) size.toNat (output + i) = _
  rw [memcpy_eq hsource, overwrite_of_mem ⟨by omega, by omega⟩, Nat.add_sub_cancel_left, hwindow]
  rfl

/-- Of the bytes that are copied, those behind the transfer were in the buffer before. -/
theorem copied_iff (disk : Nat → UInt8) (m : Bytes) (a o t n base : Nat) :
    (∀ i < n, overwrite m a t (fun i => disk (base + i)) (a + o + i) = disk (base + o + i)) ↔
      ∀ i < n, t ≤ o + i → m (a + o + i) = disk (base + o + i) := by
  refine forall_congr' fun i => forall_congr' fun hi => ?_
  by_cases hin : t ≤ o + i
  · rw [overwrite_of_notMem (fun hmem => by have hmem : _ ∧ _ < a + t := hmem; omega)]
    exact ⟨fun h _ => h, fun h => h hin⟩
  · have hindex : base + (a + o + i - a) = base + o + i := by omega
    rw [overwrite_of_mem ⟨by omega, by omega⟩, hindex]
    exact ⟨fun _ h => absurd h hin, fun _ => rfl⟩

end call

end read

/-- **What is read.** The call succeeds. The bytes of the output are those of the disk exactly when
    the bytes of the range behind the sectors that were transferred were already in the buffer; when
    at most 16 sectors are touched there are none of them. -/
theorem Read_bytes_iff (P : Platform) (port : HBA_PORT) (disk : Nat → UInt8) (s s' : BuddyState)
    (mem : Bytes) (output : Nat) (start size : UInt64) (l : Live) (hport : port.Ready)
    (hsize : 1 ≤ size.toNat) (hend : start.toNat + size.toNat < 2 ^ 57)
    (hsectors : sectors start.toNat size.toNat ≤ 65535)
    (hbuf : try_kmalloc P.region.allocator s size.toNat = some (some l, s'))
    (hlow : IDENTITY_MAP_PHY_START ≤ (l.addr P.region.allocator).toNat)
    (hhigh : (l.addr P.region.allocator).toNat + 512 * sectors start.toNat size.toNat ≤
      IDENTITY_MAP_PHY_END)
    (houtput : Disjoint (Set.Ico output (output + size.toNat))
      (Set.Ico (l.addr P.region.allocator).toNat
        ((l.addr P.region.allocator).toNat + 512 * sectors start.toNat size.toNat))) :
    ∃ mem', Read P port disk s mem output start size = some (.ErrSuccess, s', mem') ∧
      ((∀ i < size.toNat, mem' (output + i) = disk (start.toNat + i)) ↔
        ∀ i < size.toNat,
          512 * transferred (sectors start.toNat size.toNat) ≤ start.toNat % 512 + i →
          mem ((l.addr P.region.allocator).toNat + start.toNat % 512 + i) =
            disk (start.toNat + i)) ∧
      (sectors start.toNat size.toNat ≤ 16 →
        ∀ i < size.toNat, mem' (output + i) = disk (start.toNat + i)) := by
  obtain ⟨mem', hread, hbytes⟩ := Read_bytes disk mem output start size hport hsize hend hsectors
    hbuf hlow hhigh houtput
  have hiff := copied_iff disk mem (l.addr P.region.allocator).toNat (start.toNat % 512)
    (512 * transferred (sectors start.toNat size.toNat)) size.toNat (512 * (start.toNat / 512))
  rw [Nat.div_add_mod] at hiff
  refine ⟨mem', hread, ?_, ?_⟩
  · rw [← hiff]
    exact forall_congr' fun i => forall_congr' fun hi => by rw [hbytes i hi]
  · intro hfew i hi
    rw [hbytes i hi]
    refine hiff.mpr (fun j hj hout => ?_) i hi
    -- all sectors are transferred, and the range ends in the last of them
    unfold transferred sectors at *
    omega

/-! ## Two reads -/

/-- A port with all slots free. -/
def idle_port : HBA_PORT := ⟨0, 0, 0x5001000, fun slot => 0x5002000 + 0x100 * slot, 0, none⟩

theorem idle_port_ready : idle_port.Ready :=
  ⟨⟨0, by decide, by decide⟩, by decide, by decide, rfl⟩

/-- The first buffer in 2 GiB. -/
theorem first_buffer (n : Nat) (hn : kmalloc_log2size n = 16) : ∃ s',
    try_kmalloc platform_2G.region.allocator (.start platform_2G.region.allocator) n =
      some (some ⟨32767, 16⟩, s') := by
  have hbuf : (try_page_alloc platform_2G.region.allocator
      (.start platform_2G.region.allocator) 16).map Prod.fst = some (some ⟨32767, 16⟩) := by
    decide +kernel
  obtain ⟨⟨buf, s'⟩, htry, rfl⟩ := Option.map_eq_some_iff.mp hbuf
  rw [try_kmalloc, hn]
  exact ⟨s', htry⟩

/-- Three sectors, neither end aligned. -/
theorem three_sectors_read : ∃ s' mem', Read platform_2G idle_port (fun i => UInt8.ofNat i)
      (.start platform_2G.region.allocator) (fun _ => 0) 0x3000000 1000 1000 =
        some (.ErrSuccess, s', mem') ∧
    ∀ i < 1000, mem' (0x3000000 + i) = UInt8.ofNat (1000 + i) := by
  obtain ⟨s', hbuf⟩ := first_buffer 1000 (by decide +kernel)
  obtain ⟨mem', hread, -, hbytes⟩ := Read_bytes_iff platform_2G idle_port (fun i => UInt8.ofNat i)
    _ s' (fun _ => 0) 0x3000000 1000 1000 ⟨32767, 16⟩ idle_port_ready (by decide) (by decide)
    (by decide) hbuf (by decide) (by decide) (by rw [Set.Ico_disjoint_Ico]; decide)
  exact ⟨s', mem', hread, hbytes (by decide)⟩

/-- One byte more than 16 sectors, from a disk full of ones: the second sector is not read. -/
theorem second_sector_not_read : ∃ s' mem', Read platform_2G idle_port (fun _ => 1)
      (.start platform_2G.region.allocator) (fun _ => 0) 0x3000000 0 8193 =
        some (.ErrSuccess, s', mem') ∧
    mem' (0x3000000 + 512) = 0 := by
  obtain ⟨s', hbuf⟩ := first_buffer 8193 (by decide +kernel)
  obtain ⟨mem', hread, hbytes⟩ := Read_bytes (fun _ => 1) (fun _ => 0) 0x3000000 0 8193
    idle_port_ready (by decide) (by decide) (by decide) hbuf (by decide) (by decide)
    (by rw [Set.Ico_disjoint_Ico]; decide)
  refine ⟨s', mem', hread, ?_⟩
  rw [hbytes 512 (by decide)]
  decide +kernel

end Modern05
