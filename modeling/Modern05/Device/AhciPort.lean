import Modern05.Device.AhciCommand
import Modern05.Framework.LTS

/-! # The disk driver and the disk

    `read` of `device/ahci.cpp` and the port of the disk controller share the memory and the
    registers of the port, and take turns in any order: the driver writes a command to the memory,
    sets a bit of `ci`, and polls `ci` and `is`. The device takes a command whose bit is set, brings
    the sectors to the buffer byte by byte, and clears the bit. When the disk reports an error, the
    device sets a bit of `is` and halts until it is started again, which the driver never does.

    `disk_spec` is what the rest of the kernel may think: a call of `read` is one step, the one that
    the function `read` of `Device/Ahci.lean` describes. `Device/AhciRuns.lean` has the proof.
-/

namespace Modern05

open LTS Memory Bits Bits.BitField

/-! ## Slots -/

section slots

variable {i j : Nat}

def slot_bit (slot : Nat) : UInt32 := 1 <<< UInt32.ofNat slot

/-- The command of the slot was issued and is not complete. -/
def Issued (ci : UInt32) (slot : Nat) : Prop := ci.toNat.testBit slot = true

instance (ci : UInt32) (slot : Nat) : Decidable (Issued ci slot) :=
  inferInstanceAs (Decidable (ci.toNat.testBit slot = true))

theorem toNat_slot_bit (hi : i < 32) : (slot_bit i).toNat = 2 ^ i := by
  revert i
  decide

/-- What the driver tests. -/
theorem and_slot_bit (ci : UInt32) (hi : i < 32) : ci &&& slot_bit i = 0 ↔ ¬ Issued ci i := by
  rw [← UInt32.toNat_inj, UInt32.toNat_and, toNat_slot_bit hi, Nat.and_two_pow, Issued]
  cases ci.toNat.testBit i <;> simp

theorem issued_or (ci : UInt32) (hi : i < 32) :
    Issued (ci ||| slot_bit i) j ↔ Issued ci j ∨ i = j := by
  rw [Issued, UInt32.toNat_or, Nat.testBit_or, toNat_slot_bit hi, Nat.testBit_two_pow, Issued]
  simp

theorem issued_and_not (ci : UInt32) (hi : i < 32) (hj : j < 32) :
    Issued (ci &&& ~~~slot_bit i) j ↔ Issued ci j ∧ i ≠ j := by
  have hlt : 2 ^ i < 2 ^ 32 := Nat.pow_lt_pow_right (by decide) hi
  have hnot : (~~~slot_bit i).toNat = 2 ^ 32 - (2 ^ i + 1) := by
    rw [UInt32.toNat_not, toNat_slot_bit hi]
    show 2 ^ 32 - 1 - 2 ^ i = _
    omega
  rw [Issued, UInt32.toNat_and, Nat.testBit_and, hnot, Nat.testBit_two_pow_sub_succ hlt,
    Nat.testBit_two_pow, Issued]
  simp [hj]

theorem find_cmdslot_loop_spec {slots : UInt32} {n slot : Nat}
    (h : find_cmdslot_loop slots i n = some slot) :
    i ≤ slot ∧ slot < i + n ∧ slots.toNat.testBit (slot - i) = false := by
  induction n generalizing slots i with
  | zero => cases h
  | succ n ih =>
    rw [find_cmdslot_loop] at h
    split at h
    · rename_i hfree
      cases h
      have hmod : slots.toNat % 2 = 0 := by
        rw [← Nat.and_one_is_mod]
        exact (UInt32.toNat_and slots 1).symm.trans (congrArg UInt32.toNat hfree)
      refine ⟨Nat.le_refl _, by omega, ?_⟩
      rw [Nat.sub_self, Nat.testBit_zero, hmod]
      rfl
    · obtain ⟨hlow, hhigh, hbit⟩ := ih h
      have hshift : (slots >>> 1).toNat = slots.toNat >>> 1 := UInt32.toNat_shiftRight slots 1
      have hindex : 1 + (slot - (i + 1)) = slot - i := by omega
      rw [hshift, Nat.testBit_shiftRight, hindex] at hbit
      exact ⟨by omega, by omega, hbit⟩

end slots

/-! ## Calls -/

/-- Where the commands of the port are. The firmware has set this up.

    The driver writes to `KERNEL_START` plus a physical address. From the start of the identity map
    on this is the memory that the device sees, and below it is the image of the kernel. What starts
    in the map also ends in it, as it is aligned. -/
structure CommandMemory where
  /-- `clb` and `clbu` -/
  cmdheader_phy : Nat
  /-- The tables of the slots. -/
  cmdtbl_phy : Nat → Nat
  /-- The number of entries that the tables have room for. -/
  prdt_max : Nat
  header_low : IDENTITY_MAP_PHY_START ≤ cmdheader_phy
  header_end : cmdheader_phy < IDENTITY_MAP_PHY_END →
    cmdheader_phy + sizeof_HBA_CMD_HEADER * 32 ≤ IDENTITY_MAP_PHY_END
  table_low : ∀ slot < 32, IDENTITY_MAP_PHY_START ≤ cmdtbl_phy slot
  table_end : ∀ slot < 32, cmdtbl_phy slot < IDENTITY_MAP_PHY_END →
    cmdtbl_phy slot + (prdt_offset + sizeof_HBA_PRDT_ENTRY * prdt_max) ≤ IDENTITY_MAP_PHY_END
  apart : ∀ slot < 32,
    Disjoint (Set.Ico cmdheader_phy (cmdheader_phy + sizeof_HBA_CMD_HEADER * 32))
      (Set.Ico (cmdtbl_phy slot)
        (cmdtbl_phy slot + (prdt_offset + sizeof_HBA_PRDT_ENTRY * prdt_max)))

namespace CommandMemory

variable (C : CommandMemory)

def header (slot : Nat) : Nat := C.cmdheader_phy + sizeof_HBA_CMD_HEADER * slot

def headers : Set Nat := Set.Ico C.cmdheader_phy (C.cmdheader_phy + sizeof_HBA_CMD_HEADER * 32)

def table (slot : Nat) : Set Nat :=
  Set.Ico (C.cmdtbl_phy slot)
    (C.cmdtbl_phy slot + (prdt_offset + sizeof_HBA_PRDT_ENTRY * C.prdt_max))

/-- All bytes that commands are written to. -/
def area : Set Nat := C.headers ∪ {x | ∃ slot < 32, x ∈ C.table slot}

/-- The headers point to the tables. -/
def Wired (m : Bytes) : Prop := ∀ slot < 32, table_addr m (C.header slot) = C.cmdtbl_phy slot

end CommandMemory

/-- The arguments of a call. The number of entries fits in its field, and the buffer is not where
    the commands are. -/
structure ReadCall (C : CommandMemory) where
  startl : UInt32
  starth : UInt32
  count : UInt32
  buf_phy_addr : UInt64
  count_pos : 1 ≤ count.toNat
  count_le : count.toNat ≤ 2 ^ 20 - 16
  room : (prdtl count).toNat ≤ C.prdt_max
  no_wrap : buf_phy_addr.toNat + 512 * count.toNat ≤ 2 ^ 64
  apart : Disjoint (Set.Ico buf_phy_addr.toNat (buf_phy_addr.toNat + 512 * count.toNat)) C.area

namespace ReadCall

variable {C : CommandMemory} (c : ReadCall C)

def buffer : Set Nat :=
  Set.Ico c.buf_phy_addr.toNat (c.buf_phy_addr.toNat + 512 * c.count.toNat)

def command : FIS_REG_H2D × List HBA_PRDT_ENTRY :=
  (build_fis c.startl c.starth (build_prdt c.count c.buf_phy_addr).2,
    programmed_prdt c.count c.buf_phy_addr)

/-- The assignments to the header of a slot. -/
def header_stores (slot : Nat) : List (BitField × Nat) :=
  Modern05.header_stores (C.header slot) c.count

/-- The assignments to the table at an address. -/
def table_stores (tbl : Nat) : List (BitField × Nat) :=
  Modern05.table_stores tbl c.startl c.starth c.count c.buf_phy_addr

end ReadCall

/-! ## The driver and the device -/

def ATA_DEV_BUSY : UInt32 := 0x80
def ATA_DEV_DRQ : UInt32 := 0x08
def HBA_PxIS_TFES : UInt32 := 1 <<< (30 : UInt32)

/-- Where the driver is in `read`. -/
inductive ReadPhase where
  | clear_is
  | find_slot
  | header (slot : Nat) (todo : List (BitField × Nat))
  | table (slot : Nat) (todo : List (BitField × Nat))
  | wait (slot spin : Nat)
  | issue (slot : Nat)
  | poll_ci (slot : Nat)
  | poll_is (slot : Nat)
  | check
  /-- An assertion has failed. -/
  | panicked

/-- A call that has not returned. -/
structure PendingRead (C : CommandMemory) where
  call : ReadCall C
  /-- The memory when it was called, and whether the port had failed. The driver does not use
      them. -/
  before : Bytes × Bool
  phase : ReadPhase

inductive DevicePhase where
  | idle
  /-- Bytes of the command in the slot were brought to the buffer. -/
  | running (slot bytes : Nat)
  | halted
  deriving DecidableEq

inductive DiskEvent (C : CommandMemory) where
  | read (c : ReadCall C) (ok : Bool)
  /-- The rest of the kernel has changed the memory. -/
  | kernel (m : Bytes)

structure AhciState (C : CommandMemory) where
  mem : Bytes
  is : UInt32
  ci : UInt32
  sact : UInt32
  tfd : UInt32
  device : DevicePhase
  pending : Option (PendingRead C)
  log : List (DiskEvent C)

namespace AhciState

variable {C : CommandMemory} (s : AhciState C)

def enter (p : PendingRead C) (phase : ReadPhase) : AhciState C :=
  { s with pending := some { p with phase := phase } }

def leave (p : PendingRead C) (ok : Bool) : AhciState C :=
  { s with pending := none, log := s.log ++ [.read p.call ok] }

def write (q : BitField × Nat) : AhciState C := { s with mem := q.1.store q.2 s.mem }

/-- The next statement of `read`. There is none after a failed assertion, nor for a table in the
    image of the kernel, which is not part of this memory. -/
def driver_step (p : PendingRead C) : Option (AhciState C) :=
  match p.phase with
  | .clear_is =>
    -- the register clears the bits that are written as one
    some (enter { s with is := s.is &&& ~~~0xffffffff } p .find_slot)
  | .find_slot =>
    match find_cmdslot_loop (s.sact ||| s.ci) 0 32 with
    | none => some (s.leave p false)
    | some slot =>
      if C.cmdheader_phy < IDENTITY_MAP_PHY_END then
        some (s.enter p (.header slot (p.call.header_stores slot)))
      else some (s.enter p .panicked)
  | .header slot (q :: todo) => some ((s.write q).enter p (.header slot todo))
  | .header slot [] =>
    let tbl := table_addr s.mem (C.header slot)
    if tbl < IDENTITY_MAP_PHY_START then none
    else if tbl < IDENTITY_MAP_PHY_END then
      some (s.enter p (.table slot (p.call.table_stores tbl)))
    else some (s.enter p .panicked)
  | .table slot (q :: todo) => some ((s.write q).enter p (.table slot todo))
  | .table slot [] => some (s.enter p (.wait slot 0))
  | .wait slot spin =>
    if s.tfd &&& (ATA_DEV_BUSY ||| ATA_DEV_DRQ) ≠ 0 ∧ spin < 1000000 then
      some (s.enter p (.wait slot (spin + 1)))
    else if spin = 1000000 then some (s.leave p false)
    else some (s.enter p (.issue slot))
  | .issue slot =>
    -- the register sets the bits that are written as one
    some (enter { s with ci := s.ci ||| slot_bit slot } p (.poll_ci slot))
  | .poll_ci slot =>
    if s.ci &&& slot_bit slot = 0 then some (s.enter p .check) else some (s.enter p (.poll_is slot))
  | .poll_is slot =>
    if s.is &&& HBA_PxIS_TFES ≠ 0 then some (s.leave p false)
    else some (s.enter p (.poll_ci slot))
  | .check => some (s.leave p (decide (s.is &&& HBA_PxIS_TFES = 0)))
  | .panicked => none

/-- The command that the device works on, as it is in the memory now. -/
def command (slot : Nat) : FIS_REG_H2D × List HBA_PRDT_ENTRY := fetch s.mem (C.header slot)

/-- The device brings the byte `k` of the command to its place. -/
def transfer (disk : Nat → UInt8) (slot k : Nat) : Bytes :=
  match locate ((s.command slot).2.map (·.region)) k with
  | some a => overwrite s.mem a 1 (fun _ => disk (512 * (s.command slot).1.lba + k))
  | none => s.mem

end AhciState

inductive AhciLabel (C : CommandMemory) where
  | call (c : ReadCall C)
  | driver
  | kernel (m : Bytes)
  /-- The device shows a status, or another interrupt. -/
  | status (is sact tfd : UInt32)
  | start (slot : Nat)
  | transfer
  | complete
  /-- The bit of the command may be cleared or not. -/
  | fail (cleared : Bool)

/-- The driver and the device, in any order. -/
def ahci_system (C : CommandMemory) (disk : Nat → UInt8) : System (AhciState C) (AhciLabel C) where
  init := fun s => C.Wired s.mem ∧ s.ci = 0 ∧ s.device = .idle ∧ s.pending = none ∧ s.log = []
  step := fun s l s' =>
    match l with
    | .call c => s.pending = none ∧
        s' = { s with pending := some ⟨c, (s.mem, s.device = .halted), .clear_is⟩ }
    | .driver => ∃ p, s.pending = some p ∧ s.driver_step p = some s'
    | .kernel m => s.pending = none ∧ (∀ x ∈ C.area, m x = s.mem x) ∧
        s' = { s with mem := m, log := s.log ++ [.kernel m] }
    | .status is sact tfd => is &&& HBA_PxIS_TFES = 0 ∧
        s' = { s with is := s.is ||| is, sact := sact, tfd := tfd }
    | .start slot => slot < 32 ∧ s.device = .idle ∧ Issued s.ci slot ∧
        s' = { s with device := .running slot 0 }
    | .transfer => ∃ slot k, s.device = .running slot k ∧ k < 512 * (s.command slot).1.count ∧
        s' = { s with mem := s.transfer disk slot k, device := .running slot (k + 1) }
    | .complete => ∃ slot k, s.device = .running slot k ∧ k = 512 * (s.command slot).1.count ∧
        s' = { s with
          mem := (HBA_CMD_HEADER.prdbc_bits.at_address (C.header slot)).store k s.mem
          device := .idle
          ci := s.ci &&& ~~~slot_bit slot }
    | .fail cleared => ∃ slot k, s.device = .running slot k ∧
        s' = { s with
          is := s.is ||| HBA_PxIS_TFES
          device := .halted
          ci := if cleared then s.ci &&& ~~~slot_bit slot else s.ci }

/-- Some of the steps as a function: those of a command that is issued, started and fails. -/
def AhciState.exec {C : CommandMemory} (s : AhciState C) : AhciLabel C → Option (AhciState C)
  | .call c =>
    if s.pending.isNone then
      some { s with pending := some ⟨c, (s.mem, s.device = .halted), .clear_is⟩ }
    else none
  | .driver => s.pending.bind s.driver_step
  | .start slot =>
    if slot < 32 ∧ s.device = .idle ∧ Issued s.ci slot then
      some { s with device := .running slot 0 }
    else none
  | .fail cleared =>
    match s.device with
    | .running slot _ => some { s with
        is := s.is ||| HBA_PxIS_TFES
        device := .halted
        ci := if cleared then s.ci &&& ~~~slot_bit slot else s.ci }
    | _ => none
  | _ => none

theorem AhciState.step_of_exec {C : CommandMemory} {disk : Nat → UInt8} (s : AhciState C)
    (l : AhciLabel C) (s' : AhciState C) (h : s.exec l = some s') :
    (ahci_system C disk).step s l s' := by
  cases l with
  | call c =>
    obtain ⟨hpending, h⟩ := Option.ite_none_right_eq_some.mp h
    exact ⟨Option.isNone_iff_eq_none.mp hpending, (Option.some_inj.mp h).symm⟩
  | driver => exact Option.bind_eq_some_iff.mp h
  | start slot =>
    obtain ⟨⟨hslot, hdevice, hissued⟩, h⟩ := Option.ite_none_right_eq_some.mp h
    exact ⟨hslot, hdevice, hissued, (Option.some_inj.mp h).symm⟩
  | fail cleared =>
    rw [AhciState.exec] at h
    split at h
    · rename_i slot k hdevice
      exact ⟨slot, k, hdevice, (Option.some_inj.mp h).symm⟩
    · cases h
  | kernel m => cases h
  | status is sact tfd => cases h
  | transfer => cases h
  | complete => cases h

/-! ## Calls as single steps -/

/-- A call that happens at once. The state is the memory, and whether the port has failed. -/
structure AtomicRead {C : CommandMemory} (disk : Nat → UInt8) (c : ReadCall C) (ok : Bool)
    (a a' : Bytes × Bool) : Prop where
  /-- The result and the memory are those of `read`, for a port that behaves in some way. -/
  refines : ∃ port m,
    Modern05.read port disk a.1 c.startl c.starth c.count c.buf_phy_addr = some (ok, m) ∧
      ChangesOnly C.area m a'.1
  buffer : ChangesOnly (c.buffer ∪ C.area) a.1 a'.1
  /-- The call was refused by the driver. -/
  refused : ok = false → a'.2 = false → ChangesOnly C.area a.1 a'.1
  after_error : a.2 = true → ok = false ∧ a'.2 = true ∧ ChangesOnly C.area a.1 a'.1

def disk_spec (C : CommandMemory) (disk : Nat → UInt8) : System (Bytes × Bool) (DiskEvent C) where
  init := fun a => a.2 = false
  step := fun a e a' =>
    match e with
    | .read c ok => AtomicRead disk c ok a a'
    | .kernel m => (∀ x ∈ C.area, m x = a.1 x) ∧ a' = (m, a.2)

/-- The memory before the call that has not returned, and whether the port had failed. -/
def AhciState.settled {C : CommandMemory} (s : AhciState C) : Bytes × Bool :=
  match s.pending with
  | none => (s.mem, s.device = .halted)
  | some p => p.before

/-! ## Facts about commands -/

section commands

variable {C : CommandMemory} {c : ReadCall C} {m m' : Bytes} {slot : Nat}

theorem CommandMemory.table_subset (hslot : slot < 32) : C.table slot ⊆ C.area :=
  fun _ hx => .inr ⟨slot, hslot, hx⟩

theorem CommandMemory.header_subset (hslot : slot < 32) :
    Set.Ico (C.header slot) (C.header slot + sizeof_HBA_CMD_HEADER) ⊆ C.headers := by
  unfold CommandMemory.header CommandMemory.headers sizeof_HBA_CMD_HEADER
  exact Set.Ico_subset_Ico (by omega) (by omega)

theorem CommandMemory.headers_subset : C.headers ⊆ C.area := Set.subset_union_left

theorem CommandMemory.sameOrApart (C : CommandMemory) (i j : Nat) :
    SameOrApart (C.header i) (C.header j) := by
  unfold SameOrApart CommandMemory.header sizeof_HBA_CMD_HEADER
  omega

/-- The addresses of the tables are in the headers. -/
theorem table_addr_congr {hdr : Nat}
    (h : ∀ x ∈ Set.Ico hdr (hdr + sizeof_HBA_CMD_HEADER), m' x = m x) :
    table_addr m' hdr = table_addr m hdr := by
  have hmember {f : BitField} (hf : f.Inside sizeof_HBA_CMD_HEADER) :
      (f.at_address hdr).load m' = (f.at_address hdr).load m :=
    load_congr (inBytes_at_address hf hdr) h
  rw [table_addr, hmember (f := HBA_CMD_HEADER.ctba_bits) (by decide),
    hmember (f := HBA_CMD_HEADER.ctbau_bits) (by decide), table_addr]

theorem prdt_length_congr {hdr : Nat}
    (h : ∀ x ∈ Set.Ico hdr (hdr + sizeof_HBA_CMD_HEADER), m' x = m x) :
    prdt_length m' hdr = prdt_length m hdr :=
  load_congr (inBytes_at_address (by decide) hdr) h

theorem CommandMemory.Wired.of_headers (h : C.Wired m) (heq : ∀ x ∈ C.headers, m' x = m x) :
    C.Wired m' := by
  intro slot hslot
  rw [table_addr_congr fun x hx => heq x (C.header_subset hslot hx), h slot hslot]

/-- Assignments in front of the address of the table. -/
theorem CommandMemory.Wired.store (h : C.Wired m) {f : BitField} (hf : InFront f) (slot v : Nat) :
    C.Wired ((f.at_address (C.header slot)).store v m) := by
  intro i hi
  rw [table_addr_store hf (C.sameOrApart slot i), h i hi]

/-- The call has written its command to the slot. -/
structure Programmed (c : ReadCall C) (slot : Nat) (m : Bytes) : Prop where
  length : prdt_length m (C.header slot) = (prdtl c.count).toNat
  table : load_table m (C.cmdtbl_phy slot) (prdtl c.count).toNat = c.command

theorem Programmed.fetch (h : Programmed c slot m) (hm : C.Wired m) (hslot : slot < 32) :
    fetch m (C.header slot) = c.command := by
  rw [Modern05.fetch, hm slot hslot, h.length, h.table]

theorem Programmed.congr (h : Programmed c slot m) (hslot : slot < 32)
    (heq : ∀ x ∈ C.area, m' x = m x) : Programmed c slot m' := by
  have hsize : sizeof_HBA_PRDT_ENTRY * (prdtl c.count).toNat ≤
      sizeof_HBA_PRDT_ENTRY * C.prdt_max := Nat.mul_le_mul_left _ c.room
  have hoffset : sizeof_FIS_REG_H2D ≤ prdt_offset := by decide
  have htable : ∀ x ∈ C.table slot, m' x = m x := fun x hx => heq x (C.table_subset hslot hx)
  constructor
  · rw [prdt_length_congr fun x hx => heq x (C.headers_subset (C.header_subset hslot hx)),
      h.length]
  · rw [← h.table, load_table, load_table]
    congr 1
    · apply load_fis_congr
      intro x hx
      rw [Set.mem_Ico] at hx
      exact htable x ⟨hx.1, by omega⟩
    · apply load_prdt_congr
      intro x hx
      rw [Set.mem_Ico] at hx
      exact htable x ⟨by omega, by omega⟩

/-! The command as a transfer: all of its bytes are in the buffer. -/

/-- The number of bytes that the command asks for. -/
def ReadCall.bytes (c : ReadCall C) : Nat := 512 * c.command.1.count

/-- The data that the command asks for. -/
def ReadCall.data (c : ReadCall C) (disk : Nat → UInt8) (k : Nat) : UInt8 :=
  disk (512 * c.command.1.lba + k)

theorem ReadCall.prdtl_pos (c : ReadCall C) : 1 ≤ (prdtl c.count).toNat := by
  rw [(build_prdt_spec c.count_pos c.count_le c.no_wrap).1]
  omega

theorem ReadCall.regions (c : ReadCall C) :
    c.command.2.map (·.region) = tiles 8192 (512 * transferred c.count.toNat)
      ((c.count.toNat - 1) / 16) c.buf_phy_addr.toNat :=
  programmed_prdt_regions c.count_pos c.count_le c.no_wrap

theorem ReadCall.bytes_le (c : ReadCall C) : 1 ≤ c.bytes ∧ c.bytes ≤ 512 * c.count.toNat := by
  obtain ⟨-, -, hleft⟩ := build_prdt_spec c.count_pos c.count_le c.no_wrap
  have hpos := c.count_pos
  have hcount : c.command.1.count = transferred c.count.toNat := by
    show (build_fis _ _ _).count = _
    rw [count_build_fis, hleft]
    rw [hleft, transferred]
    omega
  rw [ReadCall.bytes, hcount, transferred]
  omega

theorem ReadCall.consecutive (c : ReadCall C) :
    Consecutive c.buf_phy_addr.toNat (c.command.2.map (·.region)) ∧
      ((c.command.2.map (·.region)).map Prod.snd).sum = 512 * c.count.toNat := by
  have hpos := c.count_pos
  rw [c.regions, sum_tiles, transferred]
  exact ⟨consecutive_tiles, by omega⟩

/-- The byte `k` goes to its place in the buffer. -/
theorem ReadCall.locate (c : ReadCall C) {k : Nat} (hk : k < c.bytes) :
    Memory.locate (c.command.2.map (·.region)) k = some (c.buf_phy_addr.toNat + k) := by
  have hle := c.bytes_le.2
  exact locate_consecutive c.consecutive.1 (by rw [c.consecutive.2]; omega)

theorem ReadCall.mem_buffer (c : ReadCall C) {k : Nat} (hk : k < c.bytes) :
    c.buf_phy_addr.toNat + k ∈ c.buffer := by
  have hle := c.bytes_le.2
  exact ⟨Nat.le_add_right _ k, by omega⟩

theorem ReadCall.notMem_area (c : ReadCall C) {x : Nat} (hx : x ∈ c.buffer) : x ∉ C.area :=
  Set.disjoint_left.mp c.apart hx

/-- The whole command is one range of the buffer. -/
theorem ReadCall.execute (c : ReadCall C) (disk : Nat → UInt8) (m : Bytes) :
    Modern05.execute disk c.command.1 c.command.2 m =
      overwrite m c.buf_phy_addr.toNat c.bytes (c.data disk) := by
  rw [Modern05.execute, scatter_consecutive c.consecutive.1]
  · simp only [Nat.zero_add]
    rfl
  · rw [c.consecutive.2]
    exact c.bytes_le.2

end commands

end Modern05
