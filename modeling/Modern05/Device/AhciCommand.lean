import Modern05.Device.Ahci
import Modern05.Framework.Packed

/-! # The commands of the disk driver in memory

    `read` of `device/ahci.cpp` describes a command by assigning members of packed structures: the
    header of the slot, and the table that the header points to, with the command itself and the
    regions of the buffer. The device reads the same bytes.

    `load_table_stores` is the round trip: whatever was in the memory before, after the assignments
    the device finds the command that `build_fis` and `programmed_prdt` describe. The table stays
    where it was (`table_addr_store`), and nothing behind it is changed (`inBytes_table`).
-/

namespace Modern05

open Memory Bits Bits.BitField

/-! ## Structures -/

namespace HBA_CMD_HEADER

def cfl_bits : BitField := ⟨0, 5⟩
def w_bits : BitField := ⟨6, 1⟩
def prdtl_bits : BitField := ⟨16, 16⟩
def prdbc_bits : BitField := ⟨32, 32⟩
def ctba_bits : BitField := ⟨64, 32⟩
def ctbau_bits : BitField := ⟨96, 32⟩

end HBA_CMD_HEADER

def sizeof_HBA_CMD_HEADER : Nat := 32

namespace HBA_PRDT_ENTRY

def dba_bits : BitField := ⟨0, 32⟩
def dbau_bits : BitField := ⟨32, 32⟩
def dbc_bits : BitField := ⟨96, 22⟩
def i_bits : BitField := ⟨127, 1⟩

/-- The members that are assigned, in order. -/
def members (e : HBA_PRDT_ENTRY) : List (BitField × Nat) :=
  [(dba_bits, e.dba.toNat), (dbau_bits, e.dbau.toNat), (dbc_bits, e.dbc), (i_bits, e.i.toNat)]

end HBA_PRDT_ENTRY

def sizeof_HBA_PRDT_ENTRY : Nat := 16

namespace FIS_REG_H2D

def fis_type_bits : BitField := ⟨0, 8⟩
def c_bits : BitField := ⟨15, 1⟩
def command_bits : BitField := ⟨16, 8⟩
def lba0_bits : BitField := ⟨32, 8⟩
def lba1_bits : BitField := ⟨40, 8⟩
def lba2_bits : BitField := ⟨48, 8⟩
def device_bits : BitField := ⟨56, 8⟩
def lba3_bits : BitField := ⟨64, 8⟩
def lba4_bits : BitField := ⟨72, 8⟩
def lba5_bits : BitField := ⟨80, 8⟩
def countl_bits : BitField := ⟨96, 8⟩
def counth_bits : BitField := ⟨104, 8⟩

def members (fis : FIS_REG_H2D) : List (BitField × Nat) :=
  [(fis_type_bits, fis.fis_type.toNat), (c_bits, fis.c.toNat), (command_bits, fis.command.toNat),
    (lba0_bits, fis.lba0.toNat), (lba1_bits, fis.lba1.toNat), (lba2_bits, fis.lba2.toNat),
    (device_bits, fis.device.toNat), (lba3_bits, fis.lba3.toNat), (lba4_bits, fis.lba4.toNat),
    (lba5_bits, fis.lba5.toNat), (countl_bits, fis.countl.toNat), (counth_bits, fis.counth.toNat)]

end FIS_REG_H2D

def sizeof_FIS_REG_H2D : Nat := 20

/-- The offset of the regions in the table. -/
def prdt_offset : Nat := 0x80

/-! ## What the device reads -/

def load_prdt_entry (m : Bytes) (a : Nat) : HBA_PRDT_ENTRY where
  dba := UInt32.ofNat ((HBA_PRDT_ENTRY.dba_bits.at_address a).load m)
  dbau := UInt32.ofNat ((HBA_PRDT_ENTRY.dbau_bits.at_address a).load m)
  dbc := (HBA_PRDT_ENTRY.dbc_bits.at_address a).load m
  i := (HBA_PRDT_ENTRY.i_bits.at_address a).load m == 1

/-- The first `n` entries. -/
def load_prdt (m : Bytes) (a : Nat) : Nat → List HBA_PRDT_ENTRY
  | 0 => []
  | n + 1 => load_prdt_entry m a :: load_prdt m (a + sizeof_HBA_PRDT_ENTRY) n

def load_fis (m : Bytes) (a : Nat) : FIS_REG_H2D where
  fis_type := UInt8.ofNat ((FIS_REG_H2D.fis_type_bits.at_address a).load m)
  c := (FIS_REG_H2D.c_bits.at_address a).load m == 1
  command := UInt8.ofNat ((FIS_REG_H2D.command_bits.at_address a).load m)
  lba0 := UInt8.ofNat ((FIS_REG_H2D.lba0_bits.at_address a).load m)
  lba1 := UInt8.ofNat ((FIS_REG_H2D.lba1_bits.at_address a).load m)
  lba2 := UInt8.ofNat ((FIS_REG_H2D.lba2_bits.at_address a).load m)
  device := UInt8.ofNat ((FIS_REG_H2D.device_bits.at_address a).load m)
  lba3 := UInt8.ofNat ((FIS_REG_H2D.lba3_bits.at_address a).load m)
  lba4 := UInt8.ofNat ((FIS_REG_H2D.lba4_bits.at_address a).load m)
  lba5 := UInt8.ofNat ((FIS_REG_H2D.lba5_bits.at_address a).load m)
  countl := UInt8.ofNat ((FIS_REG_H2D.countl_bits.at_address a).load m)
  counth := UInt8.ofNat ((FIS_REG_H2D.counth_bits.at_address a).load m)

/-- The address of the table, as the header at `hdr` gives it. -/
def table_addr (m : Bytes) (hdr : Nat) : Nat :=
  (HBA_CMD_HEADER.ctba_bits.at_address hdr).load m +
    2 ^ 32 * (HBA_CMD_HEADER.ctbau_bits.at_address hdr).load m

/-- The number of entries of the table, as the header gives it. -/
def prdt_length (m : Bytes) (hdr : Nat) : Nat :=
  (HBA_CMD_HEADER.prdtl_bits.at_address hdr).load m

/-- The command and the regions in the table at `tbl`. -/
def load_table (m : Bytes) (tbl n : Nat) : FIS_REG_H2D × List HBA_PRDT_ENTRY :=
  (load_fis m tbl, load_prdt m (tbl + prdt_offset) n)

/-- The command of the header at `hdr`. -/
def fetch (m : Bytes) (hdr : Nat) : FIS_REG_H2D × List HBA_PRDT_ENTRY :=
  load_table m (table_addr m hdr) (prdt_length m hdr)

/-! ## What the driver writes -/

/-- The assignments to the header. -/
def header_members (count : UInt32) : List (BitField × Nat) :=
  [(HBA_CMD_HEADER.cfl_bits, sizeof_FIS_REG_H2D / 4), (HBA_CMD_HEADER.w_bits, 0),
    (HBA_CMD_HEADER.prdtl_bits, (prdtl count).toNat)]

def header_stores (hdr : Nat) (count : UInt32) : List (BitField × Nat) :=
  members_at (header_members count) hdr

def prdt_stores : Nat → List HBA_PRDT_ENTRY → List (BitField × Nat)
  | _, [] => []
  | a, e :: prdt => members_at e.members a ++ prdt_stores (a + sizeof_HBA_PRDT_ENTRY) prdt

/-- `memset`, as one assignment of zero to all bytes. -/
def memset_store (a n : Nat) : BitField × Nat := (at_address ⟨0, 8 * n⟩ a, 0)

/-- The assignments to the table: it is cleared, then come the regions, then the command. -/
def table_stores (tbl : Nat) (startl starth count : UInt32) (buf_phy_addr : UInt64) :
    List (BitField × Nat) :=
  memset_store tbl (prdt_offset + sizeof_HBA_PRDT_ENTRY * (prdtl count).toNat) ::
    (prdt_stores (tbl + prdt_offset) (build_prdt count buf_phy_addr).1 ++
      members_at (build_fis startl starth (build_prdt count buf_phy_addr).2).members tbl)

/-! ## Round trips -/

section round_trips

variable {m m' : Bytes} {a tbl hdr n : Nat}

theorem ofNat_byte {x : Nat} {b : UInt8} (h : x = b.toNat % 2 ^ 8) : UInt8.ofNat x = b := by
  rw [h, Nat.mod_eq_of_lt b.toNat_lt, UInt8.ofNat_toNat]

theorem ofNat_word {x : Nat} {w : UInt32} (h : x = w.toNat % 2 ^ 32) : UInt32.ofNat x = w := by
  rw [h, Nat.mod_eq_of_lt w.toNat_lt, UInt32.ofNat_toNat]

theorem beq_one_flag {x : Nat} {b : Bool} (h : x = b.toNat % 2 ^ 1) : (x == 1) = b := by
  subst h
  cases b <;> rfl

/-- **One region** is read back as it was assigned. -/
theorem load_prdt_entry_stores (e : HBA_PRDT_ENTRY) (hdbc : e.dbc < 2 ^ 22) (m : Bytes) (a : Nat) :
    load_prdt_entry (store_all (members_at e.members a) m) a = e := by
  have hapart : (e.members.map Prod.fst).Pairwise Apart := by
    show [HBA_PRDT_ENTRY.dba_bits, HBA_PRDT_ENTRY.dbau_bits, HBA_PRDT_ENTRY.dbc_bits,
      HBA_PRDT_ENTRY.i_bits].Pairwise Apart
    decide
  have hload := load_members hapart a m
  generalize store_all (members_at e.members a) m = m' at hload ⊢
  simp only [HBA_PRDT_ENTRY.members, List.forall_mem_cons] at hload
  obtain ⟨hdba, hdbau, hdbc', hi, -⟩ := hload
  rw [load_prdt_entry, ofNat_word hdba, ofNat_word hdbau, hdbc'.trans (Nat.mod_eq_of_lt hdbc),
    beq_one_flag hi]

/-- **The command** is read back as it was assigned. -/
theorem load_fis_stores (fis : FIS_REG_H2D) (m : Bytes) (a : Nat) :
    load_fis (store_all (members_at fis.members a) m) a = fis := by
  have hapart : (fis.members.map Prod.fst).Pairwise Apart := by
    show [FIS_REG_H2D.fis_type_bits, FIS_REG_H2D.c_bits, FIS_REG_H2D.command_bits,
      FIS_REG_H2D.lba0_bits, FIS_REG_H2D.lba1_bits, FIS_REG_H2D.lba2_bits,
      FIS_REG_H2D.device_bits, FIS_REG_H2D.lba3_bits, FIS_REG_H2D.lba4_bits,
      FIS_REG_H2D.lba5_bits, FIS_REG_H2D.countl_bits, FIS_REG_H2D.counth_bits].Pairwise Apart
    decide
  have hload := load_members hapart a m
  generalize store_all (members_at fis.members a) m = m' at hload ⊢
  simp only [FIS_REG_H2D.members, List.forall_mem_cons] at hload
  obtain ⟨hfis_type, hc, hcommand, hlba0, hlba1, hlba2, hdevice, hlba3, hlba4, hlba5, hcountl,
    hcounth, -⟩ := hload
  rw [load_fis, ofNat_byte hfis_type, beq_one_flag hc, ofNat_byte hcommand, ofNat_byte hlba0,
    ofNat_byte hlba1, ofNat_byte hlba2, ofNat_byte hdevice, ofNat_byte hlba3, ofNat_byte hlba4,
    ofNat_byte hlba5, ofNat_byte hcountl, ofNat_byte hcounth]

theorem inBytes_entry (e : HBA_PRDT_ENTRY) (a : Nat) :
    ∀ p ∈ members_at e.members a, p.1.InBytes a sizeof_HBA_PRDT_ENTRY := by
  apply inBytes_members_at
  simp only [HBA_PRDT_ENTRY.members, List.forall_mem_cons]
  exact ⟨by decide, by decide, by decide, by decide, List.forall_mem_nil _⟩

theorem inBytes_fis (fis : FIS_REG_H2D) (a : Nat) :
    ∀ p ∈ members_at fis.members a, p.1.InBytes a sizeof_FIS_REG_H2D := by
  apply inBytes_members_at
  simp only [FIS_REG_H2D.members, List.forall_mem_cons]
  exact ⟨by decide, by decide, by decide, by decide, by decide, by decide, by decide, by decide,
    by decide, by decide, by decide, by decide, List.forall_mem_nil _⟩

theorem inBytes_prdt (prdt : List HBA_PRDT_ENTRY) (a : Nat) :
    ∀ p ∈ prdt_stores a prdt, p.1.InBytes a (sizeof_HBA_PRDT_ENTRY * prdt.length) := by
  induction prdt generalizing a with
  | nil => exact List.forall_mem_nil _
  | cons e prdt ih =>
    intro p hp
    rw [List.length_cons, Nat.mul_succ]
    rcases List.mem_append.mp hp with hfirst | hrest
    · exact (inBytes_entry e a p hfirst).mono (by omega) (by omega)
    · exact (ih _ p hrest).mono (by omega) (by omega)

/-! What the device reads depends on the bytes of the structures. -/

theorem load_prdt_entry_congr (h : ∀ x ∈ Set.Ico a (a + sizeof_HBA_PRDT_ENTRY), m' x = m x) :
    load_prdt_entry m' a = load_prdt_entry m a := by
  have hmember {f : BitField} (hf : f.Inside sizeof_HBA_PRDT_ENTRY) :
      (f.at_address a).load m' = (f.at_address a).load m :=
    load_congr (inBytes_at_address hf a) h
  simp only [load_prdt_entry, hmember (f := HBA_PRDT_ENTRY.dba_bits) (by decide),
    hmember (f := HBA_PRDT_ENTRY.dbau_bits) (by decide),
    hmember (f := HBA_PRDT_ENTRY.dbc_bits) (by decide),
    hmember (f := HBA_PRDT_ENTRY.i_bits) (by decide)]

theorem load_prdt_congr (h : ∀ x ∈ Set.Ico a (a + sizeof_HBA_PRDT_ENTRY * n), m' x = m x) :
    load_prdt m' a n = load_prdt m a n := by
  induction n generalizing a with
  | zero => rfl
  | succ n ih =>
    rw [Nat.mul_succ] at h
    have hfirst : load_prdt_entry m' a = load_prdt_entry m a := by
      apply load_prdt_entry_congr
      intro x hx
      rw [Set.mem_Ico] at hx
      exact h x ⟨hx.1, by omega⟩
    have hrest : load_prdt m' (a + sizeof_HBA_PRDT_ENTRY) n =
        load_prdt m (a + sizeof_HBA_PRDT_ENTRY) n := by
      apply ih
      intro x hx
      rw [Set.mem_Ico] at hx
      exact h x ⟨by omega, by omega⟩
    rw [load_prdt, load_prdt, hfirst, hrest]

theorem load_fis_congr (h : ∀ x ∈ Set.Ico a (a + sizeof_FIS_REG_H2D), m' x = m x) :
    load_fis m' a = load_fis m a := by
  have hmember {f : BitField} (hf : f.Inside sizeof_FIS_REG_H2D) :
      (f.at_address a).load m' = (f.at_address a).load m :=
    load_congr (inBytes_at_address hf a) h
  simp only [load_fis, hmember (f := FIS_REG_H2D.fis_type_bits) (by decide),
    hmember (f := FIS_REG_H2D.c_bits) (by decide),
    hmember (f := FIS_REG_H2D.command_bits) (by decide),
    hmember (f := FIS_REG_H2D.lba0_bits) (by decide),
    hmember (f := FIS_REG_H2D.lba1_bits) (by decide),
    hmember (f := FIS_REG_H2D.lba2_bits) (by decide),
    hmember (f := FIS_REG_H2D.device_bits) (by decide),
    hmember (f := FIS_REG_H2D.lba3_bits) (by decide),
    hmember (f := FIS_REG_H2D.lba4_bits) (by decide),
    hmember (f := FIS_REG_H2D.lba5_bits) (by decide),
    hmember (f := FIS_REG_H2D.countl_bits) (by decide),
    hmember (f := FIS_REG_H2D.counth_bits) (by decide)]

/-- **The regions** are read back as they were assigned. The induction is over the table: the
    entries behind the first one are assigned after it and do not touch it. -/
theorem load_prdt_stores (prdt : List HBA_PRDT_ENTRY) (hdbc : ∀ e ∈ prdt, e.dbc < 2 ^ 22)
    (m : Bytes) (a : Nat) :
    load_prdt (store_all (prdt_stores a prdt) m) a prdt.length = prdt := by
  induction prdt generalizing m a with
  | nil => rfl
  | cons e prdt ih =>
    rw [List.forall_mem_cons] at hdbc
    rw [prdt_stores, store_all_append, List.length_cons, load_prdt, ih hdbc.2]
    have hfirst : load_prdt_entry
        (store_all (prdt_stores (a + sizeof_HBA_PRDT_ENTRY) prdt)
          (store_all (members_at e.members a) m)) a =
        load_prdt_entry (store_all (members_at e.members a) m) a := by
      apply load_prdt_entry_congr
      intro x hx
      apply changesOnly_store_all (inBytes_prdt prdt _)
      rw [Set.mem_Ico] at hx ⊢
      omega
    rw [hfirst, load_prdt_entry_stores e hdbc.1]

/-! ## The table and the header -/

theorem length_prdt_loop (n : Nat) (buf : UInt64) (count : UInt32) :
    (prdt_loop n buf count).1.length = n := by
  induction n generalizing buf count with
  | zero => rfl
  | succ n ih => exact congrArg Nat.succ (ih _ _)

theorem length_build_prdt (count : UInt32) (buf : UInt64) :
    (build_prdt count buf).1.length = (prdtl count).toNat - 1 + 1 := by
  show ((prdt_loop _ buf count).1 ++ [_]).length = _
  rw [List.length_append, length_prdt_loop]
  rfl

theorem dbc_lt_of_mem_loop {n : Nat} {buf : UInt64} {count : UInt32} :
    ∀ e ∈ (prdt_loop n buf count).1, e.dbc < 2 ^ 22 := by
  induction n generalizing buf count with
  | zero => exact List.forall_mem_nil _
  | succ n ih => exact List.forall_mem_cons.mpr ⟨Nat.mod_lt _ (by decide), ih⟩

theorem dbc_lt_of_mem (count : UInt32) (buf : UInt64) :
    ∀ e ∈ (build_prdt count buf).1, e.dbc < 2 ^ 22 := by
  intro e he
  rcases List.mem_append.mp he with hloop | hlast
  · exact dbc_lt_of_mem_loop e hloop
  · rw [List.mem_singleton.mp hlast]
    exact Nat.mod_lt _ (by decide)

/-- The device reads the entries that the header counts. That is all of the table, or nothing. -/
theorem load_prdt_programmed (count : UInt32) (buf : UInt64) (m : Bytes) (a : Nat) :
    load_prdt (store_all (prdt_stores a (build_prdt count buf).1) m) a (prdtl count).toNat =
      programmed_prdt count buf := by
  have hlength := length_build_prdt count buf
  by_cases hzero : (prdtl count).toNat = 0
  · rw [programmed_prdt, hzero]
    rfl
  · have hall : (build_prdt count buf).1.length = (prdtl count).toNat := by omega
    rw [programmed_prdt, ← hall, load_prdt_stores _ (dbc_lt_of_mem count buf), List.take_length]

/-- **The table** that the driver writes is the one that the device reads. -/
theorem load_table_stores (startl starth count : UInt32) (buf : UInt64) (m : Bytes) (tbl : Nat) :
    load_table (store_all (table_stores tbl startl starth count buf) m) tbl (prdtl count).toNat =
      (build_fis startl starth (build_prdt count buf).2, programmed_prdt count buf) := by
  generalize hprdt : prdt_stores (tbl + prdt_offset) (build_prdt count buf).1 = prdt
  have hstores : ∃ m', store_all (table_stores tbl startl starth count buf) m =
      store_all (members_at (build_fis startl starth (build_prdt count buf).2).members tbl)
        (store_all prdt m') := by
    rw [table_stores, hprdt]
    generalize memset_store tbl _ = p
    exact ⟨p.1.store p.2 m, store_all_append _ _ _⟩
  obtain ⟨m', hstores⟩ := hstores
  rw [hstores, load_table, load_fis_stores, ← load_prdt_programmed count buf m', hprdt]
  congr 1
  -- the command comes last and is in front of the regions
  apply load_prdt_congr
  intro x hx
  apply changesOnly_store_all (inBytes_fis _ tbl)
  rw [Set.mem_Ico] at hx ⊢
  have hoffset : sizeof_FIS_REG_H2D ≤ prdt_offset := by decide
  omega

theorem inBytes_table (startl starth count : UInt32) (buf : UInt64) (tbl : Nat) {n : Nat}
    (hpos : 1 ≤ (prdtl count).toNat) (hn : (prdtl count).toNat ≤ n) :
    ∀ p ∈ table_stores tbl startl starth count buf,
      p.1.InBytes tbl (prdt_offset + sizeof_HBA_PRDT_ENTRY * n) := by
  have hlength := length_build_prdt count buf
  have hsize : sizeof_HBA_PRDT_ENTRY * (prdtl count).toNat ≤ sizeof_HBA_PRDT_ENTRY * n :=
    Nat.mul_le_mul_left _ hn
  have hoffset : sizeof_FIS_REG_H2D ≤ prdt_offset := by decide
  have hall : (build_prdt count buf).1.length = (prdtl count).toNat := by omega
  intro p hp
  rcases List.mem_cons.mp hp with rfl | hp
  · have hmemset : (⟨0, 8 * (prdt_offset + sizeof_HBA_PRDT_ENTRY * (prdtl count).toNat)⟩ :
        BitField).Inside (prdt_offset + sizeof_HBA_PRDT_ENTRY * (prdtl count).toNat) :=
      Nat.le_of_eq (Nat.zero_add _)
    exact (inBytes_at_address hmemset tbl).mono (by omega) (by omega)
  · rcases List.mem_append.mp hp with hprdt | hfis
    · have hbytes := inBytes_prdt _ _ p hprdt
      rw [hall] at hbytes
      exact hbytes.mono (by omega) (by omega)
    · exact (inBytes_fis _ tbl p hfis).mono (by omega) (by omega)

/-- The members in front of the address of the table. -/
def InFront (f : BitField) : Prop := f.start + f.width ≤ HBA_CMD_HEADER.ctba_bits.start

instance : DecidablePred InFront := fun f =>
  inferInstanceAs (Decidable (f.start + f.width ≤ HBA_CMD_HEADER.ctba_bits.start))

/-- Headers are equal or share no byte. -/
def SameOrApart (hdr hdr' : Nat) : Prop :=
  hdr = hdr' ∨ hdr + sizeof_HBA_CMD_HEADER ≤ hdr' ∨ hdr' + sizeof_HBA_CMD_HEADER ≤ hdr

/-- Assignments to the members in front of it leave the address of every table. -/
theorem table_addr_store {f : BitField} (hf : InFront f) {hdr' : Nat} (h : SameOrApart hdr hdr')
    (v : Nat) (m : Bytes) : table_addr ((f.at_address hdr).store v m) hdr' = table_addr m hdr' := by
  have hf : f.start + f.width ≤ 64 := hf
  have hsize : sizeof_HBA_CMD_HEADER = 32 := rfl
  unfold SameOrApart at h
  have hapart {g : BitField} (hg : 64 ≤ g.start ∧ g.start + g.width ≤ 256) :
      (f.at_address hdr).Apart (g.at_address hdr') := by
    show 8 * hdr + f.start + f.width ≤ 8 * hdr' + g.start ∨
      8 * hdr' + g.start + g.width ≤ 8 * hdr + f.start
    omega
  rw [table_addr, load_store_of_apart (hapart (by decide)),
    load_store_of_apart (hapart (by decide)), table_addr]

theorem inFront_header_members (count : UInt32) : ∀ p ∈ header_members count, InFront p.1 := by
  simp only [header_members, List.forall_mem_cons]
  exact ⟨by decide, by decide, by decide, List.forall_mem_nil _⟩

/-- The number of entries that the driver writes to the header. -/
theorem prdt_length_stores (hdr : Nat) (count : UInt32) (m : Bytes) :
    prdt_length (store_all (header_stores hdr count) m) hdr = (prdtl count).toNat := by
  have hapart : ((header_members count).map Prod.fst).Pairwise Apart := by
    show [HBA_CMD_HEADER.cfl_bits, HBA_CMD_HEADER.w_bits,
      HBA_CMD_HEADER.prdtl_bits].Pairwise Apart
    decide
  have hmem : (HBA_CMD_HEADER.prdtl_bits, (prdtl count).toNat) ∈ header_members count := by
    simp [header_members]
  exact (load_members hapart hdr m _ hmem).trans (Nat.mod_eq_of_lt (prdtl count).toNat_lt)

end round_trips

end Modern05
