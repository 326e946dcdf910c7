import Modern05.Framework.Loop
import Modern05.Framework.Memory
import Modern05.Lib.Utils

/-! # The table of interrupt controllers

    The loop of `ioapic_init` in `device/rtl8139.cpp` over the entries of the ACPI table of the
    interrupt controllers, up to the first I/O APIC. Each entry starts with its type and its length,
    and the code takes both as they are.

    * `WellFormed`: the table is a sequence of entries. `scan_of_wellFormed`: the scan of such a
      table selects the first I/O APIC, and every header it comes to is in the table.
    * `madt_scan_total_iff`: for any bytes, when the scan ends and stays in the table.
-/

namespace Modern05

open Loop Memory

namespace Madt

/-! ## The code -/

def sizeof_SystemDescriptionTable : Nat := 36

/-- The field `length` of the table. -/
def table_length (table : Bytes) : Nat := load_le table 4 4

/-- `table->length - sizeof(SystemDescriptionTable) - 8`, which is a 64-bit number. -/
def rest (table : Bytes) : Nat :=
  u64_sub (u64_sub (table_length table) sizeof_SystemDescriptionTable) 8

/-- Where the entries start: `table->data + 8`. -/
def p : Nat := sizeof_SystemDescriptionTable + 8

def entry_type (table : Bytes) (offset : Nat) : UInt8 := table (p + offset)
def len (table : Bytes) (offset : Nat) : UInt8 := table (p + offset + 1)

/-- The body of the loop. The result is the address and the first interrupt of the I/O APIC, zero if
    there is none. -/
def scan_round (table : Bytes) (offset : Nat) : Outcome Nat (Nat × Nat) :=
  if offset < rest table then
    -- IO APIC
    if entry_type table offset = 1 then
      .done (load_le table (p + offset + 4) 4, load_le table (p + offset + 8) 4)
    else
      .next ((offset + (len table offset).toNat) % 2 ^ 64)
  else
    .done (0, 0)

/-- `ioapic0_phy_addr` and `ioapic0_gsb` after the loop, if at most `fuel` rounds are enough. -/
def scan (table : Bytes) (fuel : Nat) : Option (Nat × Nat) := run (scan_round table) fuel 0

/-- The bytes of the table that a round reads. -/
def round_reads (table : Bytes) (offset : Nat) : Set Nat :=
  {x | offset < rest table ∧ (x = p + offset ∨ x = p + offset + 1 ∨
    entry_type table offset = 1 ∧ (x = p + offset + 2 ∨
      x ∈ Set.Ico (p + offset + 4) (p + offset + 8) ∨
      x ∈ Set.Ico (p + offset + 8) (p + offset + 12)))}

/-- The bytes that the loop reads. -/
def scan_reads (table : Bytes) : Set Nat :=
  {x | ∃ offset, Visits (scan_round table) 0 offset ∧ x ∈ round_reads table offset}

/-! ## Entries -/

/-- An entry: its type and what follows the length. -/
structure Entry where
  type : UInt8
  body : List UInt8
  deriving DecidableEq, Repr

def Entry.length (e : Entry) : Nat := e.body.length + 2

def Entry.encode (e : Entry) : List UInt8 := e.type :: UInt8.ofNat e.length :: e.body

/-- The length fits in its byte, and an I/O APIC has all its fields. -/
def Entry.Valid (e : Entry) : Prop := e.length < 256 ∧ (e.type = 1 → 12 ≤ e.length)

/-- The address and the first interrupt of an I/O APIC. -/
def Entry.ioapic (e : Entry) : Nat × Nat :=
  (load_le (fun i => e.body.getD i 0) 2 4, load_le (fun i => e.body.getD i 0) 6 4)

def encode_all (es : List Entry) : List UInt8 := es.flatMap Entry.encode

/-- The first I/O APIC. -/
def first_ioapic (es : List Entry) : Option Entry := es.find? (fun e => e.type = 1)

/-- What the scan should select. -/
def selected (es : List Entry) : Nat × Nat := ((first_ioapic es).map Entry.ioapic).getD (0, 0)

/-- The table consists of the entries. -/
structure WellFormed (table : Bytes) (es : List Entry) : Prop where
  valid : ∀ e ∈ es, e.Valid
  length : table_length table = p + (encode_all es).length
  bytes : bytes table p (encode_all es).length = encode_all es

/-! ## Headers -/

/-- The header at an offset and the fields of an I/O APIC are in the table, and it has a length. -/
structure HeaderFits (table : Bytes) (offset : Nat) : Prop where
  header : p + offset + 2 ≤ table_length table
  ioapic : entry_type table offset = 1 → p + offset + 12 ≤ table_length table
  advances : entry_type table offset ≠ 1 → len table offset ≠ 0

/-- All headers that the scan comes to are right. -/
def HeadersFit (table : Bytes) : Prop :=
  p ≤ table_length table ∧ ∀ offset, Visits (scan_round table) 0 offset →
    p + offset < table_length table → HeaderFits table offset

variable {table : Bytes} {offset : Nat}

theorem table_length_lt (table : Bytes) : table_length table < 2 ^ 32 := load_le_lt table 4 4

theorem rest_eq (h : p ≤ table_length table) : rest table = table_length table - p := by
  have hlt := table_length_lt table
  unfold p sizeof_SystemDescriptionTable at h
  unfold rest u64_sub p sizeof_SystemDescriptionTable
  omega

/-- The difference wraps for a table that is too short. -/
theorem rest_pos_of_short (h : table_length table < p) : 0 < rest table := by
  have hlt := table_length_lt table
  unfold p sizeof_SystemDescriptionTable at h
  unfold rest u64_sub sizeof_SystemDescriptionTable
  omega

theorem lt_rest_iff (h : p ≤ table_length table) :
    offset < rest table ↔ p + offset < table_length table := by
  rw [rest_eq h]
  omega

/-- **The next header** of a table that is long enough. -/
theorem scan_round_next (h : p ≤ table_length table) (hlt : p + offset < table_length table)
    (htype : entry_type table offset ≠ 1) :
    scan_round table offset = .next (offset + (len table offset).toNat) := by
  have hlength := table_length_lt table
  have hbyte := (len table offset).toNat_lt
  have hmod : (offset + (len table offset).toNat) % 2 ^ 64 = offset + (len table offset).toNat :=
    Nat.mod_eq_of_lt (by omega)
  unfold scan_round
  rw [if_pos ((lt_rest_iff h).mpr hlt), if_neg htype, hmod]

theorem scan_round_ioapic (h : p ≤ table_length table) (hlt : p + offset < table_length table)
    (htype : entry_type table offset = 1) :
    scan_round table offset =
      .done (load_le table (p + offset + 4) 4, load_le table (p + offset + 8) 4) := by
  unfold scan_round
  rw [if_pos ((lt_rest_iff h).mpr hlt), if_pos htype]

theorem scan_round_end (h : p ≤ table_length table) (hle : table_length table ≤ p + offset) :
    scan_round table offset = .done (0, 0) := by
  unfold scan_round
  rw [if_neg]
  rw [lt_rest_iff h]
  omega

/-! ## Any table -/

/-- **The scan of a table with right headers ends.** -/
theorem HeadersFit.terminates (h : HeadersFit table) : Terminates (scan_round table) 0 := by
  obtain ⟨hlong, hheaders⟩ := h
  have hlength := table_length_lt table
  -- the offset grows, up to the first one behind the table
  apply terminates_of_decreasing (fun offset => 2 ^ 33 - offset)
  intro offset next hvisits hnext
  by_cases hlt : p + offset < table_length table
  · by_cases htype : entry_type table offset = 1
    · rw [scan_round_ioapic hlong hlt htype] at hnext
      cases hnext
    · rw [scan_round_next hlong hlt htype] at hnext
      cases hnext
      have hzero := (hheaders offset hvisits hlt).advances htype
      have hpos : (len table offset).toNat ≠ 0 := fun hnat => hzero (UInt8.toNat_inj.mp hnat)
      have hbyte := (len table offset).toNat_lt
      omega
  · rw [scan_round_end hlong (by omega)] at hnext
    cases hnext

/-- It reads bytes of the table only. -/
theorem HeadersFit.reads (h : HeadersFit table) :
    ∀ x ∈ scan_reads table, x < table_length table := by
  obtain ⟨hlong, hheaders⟩ := h
  intro x ⟨offset, hvisits, hlt, hx⟩
  have hfits := hheaders offset hvisits ((lt_rest_iff hlong).mp hlt)
  have hheader := hfits.header
  rcases hx with hx | hx | ⟨htype, hx⟩
  · omega
  · omega
  · have hioapic := hfits.ioapic htype
    rcases hx with hx | hx | hx
    · omega
    · have hend := hx.2
      omega
    · have hend := hx.2
      omega

/-- A scan that ends and stays in the table has come to right headers. -/
theorem headersFit_of_scan (hterm : Terminates (scan_round table) 0)
    (hreads : ∀ x ∈ scan_reads table, x < table_length table) : HeadersFit table := by
  have hlong : p ≤ table_length table := by
    by_contra hshort
    have hpos := rest_pos_of_short (Nat.not_le.mp hshort)
    have hfirst := hreads p ⟨0, .refl, hpos, .inl rfl⟩
    omega
  refine ⟨hlong, fun offset hvisits hlt => ?_⟩
  have hread : ∀ x ∈ round_reads table offset, x < table_length table :=
    fun x hx => hreads x ⟨offset, hvisits, hx⟩
  have hrest := (lt_rest_iff hlong).mpr hlt
  refine ⟨?_, fun htype => ?_, fun htype hzero => ?_⟩
  · have hlen := hread (p + offset + 1) ⟨hrest, .inr (.inl rfl)⟩
    omega
  · have hlast := hread (p + offset + 11)
      ⟨hrest, .inr (.inr ⟨htype, .inr (.inr ⟨by omega, by omega⟩)⟩)⟩
    omega
  · -- an entry of length zero is its own successor
    have hself : scan_round table offset = .next offset := by
      rw [scan_round_next hlong hlt htype, hzero]
      rfl
    exact hterm.not_cyclic hvisits (.single hself)

/-! ## Tables of entries -/

variable {e : Entry} {es : List Entry}

theorem Entry.length_encode (e : Entry) : e.encode.length = e.length := rfl

theorem encode_all_cons (e : Entry) (es : List Entry) :
    encode_all (e :: es) = e.encode ++ encode_all es := rfl

theorem length_encode_all_cons (e : Entry) (es : List Entry) :
    (encode_all (e :: es)).length = e.length + (encode_all es).length := by
  rw [encode_all_cons, List.length_append, e.length_encode]

/-- The entries from an offset on, up to the end of the table. -/
structure EntriesAt (table : Bytes) (offset : Nat) (es : List Entry) : Prop where
  valid : ∀ e ∈ es, e.Valid
  length : table_length table = p + offset + (encode_all es).length
  bytes : bytes table (p + offset) (encode_all es).length = encode_all es

theorem WellFormed.entriesAt (h : WellFormed table es) : EntriesAt table 0 es :=
  ⟨h.valid, h.length, h.bytes⟩

namespace EntriesAt

theorem tail (h : EntriesAt table offset (e :: es)) : EntriesAt table (offset + e.length) es := by
  have hlength := h.length
  have hbytes := h.bytes
  rw [length_encode_all_cons] at hlength
  rw [length_encode_all_cons, bytes_add, encode_all_cons] at hbytes
  have hsplit := List.append_inj hbytes (by rw [length_bytes, e.length_encode])
  refine ⟨fun e' he' => h.valid e' (List.mem_cons_of_mem e he'), by omega, ?_⟩
  rw [← Nat.add_assoc]
  exact hsplit.2

/-- The bytes of the first entry. -/
theorem head (h : EntriesAt table offset (e :: es)) {i : Nat} (hi : i < e.length) :
    table (p + offset + i) = e.encode.getD i 0 := by
  have hbytes := h.bytes
  rw [length_encode_all_cons, bytes_add, encode_all_cons] at hbytes
  have hsplit := List.append_inj hbytes (by rw [length_bytes, e.length_encode])
  exact getD_of_bytes hsplit.1 hi

theorem entry_type_eq (h : EntriesAt table offset (e :: es)) : entry_type table offset = e.type :=
  h.head (i := 0) (by unfold Entry.length; omega)

theorem len_eq (h : EntriesAt table offset (e :: es)) : (len table offset).toNat = e.length := by
  have hlen : len table offset = UInt8.ofNat e.length :=
    h.head (i := 1) (by unfold Entry.length; omega)
  have hvalid := (h.valid e List.mem_cons_self).1
  rw [hlen, UInt8.toNat_ofNat']
  exact Nat.mod_eq_of_lt hvalid

/-- The fields of an I/O APIC. -/
theorem ioapic_eq (h : EntriesAt table offset (e :: es)) (htype : e.type = 1) :
    (load_le table (p + offset + 4) 4, load_le table (p + offset + 8) 4) = e.ioapic := by
  have hlength := (h.valid e List.mem_cons_self).2 htype
  have hfield : ∀ k, k + 4 ≤ e.length - 2 → load_le table (p + offset + (k + 2)) 4 =
      load_le (fun i => e.body.getD i 0) k 4 := by
    intro k hk
    refine load_le_congr fun i hi => ?_
    have hbyte := h.head (i := k + 2 + i) (by omega)
    rw [Nat.add_assoc, hbyte]
    show (e.type :: UInt8.ofNat e.length :: e.body).getD (k + 2 + i) 0 = _
    have hindex : k + 2 + i = k + i + 2 := by omega
    rw [hindex]
    rfl
  unfold Entry.ioapic
  rw [← hfield 2 (by omega), ← hfield 6 (by omega)]

theorem long (h : EntriesAt table offset es) : p ≤ table_length table := by
  have hlength := h.length
  omega

/-- **The scan of entries**: it ends at the first I/O APIC or behind the last entry, and all headers
    on its way are right. By induction over the entries. -/
theorem scan (h : EntriesAt table offset es) :
    (∃ last, Visits (scan_round table) offset last ∧ scan_round table last = .done (selected es)) ∧
      ∀ o, Visits (scan_round table) offset o → p + o < table_length table →
        HeaderFits table o := by
  induction es generalizing offset with
  | nil =>
    have hlength := h.length
    have hend : scan_round table offset = .done (0, 0) :=
      scan_round_end h.long (by rw [hlength]; exact Nat.le_refl _)
    refine ⟨⟨offset, .refl, hend⟩, fun o hvisits hlt => ?_⟩
    rw [eq_of_visits_done hend hvisits, hlength] at hlt
    exact absurd hlt (Nat.lt_irrefl _)
  | cons e es ih =>
    have hlength := h.length
    rw [length_encode_all_cons] at hlength
    have htwo : 2 ≤ e.length := Nat.le_add_left 2 _
    have hlt : p + offset < table_length table := by omega
    have hvalid := h.valid e List.mem_cons_self
    have hfits : HeaderFits table offset := by
      refine ⟨by omega, fun htype => ?_, fun _ hzero => ?_⟩
      · have hfields := hvalid.2 (h.entry_type_eq ▸ htype)
        omega
      · have hlen := h.len_eq
        rw [hzero] at hlen
        have hzero : (0 : UInt8).toNat = 0 := rfl
        omega
    by_cases htype : e.type = 1
    · have hdone := scan_round_ioapic h.long hlt (h.entry_type_eq.trans htype)
      rw [h.ioapic_eq htype] at hdone
      have hselected : selected (e :: es) = e.ioapic := by
        simp [selected, first_ioapic, htype]
      refine ⟨⟨offset, .refl, hselected ▸ hdone⟩, fun o hvisits _ => ?_⟩
      rw [eq_of_visits_done hdone hvisits]
      exact hfits
    · have hnext := scan_round_next h.long hlt (h.entry_type_eq ▸ htype)
      rw [h.len_eq] at hnext
      obtain ⟨⟨last, hvisits, hdone⟩, hrest⟩ := ih h.tail
      have hselected : selected (e :: es) = selected es := by
        simp [selected, first_ioapic, htype]
      refine ⟨⟨last, .head hnext hvisits, hselected ▸ hdone⟩, fun o ho hlt' => ?_⟩
      rcases (visits_iff_of_next hnext).mp ho with heq | ho
      · rw [heq]
        exact hfits
      · exact hrest o ho hlt'

end EntriesAt

/-- **A table of entries is scanned.** -/
theorem scan_of_wellFormed (h : WellFormed table es) :
    HeadersFit table ∧ ∃ fuel, scan table fuel = some (selected es) := by
  have hentries := h.entriesAt
  obtain ⟨hlast, hheaders⟩ := hentries.scan
  exact ⟨⟨hentries.long, hheaders⟩, run_eq_some_iff.mpr hlast⟩

end Madt

open Madt

/-- What the scan should do with a table: end, stay inside, and select the first I/O APIC if the
    table consists of entries and has one. -/
structure ScanTotal (table : Bytes) : Prop where
  terminates : ∃ fuel r, scan table fuel = some r
  reads : ∀ x ∈ scan_reads table, x < table_length table
  selects : ∀ es e, WellFormed table es → first_ioapic es = some e →
    ∃ fuel, scan table fuel = some e.ioapic

/-- **The scan is total exactly for tables whose headers are right**: the table has its 44 bytes
    before the entries, the header of each entry the scan comes to and the fields of an I/O APIC end
    in the table, and no other entry has length 0. -/
theorem madt_scan_total_iff (table : Bytes) : ScanTotal table ↔ HeadersFit table := by
  constructor
  · intro h
    exact headersFit_of_scan h.terminates h.reads
  · intro h
    refine ⟨h.terminates, h.reads, fun es e hes he => ?_⟩
    have hscan := (scan_of_wellFormed hes).2
    rwa [selected, he] at hscan

/-- A table with the given length and the bytes behind the first 44. -/
def apic_table (length : Nat) (data : List UInt8) : Bytes :=
  fun i => ([0x41, 0x50, 0x49, 0x43] ++ word32 length ++ List.replicate 36 0 ++ data).getD i 0

/-- A processor and an I/O APIC at 0xfec00000. -/
def one_ioapic : List Entry :=
  [⟨0, [0, 0, 1, 0, 0, 0]⟩, ⟨1, [2, 0, 0, 0, 0xc0, 0xfe, 0, 0, 0, 0]⟩]

theorem one_ioapic_selected : ScanTotal (apic_table 64 (encode_all one_ioapic)) ∧
    ∃ fuel, scan (apic_table 64 (encode_all one_ioapic)) fuel = some (0xfec00000, 0) := by
  have hwf : WellFormed (apic_table 64 (encode_all one_ioapic)) one_ioapic := by
    refine ⟨fun e he => ?_, by decide +kernel, by decide +kernel⟩
    rcases List.mem_cons.mp he with rfl | he
    · exact ⟨by decide, by decide⟩
    · rw [List.mem_singleton.mp he]
      exact ⟨by decide, by decide⟩
  have htotal := (madt_scan_total_iff _).mpr (scan_of_wellFormed hwf).1
  exact ⟨htotal, htotal.selects _ _ hwf rfl⟩

/-- An entry of length 0 is scanned for ever, and of an entry that starts in the last byte the
    length is read behind the table. -/
theorem zero_length_scanned_forever :
    (∀ fuel, scan (apic_table 46 [0, 0]) fuel = none) ∧
    table_length (apic_table 45 [0]) = 45 ∧ 45 ∈ scan_reads (apic_table 45 [0]) := by
  have hself : scan_round (apic_table 46 [0, 0]) 0 = .next 0 := by decide +kernel
  have hlt : 0 < rest (apic_table 45 [0]) := by decide +kernel
  exact ⟨fun fuel => run_of_cyclic (.single hself) fuel, by decide +kernel,
    ⟨0, .refl, hlt, .inr (.inl rfl)⟩⟩

end Modern05
