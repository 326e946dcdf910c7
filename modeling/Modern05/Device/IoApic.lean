import Modern05.Device.Madt
import Modern05.Framework.Bits
import Modern05.Kernel.Interrupts

/-! # From an interrupt line to its handler

    `ioapic_init` in `device/rtl8139.cpp` programs the I/O APIC: it masks all lines, and then sends
    those of the PCI devices and of the serial port to the processor, each under a vector of its
    own. What the vectors run are the handlers that `Kernel::start` has registered.

    The I/O APIC has two registers in memory: the first selects one of its registers and the second
    is a window to it. Each line has an entry of two words, of which two bits cannot be written.

    * `of_set_lo`: an entry is read as it was written, whatever it was before.
    * `ioapic_init_spec`: the entries after `ioapic_init`, for every table with an I/O APIC.
    * `lines_lead_to_calls`: the calls that an interrupt of each line leads to.
-/

namespace Modern05

open Bits Madt Memory

/-! ## The I/O APIC -/

structure IoApic where
  /-- The register that is selected. -/
  ioregsel : UInt8
  version : UInt32
  /-- The entries of the lines, in two halves. -/
  lo : Nat → UInt32
  hi : Nat → UInt32

/-- A write to the lower half of an entry leaves the delivery status and the remote IRR. -/
def set_lo (old val : UInt32) : UInt32 := (val &&& 0xffffafff) ||| (old &&& 0x5000)

namespace IoApic

/-- A write to the window. -/
def write_iowin (io : IoApic) (val : UInt32) : IoApic :=
  let r := io.ioregsel.toNat
  if 0x10 ≤ r ∧ r < 0x40 then
    let n := (r - 0x10) / 2
    if r % 2 = 0 then { io with lo := Function.update io.lo n (set_lo (io.lo n) val) }
    else { io with hi := Function.update io.hi n val }
  else io

/-- A read from the window. Registers that are not used here count as 0. -/
def iowin (io : IoApic) : UInt32 :=
  let r := io.ioregsel.toNat
  if r = 1 then io.version
  else if 0x10 ≤ r ∧ r < 0x40 then
    if r % 2 = 0 then io.lo ((r - 0x10) / 2) else io.hi ((r - 0x10) / 2)
  else 0

end IoApic

/-! ## The code -/

def IOAPIC_ISA_IRQ_COM1 : Nat := 0x44

/-- Tell IOREGSEL where to write to, and write the value to IOWIN. -/
def write_ioapic_register (io : IoApic) (offset : UInt8) (val : UInt32) : IoApic :=
  { io with ioregsel := offset }.write_iowin val

def read_ioapic_register (io : IoApic) (offset : UInt8) : UInt32 × IoApic :=
  let io := { io with ioregsel := offset }
  (io.iowin, io)

/-- `base + 2*(irq - irq_base)`, which is passed as a byte. -/
def redirection_offset (base irq_base irq : UInt32) : UInt8 :=
  (base + 2 * (irq - irq_base)).toUInt8

def ioapic_disable_irq (io : IoApic) (irq_base irq : UInt32) : IoApic :=
  -- mask: true
  write_ioapic_register io (redirection_offset 0x10 irq_base irq) ((1 : UInt32) <<< 16)

def ioapic_enable_irq (io : IoApic) (target_lapic_id irq_base irq : UInt32) : IoApic :=
  -- deliver mode: fixed, destination mode: physical, pin polarity active low, trigger: edge,
  -- mask: false
  let io := write_ioapic_register io (redirection_offset 0x10 irq_base irq)
    (irq ||| ((1 : UInt32) <<< 13))
  let io := write_ioapic_register io (redirection_offset 0x11 irq_base irq) (target_lapic_id <<< 24)
  -- both halves are read back to be printed
  let (_lo, io) := read_ioapic_register io (redirection_offset 0x10 irq_base irq)
  let (_hi, io) := read_ioapic_register io (redirection_offset 0x11 irq_base irq)
  io

/-- The interrupt controllers: the masks of the two 8259, and the I/O APIC behind each offset of the
    kernel window. -/
structure Controllers where
  pic : UInt8 × UInt8
  ioapics : Nat → IoApic

/-- The three loops over the lines. -/
def program_lines (io : IoApic) : IoApic :=
  let start := UInt32.ofNat IOAPIC_IRQ_START
  let io := (List.range IOAPIC_IRQ_COUNT).foldl
    (fun io irq => ioapic_disable_irq io start (start + UInt32.ofNat irq)) io
  let io := (List.range' IOAPIC_PCI_IRQ_START IOAPIC_PCI_IRQ_COUNT).foldl
    (fun io irq => ioapic_enable_irq io 0 start (UInt32.ofNat irq)) io
  -- enable serial port
  ioapic_enable_irq io 0 start (UInt32.ofNat IOAPIC_ISA_IRQ_COM1)

/-- With at most `fuel` rounds of the scan. -/
def ioapic_init (c : Controllers) (table : Bytes) (fuel : Nat) : Except Fault Controllers := do
  let flags := load_le table (sizeof_SystemDescriptionTable + 4) 4
  -- disabling 8259 PIC
  let c := if flags % 2 = 1 then { c with pic := (0xff, 0xff) } else c
  match scan table fuel with
  | none => .error .endless_loop
  | some (ioapic0_phy_addr, _ioapic0_gsb) =>
    if ioapic0_phy_addr = 0 then .error (.assertion "No IO APIC available!")
    else
      let (v, io) := read_ioapic_register (c.ioapics ioapic0_phy_addr) 0x1
      let max_redir_entry := ((v >>> 16) &&& 0xff) + 1
      if max_redir_entry < 1 then .error (.assertion "NO IRQ avaialble for this IO APIC")
      else if max_redir_entry ≠ UInt32.ofNat IOAPIC_IRQ_COUNT then .error (.assertion "")
      else .ok { c with ioapics := Function.update c.ioapics ioapic0_phy_addr (program_lines io) }

/-! ## Entries -/

/-- What an entry means to the I/O APIC. -/
structure Redirection where
  vector : Nat
  delivery_mode : Nat
  logical : Bool
  active_low : Bool
  level : Bool
  masked : Bool
  destination : Nat
  deriving DecidableEq, Repr

def Redirection.of (lo hi : UInt32) : Redirection where
  vector := field lo.toNat 0 8
  delivery_mode := field lo.toNat 8 3
  logical := field lo.toNat 11 1 = 1
  active_low := field lo.toNat 13 1 = 1
  level := field lo.toNat 15 1 = 1
  masked := field lo.toNat 16 1 = 1
  destination := field hi.toNat 24 8

/-- The entry of a line. -/
def IoApic.entry (io : IoApic) (n : Nat) : Redirection := .of (io.lo n) (io.hi n)

/-- The line is sent to the processor 0 under the vector of its number. -/
def enabled_entry (n : Nat) : Redirection :=
  ⟨IOAPIC_IRQ_START + n, 0, false, true, false, false, 0⟩

/-- The bits that can be written. -/
theorem testBit_set_lo (old val : UInt32) {i : Nat} (h₁₂ : i ≠ 12) (h₁₄ : i ≠ 14) :
    (set_lo old val).toNat.testBit i = val.toNat.testBit i := by
  by_cases hi : i < 32
  · have hmask : ∀ i < 32, i ≠ 12 → i ≠ 14 →
        Nat.testBit 0xffffafff i = true ∧ Nat.testBit 0x5000 i = false := by decide
    obtain ⟨hkept, hold⟩ := hmask i hi h₁₂ h₁₄
    simp [set_lo, UInt32.toNat_or, UInt32.toNat_and, Nat.testBit_or, Nat.testBit_and, hkept, hold]
  · have hlarge : ∀ w : UInt32, w.toNat.testBit i = false := by
      intro w
      have hpow : 2 ^ 32 ≤ 2 ^ i := Nat.pow_le_pow_right (by decide) (by omega)
      exact Nat.testBit_lt_two_pow (Nat.lt_of_lt_of_le w.toNat_lt hpow)
    rw [hlarge, hlarge]

theorem of_set_lo (old val hi : UInt32) : Redirection.of (set_lo old val) hi = .of val hi := by
  have hbits : ∀ i k, (∀ j, i ≤ j → j < i + k → j ≠ 12 ∧ j ≠ 14) →
      field (set_lo old val).toNat i k = field val.toNat i k := by
    intro i k h
    exact field_congr fun j hij hjk => testBit_set_lo old val (h j hij hjk).1 (h j hij hjk).2
  simp only [Redirection.of]
  rw [hbits 0 8 (by omega), hbits 8 3 (by omega), hbits 11 1 (by omega), hbits 13 1 (by omega),
    hbits 15 1 (by omega), hbits 16 1 (by omega)]

/-! ## The loops -/

/-- The number of a line, as `program_lines` passes it. -/
def line_irq (n : Nat) : UInt32 := UInt32.ofNat (0x40 + n)

theorem redirection_offset_lo : ∀ n < 24,
    (redirection_offset 0x10 0x40 (line_irq n)).toNat = 0x10 + 2 * n := by
  decide

theorem redirection_offset_hi : ∀ n < 24,
    (redirection_offset 0x11 0x40 (line_irq n)).toNat = 0x11 + 2 * n := by
  decide

theorem write_lo (io : IoApic) {offset : UInt8} {n : Nat} (hn : n < 24)
    (hoffset : offset.toNat = 0x10 + 2 * n) (val : UInt32) :
    write_ioapic_register io offset val =
      { io with ioregsel := offset, lo := Function.update io.lo n (set_lo (io.lo n) val) } := by
  have hr : 0x10 ≤ offset.toNat ∧ offset.toNat < 0x40 := by omega
  have heven : offset.toNat % 2 = 0 := by omega
  have hline : (offset.toNat - 0x10) / 2 = n := by omega
  simp [write_ioapic_register, IoApic.write_iowin, hr, heven, hline]

theorem write_hi (io : IoApic) {offset : UInt8} {n : Nat} (hn : n < 24)
    (hoffset : offset.toNat = 0x11 + 2 * n) (val : UInt32) :
    write_ioapic_register io offset val =
      { io with ioregsel := offset, hi := Function.update io.hi n val } := by
  have hr : 0x10 ≤ offset.toNat ∧ offset.toNat < 0x40 := by omega
  have hodd : ¬ offset.toNat % 2 = 0 := by omega
  have hline : (offset.toNat - 0x10) / 2 = n := by omega
  simp [write_ioapic_register, IoApic.write_iowin, hr, hodd, hline]

theorem disable_line (io : IoApic) {n : Nat} (hn : n < 24) :
    ∃ r, ioapic_disable_irq io 0x40 (line_irq n) =
      { io with ioregsel := r, lo := Function.update io.lo n (set_lo (io.lo n) 0x10000) } :=
  ⟨_, write_lo io hn (redirection_offset_lo n hn) _⟩

theorem enable_line (io : IoApic) {n : Nat} (hn : n < 24) :
    ∃ r, ioapic_enable_irq io 0 0x40 (line_irq n) =
      { io with
        ioregsel := r
        lo := Function.update io.lo n (set_lo (io.lo n) (line_irq n ||| 0x2000))
        hi := Function.update io.hi n 0 } := by
  refine ⟨redirection_offset 0x11 0x40 (line_irq n), ?_⟩
  simp only [ioapic_enable_irq, read_ioapic_register]
  rw [write_lo io hn (redirection_offset_lo n hn), write_hi _ hn (redirection_offset_hi n hn)]
  rfl

/-- The entry of a line after it was masked, and after it was sent to the processor. -/
theorem entry_disable_line (io : IoApic) {n : Nat} (hn : n < 24) (j : Nat) :
    ((ioapic_disable_irq io 0x40 (line_irq n)).entry j).masked =
      if j = n then true else (io.entry j).masked := by
  obtain ⟨r, hr⟩ := disable_line io hn
  by_cases hj : j = n
  · subst hj
    rw [hr]
    simp only [IoApic.entry, Function.update_self, of_set_lo, if_pos]
    rfl
  · simp [hr, IoApic.entry, hj]

theorem enabled_word : ∀ n < 24, Redirection.of (line_irq n ||| 0x2000) 0 = enabled_entry n := by
  decide

theorem entry_enable_line (io : IoApic) {n : Nat} (hn : n < 24) (j : Nat) :
    (ioapic_enable_irq io 0 0x40 (line_irq n)).entry j =
      if j = n then enabled_entry n else io.entry j := by
  obtain ⟨r, hr⟩ := enable_line io hn
  by_cases hj : j = n
  · subst hj
    rw [hr]
    simp only [IoApic.entry, Function.update_self, of_set_lo, enabled_word j hn, if_pos]
  · simp [hr, IoApic.entry, hj]

/-- The lines that are sent to the processor: those of PCI devices and of the serial port. -/
def enabled_line (n : Nat) : Prop := n = 4 ∨ 16 ≤ n

instance (n : Nat) : Decidable (enabled_line n) := inferInstanceAs (Decidable (n = 4 ∨ 16 ≤ n))

/-- The first `k` lines are masked. -/
theorem masked_of_disabled (io : IoApic) : ∀ k ≤ 24, ∀ n < k,
    (((List.range k).foldl (fun io irq => ioapic_disable_irq io 0x40 (line_irq irq)) io).entry
      n).masked = true := by
  intro k
  induction k with
  | zero => intro _ n hn; omega
  | succ k ih =>
    intro hk n hn
    rw [List.range_succ, List.foldl_append, List.foldl_cons, List.foldl_nil,
      entry_disable_line _ (by omega)]
    by_cases hlast : n = k
    · simp [hlast]
    · rw [if_neg hlast]
      exact ih (by omega) n (by omega)

/-- The lines of PCI devices, up to the one before 16 + `k`. -/
theorem entry_of_enabled (io : IoApic) (n : Nat) : ∀ k ≤ 8,
    ((List.range' 16 k).foldl (fun io irq => ioapic_enable_irq io 0 0x40 (line_irq irq)) io).entry
      n = if 16 ≤ n ∧ n < 16 + k then enabled_entry n else io.entry n := by
  intro k
  induction k with
  | zero =>
    intro _
    have hnone : ¬ (16 ≤ n ∧ n < 16 + 0) := by omega
    simp [hnone]
  | succ k ih =>
    intro hk
    rw [List.range'_concat, List.foldl_append, List.foldl_cons, List.foldl_nil, Nat.one_mul,
      entry_enable_line _ (by omega), ih (by omega)]
    by_cases hlast : n = 16 + k
    · have hin : 16 ≤ n ∧ n < 16 + (k + 1) := by omega
      rw [if_pos hlast, if_pos hin, hlast]
    · have hiff : (16 ≤ n ∧ n < 16 + (k + 1)) ↔ (16 ≤ n ∧ n < 16 + k) := by omega
      simp only [if_neg hlast, hiff]

/-- The loops by the numbers of the lines. -/
theorem program_lines_eq (io : IoApic) :
    program_lines io = ioapic_enable_irq
      ((List.range' 16 8).foldl (fun io irq => ioapic_enable_irq io 0 0x40 (line_irq irq))
        ((List.range 24).foldl (fun io irq => ioapic_disable_irq io 0x40 (line_irq irq)) io))
      0 0x40 (line_irq 4) := by
  have hdisable : (fun io irq => ioapic_disable_irq io (UInt32.ofNat IOAPIC_IRQ_START)
      (UInt32.ofNat IOAPIC_IRQ_START + UInt32.ofNat irq)) =
      fun io irq => ioapic_disable_irq io 0x40 (line_irq irq) := by
    funext io irq
    rw [line_irq, UInt32.ofNat_add]
    rfl
  have hpci : List.range' IOAPIC_PCI_IRQ_START IOAPIC_PCI_IRQ_COUNT =
      (List.range' 16 8).map (0x40 + ·) := by decide
  rw [program_lines, hdisable, hpci, List.foldl_map]
  rfl

/-- **The lines after the three loops.** -/
theorem entry_program_lines (io : IoApic) {n : Nat} (hn : n < 24) :
    if enabled_line n then (program_lines io).entry n = enabled_entry n
    else ((program_lines io).entry n).masked = true := by
  rw [program_lines_eq, entry_enable_line _ (by decide), entry_of_enabled _ n 8 (Nat.le_refl _)]
  by_cases h4 : n = 4
  · simp [h4, enabled_line]
  · by_cases h16 : 16 ≤ n
    · have hin : 16 ≤ n ∧ n < 16 + 8 := by omega
      simp [enabled_line, h4, h16, hn]
    · have hmasked := masked_of_disabled io 24 (Nat.le_refl _) n hn
      simp [enabled_line, h4, h16, hmasked]

/-- The I/O APIC has 24 lines. -/
def IoApic.has_24_lines (io : IoApic) : Prop := (io.version >>> 16) &&& 0xff = 23

/-- **What `ioapic_init` does when it returns.** The other I/O APICs are as before. -/
theorem ioapic_init_spec {c : Controllers} {table : Bytes} {fuel phy gsb : Nat}
    (hscan : scan table fuel = some (phy, gsb)) (hphy : phy ≠ 0)
    (hlines : (c.ioapics phy).has_24_lines) :
    ∃ c', ioapic_init c table fuel = .ok c' ∧
      (∀ a, a ≠ phy → c'.ioapics a = c.ioapics a) ∧
      ∀ n < 24, if enabled_line n then (c'.ioapics phy).entry n = enabled_entry n
        else ((c'.ioapics phy).entry n).masked = true := by
  have hversion : ((c.ioapics phy).version >>> 16 &&& 0xff) + 1 = 24 := by
    rw [IoApic.has_24_lines] at hlines
    rw [hlines]
    rfl
  let io := { c.ioapics phy with ioregsel := 1 }
  let pic := if load_le table (sizeof_SystemDescriptionTable + 4) 4 % 2 = 1 then (0xff, 0xff)
    else c.pic
  refine ⟨⟨pic, Function.update c.ioapics phy (program_lines io)⟩, ?_, ?_, ?_⟩
  · have hread : read_ioapic_register (c.ioapics phy) 0x1 = ((c.ioapics phy).version, io) := rfl
    by_cases hflags : load_le table (sizeof_SystemDescriptionTable + 4) 4 % 2 = 1
    · simp [ioapic_init, hscan, hphy, hflags, hread, hversion, pic, IOAPIC_IRQ_COUNT]
    · simp [ioapic_init, hscan, hphy, hflags, hread, hversion, pic, IOAPIC_IRQ_COUNT]
  · intro a ha
    simp [ha]
  · intro n hn
    simpa using entry_program_lines io hn

/-! ## Handlers -/

def IRQ_TIMER : Nat := 32

/-- The handlers that `Kernel::start` registers. -/
inductive KernelHandler where
  | syscall
  | timer
  | pci
  | com1
  deriving DecidableEq, Repr

/-- `SetupSyscall`, `lapic_init`, `PCIBusDriver::Enumerate` and the constructor of `Serial8250`
    register them in this order. -/
def boot_registrations : List (RegisterCall KernelHandler) :=
  [.single IRQ_SYSCALL .syscall, .single IRQ_TIMER .timer,
    .range IOAPIC_PCI_IRQ_START IOAPIC_PCI_IRQ_COUNT .pci, .single IOAPIC_ISA_IRQ_COM1 .com1]

open InterruptProcessor

/-- The handlers of a vector after `Kernel::start`. -/
theorem boot_handlers (raw : Nat → Nat → KernelHandler) :
    ∃ p, (new raw).call_all boot_registrations = .ok p ∧
      ∀ v, p.handlers v = registered boot_registrations v := by
  have hnew : ∀ v, (new raw).handlers v = [] := by
    intro v
    simp [new, handlers, SmallVec.toList]
  have hrange : ∀ c ∈ boot_registrations, in_range c := by
    simp [boot_registrations, in_range, MaxInterrupts, IRQ_SYSCALL, IRQ_TIMER,
      IOAPIC_PCI_IRQ_START, IOAPIC_PCI_IRQ_COUNT, IOAPIC_ISA_IRQ_COM1]
  obtain ⟨p, hp, hhandlers⟩ := call_all_of_le boot_registrations hrange (new raw) (by
    intro v
    rw [hnew, List.nil_append]
    exact Nat.le_trans (length_registered_le _ v) (by decide))
  refine ⟨p, hp, ?_⟩
  intro v
  rw [hhandlers, hnew, List.nil_append]

/-- The calls that an interrupt at a vector leads to. There are none when the kernel halts. -/
def boot_calls (v : Nat) (error_code : UInt64) (pid : Nat) :
    Option (List (KernelHandler × IrqHandlerInfo)) :=
  let info : IrqHandlerInfo :=
    ⟨UInt64.ofNat (delivered_as v), pushed_error_code v error_code, pid⟩
  if v = IRQ_SYSCALL then some [(.syscall, info)]
  else if v = IRQ_TIMER then some [(.timer, info)]
  else if v = 0x44 then some [(.com1, info)]
  else if 0x50 ≤ v ∧ v < 0x58 ∧ v ≠ 0x55 then some [(.pci, info)]
  else none

/-- The handlers of the number that a vector is delivered as. -/
theorem registered_delivered_as : ∀ v < MaxInterrupts,
    registered boot_registrations (delivered_as v) =
      if v = IRQ_SYSCALL then [.syscall] else if v = IRQ_TIMER then [.timer]
      else if v = 0x44 then [.com1]
      else if 0x50 ≤ v ∧ v < 0x58 ∧ v ≠ 0x55 then [.pci] else [] := by
  decide +kernel

/-- **What every vector does** once `Kernel::start` has registered its handlers. -/
theorem deliver_boot {p : InterruptProcessor KernelHandler}
    (hp : ∀ v, p.handlers v = registered boot_registrations v) {v : Nat} (hv : v < MaxInterrupts)
    (hframe : v ∉ unnamed_exceptions) (cpu : Cpu) (error_code : UInt64) (stack : List UInt64)
    (pid : Nat) : p.deliver cpu v error_code stack pid = boot_calls v error_code pid := by
  have hnumber : (UInt64.ofNat (delivered_as v)).toNat = delivered_as v := toNat_delivered_as v hv
  have hhandlers : p.handlers (UInt64.ofNat (delivered_as v)).toNat = _ :=
    (hp _).trans ((congrArg _ hnumber).trans (registered_delivered_as v hv))
  rw [deliver_eq p hv hframe, boot_calls]
  split_ifs at hhandlers ⊢
  · exact HandleInterrupt_of_handlers hhandlers (by simp) _ _
  · exact HandleInterrupt_of_handlers hhandlers (by simp) _ _
  · exact HandleInterrupt_of_handlers hhandlers (by simp) _ _
  · exact HandleInterrupt_of_handlers hhandlers (by simp) _ _
  · exact if_pos ((SmallVec.empty_iff_toList_nil _).mpr hhandlers)

/-! ## Lines -/

/-- The vector and the processor that a line is sent to. -/
def IoApic.route (io : IoApic) (n : Nat) : Option (Nat × Nat) :=
  if (io.entry n).masked then none else some ((io.entry n).vector, (io.entry n).destination)

/-- What an interrupt of a line leads to: the serial port runs its handler, and a PCI device the one
    of the bus, but the lines from 16 to 20 under the number of the next line. Line 21 halts the
    kernel. -/
def line_calls (n pid : Nat) : Option (List (KernelHandler × IrqHandlerInfo)) :=
  if n = 4 then some [(.com1, ⟨0x44, 0, pid⟩)]
  else if n = 21 then none
  else if n < 21 then some [(.pci, ⟨UInt64.ofNat (0x41 + n), 0, pid⟩)]
  else some [(.pci, ⟨UInt64.ofNat (0x40 + n), 0, pid⟩)]

theorem boot_calls_line : ∀ n < 24, enabled_line n →
    0x40 + n < MaxInterrupts ∧ 0x40 + n ∉ unnamed_exceptions ∧
      ∀ pid, boot_calls (0x40 + n) 0 pid = line_calls n pid := by
  intro n hn henabled
  have hcases : n = 4 ∨ n = 16 ∨ n = 17 ∨ n = 18 ∨ n = 19 ∨ n = 20 ∨ n = 21 ∨ n = 22 ∨ n = 23 := by
    rcases henabled with h | h <;> omega
  rcases hcases with rfl | rfl | rfl | rfl | rfl | rfl | rfl | rfl | rfl <;>
    exact ⟨by decide, by decide, fun pid => rfl⟩

/-- **From a line to its calls.** Whatever the I/O APIC held before, after `ioapic_init` and the
    registrations of `Kernel::start` a line either is masked or has a vector of its own at the
    processor 0, and its interrupts lead to these calls, from any code that they interrupt. -/
theorem lines_lead_to_calls (c : Controllers) (table : Bytes) (fuel phy gsb : Nat)
    (hscan : scan table fuel = some (phy, gsb)) (hphy : phy ≠ 0)
    (hlines : (c.ioapics phy).has_24_lines) (raw : Nat → Nat → KernelHandler) :
    ∃ c' p, ioapic_init c table fuel = .ok c' ∧
      (new raw).call_all boot_registrations = .ok p ∧
      ∀ n < 24, if enabled_line n then
          ∃ v, (c'.ioapics phy).route n = some (v, 0) ∧
            (∀ m < 24, m ≠ n → (c'.ioapics phy).route m ≠ some (v, 0)) ∧
            ∀ cpu stack pid, p.deliver cpu v 0 stack pid = line_calls n pid
        else (c'.ioapics phy).route n = none := by
  obtain ⟨c', hinit, -, hentries⟩ := ioapic_init_spec hscan hphy hlines
  obtain ⟨p, hp, hhandlers⟩ := boot_handlers raw
  have hroute : ∀ n < 24, (c'.ioapics phy).route n =
      if enabled_line n then some (0x40 + n, 0) else none := by
    intro n hn
    have hentry := hentries n hn
    by_cases henabled : enabled_line n
    · rw [if_pos henabled] at hentry ⊢
      simp [IoApic.route, hentry, enabled_entry, IOAPIC_IRQ_START]
    · rw [if_neg henabled] at hentry ⊢
      simp [IoApic.route, hentry]
  refine ⟨c', p, hinit, hp, ?_⟩
  intro n hn
  rw [hroute n hn]
  split
  · next henabled =>
    refine ⟨0x40 + n, rfl, ?_, ?_⟩
    · intro m hm hne
      rw [hroute m hm]
      split <;> simp [hne]
    · intro cpu stack pid
      obtain ⟨hlt, hframe, hcalls⟩ := boot_calls_line n hn henabled
      rw [deliver_boot hhandlers hlt hframe, hcalls]
  · rfl

/-- Controllers as they may be after a reset, with an I/O APIC of 24 lines at every address. -/
def reset_controllers : Controllers :=
  ⟨(0, 0), fun _ => ⟨0, 0x170011, fun _ => 0x10000, fun _ => 0⟩⟩

/-- Of the I/O APIC at 0xfec00000, the line of the serial port has a route and the one of the
    keyboard has none. -/
theorem serial_line_routed : ∃ c' p v,
    ioapic_init reset_controllers (apic_table 64 (encode_all one_ioapic)) 3 = .ok c' ∧
    (new (fun _ _ => .com1)).call_all boot_registrations = .ok p ∧
    (c'.ioapics 0xfec00000).route 1 = none ∧ (c'.ioapics 0xfec00000).route 4 = some (v, 0) ∧
    ∀ cpu stack pid, p.deliver cpu v 0 stack pid = some [(.com1, ⟨0x44, 0, pid⟩)] := by
  have hscan : scan (apic_table 64 (encode_all one_ioapic)) 3 = some (0xfec00000, 0) := by
    decide +kernel
  obtain ⟨c', p, hinit, hp, hlines⟩ := lines_lead_to_calls reset_controllers _ 3 0xfec00000 0
    hscan (by decide) rfl (fun _ _ => .com1)
  obtain ⟨v, hroute, -, hcalls⟩ := hlines 4 (by decide)
  exact ⟨c', p, v, hinit, hp, hlines 1 (by decide), hroute, hcalls⟩

end Modern05
