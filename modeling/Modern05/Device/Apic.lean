import Modern05.Device.IoApic
import Modern05.Framework.LTS

/-! # Interrupts in service

    The local APIC keeps the requests of devices until the processor takes them, the highest vector
    first, and holds a vector in service until it is told the end of the interrupt. Until then it
    offers no vector of the same or a lower priority, which is the upper half of the vector.

    The handlers send the end of the interrupt, `lapic_eoi` in `device/apic.cpp`: the one of the
    timer once; the one of the PCI bus once, after `RTL8139Driver::HandleInterrupt` has done so too
    if the card had something to say; and the one of the serial port (`device/serial8250.cpp`) only
    if the port says that it has interrupted. The gates keep other interrupts off until the handler
    returns.

    * `inv_of_interrupts`: in every run, what is in service when a handler has sent what it sends.
    * `interrupts_acknowledged_iff`: between interrupts only the vector of the serial port can be in
      service, exactly when its last interrupt was not acknowledged and no card has since done so.
      Then the timer does not interrupt.
-/

namespace Modern05

open LTS InterruptProcessor

/-! ## The local APIC -/

/-- The vectors that are requested, and those in service. -/
structure Lapic where
  irr : List Nat
  isr : List Nat
  deriving DecidableEq, Repr

namespace Lapic

/-- The end of the interrupt with the highest vector in service, if there is one. -/
def eoi (l : Lapic) : Lapic := { l with isr := l.isr.erase (l.isr.foldr max 0) }

/-- The processor gets the vector: it is the highest one, and of a higher priority than those in
    service. -/
def Accepts (l : Lapic) (v : Nat) : Prop :=
  v ∈ l.irr ∧ (∀ u ∈ l.irr, u ≤ v) ∧ ∀ u ∈ l.isr, u / 16 < v / 16

def accept (l : Lapic) (v : Nat) : Lapic := ⟨l.irr.filter (· ≠ v), v :: l.isr⟩

end Lapic

/-! ## The handlers -/

/-- The drivers of PCI devices. -/
inductive PciDriver where
  | rtl8139
  | ahci
  deriving DecidableEq, Repr

/-- What the devices say when they are asked. -/
structure DeviceStatus where
  /-- The register `isr` of the card. -/
  isr : UInt16
  /-- The register `Serial8250IRQStatus`. -/
  irq_status : UInt8
  deriving DecidableEq, Repr

/-- Whether the driver has handled the interrupt, and the calls of `lapic_eoi` it makes. -/
def PciDriver.HandleInterrupt (status : DeviceStatus) : PciDriver → Bool × Nat
  | .rtl8139 =>
    let handled := status.isr ≠ 0
    if handled then (true, 1) else (false, 0)
  | .ahci => (false, 0)

/-- The loop over `active_drivers_`, up to the first one that has handled the interrupt. -/
def driver_eois (status : DeviceStatus) : List PciDriver → Nat
  | [] => 0
  | d :: active_drivers_ =>
    let (handled, eois) := d.HandleInterrupt status
    if handled then eois else eois + driver_eois status active_drivers_

/-- `Serial8250::HandleIRQ` -/
def com1_eois (status : DeviceStatus) (info : IrqHandlerInfo) : Nat :=
  if info.irq_num ≠ UInt64.ofNat IOAPIC_ISA_IRQ_COM1 then 0
  -- Serial8250IRQStatusNoIRQ
  else if status.irq_status &&& 1 ≠ 0 then 0
  else 1

/-- The calls of `lapic_eoi` that a handler makes. -/
def KernelHandler.eois (active_drivers_ : List PciDriver) (status : DeviceStatus) :
    KernelHandler × IrqHandlerInfo → Nat
  | (.syscall, _) => 0
  | (.timer, _) => 1
  | (.pci, _) => driver_eois status active_drivers_ + 1
  | (.com1, info) => com1_eois status info

/-! ## Runs -/

inductive CpuMode where
  | thread
  /-- In the handlers of an interrupt, which send the end of the interrupt so many more times. -/
  | handler (eois : Nat)
  | halted
  deriving DecidableEq, Repr

/-- An interrupt whose handlers have run, with the number of times they told its end. -/
structure Service where
  vector : Nat
  eois : Nat
  deriving DecidableEq, Repr

structure ApicState where
  lapic : Lapic
  mode : CpuMode
  /-- The interrupts so far, the last one first. -/
  served : List Service

inductive ApicEvent where
  /-- A device requests an interrupt, at any time. -/
  | request (v : Nat)
  | interrupt (v : Nat) (status : DeviceStatus) (cpu : Cpu) (stack : List UInt64) (pid : Nat)
  | lapic_eoi
  | return_from_interrupt
  /-- The processor was offered a vector that has gone. It gets `IRQ_SPURIOUS`, which is not in
      service. -/
  | spurious

/-- The vectors of the timer and of the lines that `ioapic_init` enables. No other ones are
    requested. -/
def device_vectors : List Nat :=
  IRQ_TIMER :: ((List.range IOAPIC_IRQ_COUNT).filter (enabled_line ·)).map (IOAPIC_IRQ_START + ·)

/-- The runs of a kernel with these handlers and active drivers, from the first thread on: up to
    there no interrupt is taken. -/
def apic_system (p : InterruptProcessor KernelHandler) (active_drivers_ : List PciDriver) :
    System ApicState ApicEvent where
  init := fun s => (∀ v ∈ s.lapic.irr, v ∈ device_vectors) ∧ s.lapic.isr = [] ∧
    s.mode = .thread ∧ s.served = []
  step := fun s e s' =>
    match e with
    | .request v => v ∈ device_vectors ∧
        s' = { s with lapic := { s.lapic with irr := v :: s.lapic.irr } }
    | .interrupt v status cpu stack pid => s.mode = .thread ∧ s.lapic.Accepts v ∧
        s' = match p.deliver cpu v 0 stack pid with
          | none => { s with lapic := s.lapic.accept v, mode := .halted }
          | some calls =>
            let eois := (calls.map (KernelHandler.eois active_drivers_ status)).sum
            ⟨s.lapic.accept v, .handler eois, ⟨v, eois⟩ :: s.served⟩
    | .lapic_eoi => ∃ n, s.mode = .handler (n + 1) ∧
        s' = { s with lapic := s.lapic.eoi, mode := .handler n }
    | .return_from_interrupt => s.mode = .handler 0 ∧ s' = { s with mode := .thread }
    | .spurious => s.mode = .thread ∧ s' = { s with mode := .halted }

/-- The last interrupt of the serial port was not acknowledged, nor has a card told the end of one
    more interrupt since. -/
def unacknowledged : List Service → Bool
  | [] => false
  | i :: served =>
    if i.vector = 0x44 then i.eois == 0
    else if i.eois = 2 then false
    else unacknowledged served

/-- What is in service between interrupts. -/
def left_in_service (served : List Service) : List Nat :=
  if unacknowledged served then [0x44] else []

/-! ## What a handler leaves in service -/

variable {p : InterruptProcessor KernelHandler} {active_drivers_ : List PciDriver}

/-- What is in service after `n` ends of interrupts. It does not depend on the requests. -/
def isr_after (n : Nat) (isr : List Nat) : List Nat :=
  (fun isr => isr.erase (isr.foldr max 0))^[n] isr

/-- One end for a vector above what was in service. -/
theorem isr_after_one {served : List Service} {v : Nat} (hv : unacknowledged served → 0x44 < v) :
    isr_after 1 (v :: left_in_service served) = left_in_service served := by
  unfold left_in_service
  split
  · next h =>
    have hmax : max v 0x44 = v := Nat.max_eq_left (Nat.le_of_lt (hv h))
    simp [isr_after, hmax]
  · simp [isr_after]

/-- A second one ends what was in service before. -/
theorem isr_after_two {served : List Service} {v : Nat} (hv : unacknowledged served → 0x44 < v) :
    isr_after 2 (v :: left_in_service served) = [] := by
  have hsucc : isr_after 2 (v :: left_in_service served) =
      isr_after 1 (isr_after 1 (v :: left_in_service served)) := rfl
  rw [hsucc, isr_after_one hv]
  unfold left_in_service
  split <;> rfl

/-- The handler of the bus tells the end once or twice. -/
theorem driver_eois_le (status : DeviceStatus) (active_drivers_ : List PciDriver) :
    driver_eois status active_drivers_ ≤ 1 := by
  induction active_drivers_ with
  | nil => simp [driver_eois]
  | cons d active_drivers_ ih =>
    cases d with
    | rtl8139 =>
      by_cases h : status.isr = 0
      · simpa [driver_eois, PciDriver.HandleInterrupt, h] using ih
      · simp [driver_eois, PciDriver.HandleInterrupt, h]
    | ahci => simpa [driver_eois, PciDriver.HandleInterrupt] using ih

theorem com1_eois_le (status : DeviceStatus) (info : IrqHandlerInfo) :
    com1_eois status info ≤ 1 := by
  unfold com1_eois
  split_ifs <;> simp

theorem device_vectors_spec : ∀ v ∈ device_vectors,
    v < MaxInterrupts ∧ v ∉ unnamed_exceptions ∧ v ≠ IRQ_SYSCALL ∧ 0 < v / 16 := by
  decide

/-- How often the handlers of a device tell the end. -/
theorem eois_of_calls (active_drivers_ : List PciDriver) (status : DeviceStatus) {v pid : Nat}
    (hv : v ∈ device_vectors) {calls : List (KernelHandler × IrqHandlerInfo)}
    (h : boot_calls v 0 pid = some calls) :
    let eois := (calls.map (KernelHandler.eois active_drivers_ status)).sum
    (v = 0x44 ∧ eois ≤ 1) ∨ (v ≠ 0x44 ∧ (eois = 1 ∨ eois = 2)) := by
  obtain ⟨-, -, hsyscall, -⟩ := device_vectors_spec v hv
  simp only [boot_calls, if_neg hsyscall] at h
  split_ifs at h with htimer hcom1 hpci
  · cases h
    simp [KernelHandler.eois, htimer, IRQ_TIMER]
  · cases h
    simp [KernelHandler.eois, hcom1, com1_eois_le]
  · cases h
    have hle := driver_eois_le status active_drivers_
    simp only [List.map_cons, List.map_nil, List.sum_cons, List.sum_nil, KernelHandler.eois]
    omega

/-! ## Every run -/

structure ApicInv (s : ApicState) : Prop where
  requested : ∀ v ∈ s.lapic.irr, v ∈ device_vectors
  in_service : match s.mode with
    | .thread => s.lapic.isr = left_in_service s.served
    | .handler n => isr_after n s.lapic.isr = left_in_service s.served
    | .halted => True

/-- A vector that is accepted is above what is in service. -/
theorem lt_of_accepts {l : Lapic} {served : List Service} {v : Nat} (h : l.Accepts v)
    (hisr : l.isr = left_in_service served) (hun : unacknowledged served = true) : 0x50 ≤ v := by
  have hmem : 0x44 ∈ l.isr := by
    rw [hisr, left_in_service, if_pos hun]
    exact List.mem_singleton_self _
  have hclass := h.2.2 0x44 hmem
  omega

/-- What the handlers of an accepted vector leave in service. -/
theorem isr_after_service {served : List Service} {v eois : Nat}
    (hlow : unacknowledged served = true → 0x50 ≤ v)
    (h : (v = 0x44 ∧ eois ≤ 1) ∨ (v ≠ 0x44 ∧ (eois = 1 ∨ eois = 2))) :
    isr_after eois (v :: left_in_service served) = left_in_service (⟨v, eois⟩ :: served) := by
  have hlt : unacknowledged served = true → 0x44 < v := by
    intro hun
    have := hlow hun
    omega
  rcases h with ⟨rfl, heois⟩ | ⟨hne, rfl | rfl⟩
  · -- the serial port could not interrupt while it was in service
    have hclear : unacknowledged served = false := by
      by_contra hun
      have := hlow (by simpa using hun)
      omega
    have hcases : eois = 0 ∨ eois = 1 := by omega
    rcases hcases with rfl | rfl
    · simp [isr_after, left_in_service, unacknowledged, hclear]
    · rw [isr_after_one hlt]
      simp [left_in_service, unacknowledged, hclear]
  · rw [isr_after_one hlt]
    simp [left_in_service, unacknowledged, hne]
  · rw [isr_after_two hlt]
    simp [left_in_service, unacknowledged, hne]

theorem ApicInv.interrupt {s s' : ApicState} (hs : ApicInv s)
    (hp : ∀ v, p.handlers v = registered boot_registrations v) {v : Nat} {status : DeviceStatus}
    {cpu : Cpu} {stack : List UInt64} {pid : Nat}
    (h : (apic_system p active_drivers_).step s (.interrupt v status cpu stack pid) s') :
    ApicInv s' := by
  obtain ⟨hthread, haccepts, rfl⟩ := h
  have hv := hs.requested v haccepts.1
  have hisr : s.lapic.isr = left_in_service s.served := by
    have h := hs.in_service
    rwa [hthread] at h
  have hrequested : ∀ u ∈ (s.lapic.accept v).irr, u ∈ device_vectors := by
    intro u hu
    exact hs.requested u (List.mem_filter.mp hu).1
  obtain ⟨hlt, hframe, -, -⟩ := device_vectors_spec v hv
  rw [deliver_boot hp hlt hframe]
  cases hcalls : boot_calls v 0 pid with
  | none => exact ⟨hrequested, trivial⟩
  | some calls =>
    refine ⟨hrequested, ?_⟩
    have hservice := isr_after_service (fun hun => lt_of_accepts haccepts hisr hun)
      (eois_of_calls active_drivers_ status hv hcalls)
    rw [← hisr] at hservice
    exact hservice

/-- **In every run**, what is in service once the handler has sent what it sends. -/
theorem inv_of_interrupts (hp : ∀ v, p.handlers v = registered boot_registrations v) :
    ∀ s, Reachable (apic_system p active_drivers_) s → ApicInv s := by
  apply invariant_of_step
  · intro s h
    obtain ⟨hirr, hisr, hthread, hserved⟩ := h
    refine ⟨hirr, ?_⟩
    rw [hthread, hserved]
    exact hisr
  · intro s e s' _ hs hstep
    cases e with
    | request v =>
      obtain ⟨hv, rfl⟩ := hstep
      refine ⟨?_, hs.in_service⟩
      intro u hu
      rcases List.mem_cons.mp hu with rfl | hu
      · exact hv
      · exact hs.requested u hu
    | interrupt v status cpu stack pid => exact hs.interrupt hp hstep
    | lapic_eoi =>
      obtain ⟨n, hmode, rfl⟩ := hstep
      have hafter := hs.in_service
      rw [hmode] at hafter
      exact ⟨hs.requested, hafter⟩
    | return_from_interrupt =>
      obtain ⟨hmode, rfl⟩ := hstep
      have hafter := hs.in_service
      rw [hmode] at hafter
      exact ⟨hs.requested, hafter⟩
    | spurious =>
      obtain ⟨-, rfl⟩ := hstep
      exact ⟨hs.requested, trivial⟩

/-! ## Main result -/

/-- The processor is offered the highest request unless something in service is in its way. -/
theorem accepts_iff {l : Lapic} {served : List Service} (hisr : l.isr = left_in_service served) :
    (∃ v, l.Accepts v) ↔
      l.irr ≠ [] ∧ (unacknowledged served = true → ∃ v ∈ l.irr, 0x50 ≤ v) := by
  constructor
  · intro ⟨v, hv⟩
    exact ⟨List.ne_nil_of_mem hv.1, fun hun => ⟨v, hv.1, lt_of_accepts hv hisr hun⟩⟩
  · intro ⟨hne, hhigh⟩
    obtain ⟨v, hmax⟩ : ∃ v, l.irr.max? = some v :=
      Option.isSome_iff_exists.mp (List.isSome_max?_of_ne_nil hne)
    obtain ⟨hmem, hle⟩ := List.max?_eq_some_iff.mp hmax
    refine ⟨v, hmem, hle, ?_⟩
    intro u hu
    rw [hisr, left_in_service] at hu
    split at hu
    · next hun =>
      obtain ⟨w, hw, hwv⟩ := hhigh hun
      have := hle w hw
      obtain rfl := List.mem_singleton.mp hu
      omega
    · simp at hu

/-- **The ends of interrupts.** Whenever a thread runs, the only vector that can be in service is
    the one of the serial port, and it is exactly when the port's last interrupt was not
    acknowledged and no card has told the end of one more since. The processor can then be
    interrupted by PCI devices only, and not by the timer; otherwise by every request. -/
theorem interrupts_acknowledged_iff (raw : Nat → Nat → KernelHandler)
    (p : InterruptProcessor KernelHandler) (hp : (new raw).call_all boot_registrations = .ok p)
    (active_drivers_ : List PciDriver) (s : ApicState)
    (hs : Reachable (apic_system p active_drivers_) s) (hthread : s.mode = .thread) :
    s.lapic.isr = (if unacknowledged s.served then [IOAPIC_ISA_IRQ_COM1] else []) ∧
    ((∃ v, s.lapic.Accepts v) ↔ s.lapic.irr ≠ [] ∧
      (unacknowledged s.served = true → ∃ v ∈ s.lapic.irr, IOAPIC_PCI_IRQ_START ≤ v)) ∧
    (unacknowledged s.served = true → ¬ s.lapic.Accepts IRQ_TIMER) := by
  obtain ⟨p', hp', hhandlers⟩ := boot_handlers raw
  obtain rfl : p' = p := Except.ok.inj (hp'.symm.trans hp)
  have hinv := inv_of_interrupts hhandlers s hs
  have hisr : s.lapic.isr = left_in_service s.served := by
    have h := hinv.in_service
    rwa [hthread] at h
  refine ⟨hisr, accepts_iff hisr, ?_⟩
  intro hun haccepts
  have hlow := lt_of_accepts haccepts hisr hun
  simp [IRQ_TIMER] at hlow

/-- The serial port interrupts and then says that it has not. After that the timer is not heard. -/
theorem timer_blocked_by_serial_port : ∃ p s,
    (new (fun _ _ => .com1)).call_all boot_registrations = .ok p ∧
    Reachable (apic_system p [.rtl8139]) s ∧ s.mode = .thread ∧ IRQ_TIMER ∈ s.lapic.irr ∧
    s.lapic.isr = [IOAPIC_ISA_IRQ_COM1] ∧ ¬ ∃ v, s.lapic.Accepts v := by
  obtain ⟨p, hp, hhandlers⟩ := boot_handlers (fun _ _ => .com1)
  let cpu : Cpu := ⟨fun _ => 0, fun _ => 0, 0, 0, 0, 0, 0, 0⟩
  have hrequests : Reachable (apic_system p [.rtl8139]) ⟨⟨[0x44, IRQ_TIMER], []⟩, .thread, []⟩ :=
    .init ⟨by decide, rfl, rfl, rfl⟩
  have hhandler : Reachable (apic_system p [.rtl8139])
      ⟨⟨[IRQ_TIMER], [0x44]⟩, .handler 0, [⟨0x44, 0⟩]⟩ := by
    refine hrequests.step (l := ApicEvent.interrupt 0x44 ⟨0, 1⟩ cpu [] 1) ⟨rfl, ?_, ?_⟩
    · exact ⟨by decide, by decide, by decide⟩
    · rw [deliver_boot hhandlers (by decide) (by decide)]
      rfl
  have hthread := hhandler.step (l := ApicEvent.return_from_interrupt) ⟨rfl, rfl⟩
  obtain ⟨hisr, haccepts, -⟩ := interrupts_acknowledged_iff _ p hp [.rtl8139] _ hthread rfl
  refine ⟨p, _, hp, hthread, rfl, List.mem_singleton_self _, hisr, ?_⟩
  rw [haccepts]
  decide

end Modern05
