import Modern05.Common.SmallVec
import Modern05.Kernel.Entry

/-! # Interrupt dispatch

    The stubs of `irq.S`, the interrupt descriptor table that `setup_idt` fills, and the
    handlers of `InterruptProcessor` in `irq.cpp`.

    A descriptor is modelled by the code its offset points to. A handler is a value of any
    type, and `HandleInterrupt` is the list of the calls it makes.

    * `idt_delivers`: the number that each vector arrives with at `_irq_handler`.
    * `InterruptProcessor.call_all_of_le`: the handlers of a vector are those registered for
      it, in order.
-/

namespace Modern05

/-! ## Constants -/

def MaxHandlersPerInterrupt : Nat := 16
def MaxInterrupts : Nat := 256

def IRQ_SYSCALL : Nat := 42

def IOAPIC_IRQ_START : Nat := 0x40
def IOAPIC_IRQ_COUNT : Nat := 0x18
def IOAPIC_PCI_IRQ_START : Nat := 0x50
def IOAPIC_PCI_IRQ_COUNT : Nat := 0x8

/-! ## Stubs -/

/-- The stub of a vector without an error code pushes 0 in its place. -/
def stub (num : UInt64) : List Instr := [.pushq 0, .pushq num]

/-- The processor has pushed an error code. -/
def stub_with_error_code (num : UInt64) : List Instr := [.pushq num]

def _de_irq_handler : List Instr := stub 0
def _db_irq_handler : List Instr := stub 1
def _nmi_irq_handler : List Instr := stub 2
def _bp_irq_handler : List Instr := stub 3
def _of_irq_handler : List Instr := stub 4
def _br_irq_handler : List Instr := stub 5
def _ud_irq_handler : List Instr := stub 6
def _nm_irq_handler : List Instr := stub 7
def _df_irq_handler : List Instr := stub_with_error_code 8
def _ts_irq_handler : List Instr := stub_with_error_code 10
def _np_irq_handler : List Instr := stub_with_error_code 11
def _ss_irq_handler : List Instr := stub_with_error_code 12
def _gp_irq_handler : List Instr := stub_with_error_code 13
def _pf_irq_handler : List Instr := stub_with_error_code 14
def _timer_irq_handler : List Instr := stub 32
def _spurious_irq_handler : List Instr := stub 37
def _syscall_irq_handler : List Instr := stub 42
def _40h_irq_handler : List Instr := stub 0x40
def _41h_irq_handler : List Instr := stub 0x41
def _42h_irq_handler : List Instr := stub 0x42
def _43h_irq_handler : List Instr := stub 0x43
def _44h_irq_handler : List Instr := stub 0x44
def _45h_irq_handler : List Instr := stub 0x45
def _46h_irq_handler : List Instr := stub 0x46
def _47h_irq_handler : List Instr := stub 0x47
def _48h_irq_handler : List Instr := stub 0x48
def _49h_irq_handler : List Instr := stub 0x49
def _4ah_irq_handler : List Instr := stub 0x4a
def _4bh_irq_handler : List Instr := stub 0x4b
def _4ch_irq_handler : List Instr := stub 0x4c
def _4dh_irq_handler : List Instr := stub 0x4d
def _4eh_irq_handler : List Instr := stub 0x4e
def _4fh_irq_handler : List Instr := stub 0x4f
def _50h_irq_handler : List Instr := stub 0x50
def _51h_irq_handler : List Instr := stub 0x51
def _52h_irq_handler : List Instr := stub 0x52
def _53h_irq_handler : List Instr := stub 0x53
def _54h_irq_handler : List Instr := stub 0x54
def _55h_irq_handler : List Instr := stub 0x55
def _56h_irq_handler : List Instr := stub 0x56
def _57h_irq_handler : List Instr := stub 0x57
def _default_irq_handler : List Instr := [.pushq (-1), .pushq 0xff]
/-- The vectors with a stub of their own. -/
def stub_vectors : List Nat :=
  [0, 1, 2, 3, 4, 5, 6, 7, 8, 10, 11, 12, 13, 14, 32, 37, IRQ_SYSCALL] ++
    List.range' IOAPIC_IRQ_START IOAPIC_IRQ_COUNT

/-! ## The descriptor table -/

def set_idt_offset (main_idt_ : Nat → List Instr) (desc : Nat) (ptr : List Instr) :
    Nat → List Instr :=
  Function.update main_idt_ desc ptr

/-- The calls of `set_idt_offset` after the loop, in their order. -/
def idt_entries : List (Nat × List Instr) :=
  [(0, _de_irq_handler), (1, _db_irq_handler), (2, _nmi_irq_handler), (3, _bp_irq_handler),
    (4, _of_irq_handler), (5, _br_irq_handler), (6, _ud_irq_handler), (7, _nm_irq_handler),
    (8, _df_irq_handler), (10, _ts_irq_handler), (11, _np_irq_handler), (12, _ss_irq_handler),
    (13, _gp_irq_handler), (14, _pf_irq_handler), (32, _timer_irq_handler),
    (37, _spurious_irq_handler), (42, _syscall_irq_handler), (0x40, _40h_irq_handler),
    (0x41, _41h_irq_handler), (0x42, _42h_irq_handler), (0x43, _43h_irq_handler),
    (0x44, _44h_irq_handler), (0x45, _45h_irq_handler), (0x46, _46h_irq_handler),
    (0x47, _47h_irq_handler), (0x48, _48h_irq_handler), (0x49, _49h_irq_handler),
    (0x4a, _4ah_irq_handler), (0x4b, _4bh_irq_handler), (0x4c, _4ch_irq_handler),
    (0x4d, _4dh_irq_handler), (0x4e, _4eh_irq_handler), (0x4f, _4fh_irq_handler),
    (0x50, _50h_irq_handler), (0x50, _51h_irq_handler), (0x51, _52h_irq_handler),
    (0x52, _53h_irq_handler), (0x53, _54h_irq_handler), (0x54, _55h_irq_handler),
    (0x56, _56h_irq_handler), (0x57, _57h_irq_handler)]
/-- The code that each vector enters. -/
def setup_idt (default_handler : List Instr) : Nat → List Instr :=
  idt_entries.foldl (fun idt e => set_idt_offset idt e.1 e.2) (fun _ => default_handler)

/-- The constructor of `InterruptProcessor` passes the default stub. -/
def main_idt_ : Nat → List Instr := setup_idt _default_irq_handler

/-- The number that the stub of a vector pushes. The entry 0x50 is written twice and the
    entry 0x55 not at all, so that each of the vectors from 0x50 to 0x54 enters the stub of
    the next one and 0x55 the default stub. -/
def delivered_as (v : Nat) : Nat :=
  if 0x50 ≤ v ∧ v ≤ 0x54 then v + 1
  else if v ∈ stub_vectors ∧ v ≠ 0x55 then v
  else 0xff

/-- The exceptions with an error code that enter the default stub, which does not expect
    one. -/
def unnamed_exceptions : List Nat := [17, 21, 29, 30]

/-- The error code that `_irq_handler` finds on the stack. -/
def pushed_error_code (v : Nat) (error_code : UInt64) : UInt64 :=
  if v ∈ error_code_vectors then error_code else if delivered_as v = 0xff then -1 else 0

/-- The code that a vector enters, by the number it is delivered as. -/
theorem idt_code : ∀ v < MaxInterrupts, v ∉ unnamed_exceptions → main_idt_ v =
    if v ∈ error_code_vectors then stub_with_error_code (UInt64.ofNat (delivered_as v))
    else [.pushq (pushed_error_code v 0), .pushq (UInt64.ofNat (delivered_as v))] := by
  decide +kernel

theorem toNat_delivered_as : ∀ v < MaxInterrupts,
    (UInt64.ofNat (delivered_as v)).toNat = delivered_as v := by
  decide +kernel

/-- Only the vector of system calls is taken for it. -/
theorem delivered_as_syscall : ∀ v < MaxInterrupts,
    delivered_as v = IRQ_SYSCALL ↔ v = IRQ_SYSCALL := by
  decide +kernel

/-- **What a vector leaves on the stack.** -/
theorem idt_delivers {v : Nat} (hv : v < MaxInterrupts) (hframe : v ∉ unnamed_exceptions)
    (cpu : Cpu) (error_code : UInt64) (stack : List UInt64) :
    exec_all (main_idt_ v) (hardware_entry cpu v error_code stack) =
      some ⟨cpu.regs, cpu.segs, cpu.cr3,
        [UInt64.ofNat (delivered_as v), pushed_error_code v error_code, cpu.rip,
          cpu.cs.toUInt64, cpu.rflags, cpu.rsp, cpu.ss.toUInt64] ++ stack⟩ := by
  rw [idt_code v hv hframe]
  by_cases he : v ∈ error_code_vectors
  · simp [he, exec_all, stub_with_error_code, Instr.exec, hardware_entry, pushed_error_code]
  · simp [he, exec_all, Instr.exec, hardware_entry, pushed_error_code]

/-! ## Handlers -/

/-- The arguments of a handler. The pointer to the context is the one of process `pid`. -/
structure IrqHandlerInfo where
  irq_num : UInt64
  error_code : UInt64
  pid : Nat
  deriving DecidableEq, Repr

/-- The handlers of each vector. -/
structure InterruptProcessor (H : Type) where
  interrupts_ : Nat → SmallVec H MaxHandlersPerInterrupt

/-- A call of one of the two members `Register`. -/
inductive RegisterCall (H : Type) where
  | single (id : Nat) (handler : H)
  | range (start_id count : Nat) (handler : H)
  deriving DecidableEq, Repr

namespace InterruptProcessor

variable {H : Type}

/-- All vectors start without handlers, with anything in the buffers. -/
def new (raw : Nat → Nat → H) : InterruptProcessor H := ⟨fun id => ⟨raw id, 0⟩⟩

def Register (p : InterruptProcessor H) (id : Nat) (handler : H) :
    Except Fault (InterruptProcessor H) :=
  if id < MaxInterrupts then do
    let handlers_ ← (p.interrupts_ id).emplace_back handler
    pure ⟨Function.update p.interrupts_ id handlers_⟩
  else
    .error (.out_of_bounds id)

def Register_range (p : InterruptProcessor H) (start_id count : Nat) (handler : H) :
    Except Fault (InterruptProcessor H) :=
  (List.range count).foldlM (fun p i => p.Register (start_id + i) handler) p

def call (p : InterruptProcessor H) : RegisterCall H → Except Fault (InterruptProcessor H)
  | .single id handler => p.Register id handler
  | .range start_id count handler => p.Register_range start_id count handler

def call_all (p : InterruptProcessor H) (calls : List (RegisterCall H)) :
    Except Fault (InterruptProcessor H) :=
  calls.foldlM call p

/-- The calls of handlers that `HandleInterrupt` makes, in order. It halts when there is
    no handler. -/
def HandleInterrupt (p : InterruptProcessor H) (irq_num error_code : UInt64)
    (current_pid : Nat) : Option (List (H × IrqHandlerInfo)) :=
  let handlers_ := (p.interrupts_ irq_num.toNat)
  if handlers_.empty then none
  else some (handlers_.toList.map (fun handler => (handler, ⟨irq_num, error_code, current_pid⟩)))

/-- Deliver a vector through the descriptor table: the number and the error code are read
    back from the stack. -/
def deliver (p : InterruptProcessor H) (cpu : Cpu) (v : Nat) (error_code : UInt64)
    (stack : List UInt64) (current_pid : Nat) : Option (List (H × IrqHandlerInfo)) := do
  let a ← exec_all (main_idt_ v) (hardware_entry cpu v error_code stack)
  let a ← exec_all _irq_handler a
  let irq_num ← a.stack[160 / 8]?
  let error_code ← a.stack[168 / 8]?
  p.HandleInterrupt irq_num error_code current_pid

/-! ## Registration -/

/-- The handlers of a vector. -/
def handlers (p : InterruptProcessor H) (v : Nat) : List H := (p.interrupts_ v).toList

theorem Register_of_lt {p : InterruptProcessor H} {id : Nat} (handler : H)
    (hid : id < MaxInterrupts) (hroom : (p.handlers id).length < MaxHandlersPerInterrupt) :
    ∃ p', p.Register id handler = .ok p' ∧
      ∀ v, p'.handlers v = p.handlers v ++ if v = id then [handler] else [] := by
  rw [handlers, SmallVec.length_toList] at hroom
  obtain ⟨handlers_, happend, htoList⟩ := SmallVec.append_of_lt handler hroom
  refine ⟨⟨Function.update p.interrupts_ id handlers_⟩, ?_, fun v => ?_⟩
  · simp [Register, hid, SmallVec.emplace_back, happend, bind, Except.bind, pure, Except.pure]
  · by_cases hv : v = id
    · simp [handlers, hv, htoList]
    · simp [handlers, hv]

/-- What a call adds to the handlers of a vector. -/
def registers : RegisterCall H → Nat → List H
  | .single id handler, v => if v = id then [handler] else []
  | .range start_id count handler, v =>
    if start_id ≤ v ∧ v < start_id + count then [handler] else []

/-- The handlers registered for a vector, in the order of the calls. -/
def registered (calls : List (RegisterCall H)) (v : Nat) : List H :=
  calls.flatMap (fun c => registers c v)

/-- The call names vectors that exist. -/
def in_range : RegisterCall H → Prop
  | .single id _ => id < MaxInterrupts
  | .range start_id count _ => start_id + count ≤ MaxInterrupts

/-- Only as many handlers as calls. -/
theorem length_registered_le (calls : List (RegisterCall H)) (v : Nat) :
    (registered calls v).length ≤ calls.length := by
  induction calls with
  | nil => simp [registered]
  | cons c calls ih =>
    have hc : (registers c v).length ≤ 1 := by
      cases c <;> simp only [registers] <;> split <;> simp
    simp only [registered, List.flatMap_cons, List.length_append, List.length_cons] at ih ⊢
    omega

theorem Register_range_of_lt {p : InterruptProcessor H} (start_id count : Nat) (handler : H)
    (hid : start_id + count ≤ MaxInterrupts)
    (hroom : ∀ v, (p.handlers v ++ registers (.range start_id count handler) v).length ≤
      MaxHandlersPerInterrupt) :
    ∃ p', p.Register_range start_id count handler = .ok p' ∧
      ∀ v, p'.handlers v = p.handlers v ++ registers (.range start_id count handler) v := by
  -- after `n` rounds the first `n` vectors of the range have the handler
  suffices hloop : ∀ n ≤ count, ∃ p', p.Register_range start_id n handler = .ok p' ∧
      ∀ v, p'.handlers v = p.handlers v ++ registers (.range start_id n handler) v from
    hloop count (Nat.le_refl _)
  intro n
  induction n with
  | zero =>
    intro _
    exact ⟨p, rfl, fun v => by simp [registers]⟩
  | succ n ih =>
    intro hn
    obtain ⟨p₁, hp₁, hhandlers₁⟩ := ih (by omega)
    have hroom₁ : (p₁.handlers (start_id + n)).length < MaxHandlersPerInterrupt := by
      have hlast := hroom (start_id + n)
      have hin : start_id ≤ start_id + n ∧ start_id + n < start_id + count := by omega
      simp [registers, hin] at hlast
      simp [hhandlers₁, registers]
      omega
    obtain ⟨p₂, hp₂, hhandlers₂⟩ := Register_of_lt handler (by omega) hroom₁
    refine ⟨p₂, ?_, fun v => ?_⟩
    · rw [Register_range, List.range_succ, List.foldlM_append]
      rw [Register_range] at hp₁
      rw [hp₁]
      show ([n].foldlM (fun p i => p.Register (start_id + i) handler) p₁) = _
      simp [hp₂]
    · rw [hhandlers₂, hhandlers₁, List.append_assoc]
      by_cases hv : v = start_id + n
      · simp [registers, hv]
      · have hiff : (start_id ≤ v ∧ v < start_id + (n + 1)) ↔
            (start_id ≤ v ∧ v < start_id + n) := by omega
        simp [registers, hv, hiff]

theorem call_of_le {p : InterruptProcessor H} (c : RegisterCall H) (hc : in_range c)
    (hroom : ∀ v, (p.handlers v ++ registers c v).length ≤ MaxHandlersPerInterrupt) :
    ∃ p', p.call c = .ok p' ∧ ∀ v, p'.handlers v = p.handlers v ++ registers c v := by
  cases c with
  | single id handler =>
    have hid := hroom id
    simp [registers] at hid
    exact Register_of_lt handler hc (by omega)
  | range start_id count handler => exact Register_range_of_lt start_id count handler hc hroom

/-- **What a sequence of registrations leaves.** -/
theorem call_all_of_le (calls : List (RegisterCall H)) (hc : ∀ c ∈ calls, in_range c) :
    ∀ p : InterruptProcessor H,
      (∀ v, (p.handlers v ++ registered calls v).length ≤ MaxHandlersPerInterrupt) →
      ∃ p', p.call_all calls = .ok p' ∧
        ∀ v, p'.handlers v = p.handlers v ++ registered calls v := by
  induction calls with
  | nil =>
    intro p _
    exact ⟨p, rfl, fun v => by simp [registered]⟩
  | cons c calls ih =>
    intro p hroom
    simp only [List.mem_cons, forall_eq_or_imp] at hc
    have hfirst : ∀ v, (p.handlers v ++ registers c v).length ≤ MaxHandlersPerInterrupt := by
      intro v
      have h := hroom v
      simp [registered] at h ⊢
      omega
    obtain ⟨p₁, hp₁, hhandlers₁⟩ := call_of_le c hc.1 hfirst
    have hrest : ∀ v, (p₁.handlers v ++ registered calls v).length ≤
        MaxHandlersPerInterrupt := by
      intro v
      have h := hroom v
      simpa [hhandlers₁, registered] using h
    obtain ⟨p₂, hp₂, hhandlers₂⟩ := ih hc.2 p₁ hrest
    refine ⟨p₂, ?_, fun v => ?_⟩
    · show (p.call c >>= fun p => p.call_all calls) = .ok p₂
      rw [hp₁]
      exact hp₂
    · rw [hhandlers₂, hhandlers₁]
      simp [registered]

/-! ## Delivery -/

theorem deliver_eq (p : InterruptProcessor H) {v : Nat} (hv : v < MaxInterrupts)
    (hframe : v ∉ unnamed_exceptions) (cpu : Cpu) (error_code : UInt64) (stack : List UInt64)
    (current_pid : Nat) :
    p.deliver cpu v error_code stack current_pid =
      p.HandleInterrupt (UInt64.ofNat (delivered_as v)) (pushed_error_code v error_code)
        current_pid := by
  obtain ⟨regs, hregs⟩ := enter_frame cpu (UInt64.ofNat (delivered_as v))
    (pushed_error_code v error_code) stack
  simp only [deliver, idt_delivers hv hframe, hregs, Option.bind_eq_bind, Option.bind_some]
  rfl

theorem HandleInterrupt_calls {p : InterruptProcessor H} {irq_num error_code : UInt64}
    {current_pid : Nat} {calls : List (H × IrqHandlerInfo)}
    (h : p.HandleInterrupt irq_num error_code current_pid = some calls) :
    calls = (p.handlers irq_num.toNat).map
      (fun handler => (handler, ⟨irq_num, error_code, current_pid⟩)) := by
  dsimp only [HandleInterrupt] at h
  split at h
  · cases h
  · exact (Option.some.inj h).symm

theorem HandleInterrupt_of_handlers {p : InterruptProcessor H} {irq_num : UInt64}
    {hs : List H} (hhandlers : p.handlers irq_num.toNat = hs) (hne : hs ≠ [])
    (error_code : UInt64) (current_pid : Nat) :
    p.HandleInterrupt irq_num error_code current_pid =
      some (hs.map (fun handler => (handler, ⟨irq_num, error_code, current_pid⟩))) := by
  subst hhandlers
  exact if_neg (fun h => hne ((SmallVec.empty_iff_toList_nil _).mp h))

/-- The handlers that a number runs. -/
theorem HandleInterrupt_handlers (p : InterruptProcessor H) (irq_num error_code : UInt64)
    (current_pid : Nat) :
    (p.HandleInterrupt irq_num error_code current_pid).map (List.map Prod.fst) =
      if p.handlers irq_num.toNat = [] then none else some (p.handlers irq_num.toNat) := by
  by_cases hempty : p.handlers irq_num.toNat = []
  · have h := (SmallVec.empty_iff_toList_nil _).mpr hempty
    simp [HandleInterrupt, h, hempty]
  · rw [HandleInterrupt_of_handlers rfl hempty, if_neg hempty]
    simp [Function.comp_def]

/-- The number of each vector that has a stub or is one of the IOAPIC. -/
theorem delivered_as_of_stub : ∀ v ∈ stub_vectors, v < MaxInterrupts ∧ v ∉ unnamed_exceptions ∧
    delivered_as v = if 0x50 ≤ v ∧ v ≤ 0x54 then v + 1 else if v = 0x55 then 0xff else v := by
  decide +kernel

theorem mem_stub_vectors {v : Nat}
    (hv : v ∈ stub_vectors ∨ IOAPIC_IRQ_START ≤ v ∧ v < IOAPIC_IRQ_START + IOAPIC_IRQ_COUNT) :
    v ∈ stub_vectors := by
  rcases hv with hv | hv
  · exact hv
  · exact List.mem_append_right _ (List.mem_range'_1.mpr hv)

/-- **Interrupts reach the handlers registered for them** exactly when the vector is not one
    of the six whose entries are wrong, or the vector it is taken for has the same handlers. -/
theorem vector_runs_its_handlers_iff (calls : List (RegisterCall H))
    (hrange : ∀ c ∈ calls, in_range c)
    (hroom : ∀ v, (registered calls v).length ≤ MaxHandlersPerInterrupt)
    (raw : Nat → Nat → H) {v : Nat}
    (hv : v ∈ stub_vectors ∨ IOAPIC_IRQ_START ≤ v ∧ v < IOAPIC_IRQ_START + IOAPIC_IRQ_COUNT)
    (hsome : registered calls v ≠ [])
    (cpu : Cpu) (error_code : UInt64) (stack : List UInt64) (current_pid : Nat) :
    ∃ p, (new raw).call_all calls = .ok p ∧
      ((p.deliver cpu v error_code stack current_pid).map (List.map Prod.fst) =
          some (registered calls v) ↔
        (v < 0x50 ∨ 0x55 < v) ∨
        (0x50 ≤ v ∧ v ≤ 0x54 ∧ registered calls (v + 1) = registered calls v) ∨
        (v = 0x55 ∧ registered calls 0xff = registered calls 0x55)) := by
  have hnew : ∀ v, (new raw).handlers v = [] := fun v => by simp [new, handlers, SmallVec.toList]
  obtain ⟨p, hp, hhandlers⟩ := call_all_of_le calls hrange (new raw) (by simpa [hnew] using hroom)
  simp only [hnew, List.nil_append] at hhandlers
  refine ⟨p, hp, ?_⟩
  obtain ⟨hlt, hframe, hnum⟩ := delivered_as_of_stub v (mem_stub_vectors hv)
  rw [deliver_eq p hlt hframe, HandleInterrupt_handlers, toNat_delivered_as v hlt, hhandlers, hnum]
  by_cases hmid : 0x50 ≤ v ∧ v ≤ 0x54
  · have hne : ¬(v < 0x50 ∨ 0x55 < v) ∧ v ≠ 0x55 := by omega
    rw [if_pos hmid]
    by_cases hempty : registered calls (v + 1) = []
    · simp [hempty, hmid, hne, hsome.symm]
    · simp [hempty, hmid, hne]
  · rw [if_neg hmid]
    by_cases h55 : v = 0x55
    · subst h55
      by_cases hempty : registered calls 0xff = []
      · simp [hempty, hsome.symm]
      · simp [hempty]
    · have hout : v < 0x50 ∨ 0x55 < v := by omega
      simp [h55, hsome, hout]

/-- The serial port has one handler, the PCI bus driver another. -/
theorem com1_runs_its_handler : ∃ p,
    (new (fun _ _ => 0)).call_all
      [.single 0x44 1, .range IOAPIC_PCI_IRQ_START IOAPIC_PCI_IRQ_COUNT 2] = .ok p ∧
    (p.deliver ⟨fun _ => 0, fun _ => 0, 0, 0, 0, 0, 0, 0⟩ 0x44 0 [] 1).map (List.map Prod.fst) =
      some [1] := by
  obtain ⟨p, hp, hiff⟩ := vector_runs_its_handlers_iff
    [.single 0x44 1, .range IOAPIC_PCI_IRQ_START IOAPIC_PCI_IRQ_COUNT 2]
    (by simp [in_range, MaxInterrupts, IOAPIC_PCI_IRQ_START, IOAPIC_PCI_IRQ_COUNT])
    (fun v => Nat.le_trans (length_registered_le _ v) (by decide)) (fun _ _ => 0)
    (.inl (by decide : 0x44 ∈ stub_vectors)) (by decide)
    ⟨fun _ => 0, fun _ => 0, 0, 0, 0, 0, 0, 0⟩ 0 [] 1
  exact ⟨p, hp, hiff.mpr (.inl (.inl (by decide)))⟩

/-- With the registration of the PCI bus driver, an interrupt at the vector 0x55 runs no
    handler but halts. -/
theorem pci_interrupt_halts :
    registered [.range IOAPIC_PCI_IRQ_START IOAPIC_PCI_IRQ_COUNT 2] 0x55 = [2] ∧
    ∃ p, (new (fun _ _ => 0)).call_all
        [.range IOAPIC_PCI_IRQ_START IOAPIC_PCI_IRQ_COUNT 2] = .ok p ∧
      p.deliver ⟨fun _ => 0, fun _ => 0, 0, 0, 0, 0, 0, 0⟩ 0x55 0 [] 1 = none :=
  ⟨by decide, _, rfl, rfl⟩

end InterruptProcessor

end Modern05
