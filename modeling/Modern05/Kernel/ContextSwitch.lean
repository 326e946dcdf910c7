import Modern05.Kernel.Interrupts
import Modern05.Kernel.Schedule

/-! # Context switches

    An interrupt from the vector stub to `iretq`: `_irq_handler` saves the registers in the
    current process, the handlers run, `schedule` selects a process and
    `return_from_syscall` loads its registers.

    Of the handlers, the one for system calls is `handle_syscall` in `syscall.cpp`. The
    others are any functions that leave the processes and their contexts alone. Calls of
    C++ functions may leave anything in the registers.

    * `interrupt_cases`: what one interrupt does to the contexts and the registers.
    * `switch_inv`: the context of every process is that of its last interruption.
-/

namespace Modern05

open LTS

/-! ## System calls -/

def SYSCALL_NR_NULL : Nat := 0
def SYSCALL_NR_READ : Nat := 1
def SYSCALL_NR_WRITE : Nat := 2
def SYSCALL_NR_OPEN : Nat := 3
def SYSCALL_NR_CLOSE : Nat := 4
def SYSCALL_NR_EXIT : Nat := 5
def SYSCALL_NR_YIELD : Nat := 6
def SYSCALL_NR_ANON_ALLOCATE : Nat := 7
def SYSCALL_NR_MAX : Nat := 8

/-- The conversion of a 64-bit value to `int`. -/
def int_of_u64 (x : UInt64) : Int := Int.bmod x.toNat (2 ^ 32)

/-- The conversion of an `int` to a 64-bit value. -/
def u64_of_int (x : Int) : UInt64 := UInt64.ofNat (x % 2 ^ 64).toNat

/-- What is sent to the serial port, one operand of `<<` after the other. -/
inductive Output where
  | text (s : String)
  | number (n : Nat)
  | char (c : UInt8)
  deriving DecidableEq, Repr

/-- Read a byte at a virtual address. -/
def load_byte (P : Platform) (mem : Memory.Bytes) (p : Process) (vaddr : Nat) : Option UInt8 :=
  (translate P mem p vaddr).map mem

/-- Print the bytes at some addresses, and whether all of them could be read. -/
def print_bytes (P : Platform) (mem : Memory.Bytes) (p : Process) : List Nat → List Output × Bool
  | [] => ([], true)
  | v :: vs => match load_byte P mem p v with
    | none => ([], false)
    | some c => (.char c :: (print_bytes P mem p vs).1, (print_bytes P mem p vs).2)

/-- `&data[i]` for `i < size` -/
def data_addrs (c : Context) : List Nat :=
  (List.range c.rdx.toNat).map (fun i => (c.rsi.toNat + i) % 2 ^ 64)

/-- What is printed, and the result, unless the kernel stops at an address that is not mapped. -/
def sys_write (P : Platform) (mem : Memory.Bytes) (p : Process) (c : Context) :
    List Output × Option Int :=
  let fd := int_of_u64 c.rdi
  let size := c.rdx
  if fd = 0 then ([], some (int_of_u64 size))
  else if fd = 1 ∨ fd = 2 then
    let head := [.text "process <", .number p.id, .text ">: "]
    let (data, read) := print_bytes P mem p (data_addrs c)
    if read then (head ++ data ++ [.text "\n"], some (int_of_u64 size)) else (head ++ data, none)
  else ([], some (-1))

/-- The entries of `syscall_table`. `sys_exit` halts. -/
def syscall_table (P : Platform) (k : Kernel) (pid : Nat) (c : Context)
    (contents : Nat → UInt8) (syscall_num : Nat) : Option (Int × Kernel) :=
  if syscall_num = SYSCALL_NR_READ then some (-1, k)
  else if syscall_num = SYSCALL_NR_WRITE then
    (k.processes pid).bind (fun p => (sys_write P k.mem p c).2.map (·, k))
  else if syscall_num = SYSCALL_NR_OPEN then some (-1, k)
  else if syscall_num = SYSCALL_NR_CLOSE then some (-1, k)
  else if syscall_num = SYSCALL_NR_YIELD then some (0, k)
  else if syscall_num = SYSCALL_NR_ANON_ALLOCATE then
    sys_anon_allocate P k pid c.rdi c.rsi contents
  else none

/-- The result of the system call and the state after it. A number without a function is a
    panic. -/
def handle_syscall (P : Platform) (m : Scheduler) (pid : Nat) (contents : Nat → UInt8) :
    Option (Int × Scheduler) := do
  let c := m.context pid
  let syscall_num := c.rax.toNat
  guard (syscall_num ≠ SYSCALL_NR_NULL)
  guard (syscall_num < SYSCALL_NR_MAX)
  let (result, kernel) ← syscall_table P m.kernel pid c contents syscall_num
  pure (result, { m with
    kernel := kernel
    context := Function.update m.context pid { c with rax := u64_of_int result } })

/-! ## Handlers -/

/-- A handler that changes memory and the allocator, but no process. -/
structure DeviceHandler where
  run : IrqHandlerInfo → Scheduler → Option Scheduler
  keeps : ∀ info m m', run info m = some m' →
    ∃ buddy mem, m' = { m with kernel := { m.kernel with buddy := buddy, mem := mem } }

inductive Handler where
  | syscall
  | device (h : DeviceHandler)

/-- Run a handler. The results of system calls are kept. -/
def Handler.run (P : Platform) (contents : Nat → UInt8) (s : Scheduler × List Int) :
    Handler × IrqHandlerInfo → Option (Scheduler × List Int)
  | (.syscall, info) => do
    let (result, m) ← handle_syscall P s.1 info.pid contents
    pure (m, s.2 ++ [result])
  | (.device h, info) => do
    let m ← h.run info s.1
    pure (m, s.2)

/-- `SetupSyscall` has registered the handler for system calls, once, and the drivers have
    registered others. -/
structure Installed (ip : InterruptProcessor Handler) : Prop where
  devices : ∀ v, v ≠ IRQ_SYSCALL → ∃ hs : List DeviceHandler, ip.handlers v = hs.map .device
  syscall : ∃ hs hs' : List DeviceHandler,
    ip.handlers IRQ_SYSCALL = hs.map .device ++ [.syscall] ++ hs'.map .device

/-! ## Interrupts -/

def Scheduler.store_current_thread_context (m : Scheduler) (context : List UInt64) :
    Option Scheduler := do
  let _ ← m.kernel.processes m.current_pid
  let c ← Context.ofWords context
  pure { m with context := Function.update m.context m.current_pid c }

def Scheduler.current_context (m : Scheduler) : Option Context := do
  let _ ← m.kernel.processes m.current_pid
  pure (m.context m.current_pid)

/-- An interrupt, with what is not under control of the code: what lies on the stack and
    behind the context of the next process, the bytes the constructors leave and the
    registers that the called functions leave. -/
structure Interrupt where
  vector : Nat
  error_code : UInt64
  stack : List UInt64
  contents : Nat → UInt8
  clobbered : Reg → UInt64
  rest : List UInt64

/-- An interrupt while the registers are `cpu`: the state after it, the registers that are
    loaded and the results of system calls. -/
def interrupt (P : Platform) (ip : InterruptProcessor Handler) (fuel : Nat) (i : Interrupt)
    (m : Scheduler) (cpu : Cpu) : Option (Scheduler × Cpu × List Int) := do
  let a ← exec_all (main_idt_ i.vector) (hardware_entry cpu i.vector i.error_code i.stack)
  let a ← exec_all _irq_handler a
  let m ← m.store_current_thread_context a.stack
  let irq_num ← a.stack[160 / 8]?
  let error_code ← a.stack[168 / 8]?
  let calls ← ip.HandleInterrupt irq_num error_code m.current_pid
  let (m, results) ← calls.foldlM (Handler.run P i.contents) (m, [])
  let m ← m.schedule fuel
  let context ← m.current_context
  let cpu ← return_from_syscall { a with regs := i.clobbered } context i.rest
  pure (m, cpu, results)

/-! ## Runs -/

/-- A process was interrupted with these registers. -/
structure Interruption where
  pid : Nat
  vector : Nat
  cpu : Cpu
  results : List Int

/-- The registers with which the process goes on. -/
def Interruption.Resumes (e : Interruption) (cpu : Cpu) : Prop :=
  if e.vector = IRQ_SYSCALL then
    ∃ result, e.results = [result] ∧
      cpu = { e.cpu with regs := Function.update e.cpu.regs .rax (u64_of_int result) }
  else
    cpu = e.cpu

/-- The processor, and the interruptions so far, the last one first. -/
structure SwitchState where
  scheduler : Scheduler
  cpu : Cpu
  history : List Interruption

inductive SwitchEvent where
  | create_process (contents : Nat → UInt8) (raw : Context)
  /-- The current process runs, and its registers change. -/
  | run (cpu : Cpu)
  | interrupt (i : Interrupt)

/-- The last interruption of a process. -/
def last_interruption (history : List Interruption) (pid : Nat) : Option Interruption :=
  history.find? (fun e => e.pid = pid)

/-- From any state that the scheduler reaches. The exceptions with an error code and without
    a stub are not among the interrupts. -/
def switch_system (P : Platform) (ip : InterruptProcessor Handler) :
    System SwitchState SwitchEvent where
  init := fun s => Reachable (scheduling_system P) s.scheduler ∧ s.history = []
  step := fun s e s' =>
    match e with
    | .create_process contents raw =>
      ∃ m, s.scheduler.create_process P contents raw = some m ∧ s' = { s with scheduler := m }
    | .run cpu => s' = { s with cpu := cpu }
    | .interrupt i =>
      i.vector < MaxInterrupts ∧ i.vector ∉ unnamed_exceptions ∧
      ∃ fuel m cpu results, interrupt P ip fuel i s.scheduler s.cpu = some (m, cpu, results) ∧
        s' = ⟨m, cpu, ⟨s.scheduler.current_pid, i.vector, s.cpu, results⟩ :: s.history⟩

/-! ## Handlers keep the contexts -/

/-- No process is lost, and the current one is the same. -/
structure Keeps (m m' : Scheduler) : Prop where
  current : m'.current_pid = m.current_pid
  created : ∀ pid, m.created pid → m'.created pid

theorem Keeps.refl (m : Scheduler) : Keeps m m := ⟨rfl, fun _ h => h⟩

theorem Keeps.trans {m₁ m₂ m₃ : Scheduler} (h₁₂ : Keeps m₁ m₂) (h₂₃ : Keeps m₂ m₃) :
    Keeps m₁ m₃ :=
  ⟨h₂₃.current.trans h₁₂.current, fun pid h => h₂₃.created pid (h₁₂.created pid h)⟩

variable {P : Platform} {ip : InterruptProcessor Handler} {m m' : Scheduler} {cpu cpu' : Cpu}
  {contents : Nat → UInt8} {results results' : List Int} {i : Interrupt} {fuel : Nat}

/-- Handlers of devices change no context. -/
theorem run_devices (infos : List (DeviceHandler × IrqHandlerInfo)) (s s' : Scheduler × List Int)
    (h : (infos.map (fun c => (Handler.device c.1, c.2))).foldlM (Handler.run P contents) s =
      some s') : Keeps s.1 s'.1 ∧ s'.1.context = s.1.context ∧ s'.2 = s.2 := by
  induction infos generalizing s with
  | nil =>
    cases h
    exact ⟨.refl _, rfl, rfl⟩
  | cons c infos ih =>
    obtain ⟨s₁, hfirst, hrest⟩ := Option.bind_eq_some_iff.mp h
    obtain ⟨m, hm, hs₁⟩ := Option.bind_eq_some_iff.mp hfirst
    cases hs₁
    obtain ⟨buddy, mem, rfl⟩ := c.1.keeps _ _ _ hm
    obtain ⟨hkeeps, hcontext, hresults⟩ := ih _ hrest
    exact ⟨⟨hkeeps.current, hkeeps.created⟩, hcontext, hresults⟩

/-- Only `sys_anon_allocate` changes the kernel. -/
theorem syscall_table_cases {k k' : Kernel} {pid num : Nat} {c : Context} {result : Int}
    (h : syscall_table P k pid c contents num = some (result, k')) :
    k' = k ∨ num = SYSCALL_NR_ANON_ALLOCATE ∧
      sys_anon_allocate P k pid c.rdi c.rsi contents = some (result, k') := by
  unfold syscall_table at h
  split_ifs at h with h₁ h₂ h₃ h₄ h₅ h₆
  · cases h
    exact .inl rfl
  · obtain ⟨p, _, h⟩ := Option.bind_eq_some_iff.mp h
    obtain ⟨r, _, h⟩ := Option.map_eq_some_iff.mp h
    cases h
    exact .inl rfl
  · cases h
    exact .inl rfl
  · cases h
    exact .inl rfl
  · cases h
    exact .inl rfl
  · exact .inr ⟨h₆, h⟩

theorem syscall_table_created {k k' : Kernel} {pid num : Nat} {c : Context} {result : Int}
    (h : syscall_table P k pid c contents num = some (result, k')) (q : Nat)
    (hq : (k.processes q).isSome) : (k'.processes q).isSome := by
  rcases syscall_table_cases h with rfl | ⟨-, hallocate⟩
  · exact hq
  · obtain ⟨p, buf, -, -, hprocesses, -⟩ := sys_anon_allocate_cases hallocate
    rw [hprocesses]
    by_cases hpid : q = pid
    · simp [hpid]
    · simpa [hpid] using hq

/-- A system call changes `rax` of the process that makes it. -/
theorem handle_syscall_cases {pid : Nat} {result : Int}
    (h : handle_syscall P m pid contents = some (result, m')) :
    Keeps m m' ∧ m'.context =
      Function.update m.context pid { m.context pid with rax := u64_of_int result } := by
  obtain ⟨_, _, h⟩ := Option.bind_eq_some_iff.mp h
  obtain ⟨_, _, h⟩ := Option.bind_eq_some_iff.mp h
  obtain ⟨⟨r, kernel⟩, htable, h⟩ := Option.bind_eq_some_iff.mp h
  cases h
  exact ⟨⟨rfl, syscall_table_created htable⟩, rfl⟩

/-- Handlers of devices, called with one argument. -/
theorem run_device_handlers {hs : List DeviceHandler} {info : IrqHandlerInfo}
    (h : ((hs.map Handler.device).map (fun handler => (handler, info))).foldlM
      (Handler.run P contents) (m, results) = some (m', results')) :
    Keeps m m' ∧ m'.context = m.context ∧ results' = results := by
  have hmap : (hs.map Handler.device).map (fun handler => (handler, info)) =
      (hs.map (fun d => (d, info))).map (fun c => (Handler.device c.1, c.2)) := by simp
  rw [hmap] at h
  exact run_devices _ _ _ h

/-- The handler of system calls. -/
theorem run_syscall_handler {info : IrqHandlerInfo}
    (h : ([Handler.syscall].map (fun handler => (handler, info))).foldlM
      (Handler.run P contents) (m, results) = some (m', results')) :
    ∃ result, results' = results ++ [result] ∧ Keeps m m' ∧
      m'.context = Function.update m.context info.pid
        { m.context info.pid with rax := u64_of_int result } := by
  obtain ⟨s, hrun, hs⟩ := Option.bind_eq_some_iff.mp h
  cases hs
  obtain ⟨⟨result, m₁⟩, hcall, hs⟩ := Option.bind_eq_some_iff.mp hrun
  cases hs
  exact ⟨result, rfl, handle_syscall_cases hcall⟩

/-- **What the handlers of a vector do**: those of system calls write the result to `rax` of
    the current process, and the contexts are otherwise kept. -/
theorem run_handlers (hip : Installed ip) {v : Nat} (hv : v < MaxInterrupts)
    {error_code : UInt64} {calls : List (Handler × IrqHandlerInfo)}
    (hcalls : ip.HandleInterrupt (UInt64.ofNat (delivered_as v)) error_code m.current_pid =
      some calls)
    (h : calls.foldlM (Handler.run P contents) (m, []) = some (m', results)) :
    Keeps m m' ∧
      if v = IRQ_SYSCALL then
        ∃ result, results = [result] ∧ m'.context = Function.update m.context m.current_pid
          { m.context m.current_pid with rax := u64_of_int result }
      else m'.context = m.context := by
  rw [InterruptProcessor.HandleInterrupt_calls hcalls, toNat_delivered_as v hv] at h
  by_cases hsyscall : v = IRQ_SYSCALL
  · rw [if_pos hsyscall]
    rw [(delivered_as_syscall v hv).mpr hsyscall] at h
    obtain ⟨hs, hs', hhandlers⟩ := hip.syscall
    rw [hhandlers, List.map_append, List.map_append, List.foldlM_append, List.foldlM_append] at h
    obtain ⟨⟨m₂, results₂⟩, h₂, hrun₃⟩ := Option.bind_eq_some_iff.mp h
    obtain ⟨⟨m₁, results₁⟩, hrun₁, hrun₂⟩ := Option.bind_eq_some_iff.mp h₂
    obtain ⟨hkeeps₁, hcontext₁, rfl⟩ := run_device_handlers hrun₁
    obtain ⟨result, rfl, hkeeps₂, hcontext₂⟩ := run_syscall_handler hrun₂
    obtain ⟨hkeeps₃, hcontext₃, rfl⟩ := run_device_handlers hrun₃
    refine ⟨(hkeeps₁.trans hkeeps₂).trans hkeeps₃, result, rfl, ?_⟩
    rw [hcontext₃, hcontext₂, hcontext₁]
  · rw [if_neg hsyscall]
    obtain ⟨hs, hhandlers⟩ :=
      hip.devices _ (fun heq => hsyscall ((delivered_as_syscall v hv).mp heq))
    rw [hhandlers] at h
    obtain ⟨hkeeps, hcontext, -⟩ := run_device_handlers h
    exact ⟨hkeeps, hcontext⟩

/-! ## One interrupt -/

/-- The stages of an interrupt: the state with the saved registers, the calls of handlers,
    and the state when the scheduler starts. -/
theorem interrupt_stages (hv : i.vector < MaxInterrupts) (hframe : i.vector ∉ unnamed_exceptions)
    (h : interrupt P ip fuel i m cpu = some (m', cpu', results)) :
    m.created m.current_pid ∧ ∃ saved m₁ calls m₂, saved.cpu = cpu ∧
      m₁ = { m with context := Function.update m.context m.current_pid saved } ∧
      ip.HandleInterrupt (UInt64.ofNat (delivered_as i.vector))
        (pushed_error_code i.vector i.error_code) m₁.current_pid = some calls ∧
      calls.foldlM (Handler.run P i.contents) (m₁, []) = some (m₂, results) ∧
      m₂.schedule fuel = some m' ∧ cpu' = (m'.context m'.current_pid).cpu := by
  obtain ⟨a, hentry, h⟩ := Option.bind_eq_some_iff.mp h
  rw [idt_delivers hv hframe] at hentry
  cases hentry
  obtain ⟨a, hpush, h⟩ := Option.bind_eq_some_iff.mp h
  obtain ⟨regs, hwords⟩ := enter_frame cpu (UInt64.ofNat (delivered_as i.vector))
    (pushed_error_code i.vector i.error_code) i.stack
  rw [hwords] at hpush
  cases hpush
  obtain ⟨m₁, hstore, h⟩ := Option.bind_eq_some_iff.mp h
  obtain ⟨p, hp, hstore⟩ := Option.bind_eq_some_iff.mp hstore
  rw [Context.ofWords_words] at hstore
  obtain ⟨irq_num, hirq, h⟩ := Option.bind_eq_some_iff.mp h
  cases hirq
  obtain ⟨error_code, herror, h⟩ := Option.bind_eq_some_iff.mp h
  cases herror
  obtain ⟨calls, hcalls, h⟩ := Option.bind_eq_some_iff.mp h
  obtain ⟨⟨m₂, results₂⟩, hrun, h⟩ := Option.bind_eq_some_iff.mp h
  obtain ⟨m₃, hschedule, h⟩ := Option.bind_eq_some_iff.mp h
  obtain ⟨context, hcontext, h⟩ := Option.bind_eq_some_iff.mp h
  obtain ⟨_, -, hcontext⟩ := Option.bind_eq_some_iff.mp hcontext
  cases hcontext
  obtain ⟨cpu₃, hreturn, h⟩ := Option.bind_eq_some_iff.mp h
  rw [resume_frame] at hreturn
  cases hreturn
  cases h
  exact ⟨by simp [Scheduler.created, hp], _, m₁, calls, m₂, cpu_context _ _ _,
    (Option.some.inj hstore).symm, hcalls, hrun, hschedule, rfl⟩

/-- **What an interrupt does**: the current process is saved with the registers it will go
    on with, and the registers of the process selected next are loaded. -/
theorem interrupt_cases (hip : Installed ip) (hv : i.vector < MaxInterrupts)
    (hframe : i.vector ∉ unnamed_exceptions)
    (h : interrupt P ip fuel i m cpu = some (m', cpu', results)) :
    m.created m.current_pid ∧ (∀ pid, m.created pid → m'.created pid) ∧
      ∃ c, m'.context = Function.update m.context m.current_pid c ∧
        Interruption.Resumes ⟨m.current_pid, i.vector, cpu, results⟩ c.cpu ∧
        cpu' = (m'.context m'.current_pid).cpu := by
  obtain ⟨hcurrent, saved, m₁, calls, m₂, rfl, hm₁, hcalls, hrun, hschedule, hcpu⟩ :=
    interrupt_stages hv hframe h
  obtain ⟨hkeeps, hcontexts⟩ := run_handlers hip hv hcalls hrun
  obtain ⟨hkernel, hsame⟩ := Scheduler.schedule_keeps hschedule
  have hcontext₁ : m₁.context = Function.update m.context m.current_pid saved := by rw [hm₁]
  have hcurrent₁ : m₁.current_pid = m.current_pid := by rw [hm₁]
  refine ⟨hcurrent, fun pid hpid => ?_, ?_⟩
  · have hpid₂ : m₂.created pid := hkeeps.created pid (hm₁ ▸ hpid)
    rwa [Scheduler.created, hkernel]
  · -- a system call replaces `rax` in what was saved on entry
    rw [hcontext₁, hcurrent₁, Function.update_self, ← hsame] at hcontexts
    by_cases hsyscall : i.vector = IRQ_SYSCALL
    · rw [if_pos hsyscall] at hcontexts
      obtain ⟨result, rfl, hresult⟩ := hcontexts
      rw [Function.update_idem] at hresult
      refine ⟨_, hresult, ?_, hcpu⟩
      rw [Interruption.Resumes, if_pos hsyscall]
      exact ⟨result, rfl, cpu_context_rax _ _⟩
    · rw [if_neg hsyscall] at hcontexts
      refine ⟨_, hcontexts, ?_, hcpu⟩
      rw [Interruption.Resumes, if_neg hsyscall]

/-- The exceptions that are not among the interrupts of `switch_system` would be saved with a
    frame that is one word off. They reach no handler, unless one is registered for the
    number of the default stub, and halt. -/
theorem unnamed_exception_halts (hv : i.vector ∈ unnamed_exceptions)
    (hnone : ip.handlers 0xff = []) : interrupt P ip fuel i m cpu = none := by
  have hcode : ∀ v ∈ unnamed_exceptions,
      main_idt_ v = [.pushq (-1), .pushq 0xff] ∧ v ∈ error_code_vectors := by decide +kernel
  obtain ⟨hstub, herror⟩ := hcode _ hv
  have hhalt : ∀ e pid, ip.HandleInterrupt 0xff e pid = none := by
    intro e pid
    exact if_pos ((SmallVec.empty_iff_toList_nil _).mpr hnone)
  obtain ⟨regs, hwords⟩ := exec_irq_handler cpu (0xff :: -1 :: i.error_code ::
    ([cpu.rip, cpu.cs.toUInt64, cpu.rflags, cpu.rsp, cpu.ss.toUInt64] ++ i.stack))
  have hentry : exec_all (main_idt_ i.vector)
      (hardware_entry cpu i.vector i.error_code i.stack) = some ⟨cpu.regs, cpu.segs, cpu.cr3,
        0xff :: -1 :: i.error_code ::
          ([cpu.rip, cpu.cs.toUInt64, cpu.rflags, cpu.rsp, cpu.ss.toUInt64] ++ i.stack)⟩ := by
    simp [hstub, exec_all, Instr.exec, hardware_entry, herror]
  rw [Option.eq_none_iff_forall_ne_some]
  intro r h
  obtain ⟨a, ha, h⟩ := Option.bind_eq_some_iff.mp h
  rw [hentry] at ha
  cases ha
  obtain ⟨a, ha, h⟩ := Option.bind_eq_some_iff.mp h
  rw [hwords] at ha
  cases ha
  obtain ⟨m₁, -, h⟩ := Option.bind_eq_some_iff.mp h
  obtain ⟨irq_num, hirq, h⟩ := Option.bind_eq_some_iff.mp h
  cases hirq
  obtain ⟨error_code, -, h⟩ := Option.bind_eq_some_iff.mp h
  obtain ⟨calls, hcalls, -⟩ := Option.bind_eq_some_iff.mp h
  rw [hhalt] at hcalls
  cases hcalls

/-! ## Every run -/

/-- Every process that was interrupted exists, and its context is the one it will go on
    with. -/
def SwitchInv (s : SwitchState) : Prop :=
  ∀ pid e, last_interruption s.history pid = some e →
    s.scheduler.created pid ∧ e.Resumes (s.scheduler.context pid).cpu

theorem SwitchInv.create_process {s : SwitchState} {raw : Context} (hs : SwitchInv s)
    (h : s.scheduler.create_process P contents raw = some m) :
    SwitchInv { s with scheduler := m } := by
  obtain ⟨p, -, hfree, hprocesses, -, -, -, hcontext, -⟩ := Scheduler.create_process_cases h
  intro pid e he
  obtain ⟨hcreated, hresumes⟩ := hs pid e he
  -- the new process is another one
  have hne : pid ≠ s.scheduler.kernel.next_pid := by
    rintro rfl
    simp [Scheduler.created, hfree] at hcreated
  refine ⟨?_, ?_⟩
  · show (m.kernel.processes pid).isSome
    rw [hprocesses, Function.update_of_ne hne]
    exact hcreated
  · show e.Resumes (m.context pid).cpu
    rw [hcontext, Function.update_of_ne hne]
    exact hresumes

theorem SwitchInv.interrupt {s : SwitchState} (hs : SwitchInv s) (hip : Installed ip)
    (hv : i.vector < MaxInterrupts) (hframe : i.vector ∉ unnamed_exceptions)
    (h : interrupt P ip fuel i s.scheduler s.cpu = some (m', cpu', results)) :
    SwitchInv ⟨m', cpu', ⟨s.scheduler.current_pid, i.vector, s.cpu, results⟩ :: s.history⟩ := by
  obtain ⟨hcurrent, hcreated, c, hcontext, hresumes, -⟩ := interrupt_cases hip hv hframe h
  intro pid e he
  show m'.created pid ∧ e.Resumes (m'.context pid).cpu
  rw [hcontext]
  by_cases hpid : pid = s.scheduler.current_pid
  · subst hpid
    simp only [last_interruption, List.find?_cons_of_pos, decide_true] at he
    cases he
    rw [Function.update_self]
    exact ⟨hcreated _ hcurrent, hresumes⟩
  · have hold : last_interruption s.history pid = some e := by
      simpa [last_interruption, Ne.symm hpid] using he
    obtain ⟨hthere, hresumes⟩ := hs pid e hold
    rw [Function.update_of_ne hpid]
    exact ⟨hcreated pid hthere, hresumes⟩

theorem switch_inv (hip : Installed ip) :
    ∀ s, Reachable (switch_system P ip) s → SwitchInv s := by
  refine invariant_of_step ?_ ?_
  · rintro s ⟨-, hhistory⟩ pid e he
    simp [last_interruption, hhistory] at he
  · intro s e s' _ hs hstep
    cases e with
    | create_process contents raw =>
      obtain ⟨m, hm, rfl⟩ := hstep
      exact hs.create_process hm
    | run cpu =>
      obtain rfl : s' = { s with cpu := cpu } := hstep
      exact hs
    | interrupt i =>
      obtain ⟨hv, hframe, fuel, m, cpu, results, h, rfl⟩ := hstep
      exact hs.interrupt hip hv hframe h

/-- **Context switching preserves every process**: after an interrupt, a process that was
    interrupted before goes on with the registers of its last interruption, and with the
    result in `rax` when that was a system call. -/
theorem resumed_as_interrupted (P : Platform) (ip : InterruptProcessor Handler)
    (hip : Installed ip) (s s' : SwitchState) (hs : Reachable (switch_system P ip) s)
    (i : Interrupt) (h : (switch_system P ip).step s (.interrupt i) s') (e : Interruption)
    (he : last_interruption s'.history s'.scheduler.current_pid = some e) :
    e.Resumes s'.cpu := by
  have hinv := switch_inv hip s' (.step hs h)
  obtain ⟨hv, hframe, fuel, m, cpu, results, h, rfl⟩ := h
  obtain ⟨-, -, c, -, -, rfl⟩ := interrupt_cases hip hv hframe h
  exact (hinv _ e he).2

/-! ## A run -/

/-- Calls of `Register` for devices. -/
def device_calls (calls : List (RegisterCall DeviceHandler)) : List (RegisterCall Handler) :=
  calls.map fun
    | .single id h => .single id (.device h)
    | .range start_id count h => .range start_id count (.device h)

theorem registered_device_calls (calls : List (RegisterCall DeviceHandler)) (v : Nat) :
    InterruptProcessor.registered (device_calls calls) v =
      (InterruptProcessor.registered calls v).map .device := by
  induction calls with
  | nil => rfl
  | cons c calls ih =>
    simp only [device_calls, InterruptProcessor.registered, List.map_cons,
      List.flatMap_cons, List.map_append] at ih ⊢
    rw [ih]
    cases c <;> simp only [InterruptProcessor.registers] <;> split <;> rfl

/-- What the start of the kernel registers is installed. -/
theorem installed_of_calls (raw : Nat → Nat → Handler)
    (before after : List (RegisterCall DeviceHandler)) {calls : List (RegisterCall Handler)}
    (hcalls : calls = device_calls before ++ [.single IRQ_SYSCALL .syscall] ++ device_calls after)
    (hrange : ∀ c ∈ calls, InterruptProcessor.in_range c)
    (hroom : ∀ v, (InterruptProcessor.registered calls v).length ≤ MaxHandlersPerInterrupt) :
    ∃ ip, (InterruptProcessor.new raw).call_all calls = .ok ip ∧
      (∀ v, ip.handlers v = InterruptProcessor.registered calls v) ∧ Installed ip := by
  have hnew : ∀ v, (InterruptProcessor.new raw).handlers v = [] := fun v => by
    simp [InterruptProcessor.new, InterruptProcessor.handlers, SmallVec.toList]
  obtain ⟨ip, hip, hhandlers⟩ := InterruptProcessor.call_all_of_le calls hrange
    (InterruptProcessor.new raw) (by simpa [hnew] using hroom)
  simp only [hnew, List.nil_append] at hhandlers
  have hsplit : ∀ v, ip.handlers v =
      (InterruptProcessor.registered before v).map .device ++
        InterruptProcessor.registers (.single IRQ_SYSCALL .syscall) v ++
        (InterruptProcessor.registered after v).map .device := by
    intro v
    rw [hhandlers, hcalls, ← registered_device_calls, ← registered_device_calls]
    simp [InterruptProcessor.registered]
  refine ⟨ip, hip, hhandlers, fun v hv => ?_, ?_⟩
  · refine ⟨InterruptProcessor.registered before v ++ InterruptProcessor.registered after v, ?_⟩
    simp [hsplit, InterruptProcessor.registers, hv]
  · exact ⟨_, _, hsplit IRQ_SYSCALL⟩

/-- An interrupt returns when the handlers and the scheduler do. -/
theorem interrupt_returns {saved : Context} {m₁ m₂ : Scheduler}
    {calls : List (Handler × IrqHandlerInfo)}
    (hv : i.vector < MaxInterrupts) (hframe : i.vector ∉ unnamed_exceptions)
    (hcurrent : m.created m.current_pid)
    (hsaved : saved = cpu.context (UInt64.ofNat (delivered_as i.vector))
      (pushed_error_code i.vector i.error_code))
    (hm₁ : m₁ = { m with context := Function.update m.context m.current_pid saved })
    (hcalls : ip.HandleInterrupt saved.reserved1_0 saved.reserved1_1 m₁.current_pid = some calls)
    (hrun : calls.foldlM (Handler.run P i.contents) (m₁, []) = some (m₂, results))
    (hschedule : m₂.schedule fuel = some m') (hselected : m'.created m'.current_pid) :
    interrupt P ip fuel i m cpu = some (m', (m'.context m'.current_pid).cpu, results) := by
  obtain ⟨regs, hwords⟩ := enter_frame cpu (UInt64.ofNat (delivered_as i.vector))
    (pushed_error_code i.vector i.error_code) i.stack
  rw [← hsaved] at hwords
  obtain ⟨p, hp⟩ := Option.isSome_iff_exists.mp hcurrent
  obtain ⟨p', hp'⟩ := Option.isSome_iff_exists.mp hselected
  have hstore : m.store_current_thread_context (saved.words ++ i.stack) = some m₁ := by
    simp [Scheduler.store_current_thread_context, hp, Context.ofWords_words, hm₁]
  have hirq : (saved.words ++ i.stack)[160 / 8]? = some saved.reserved1_0 := rfl
  have herror : (saved.words ++ i.stack)[168 / 8]? = some saved.reserved1_1 := rfl
  have hcontext : m'.current_context = some (m'.context m'.current_pid) := by
    simp [Scheduler.current_context, hp']
  simp only [interrupt, idt_delivers hv hframe, hwords, hstore, hirq, herror, hcalls, hrun,
    hschedule, hcontext, resume_frame, Option.bind_eq_bind, Option.bind_some]
  rfl

/-- A process that yields is interrupted, with the result 0. -/
theorem yield_returns (hhandlers : ip.handlers IRQ_SYSCALL = [.syscall]) (hm : m.Slots)
    (hfew : m.created_count < MAX_PROCESS - 1) (hi : i.vector = IRQ_SYSCALL)
    (hrax : cpu.regs .rax = UInt64.ofNat SYSCALL_NR_YIELD) :
    ∃ m', interrupt P ip 2 i m cpu = some (m', (m'.context m'.current_pid).cpu, [0]) ∧
      m'.current_pid = m.next_selection ∧ m'.kernel = m.kernel ∧ m'.Slots := by
  have hv : i.vector < MaxInterrupts ∧ i.vector ∉ unnamed_exceptions := by
    rw [hi]
    decide
  obtain ⟨saved, hsaved⟩ : ∃ saved, saved = cpu.context (UInt64.ofNat (delivered_as i.vector))
    (pushed_error_code i.vector i.error_code) := ⟨_, rfl⟩
  have hnum : saved.reserved1_0.toNat = IRQ_SYSCALL := by
    rw [hsaved]
    show (UInt64.ofNat (delivered_as i.vector)).toNat = IRQ_SYSCALL
    rw [hi]
    decide +kernel
  have hrax₁ : saved.rax = UInt64.ofNat SYSCALL_NR_YIELD := by
    rw [hsaved]
    exact hrax
  obtain ⟨m₁, hm₁⟩ : ∃ m₁ : Scheduler, m₁ =
      { m with context := Function.update m.context m.current_pid saved } := ⟨_, rfl⟩
  have hcalls := InterruptProcessor.HandleInterrupt_of_handlers (hnum ▸ hhandlers)
    (List.cons_ne_nil _ _) saved.reserved1_1 m₁.current_pid
  obtain ⟨context₂, hcontext₂⟩ : ∃ context₂, context₂ =
      Function.update m₁.context m₁.current_pid { saved with rax := u64_of_int 0 } := ⟨_, rfl⟩
  obtain ⟨m₂, hm₂⟩ : ∃ m₂ : Scheduler, m₂ = { m₁ with context := context₂ } := ⟨_, rfl⟩
  have hcall : handle_syscall P m₁ m₁.current_pid i.contents = some (0, m₂) := by
    have hcontext : m₁.context m₁.current_pid = saved := by simp [hm₁]
    have hsix : saved.rax.toNat = 6 := by rw [hrax₁]; rfl
    simp [handle_syscall, hcontext, hsix, hm₂, hcontext₂, guard, SYSCALL_NR_NULL, SYSCALL_NR_MAX,
      syscall_table, SYSCALL_NR_READ, SYSCALL_NR_WRITE, SYSCALL_NR_OPEN, SYSCALL_NR_CLOSE,
      SYSCALL_NR_YIELD]
  have hslots₂ : m₂.Slots := by
    rw [hm₂, hm₁]
    exact ⟨⟨hm.filled, hm.free, hm.current_pos, hm.current_le, hm.next_le, hm.waiting⟩,
      hm.current_lt⟩
  have hkernel₂ : m₂.kernel = m.kernel ∧ m₂.current_pid = m.current_pid := by
    rw [hm₂, hm₁]
    exact ⟨rfl, rfl⟩
  have hschedule := Scheduler.schedule_eq hslots₂
    (.inr (by rwa [Scheduler.created_count, hkernel₂.1])) 0
  have hselect := hslots₂.select
  refine ⟨m₂.select m₂.next_selection, ?_, ?_, hkernel₂.1, hselect⟩
  · refine interrupt_returns hv.1 hv.2 ?_ hsaved hm₁ hcalls ?_ hschedule ?_
    · exact (hm.created_iff _).mpr ⟨hm.current_pos, hm.current_lt⟩
    · simp [Handler.run, hcall]
    · exact (hselect.created_iff _).mpr ⟨hselect.current_pos, hselect.current_lt⟩
  · show m₂.next_selection = m.next_selection
    rw [Scheduler.next_selection, Scheduler.next_selection, hkernel₂.1, hkernel₂.2]

/-- Two processes yield in turn, and the first goes on with what it had. -/
theorem yielding_process_resumes : ∃ ip s s' i e, Installed ip ∧
    Reachable (switch_system platform_2G ip) s ∧
    (switch_system platform_2G ip).step s (.interrupt i) s' ∧ s'.scheduler.current_pid = 1 ∧
    last_interruption s'.history s'.scheduler.current_pid = some e ∧
    e.vector = IRQ_SYSCALL ∧ e.Resumes s'.cpu := by
  obtain ⟨ip, -, hhandlers, hip⟩ := installed_of_calls (fun _ _ => .syscall) [] [] rfl
    (by simp [device_calls, InterruptProcessor.in_range, IRQ_SYSCALL, MaxInterrupts])
    (fun v => Nat.le_trans (InterruptProcessor.length_registered_le _ v) (by decide))
  have hsyscall : ip.handlers IRQ_SYSCALL = [.syscall] := hhandlers IRQ_SYSCALL
  obtain ⟨m, hm, hnext, hcurrent⟩ := Scheduler.reachable_two_processes
  have hslots := Scheduler.slots_of_reachable m hm
  have hfew : ∀ m' : Scheduler, m'.kernel = m.kernel → m'.created_count < MAX_PROCESS - 1 := by
    intro m' hkernel
    rw [Scheduler.created_count, hkernel, hnext]
    decide
  let yielding (rip : UInt64) : Cpu :=
    ⟨fun _ => UInt64.ofNat SYSCALL_NR_YIELD, fun _ => 0, 0, rip, 0, 0x200, 0, 0⟩
  let i : Interrupt := ⟨IRQ_SYSCALL, 0, [], fun _ => 0, fun _ => 0, []⟩
  have hi : i.vector < MaxInterrupts ∧ i.vector ∉ unnamed_exceptions := by decide
  have hvector : i.vector = IRQ_SYSCALL := rfl
  have hrax : ∀ rip, (yielding rip).regs .rax = UInt64.ofNat SYSCALL_NR_YIELD := fun _ => rfl
  -- the first process yields at 0x1000, the second at 0x2000
  obtain ⟨m₁, hyield₁, hcurrent₁, hkernel₁, hslots₁⟩ := yield_returns (P := platform_2G)
    hsyscall hslots (hfew m rfl) hvector (hrax 0x1000)
  obtain ⟨m₂, hyield₂, hcurrent₂, -, -⟩ := yield_returns (P := platform_2G)
    hsyscall hslots₁ (hfew m₁ hkernel₁) hvector (hrax 0x2000)
  have hsecond : m₁.current_pid = 2 := by
    simp [hcurrent₁, Scheduler.next_selection, hcurrent, hnext]
  have hfirst : m₂.current_pid = 1 := by
    simp [hcurrent₂, Scheduler.next_selection, hsecond, hkernel₁, hnext]
  let e₁ : Interruption := ⟨m.current_pid, IRQ_SYSCALL, yielding 0x1000, [0]⟩
  let e₂ : Interruption := ⟨m₁.current_pid, IRQ_SYSCALL, yielding 0x2000, [0]⟩
  have hs : Reachable (switch_system platform_2G ip) ⟨m, yielding 0x1000, []⟩ := .init ⟨hm, rfl⟩
  have hstep₁ : (switch_system platform_2G ip).step ⟨m, yielding 0x1000, []⟩ (.interrupt i)
      ⟨m₁, (m₁.context m₁.current_pid).cpu, [e₁]⟩ := ⟨hi.1, hi.2, 2, _, _, _, hyield₁, rfl⟩
  have hrun : (switch_system platform_2G ip).step ⟨m₁, (m₁.context m₁.current_pid).cpu, [e₁]⟩
      (.run (yielding 0x2000)) ⟨m₁, yielding 0x2000, [e₁]⟩ := rfl
  have hstep₂ : (switch_system platform_2G ip).step ⟨m₁, yielding 0x2000, [e₁]⟩ (.interrupt i)
      ⟨m₂, (m₂.context m₂.current_pid).cpu, [e₂, e₁]⟩ :=
    ⟨hi.1, hi.2, 2, _, _, _, hyield₂, rfl⟩
  have hlast : last_interruption [e₂, e₁] m₂.current_pid = some e₁ := by
    simp [last_interruption, e₁, e₂, hfirst, hsecond, hcurrent]
  have hreach := (hs.step hstep₁).step hrun
  exact ⟨ip, _, _, i, e₁, hip, hreach, hstep₂, hfirst, hlast, rfl,
    resumed_as_interrupted platform_2G ip hip _ _ hreach i hstep₂ e₁ hlast⟩

end Modern05
