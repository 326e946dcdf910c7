import Modern05.Kernel.ContextSwitch

/-! # Yielding from a kernel thread

    `kyield` in `process.cpp`: a system call from inside the kernel. It loads its number, the
    literal 2, and leaves the other registers as they are. In the table of system calls 2 is
    `sys_write`, not `sys_yield`, and `sys_write` looks at `rdi`, `rsi` and `rdx`.

    * `syscall_output` is what a system call prints.
    * `kyield_keeps` says what an interrupt by `kyield` keeps, whatever the registers.
    * `kyield_only_yields_iff` says when nothing is printed.
-/

namespace Modern05

/-! ## Output -/

/-- What `handle_syscall` and the functions of its table print. The dump after the message of a
    panic is not part of it. -/
def syscall_output (P : Platform) (m : Scheduler) (pid : Nat) : List Output :=
  let c := m.context pid
  let syscall_num := c.rax.toNat
  if syscall_num = SYSCALL_NR_NULL then
    [.text "Kernel panic: '", .text "Invalid null syscall", .text "'\n"]
  else if syscall_num ≥ SYSCALL_NR_MAX then
    [.text "Kernel panic: '", .text "Invalid syscall >= max", .text "'\n"]
  else if syscall_num = SYSCALL_NR_WRITE then
    (m.kernel.processes pid).elim [] (fun p => (sys_write P m.kernel.mem p c).1)
  else if syscall_num = SYSCALL_NR_EXIT then
    [.text "process ", .number m.current_pid,
      .text " successfully exit, not implemented so halt\n"]
  else if syscall_num = SYSCALL_NR_ANON_ALLOCATE then
    [.text "process ", .number m.current_pid, .text " anon_allocate(0x", .number c.rdi.toNat,
      .text ", 0x", .number c.rsi.toNat, .text ")\n"] ++
    match m.kernel.processes pid,
        try_kmalloc P.region.allocator m.kernel.buddy (aligned_size c.rdi).toNat with
    | some p, some _ =>
      if p.brk_start + aligned_size c.rdi > p.brk_end then [.text "user brk overflow\n"] else []
    | _, _ => []
  else []

/-! ## The call -/

/-- The registers at `int $42`. -/
def kyield_cpu (cpu : Cpu) : Cpu := { cpu with regs := Function.update cpu.regs .rax 0x2 }

/-- The state in which the handlers of an interrupt run. -/
def Scheduler.entered (m : Scheduler) (saved : Context) : Scheduler :=
  { m with context := Function.update m.context m.current_pid saved }

theorem Scheduler.entered_entered (m : Scheduler) (saved saved' : Context) :
    (m.entered saved).entered saved' = m.entered saved' := by
  simp [Scheduler.entered]

/-- The system call prints nothing and returns with nothing but `rax` of the caller changed; and
    after the interrupt only the choice of the process is another. -/
structure OnlyYields (P : Platform) (m : Scheduler) (cpu : Cpu) : Prop where
  silent : ∀ irq_num error_code,
    syscall_output P (m.entered ((kyield_cpu cpu).context irq_num error_code)) m.current_pid = []
  handled : ∀ irq_num error_code contents, ∃ result,
    handle_syscall P (m.entered ((kyield_cpu cpu).context irq_num error_code)) m.current_pid
        contents =
      some (result, m.entered
        { (kyield_cpu cpu).context irq_num error_code with rax := u64_of_int result })
  resumed : ∀ (ip : InterruptProcessor Handler) (fuel : Nat) (i : Interrupt) m' cpu' results,
    ip.handlers IRQ_SYSCALL = [.syscall] → i.vector = IRQ_SYSCALL →
    interrupt P ip fuel i m (kyield_cpu cpu) = some (m', cpu', results) →
    m'.kernel = m.kernel ∧ (∀ pid, pid ≠ m.current_pid → m'.context pid = m.context pid) ∧
    ∃ rax, (m'.context m.current_pid).cpu =
      { cpu with regs := Function.update cpu.regs .rax rax }

section

variable {P : Platform} {m m' : Scheduler} {cpu cpu' : Cpu} {mem : Memory.Bytes} {p : Process}
  {c : Context} {contents : Nat → UInt8} {result : Int} {results : List Int} {fuel : Nat}
  {ip : InterruptProcessor Handler} {i : Interrupt}

/-! ## `sys_write` -/

/-- Other descriptors than 1 and 2 are not printed to. -/
theorem sys_write_silent (h₁ : int_of_u64 c.rdi ≠ 1) (h₂ : int_of_u64 c.rdi ≠ 2) :
    ∃ result, sys_write P mem p c = ([], some result) := by
  unfold sys_write
  by_cases hzero : int_of_u64 c.rdi = 0
  · exact ⟨_, if_pos hzero⟩
  · exact ⟨-1, by simp [hzero, h₁, h₂]⟩

/-- To these two, at least the process is printed. -/
theorem sys_write_prints (h : int_of_u64 c.rdi = 1 ∨ int_of_u64 c.rdi = 2) :
    (sys_write P mem p c).1 ≠ [] := by
  have hzero : int_of_u64 c.rdi ≠ 0 := by omega
  by_cases hread : (print_bytes P mem p (data_addrs c)).2 = true
  · simp [sys_write, hzero, h, hread]
  · simp [sys_write, hzero, h, hread]

/-! ## Dispatch -/

/-- The number is that of `sys_write`. -/
theorem rax_kyield (irq_num error_code : UInt64) :
    ((kyield_cpu cpu).context irq_num error_code).rax.toNat = SYSCALL_NR_WRITE := by
  simp [Cpu.context, kyield_cpu, SYSCALL_NR_WRITE]

/-- The other registers are those of the caller. -/
theorem rdi_kyield (irq_num error_code : UInt64) :
    ((kyield_cpu cpu).context irq_num error_code).rdi = cpu.regs .rdi := by
  simp [Cpu.context, kyield_cpu]

theorem syscall_output_write (hp : m.kernel.processes m.current_pid = some p)
    (hc : m.context m.current_pid = c) (hrax : c.rax.toNat = SYSCALL_NR_WRITE) :
    syscall_output P m m.current_pid = (sys_write P m.kernel.mem p c).1 := by
  unfold syscall_output
  dsimp only
  rw [hc, hrax, if_neg (by decide), if_neg (by decide), if_pos rfl, hp, Option.elim_some]

theorem handle_syscall_write {output : List Output}
    (hp : m.kernel.processes m.current_pid = some p) (hc : m.context m.current_pid = c)
    (hrax : c.rax.toNat = SYSCALL_NR_WRITE)
    (hwrite : sys_write P m.kernel.mem p c = (output, some result)) :
    handle_syscall P m m.current_pid contents =
      some (result, m.entered { c with rax := u64_of_int result }) := by
  have htable : syscall_table P m.kernel m.current_pid c contents SYSCALL_NR_WRITE =
      some (result, m.kernel) := by
    rw [syscall_table, if_neg (by decide), if_pos rfl, hp, Option.bind_some, hwrite]
    rfl
  have hnull : SYSCALL_NR_WRITE ≠ SYSCALL_NR_NULL := by decide
  have hmax : SYSCALL_NR_WRITE < SYSCALL_NR_MAX := by decide
  simp [handle_syscall, hc, hrax, htable, hnull, hmax, Scheduler.entered, guard]

/-- A call with this number changes no process and no memory. -/
theorem kernel_of_handle_syscall {pid : Nat}
    (hrax : (m.context pid).rax.toNat = SYSCALL_NR_WRITE)
    (h : handle_syscall P m pid contents = some (result, m')) : m'.kernel = m.kernel := by
  obtain ⟨_, _, h⟩ := Option.bind_eq_some_iff.mp h
  obtain ⟨_, _, h⟩ := Option.bind_eq_some_iff.mp h
  obtain ⟨⟨r, kernel⟩, htable, h⟩ := Option.bind_eq_some_iff.mp h
  cases h
  rcases syscall_table_cases htable with hsame | ⟨hnum, -⟩
  · exact hsame
  · rw [hrax] at hnum
    exact absurd hnum (by decide)

/-! ## The interrupt -/

/-- **What `kyield` keeps**, whatever is in the registers: the kernel, the contexts of the other
    processes, and all of its own registers but `rax`. -/
theorem kyield_keeps (hhandlers : ip.handlers IRQ_SYSCALL = [.syscall])
    (hi : i.vector = IRQ_SYSCALL)
    (h : interrupt P ip fuel i m (kyield_cpu cpu) = some (m', cpu', results)) :
    m'.kernel = m.kernel ∧ (∀ pid, pid ≠ m.current_pid → m'.context pid = m.context pid) ∧
    ∃ rax, (m'.context m.current_pid).cpu =
      { cpu with regs := Function.update cpu.regs .rax rax } := by
  have hv : i.vector < MaxInterrupts ∧ i.vector ∉ unnamed_exceptions := by
    rw [hi]
    decide
  have hdelivered : delivered_as i.vector = IRQ_SYSCALL :=
    (delivered_as_syscall i.vector hv.1).mpr hi
  obtain ⟨-, saved, m₁, calls, m₂, hsaved, hm₁, hcalls, hrun, hschedule, -⟩ :=
    interrupt_stages hv.1 hv.2 h
  rw [InterruptProcessor.HandleInterrupt_calls hcalls, toNat_delivered_as i.vector hv.1,
    hdelivered, hhandlers] at hrun
  obtain ⟨s, hhandler, hs⟩ := Option.bind_eq_some_iff.mp hrun
  cases hs
  obtain ⟨⟨result, m₃⟩, hcall, hs⟩ := Option.bind_eq_some_iff.mp hhandler
  cases hs
  -- the context on entry is the one with the number
  have hcontext₁ : m₁.context m₁.current_pid = saved := by
    rw [hm₁]
    exact Function.update_self _ _ _
  have hrax : (m₁.context m₁.current_pid).rax.toNat = SYSCALL_NR_WRITE := by
    have hregs : saved.cpu.regs .rax = (kyield_cpu cpu).regs .rax := by rw [hsaved]
    have hrax : saved.rax = (kyield_cpu cpu).regs .rax := hregs
    rw [hcontext₁, hrax]
    simp [kyield_cpu, SYSCALL_NR_WRITE]
  have hkernel := kernel_of_handle_syscall hrax hcall
  obtain ⟨-, hcontexts⟩ := handle_syscall_cases hcall
  obtain ⟨hsame_kernel, hsame⟩ := Scheduler.schedule_keeps hschedule
  have hcurrent : m₁.current_pid = m.current_pid := by rw [hm₁]
  have hothers : m₁.context = Function.update m.context m.current_pid saved := by rw [hm₁]
  dsimp only at hcontexts
  rw [hcontext₁, hcurrent, hothers, Function.update_idem] at hcontexts
  refine ⟨?_, ?_, u64_of_int result, ?_⟩
  · rw [hsame_kernel, hkernel, hm₁]
  · intro pid hpid
    rw [hsame, hcontexts, Function.update_of_ne hpid]
  · rw [hsame, hcontexts, Function.update_self, cpu_context_rax, hsaved]
    simp [kyield_cpu]

end

/-- **When `kyield` only yields**: the lower half of `rdi` is neither 1 nor 2. Otherwise it prints,
    and what it prints is what `rsi` and `rdx` happen to point to. -/
theorem kyield_only_yields_iff (P : Platform) (m : Scheduler) (cpu : Cpu)
    (hcurrent : m.created m.current_pid) :
    OnlyYields P m cpu ↔
      int_of_u64 (cpu.regs .rdi) ≠ 1 ∧ int_of_u64 (cpu.regs .rdi) ≠ 2 := by
  obtain ⟨p, hp⟩ := Option.isSome_iff_exists.mp hcurrent
  have hentered : ∀ saved, (m.entered saved).kernel.processes (m.entered saved).current_pid =
      some p := fun _ => hp
  have hcontext : ∀ saved, (m.entered saved).context (m.entered saved).current_pid = saved :=
    fun _ => Function.update_self _ _ _
  constructor
  · intro h
    by_contra hprints
    have hfd : int_of_u64 (cpu.regs .rdi) = 1 ∨ int_of_u64 (cpu.regs .rdi) = 2 := by omega
    have hrdi : ((kyield_cpu cpu).context 0 0).rdi = cpu.regs .rdi := rdi_kyield 0 0
    rw [← hrdi] at hfd
    have hsilent := h.silent 0 0
    exact sys_write_prints hfd
      ((syscall_output_write (hentered _) (hcontext _) (rax_kyield 0 0)).symm.trans hsilent)
  · intro ⟨h₁, h₂⟩
    have hwrite : ∀ irq_num error_code, ∃ result,
        sys_write P m.kernel.mem p ((kyield_cpu cpu).context irq_num error_code) =
          ([], some result) := by
      intro irq_num error_code
      have hrdi : ((kyield_cpu cpu).context irq_num error_code).rdi = cpu.regs .rdi :=
        rdi_kyield irq_num error_code
      rw [← hrdi] at h₁ h₂
      exact sys_write_silent h₁ h₂
    constructor
    · intro irq_num error_code
      obtain ⟨result, hwrite⟩ := hwrite irq_num error_code
      have houtput := syscall_output_write (P := P)
        (hentered ((kyield_cpu cpu).context irq_num error_code)) (hcontext _) (rax_kyield _ _)
      exact houtput.trans (congrArg Prod.fst hwrite)
    · intro irq_num error_code contents
      obtain ⟨result, hwrite⟩ := hwrite irq_num error_code
      refine ⟨result, ?_⟩
      rw [← m.entered_entered ((kyield_cpu cpu).context irq_num error_code)
        { (kyield_cpu cpu).context irq_num error_code with rax := u64_of_int result }]
      exact handle_syscall_write (hentered _) (hcontext _) (rax_kyield _ _) hwrite
    · intro ip fuel i m' cpu' results hhandlers hi h
      exact kyield_keeps hhandlers hi h

/-- Registers with a value of `rdi`, and nothing else. -/
def cpu_with_rdi (rdi : UInt64) : Cpu :=
  ⟨fun r => if r = .rdi then rdi else 0, fun _ => 0, 0, 0x1000, 0, 0x200, 0, 0⟩

/-- A thread whose `rdi` is a pointer yields. -/
theorem pointer_in_rdi_only_yields :
    ∃ m, m.created m.current_pid ∧
      OnlyYields platform_2G m (cpu_with_rdi 0xffff800004001000) := by
  obtain ⟨m, hm, -, -⟩ := Scheduler.reachable_two_processes
  have hslots := Scheduler.slots_of_reachable m hm
  have hcurrent : m.created m.current_pid :=
    (hslots.created_iff _).mpr ⟨hslots.current_pos, hslots.current_lt⟩
  exact ⟨m, hcurrent,
    (kyield_only_yields_iff platform_2G m _ hcurrent).mpr (by decide +kernel)⟩

/-- A thread whose `rdi` is 1 prints. -/
theorem one_in_rdi_prints :
    ∃ m p, m.kernel.processes m.current_pid = some p ∧
      syscall_output platform_2G (m.entered ((kyield_cpu (cpu_with_rdi 1)).context 42 0))
          m.current_pid =
        [.text "process <", .number p.id, .text ">: ", .text "\n"] ∧
      ¬ OnlyYields platform_2G m (cpu_with_rdi 1) := by
  obtain ⟨m, hm, -, -⟩ := Scheduler.reachable_two_processes
  have hslots := Scheduler.slots_of_reachable m hm
  obtain ⟨p, hp⟩ := Option.isSome_iff_exists.mp
    ((hslots.created_iff _).mpr ⟨hslots.current_pos, hslots.current_lt⟩)
  have houtput : syscall_output platform_2G
      (m.entered ((kyield_cpu (cpu_with_rdi 1)).context 42 0)) m.current_pid =
      [.text "process <", .number p.id, .text ">: ", .text "\n"] := by
    have hwrite := syscall_output_write (P := platform_2G) (p := p)
      (m := m.entered ((kyield_cpu (cpu_with_rdi 1)).context 42 0)) hp
      (Function.update_self _ _ _) (rax_kyield 42 0)
    have hone : int_of_u64 1 = 1 := by decide +kernel
    refine hwrite.trans ?_
    simp [sys_write, Cpu.context, kyield_cpu, cpu_with_rdi, hone, data_addrs, print_bytes]
  refine ⟨m, p, hp, houtput, ?_⟩
  intro h
  have hsilent := h.silent 42 0
  rw [houtput] at hsilent
  cases hsilent

end Modern05
