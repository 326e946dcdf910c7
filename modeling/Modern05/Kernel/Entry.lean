import Modern05.Lib.Utils

/-! # Interrupt entry and return

    The assembly of `irq.S` and the layout of `struct Context` in `include/process.h`.

    The code is a list of instructions over the registers and the words of the stack,
    top first. What `mov` to `rsp` does is to choose another stack. The flags that the
    arithmetic instructions change are not followed: `iretq` replaces them.

    * `enter_frame`: whatever the stub, the words that `_irq_handler` has pushed are the
      context of the interrupted code.
    * `resume_frame`: `return_from_syscall` loads every register from a context.
-/

namespace Modern05

/-! ## Registers -/

/-- The general registers other than `rsp`. -/
inductive Reg where
  | rax | rcx | rdx | rbx | rdi | rsi | rbp
  | r8 | r9 | r10 | r11 | r12 | r13 | r14 | r15
  deriving DecidableEq, Repr

inductive SegReg where
  | ds | es | fs | gs
  deriving DecidableEq, Repr

/-- The registers of the code that runs. -/
@[ext] structure Cpu where
  regs : Reg → UInt64
  segs : SegReg → UInt16
  cr3 : UInt64
  rip : UInt64
  cs : UInt16
  rflags : UInt64
  rsp : UInt64
  ss : UInt16

/-! ## Saved contexts -/

/-- `struct Context`, in the order of its layout. -/
structure Context where
  ds : UInt64
  es : UInt64
  fs : UInt64
  gs : UInt64
  cr3 : UInt64
  r15 : UInt64
  r14 : UInt64
  r13 : UInt64
  r12 : UInt64
  r11 : UInt64
  r10 : UInt64
  r9 : UInt64
  r8 : UInt64
  rbp : UInt64
  rsi : UInt64
  rdi : UInt64
  rbx : UInt64
  rdx : UInt64
  rcx : UInt64
  rax : UInt64
  reserved1_0 : UInt64
  reserved1_1 : UInt64
  rip : UInt64
  cs : UInt64
  rflags : UInt64
  rsp : UInt64
  ss : UInt64
  deriving DecidableEq, Repr

namespace Context

/-- The words of a context in memory. -/
def words (c : Context) : List UInt64 :=
  [c.ds, c.es, c.fs, c.gs, c.cr3, c.r15, c.r14, c.r13, c.r12, c.r11, c.r10, c.r9, c.r8, c.rbp,
    c.rsi, c.rdi, c.rbx, c.rdx, c.rcx, c.rax, c.reserved1_0, c.reserved1_1, c.rip, c.cs,
    c.rflags, c.rsp, c.ss]

/-- What `memcpy` of `sizeof(Context)` bytes makes of the words at its source. -/
def ofWords : List UInt64 → Option Context
  | ds :: es :: fs :: gs :: cr3 :: r15 :: r14 :: r13 :: r12 :: r11 :: r10 :: r9 :: r8 :: rbp ::
      rsi :: rdi :: rbx :: rdx :: rcx :: rax :: reserved1_0 :: reserved1_1 :: rip :: cs ::
      rflags :: rsp :: ss :: _ =>
    some ⟨ds, es, fs, gs, cr3, r15, r14, r13, r12, r11, r10, r9, r8, rbp, rsi, rdi, rbx, rdx,
      rcx, rax, reserved1_0, reserved1_1, rip, cs, rflags, rsp, ss⟩
  | _ => none

theorem ofWords_words (c : Context) (rest : List UInt64) : ofWords (c.words ++ rest) = some c :=
  rfl

end Context

/-! ## Instructions -/

inductive Instr where
  /-- `push %r` -/
  | push (r : Reg)
  /-- `pushq $imm` -/
  | pushq (imm : UInt64)
  /-- `pop %r` -/
  | pop (r : Reg)
  /-- `mov %cr3, %rax` -/
  | mov_cr3_rax
  /-- `mov %rax, %cr3` -/
  | mov_rax_cr3
  /-- `xor %rax, %rax` -/
  | xor_rax_rax
  /-- `mov %s, %ax` -/
  | mov_seg_ax (s : SegReg)
  /-- `mov %ax, %s` -/
  | mov_ax_seg (s : SegReg)
  /-- `add $bytes, %rsp` -/
  | add_rsp (bytes : Nat)
  deriving DecidableEq, Repr

/-- The registers while code of `irq.S` runs, and the words from `rsp` on. -/
structure AsmState where
  regs : Reg → UInt64
  segs : SegReg → UInt16
  cr3 : UInt64
  stack : List UInt64

/-- A move to `ax` leaves the upper bits of `rax`. -/
def set_ax (rax : UInt64) (s : UInt16) : UInt64 :=
  UInt64.ofNat (rax.toNat / 2 ^ 16 * 2 ^ 16 + s.toNat)

def Instr.exec (a : AsmState) : Instr → Option AsmState
  | .push r => some { a with stack := a.regs r :: a.stack }
  | .pushq imm => some { a with stack := imm :: a.stack }
  | .pop r =>
    match a.stack with
    | w :: stack => some { a with regs := Function.update a.regs r w, stack := stack }
    | [] => none
  | .mov_cr3_rax => some { a with regs := Function.update a.regs .rax a.cr3 }
  | .mov_rax_cr3 => some { a with cr3 := a.regs .rax }
  | .xor_rax_rax => some { a with regs := Function.update a.regs .rax 0 }
  | .mov_seg_ax s =>
    some { a with regs := Function.update a.regs .rax (set_ax (a.regs .rax) (a.segs s)) }
  | .mov_ax_seg s => some { a with segs := Function.update a.segs s (a.regs .rax).toUInt16 }
  | .add_rsp bytes => some { a with stack := a.stack.drop (bytes / 8) }

def exec_all (code : List Instr) (a : AsmState) : Option AsmState :=
  code.foldlM Instr.exec a

theorem set_ax_of_selector (s t : UInt16) : set_ax s.toUInt64 t = t.toUInt64 := by
  have hs : s.toUInt64.toNat / 2 ^ 16 = 0 := by
    rw [UInt16.toNat_toUInt64]
    exact Nat.div_eq_of_lt s.toNat_lt
  rw [set_ax, hs]
  simp

theorem set_ax_zero (s : UInt16) : set_ax 0 s = s.toUInt64 := by
  have h := set_ax_of_selector 0 s
  simpa using h

/-! ## Entry -/

/-- The exceptions for which the processor pushes an error code. -/
def error_code_vectors : List Nat := [8, 10, 11, 12, 13, 14, 17, 21, 29, 30]

/-- What the processor pushes for vector `v` before the first instruction of the stub. -/
def hardware_entry (cpu : Cpu) (v : Nat) (error_code : UInt64) (stack : List UInt64) :
    AsmState :=
  let frame := [cpu.rip, cpu.cs.toUInt64, cpu.rflags, cpu.rsp, cpu.ss.toUInt64] ++ stack
  ⟨cpu.regs, cpu.segs, cpu.cr3, if v ∈ error_code_vectors then error_code :: frame else frame⟩

/-- `_irq_handler` up to the call of `store_current_thread_context`. -/
def _irq_handler : List Instr :=
  [.push .rax, .push .rcx, .push .rdx, .push .rbx, .push .rdi, .push .rsi, .push .rbp,
    .push .r8, .push .r9, .push .r10, .push .r11, .push .r12, .push .r13, .push .r14, .push .r15,
    .mov_cr3_rax, .push .rax,
    .xor_rax_rax,
    .mov_seg_ax .gs, .push .rax, .mov_seg_ax .fs, .push .rax,
    .mov_seg_ax .es, .push .rax, .mov_seg_ax .ds, .push .rax]

/-- The context of code that is interrupted. -/
def Cpu.context (cpu : Cpu) (irq_num error_code : UInt64) : Context where
  ds := (cpu.segs .ds).toUInt64
  es := (cpu.segs .es).toUInt64
  fs := (cpu.segs .fs).toUInt64
  gs := (cpu.segs .gs).toUInt64
  cr3 := cpu.cr3
  r15 := cpu.regs .r15
  r14 := cpu.regs .r14
  r13 := cpu.regs .r13
  r12 := cpu.regs .r12
  r11 := cpu.regs .r11
  r10 := cpu.regs .r10
  r9 := cpu.regs .r9
  r8 := cpu.regs .r8
  rbp := cpu.regs .rbp
  rsi := cpu.regs .rsi
  rdi := cpu.regs .rdi
  rbx := cpu.regs .rbx
  rdx := cpu.regs .rdx
  rcx := cpu.regs .rcx
  rax := cpu.regs .rax
  reserved1_0 := irq_num
  reserved1_1 := error_code
  rip := cpu.rip
  cs := cpu.cs.toUInt64
  rflags := cpu.rflags
  rsp := cpu.rsp
  ss := cpu.ss.toUInt64

/-- `_irq_handler` pushes the twenty words of a context below the number. -/
theorem exec_irq_handler (cpu : Cpu) (stack : List UInt64) :
    ∃ regs, exec_all _irq_handler ⟨cpu.regs, cpu.segs, cpu.cr3, stack⟩ =
      some ⟨regs, cpu.segs, cpu.cr3, (cpu.context 0 0).words.take 20 ++ stack⟩ := by
  simp [exec_all, _irq_handler, Instr.exec, Context.words, Cpu.context, set_ax_zero,
    set_ax_of_selector]

/-- On a stack that starts with what a stub leaves, these are a whole context. -/
theorem enter_frame (cpu : Cpu) (irq_num error_code : UInt64) (rest : List UInt64) :
    ∃ regs, exec_all _irq_handler ⟨cpu.regs, cpu.segs, cpu.cr3,
      [irq_num, error_code, cpu.rip, cpu.cs.toUInt64, cpu.rflags, cpu.rsp, cpu.ss.toUInt64] ++
        rest⟩ =
      some ⟨regs, cpu.segs, cpu.cr3, (cpu.context irq_num error_code).words ++ rest⟩ := by
  obtain ⟨regs, hregs⟩ := exec_irq_handler cpu ([irq_num, error_code, cpu.rip,
    cpu.cs.toUInt64, cpu.rflags, cpu.rsp, cpu.ss.toUInt64] ++ rest)
  exact ⟨regs, hregs⟩

/-! ## Return -/

/-- The instructions of `return_from_syscall` between the switch of the stack and `iretq`. -/
def return_from_syscall_code : List Instr :=
  [.pop .rax, .mov_ax_seg .ds, .pop .rax, .mov_ax_seg .es,
    .pop .rax, .mov_ax_seg .fs, .pop .rax, .mov_ax_seg .gs,
    .pop .rax, .mov_rax_cr3,
    .pop .r15, .pop .r14, .pop .r13, .pop .r12, .pop .r11, .pop .r10, .pop .r9, .pop .r8,
    .pop .rbp, .pop .rsi, .pop .rdi, .pop .rbx, .pop .rdx, .pop .rcx, .pop .rax,
    .add_rsp 16]

def iretq (a : AsmState) : Option Cpu :=
  match a.stack with
  | rip :: cs :: rflags :: rsp :: ss :: _ =>
    some ⟨a.regs, a.segs, a.cr3, rip, cs.toUInt16, rflags, rsp, ss.toUInt16⟩
  | _ => none

/-- `rdi` points to the context, which is followed by the rest of the `Process`. -/
def return_from_syscall (a : AsmState) (context : Context) (rest : List UInt64) : Option Cpu := do
  let a ← exec_all return_from_syscall_code { a with stack := context.words ++ rest }
  iretq a

/-- The registers a context stands for. -/
def Context.cpu (c : Context) : Cpu where
  regs := fun
    | .rax => c.rax | .rcx => c.rcx | .rdx => c.rdx | .rbx => c.rbx | .rdi => c.rdi
    | .rsi => c.rsi | .rbp => c.rbp | .r8 => c.r8 | .r9 => c.r9 | .r10 => c.r10
    | .r11 => c.r11 | .r12 => c.r12 | .r13 => c.r13 | .r14 => c.r14 | .r15 => c.r15
  segs := fun
    | .ds => c.ds.toUInt16 | .es => c.es.toUInt16 | .fs => c.fs.toUInt16 | .gs => c.gs.toUInt16
  cr3 := c.cr3
  rip := c.rip
  cs := c.cs.toUInt16
  rflags := c.rflags
  rsp := c.rsp
  ss := c.ss.toUInt16

theorem resume_frame (a : AsmState) (c : Context) (rest : List UInt64) :
    return_from_syscall a c rest = some c.cpu := by
  -- the code runs by evaluation, and each register is the last word popped into it
  refine congrArg some (Cpu.ext ?_ ?_ rfl rfl rfl rfl rfl rfl)
  · funext r
    cases r <;> rfl
  · funext s
    cases s <;> rfl

/-- What is saved is what is restored. -/
theorem cpu_context (cpu : Cpu) (irq_num error_code : UInt64) :
    (cpu.context irq_num error_code).cpu = cpu := by
  have hregs : (cpu.context irq_num error_code).cpu.regs = cpu.regs := by
    funext r
    cases r <;> rfl
  have hsegs : (cpu.context irq_num error_code).cpu.segs = cpu.segs := by
    funext s
    cases s <;> simp [Context.cpu, Cpu.context]
  refine Cpu.ext hregs hsegs rfl rfl ?_ rfl rfl ?_
  · simp [Context.cpu, Cpu.context]
  · simp [Context.cpu, Cpu.context]

/-- A new value of `rax` in a context is the one that is loaded. -/
theorem cpu_context_rax (c : Context) (rax : UInt64) :
    ({ c with rax := rax } : Context).cpu =
      { c.cpu with regs := Function.update c.cpu.regs .rax rax } := by
  refine Cpu.ext ?_ rfl rfl rfl rfl rfl rfl rfl
  funext r
  cases r <;> rfl

end Modern05
