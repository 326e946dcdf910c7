import Modern05.Framework.Rotation
import Modern05.Kernel.Entry
import Modern05.Kernel.ProcessOps

/-! # Scheduling

    `schedule` and `process_init` in `process.cpp`, over the processes that
    `create_process` creates.

    The loop of `schedule` has a bound on its rounds here, and a call terminates when some
    bound is enough. It walks through the slot `next_pid`, which is not assigned yet, and
    wraps there: with 1023 processes that slot is behind the end of the table, which is a
    failure here.

    * `schedule_eq`: which process is selected, and that two rounds are enough.
    * `scheduling_rotates`: the scheduler is a rotation over the created processes.
-/

namespace Modern05

open LTS

/-! ## State -/

inductive ProcessState where
  | Wait
  | Running
  deriving DecidableEq, Repr

/-- The kernel and what it keeps for the scheduler: of each process the fields `state` and
    `context`, and the process that runs. -/
structure Scheduler where
  kernel : Kernel
  state : Nat → ProcessState
  context : Nat → Context
  current_pid : Nat

def KERNEL_CODE_SELECTOR : UInt64 := 2 * 8
def KERNEL_DATA_SELECTOR : UInt64 := 3 * 8

/-- The context of a new process. The addresses of its stack and of its first instruction
    are left open, and so are the fields that the constructor does not set. -/
def initial_context (raw : Context) (p : Process) : Context :=
  { raw with
    cr3 := p.pts_paddr
    cs := KERNEL_CODE_SELECTOR
    ds := KERNEL_DATA_SELECTOR
    ss := KERNEL_DATA_SELECTOR
    es := KERNEL_DATA_SELECTOR
    fs := KERNEL_DATA_SELECTOR
    gs := KERNEL_DATA_SELECTOR
    rflags := 0x200
    rdi := UInt64.ofNat KERNEL_START + p.start_phy }

namespace Scheduler

/-! ## Operations -/

/-- `create_process`, with the fields of the new process that the scheduler uses. -/
def create_process (P : Platform) (m : Scheduler) (contents : Nat → UInt8) (raw : Context) :
    Option Scheduler := do
  let pid := m.kernel.next_pid
  let kernel ← Modern05.create_process P m.kernel contents
  let p ← kernel.processes pid
  pure { m with
    kernel := kernel
    state := Function.update m.state pid .Wait
    context := Function.update m.context pid (initial_context raw p) }

/-- Clear the table and create the first process. -/
def process_init (P : Platform) (m : Scheduler) (contents : Nat → UInt8) (raw : Context) :
    Option Scheduler :=
  create_process P
    ⟨{ m.kernel with processes := fun _ => none, next_pid := 1 }, fun _ => .Wait, m.context, 1⟩
    contents raw

/-- The slot that a round of the loop comes to. -/
def next_slot (m : Scheduler) : Nat :=
  if m.current_pid = m.kernel.next_pid then 1 else m.current_pid + 1

/-- The loop of `schedule`. -/
def schedule_loop : Nat → Scheduler → Option Scheduler
  | 0, _ => none
  | fuel + 1, m => do
    let m := { m with current_pid := m.next_slot }
    guard (m.current_pid < MAX_PROCESS)
    match m.kernel.processes m.current_pid with
    | some process =>
      if process.id ≠ 0 ∧ m.state m.current_pid = .Wait then
        some { m with state := Function.update m.state m.current_pid .Running }
      else
        schedule_loop fuel m
    | none => schedule_loop fuel m

def schedule (fuel : Nat) (m : Scheduler) : Option Scheduler := do
  guard (m.current_pid < MAX_PROCESS)
  let _ ← m.kernel.processes m.current_pid
  schedule_loop fuel { m with state := Function.update m.state m.current_pid .Wait }

/-- The process exists. -/
def created (m : Scheduler) (pid : Nat) : Prop := (m.kernel.processes pid).isSome

/-- The number of processes created so far. -/
def created_count (m : Scheduler) : Nat := m.kernel.next_pid - 1

end Scheduler

/-! ## Runs -/

inductive ScheduleEvent where
  | create_process (contents : Nat → UInt8) (raw : Context)
  /-- A call of `schedule` that selects the process. -/
  | schedule (selected : Nat)

/-- From the state after `process_init`. -/
def scheduling_system (P : Platform) : System Scheduler ScheduleEvent where
  init := fun m => ∃ m₀ contents raw,
    Reachable (buddy_system P.region.allocator) m₀.kernel.buddy ∧
      Scheduler.process_init P m₀ contents raw = some m
  step := fun m e m' =>
    match e with
    | .create_process contents raw => m.create_process P contents raw = some m'
    | .schedule selected => (∃ fuel, m.schedule fuel = some m') ∧ selected = m'.current_pid

/-- The processes selected in a run. -/
def selections (es : List ScheduleEvent) : List Nat :=
  es.filterMap fun
    | .create_process _ _ => none
    | .schedule selected => some selected

/-! ## The table of processes -/

namespace Scheduler

variable {P : Platform} {m m' : Scheduler} {contents : Nat → UInt8} {raw : Context}

/-- The assigned slots are those from 1 up to `next_pid`, and only the current process may
    run. -/
structure Table (m : Scheduler) : Prop where
  filled : ∀ pid, 1 ≤ pid → pid < m.kernel.next_pid →
    ∃ p, m.kernel.processes pid = some p ∧ p.id = pid
  free : ∀ pid, pid = 0 ∨ m.kernel.next_pid ≤ pid → m.kernel.processes pid = none
  current_pos : 1 ≤ m.current_pid
  current_le : m.current_pid ≤ m.kernel.next_pid
  next_le : m.kernel.next_pid ≤ MAX_PROCESS
  waiting : ∀ pid, pid ≠ m.current_pid → m.state pid = .Wait

/-- Once the first process is created, the current process exists. -/
structure Slots (m : Scheduler) : Prop extends Table m where
  current_lt : m.current_pid < m.kernel.next_pid

theorem Slots.created_iff (h : Slots m) (pid : Nat) :
    m.created pid ↔ 1 ≤ pid ∧ pid < m.kernel.next_pid := by
  constructor
  · intro hsome
    by_contra hout
    have hnone := h.free pid (by omega)
    simp [created, hnone] at hsome
  · intro hin
    obtain ⟨p, hp, -⟩ := h.filled pid hin.1 hin.2
    simp [created, hp]

/-- What `create_process` does when it returns. -/
theorem create_process_cases (h : m.create_process P contents raw = some m') :
    ∃ p : Process, p.id = m.kernel.next_pid ∧ m.kernel.processes m.kernel.next_pid = none ∧
      m'.kernel.processes = Function.update m.kernel.processes m.kernel.next_pid (some p) ∧
      m'.kernel.next_pid = m.kernel.next_pid + 1 ∧ m.kernel.next_pid < MAX_PROCESS ∧
      m'.state = Function.update m.state m.kernel.next_pid .Wait ∧
      m'.context = Function.update m.context m.kernel.next_pid (initial_context raw p) ∧
      m'.current_pid = m.current_pid := by
  obtain ⟨kernel, hkernel, h⟩ := Option.bind_eq_some_iff.mp h
  obtain ⟨p, hp, h⟩ := Option.bind_eq_some_iff.mp h
  cases h
  obtain ⟨a, s, -, -, hlt, hfree, rfl⟩ := create_process_iff.mp hkernel
  have hslot : Function.update m.kernel.processes m.kernel.next_pid
      (some (a.process P.region.allocator m.kernel.next_pid)) m.kernel.next_pid = some p := hp
  rw [Function.update_self] at hslot
  cases hslot
  exact ⟨_, rfl, hfree, rfl, rfl, hlt, rfl, rfl, rfl⟩

theorem Table.create_process (hm : Table m) (h : m.create_process P contents raw = some m') :
    Slots m' := by
  obtain ⟨p, hid, -, hprocesses, hnext, hmax, hstate, -, hcurrent⟩ := create_process_cases h
  have hle := hm.current_le
  refine ⟨⟨fun pid hpos hlt => ?_, fun pid hout => ?_, ?_, ?_, ?_, fun pid hne => ?_⟩, ?_⟩
  · rw [hprocesses]
    by_cases hpid : pid = m.kernel.next_pid
    · subst hpid
      exact ⟨p, Function.update_self _ _ _, hid⟩
    · rw [Function.update_of_ne hpid]
      exact hm.filled pid hpos (by omega)
  · have hpos := hm.current_pos
    rw [hprocesses, Function.update_of_ne (by omega)]
    exact hm.free pid (by omega)
  · rw [hcurrent]
    exact hm.current_pos
  · omega
  · omega
  · rw [hcurrent] at hne
    rw [hstate]
    by_cases hpid : pid = m.kernel.next_pid
    · simp [hpid]
    · rw [Function.update_of_ne hpid]
      exact hm.waiting pid hne
  · omega

theorem slots_of_process_init (h : process_init P m contents raw = some m') : Slots m' := by
  refine Table.create_process ⟨?_, ?_, Nat.le_refl _, Nat.le_refl _, ?_, fun _ _ => rfl⟩ h
  · intro pid hpos hlt
    have hlt : pid < 1 := hlt
    omega
  · intro pid _
    rfl
  · exact (by decide : 1 ≤ MAX_PROCESS)

/-! ## Selection -/

/-- The process that `schedule` selects. -/
def next_selection (m : Scheduler) : Nat :=
  if m.current_pid + 1 < m.kernel.next_pid then m.current_pid + 1 else 1

/-- The state after a call of `schedule` that selects a process. -/
def select (m : Scheduler) (pid : Nat) : Scheduler :=
  { m with
    state := Function.update (Function.update m.state m.current_pid .Wait) pid .Running
    current_pid := pid }

/-- A round that comes to a process that waits ends the loop. -/
theorem schedule_loop_select {pid : Nat} {p : Process} (fuel : Nat) (hpid : m.next_slot = pid)
    (hlt : pid < MAX_PROCESS) (hp : m.kernel.processes pid = some p) (hid : p.id ≠ 0)
    (hwait : m.state pid = .Wait) :
    schedule_loop (fuel + 1) m =
      some { m with current_pid := pid, state := Function.update m.state pid .Running } := by
  simp [schedule_loop, hpid, hlt, hp, hid, hwait, guard]

/-- A round that comes to a slot without a process goes on. -/
theorem schedule_loop_skip {pid : Nat} (fuel : Nat) (hpid : m.next_slot = pid)
    (hlt : pid < MAX_PROCESS) (hp : m.kernel.processes pid = none) :
    schedule_loop (fuel + 1) m = schedule_loop fuel { m with current_pid := pid } := by
  simp [schedule_loop, hpid, hlt, hp, guard]

/-- More rounds do not change the result. -/
theorem schedule_loop_mono {fuel : Nat} (h : schedule_loop fuel m = some m') :
    schedule_loop (fuel + 1) m = some m' := by
  induction fuel generalizing m with
  | zero => cases h
  | succ fuel ih =>
    rw [schedule_loop] at h ⊢
    obtain ⟨_, hguard, h⟩ := Option.bind_eq_some_iff.mp h
    refine Option.bind_eq_some_iff.mpr ⟨_, hguard, ?_⟩
    split at h
    · split at h
      · next hwaits =>
        rw [if_pos hwaits]
        exact h
      · next hwaits =>
        rw [if_neg hwaits]
        exact ih h
    · exact ih h

theorem schedule_mono {fuel n : Nat} (h : m.schedule fuel = some m') :
    m.schedule (fuel + n) = some m' := by
  induction n with
  | zero => exact h
  | succ n ih =>
    obtain ⟨_, hguard, ih⟩ := Option.bind_eq_some_iff.mp ih
    obtain ⟨p, hp, ih⟩ := Option.bind_eq_some_iff.mp ih
    refine Option.bind_eq_some_iff.mpr ⟨_, hguard, Option.bind_eq_some_iff.mpr ⟨p, hp, ?_⟩⟩
    exact schedule_loop_mono ih

/-- The scheduler changes the states of processes and the current one, nothing else. -/
theorem schedule_loop_keeps {fuel : Nat} (h : schedule_loop fuel m = some m') :
    m'.kernel = m.kernel ∧ m'.context = m.context := by
  induction fuel generalizing m with
  | zero => cases h
  | succ fuel ih =>
    rw [schedule_loop] at h
    obtain ⟨_, -, h⟩ := Option.bind_eq_some_iff.mp h
    split at h
    · split at h
      · cases h
        exact ⟨rfl, rfl⟩
      · have hkeeps := ih h
        exact hkeeps
    · have hkeeps := ih h
      exact hkeeps

theorem schedule_keeps {fuel : Nat} (h : m.schedule fuel = some m') :
    m'.kernel = m.kernel ∧ m'.context = m.context := by
  obtain ⟨_, -, h⟩ := Option.bind_eq_some_iff.mp h
  obtain ⟨_, -, h⟩ := Option.bind_eq_some_iff.mp h
  have hkeeps := schedule_loop_keeps h
  exact hkeeps

/-- The call starts the loop with all processes waiting. -/
theorem schedule_start (hm : Slots m) (fuel : Nat) :
    m.schedule fuel = schedule_loop fuel
      { m with state := Function.update m.state m.current_pid .Wait } ∧
    (∀ pid, Function.update m.state m.current_pid ProcessState.Wait pid = .Wait) ∧
    next_slot { m with state := Function.update m.state m.current_pid .Wait } =
      m.current_pid + 1 := by
  have hlt := hm.current_lt
  have hmax := hm.next_le
  obtain ⟨p, hp, -⟩ := hm.filled m.current_pid hm.current_pos hlt
  refine ⟨?_, fun pid => ?_, ?_⟩
  · have hguard : m.current_pid < MAX_PROCESS := by omega
    simp [schedule, hp, hguard, guard]
  · by_cases hpid : pid = m.current_pid
    · simp [hpid]
    · simp [hpid, hm.waiting]
  · exact if_neg (Nat.ne_of_lt hlt)

/-- **What `schedule` does**, within two rounds. -/
theorem schedule_eq (hm : Slots m)
    (hfew : m.current_pid + 1 < m.kernel.next_pid ∨ m.created_count < MAX_PROCESS - 1)
    (fuel : Nat) : m.schedule (fuel + 2) = some (m.select m.next_selection) := by
  have hpos := hm.current_pos
  have hlt := hm.current_lt
  have hmax := hm.next_le
  obtain ⟨hstart, hwait, hslot⟩ := schedule_start hm (fuel + 2)
  rw [hstart]
  by_cases hlast : m.current_pid + 1 < m.kernel.next_pid
  · have hnext : m.next_selection = m.current_pid + 1 := if_pos hlast
    obtain ⟨q, hq, hid⟩ := hm.filled (m.current_pid + 1) (by omega) hlast
    rw [hnext]
    exact schedule_loop_select (fuel + 1) hslot (by omega) hq (by omega) (hwait _)
  · -- the slot `next_pid` is empty, and the first process comes after it
    have hnext : m.next_selection = 1 := if_neg hlast
    have hend : m.current_pid + 1 = m.kernel.next_pid := by omega
    have hroom : m.kernel.next_pid < MAX_PROCESS := by
      simp only [created_count] at hfew
      omega
    obtain ⟨q, hq, hid⟩ := hm.filled 1 (Nat.le_refl _) (by omega)
    have hfree : m.kernel.processes (m.current_pid + 1) = none := hm.free _ (.inr (by omega))
    rw [hnext, schedule_loop_skip (fuel + 1) hslot (by omega) hfree]
    exact schedule_loop_select fuel (if_pos hend) (by decide) hq (by omega) (hwait _)

/-- With a full table the loop leaves it behind the last process. -/
theorem schedule_full (hm : Slots m) (hlast : m.current_pid + 1 = MAX_PROCESS) (fuel : Nat) :
    m.schedule fuel = none := by
  obtain ⟨hstart, -, hslot⟩ := schedule_start hm fuel
  rw [hstart]
  cases fuel with
  | zero => rfl
  | succ fuel =>
    have hout : ¬m.current_pid + 1 < MAX_PROCESS := by omega
    simp [schedule_loop, hslot, hout, guard]

/-- Whatever the bound, a call that returns has selected this process. -/
theorem eq_select_of_schedule (hm : Slots m) {fuel : Nat} (h : m.schedule fuel = some m') :
    m' = m.select m.next_selection := by
  have hlt := hm.current_lt
  have hmax := hm.next_le
  by_cases hfull : m.current_pid + 1 = MAX_PROCESS
  · rw [schedule_full hm hfull] at h
    cases h
  · have hmore : m.schedule (fuel + 2) = some m' := schedule_mono h
    rw [schedule_eq hm (by simp only [created_count]; omega)] at hmore
    exact (Option.some.inj hmore).symm

theorem next_selection_mem (hm : Slots m) :
    1 ≤ m.next_selection ∧ m.next_selection < m.kernel.next_pid := by
  have hpos := hm.current_pos
  have hlt := hm.current_lt
  unfold next_selection
  split <;> omega

theorem Slots.select (hm : Slots m) : Slots (m.select m.next_selection) := by
  obtain ⟨hpos, hlt⟩ := next_selection_mem hm
  refine ⟨⟨hm.filled, hm.free, hpos, Nat.le_of_lt hlt, hm.next_le, fun pid hne => ?_⟩, hlt⟩
  show Function.update (Function.update m.state m.current_pid .Wait) m.next_selection .Running
    pid = .Wait
  rw [Function.update_of_ne (show pid ≠ m.next_selection from hne)]
  by_cases hpid : pid = m.current_pid
  · simp [hpid]
  · rw [Function.update_of_ne hpid]
    exact hm.waiting pid hpid

/-! ## Every run -/

theorem slots_of_reachable : ∀ m, Reachable (scheduling_system P) m → Slots m := by
  refine invariant_of_step ?_ ?_
  · rintro m ⟨m₀, contents, raw, -, h⟩
    exact slots_of_process_init h
  · intro m e m' _ hm hstep
    cases e with
    | create_process contents raw => exact hm.toTable.create_process hstep
    | schedule selected =>
      obtain ⟨⟨fuel, h⟩, -⟩ := hstep
      rw [eq_select_of_schedule hm h]
      exact hm.select

/-- The scheduler as a rotation over the processes `1, …, created_count`. -/
def rotation_state (m : Scheduler) : Rotation.State := ⟨m.current_pid, m.created_count⟩

def rotation_event : ScheduleEvent → Rotation.Event
  | .create_process _ _ => .grow
  | .schedule selected => .turn selected

theorem turns_rotation_event (es : List ScheduleEvent) :
    Rotation.turns (es.map rotation_event) = selections es := by
  rw [Rotation.turns, List.filterMap_map]
  refine List.filterMap_congr fun e _ => ?_
  cases e <;> rfl

/-- **The scheduler rotates**: every event is one of the rotation. -/
theorem scheduling_rotates {e : ScheduleEvent} (hm : Reachable (scheduling_system P) m)
    (h : (scheduling_system P).step m e m') :
    Rotation.rotation.step m.rotation_state (rotation_event e) m'.rotation_state := by
  have hslots := slots_of_reachable m hm
  have hlt := hslots.current_lt
  have hpos := hslots.current_pos
  cases e with
  | create_process contents raw =>
    obtain ⟨p, -, -, -, hnext, -, -, -, hcurrent⟩ := create_process_cases h
    have hcount : m'.created_count = m.created_count + 1 := by
      simp only [created_count]
      omega
    show m'.rotation_state = _
    simp [rotation_state, hcurrent, hcount]
  | schedule selected =>
    obtain ⟨⟨fuel, h⟩, rfl⟩ := h
    obtain rfl := eq_select_of_schedule hslots h
    have hiff : m.current_pid + 1 < m.kernel.next_pid ↔ m.current_pid < m.created_count := by
      simp only [created_count]
      omega
    refine ⟨?_, rfl⟩
    show m.next_selection = m.rotation_state.next
    exact if_congr hiff rfl rfl

theorem running_iff_of_select (hm : Slots m) (pid : Nat) :
    (m.select m.next_selection).state pid = .Running ↔
      pid = (m.select m.next_selection).current_pid := by
  constructor
  · intro hrunning
    by_contra hne
    have hwait := hm.select.waiting pid hne
    rw [hrunning] at hwait
    cases hwait
  · rintro rfl
    exact Function.update_self _ _ _

/-- **Round-robin scheduling**: a call of `schedule` terminates, it selects a created process
    and that one alone runs, and between two selections of a process every other that was
    there is selected once and none twice. -/
theorem schedule_round_robin (P : Platform) (m : Scheduler)
    (hm : Reachable (scheduling_system P) m) (hfew : m.created_count < 1023) :
    (∃ fuel m', m.schedule fuel = some m') ∧
    (∀ fuel m', m.schedule fuel = some m' → m'.created m'.current_pid ∧
      ∀ pid, m'.state pid = .Running ↔ pid = m'.current_pid) ∧
    ∀ p m₁ es m₂ m₃, (scheduling_system P).step m (.schedule p) m₁ →
      Steps (scheduling_system P) m₁ es m₂ → p ∉ selections es →
      (scheduling_system P).step m₂ (.schedule p) m₃ →
      ∀ q, q ≠ p → (selections es).count q ≤ 1 ∧
        (m₁.created q → (selections es).count q = 1) := by
  have hslots := slots_of_reachable m hm
  refine ⟨⟨2, _, schedule_eq hslots (.inr hfew) 0⟩, ?_, ?_⟩
  · intro fuel m' h
    obtain rfl := eq_select_of_schedule hslots h
    have hselect := hslots.select
    exact ⟨(hselect.created_iff _).mpr ⟨hselect.current_pos, hselect.current_lt⟩,
      running_iff_of_select hslots⟩
  · intro p m₁ es m₂ m₃ hfirst hrun hnot hsecond q hq
    have hm₁ : Reachable (scheduling_system P) m₁ := .step hm hfirst
    have hslots₁ := slots_of_reachable m₁ hm₁
    have hpos := hslots₁.current_pos
    have hlt := hslots₁.current_lt
    obtain ⟨-, rfl⟩ := hfirst
    -- the runs of the scheduler are runs of the rotation
    have hrotation := hrun.map rotation_state rotation_event
      (fun _ _ _ => scheduling_rotates) hm₁
    have hlast := scheduling_rotates (hm₁.steps hrun) hsecond
    rw [← turns_rotation_event] at hnot ⊢
    have hle : m₁.current_pid ≤ m₁.created_count := by
      simp only [created_count]
      omega
    obtain ⟨hcount, hthere⟩ := Rotation.fair hpos hle hrotation hnot hlast q hq
    refine ⟨hcount, fun hcreated => ?_⟩
    obtain ⟨hqpos, hqlt⟩ := (hslots₁.created_iff q).mp hcreated
    refine hthere hqpos ?_
    simp only [created_count]
    omega

/-- A process can be created when its blocks can be allocated. -/
theorem create_process_of_alloc {b : NewBlocks} {s : BuddyState}
    (hb : NewBlocks.alloc P.region.allocator m.kernel.buddy = some (b, s))
    (hmapped : b.mapped P.region.allocator = true) (hpid : m.kernel.next_pid < MAX_PROCESS)
    (hfree : m.kernel.processes m.kernel.next_pid = none) (contents : Nat → UInt8)
    (raw : Context) : ∃ m', m.create_process P contents raw = some m' ∧ m'.kernel.buddy = s := by
  have hkernel : Modern05.create_process P m.kernel contents = some _ :=
    Modern05.create_process_of_alloc hb hmapped hpid hfree
  simp only [create_process, hkernel, Function.update_self, Option.bind_eq_bind,
    Option.bind_some]
  exact ⟨_, rfl, rfl⟩

/-- Two processes on a machine with 2 GiB. -/
theorem reachable_two_processes : ∃ m, Reachable (scheduling_system platform_2G) m ∧
    m.kernel.next_pid = 3 ∧ m.current_pid = 1 := by
  have hrun : (do
      let (b₁, s₁) ← NewBlocks.alloc platform_2G.region.allocator
        (.start platform_2G.region.allocator)
      let (b₂, _) ← NewBlocks.alloc platform_2G.region.allocator s₁
      pure (b₁.mapped platform_2G.region.allocator && b₂.mapped platform_2G.region.allocator)) =
        some true := by decide +kernel
  obtain ⟨⟨b₁, s₁⟩, hb₁, hrun⟩ := Option.bind_eq_some_iff.mp hrun
  obtain ⟨⟨b₂, s₂⟩, hb₂, hrun⟩ := Option.bind_eq_some_iff.mp hrun
  obtain ⟨hmapped₁, hmapped₂⟩ := Bool.and_eq_true_iff.mp (Option.some.inj hrun)
  have raw : Context := ⟨0, 0, 0, 0, 0, 0, 0, 0, 0, 0, 0, 0, 0, 0, 0, 0, 0, 0, 0, 0, 0, 0, 0, 0, 0,
    0, 0⟩
  let m₀ : Scheduler := ⟨⟨.start platform_2G.region.allocator, fun _ => 0, fun _ => none, 1⟩,
    fun _ => .Wait, fun _ => raw, 1⟩
  obtain ⟨m₁, hm₁, hs₁⟩ := create_process_of_alloc (m := m₀) hb₁ hmapped₁
    (by decide : 1 < MAX_PROCESS) rfl (fun _ => 0) raw
  have hreach₁ : Reachable (scheduling_system platform_2G) m₁ :=
    .init ⟨m₀, _, _, .init rfl, hm₁⟩
  obtain ⟨-, -, -, -, hnext₁, -, -, -, hcurrent₁⟩ := create_process_cases hm₁
  have hslots₁ := slots_of_reachable m₁ hreach₁
  obtain ⟨m₂, hm₂, -⟩ := create_process_of_alloc (m := m₁) (hs₁ ▸ hb₂) hmapped₂
    (hnext₁ ▸ (by decide : 2 < MAX_PROCESS)) (hslots₁.free _ (.inr (Nat.le_refl _)))
    (fun _ => 0) raw
  obtain ⟨-, -, -, -, hnext₂, -, -, -, hcurrent₂⟩ := create_process_cases hm₂
  exact ⟨m₂, .step (l := .create_process (fun _ => 0) raw) hreach₁ hm₂, by rw [hnext₂, hnext₁],
    by rw [hcurrent₂, hcurrent₁]⟩

/-- Two processes take turns. -/
theorem two_processes_alternate : ∃ m, Reachable (scheduling_system platform_2G) m ∧
    m.created_count = 2 ∧ (∃ fuel m', m.schedule fuel = some m') ∧
    ∀ p m₁ es m₂ m₃, (scheduling_system platform_2G).step m (.schedule p) m₁ →
      Steps (scheduling_system platform_2G) m₁ es m₂ → p ∉ selections es →
      (scheduling_system platform_2G).step m₂ (.schedule p) m₃ →
      ∀ q, q ≠ p → (selections es).count q ≤ 1 ∧
        (m₁.created q → (selections es).count q = 1) := by
  obtain ⟨m, hm, hnext, -⟩ := reachable_two_processes
  have hcount : m.created_count = 2 := by rw [created_count, hnext]
  obtain ⟨hterm, -, hfair⟩ := schedule_round_robin platform_2G m hm (by rw [hcount]; decide)
  exact ⟨m, hm, hcount, hterm, hfair⟩

end Scheduler

end Modern05
