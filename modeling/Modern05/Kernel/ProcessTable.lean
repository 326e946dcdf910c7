import Modern05.Framework.Loop
import Modern05.Kernel.ProcessMemory
import Modern05.Kernel.Schedule
import Modern05.Mm.SmallestBlocks

/-! # The bounds of the process table

    `create_process`, `create_kthread` and `schedule` in `process.cpp` as far as they use the table
    `processes`, for any number of calls.

    None of them compares an index with `MAX_PROCESS`. They stay in the table all the same: the
    page tables of every process are a block of 4 MiB that is never freed, a creation that gets no
    block for them does not return, and there is no memory for that many.

    * `Uses`: the indices that a call uses, also those of a call of `schedule` that goes on forever.
      The addresses of the processes and what they hold when `schedule` is called are left open.
    * `process_bytes_le_live`: the memory of the processes, over all runs.
    * `process_table_in_bounds`: every index is in the table.
-/

namespace Modern05

open LTS

/-! ## The code -/

/-- The fields of a process that `schedule` reads. -/
structure ProcessObject where
  id : Nat
  state : ProcessState
  deriving DecidableEq, Repr

/-- The table, with the addresses of the processes. -/
structure ProcessTable where
  processes : Nat → Option Nat
  next_pid : Nat
  current_pid : Nat

inductive TableEvent where
  | create_process (process : Nat)
  | create_kthread (process : Nat)
  /-- A call of `schedule`, with what the addresses hold then. -/
  | schedule (objects : Nat → ProcessObject)

namespace ProcessTable

def create_process (t : ProcessTable) (process : Nat) : ProcessTable :=
  { t with
    processes := Function.update t.processes t.next_pid (some process)
    next_pid := t.next_pid + 1 }

/-- Clear the table and create the first process. -/
def process_init (process : Nat) : ProcessTable :=
  create_process ⟨fun _ => none, 1, 1⟩ process

/-- The same table, with another process that runs. -/
def move (t : ProcessTable) (pid : Nat) : ProcessTable := { t with current_pid := pid }

/-- The slot that a round of the loop comes to. -/
def next_slot (t : ProcessTable) : Nat :=
  if t.current_pid = t.next_pid then 1 else t.current_pid + 1

/-- The process that runs is set to wait before the loop. -/
def waiting (t : ProcessTable) (objects : Nat → ProcessObject) : Nat → ProcessObject :=
  match t.processes t.current_pid with
  | some process => Function.update objects process { objects process with state := .Wait }
  | none => objects

/-- A round of the loop of `schedule`. -/
def schedule_round (objects : Nat → ProcessObject) (t : ProcessTable) :
    Loop.Outcome ProcessTable ProcessTable :=
  let t := t.move t.next_slot
  match t.processes t.current_pid with
  | some process =>
    if (objects process).id ≠ 0 ∧ (objects process).state = .Wait then .done t else .next t
  | none => .next t

/-- A call uses the index to read or to write the table. -/
def Uses (t : ProcessTable) : TableEvent → Nat → Prop
  | .create_process _, i => i = t.next_pid
  -- the slot is read again, for the fields of the thread
  | .create_kthread _, i => i = t.next_pid
  | .schedule objects, i => i = t.current_pid ∨
      ∃ t', Loop.Visits (schedule_round (t.waiting objects)) t t' ∧ i = t'.next_slot

def InBounds (t : ProcessTable) (e : TableEvent) : Prop := ∀ i, t.Uses e i → i < MAX_PROCESS

end ProcessTable

open ProcessTable

/-- The runs from the state after `process_init`, as long as the calls stay in the table. -/
def table_system : System ProcessTable TableEvent where
  init := fun t => ∃ process, t = process_init process
  step := fun t e t' => t.InBounds e ∧
    match e with
    -- "Process already created"
    | .create_process process => t.processes t.next_pid = none ∧ t' = t.create_process process
    | .create_kthread process => t.processes t.next_pid = none ∧ t' = t.create_process process
    | .schedule objects => ∃ fuel, Loop.run (schedule_round (t.waiting objects)) fuel t = some t'

namespace ProcessTable

/-! ## Rounds -/

/-- The slot has a process that waits. -/
def Selectable (objects : Nat → ProcessObject) (t : ProcessTable) (pid : Nat) : Prop :=
  ∃ process, t.processes pid = some process ∧ (objects process).id ≠ 0 ∧
    (objects process).state = .Wait

section rounds

variable {t t' : ProcessTable} {objects : Nat → ProcessObject}

theorem schedule_round_of_selectable (h : Selectable objects t t.next_slot) :
    schedule_round objects t = .done (t.move t.next_slot) := by
  obtain ⟨process, hprocess, hwaits⟩ := h
  simp only [schedule_round, move, hprocess]
  exact if_pos hwaits

theorem schedule_round_of_not_selectable (h : ¬ Selectable objects t t.next_slot) :
    schedule_round objects t = .next (t.move t.next_slot) := by
  cases hprocess : t.processes t.next_slot with
  | none => simp only [schedule_round, move, hprocess]
  | some process =>
    have hwaits : ¬ ((objects process).id ≠ 0 ∧ (objects process).state = .Wait) :=
      fun hwaits => h ⟨process, hprocess, hwaits⟩
    simp only [schedule_round, move, hprocess]
    exact if_neg hwaits

theorem schedule_round_next_iff :
    schedule_round objects t = .next t' ↔
      ¬ Selectable objects t t.next_slot ∧ t' = t.move t.next_slot := by
  constructor
  · intro h
    have hnot : ¬ Selectable objects t t.next_slot := by
      intro hselectable
      rw [schedule_round_of_selectable hselectable] at h
      cases h
    rw [schedule_round_of_not_selectable hnot] at h
    exact ⟨hnot, (Loop.Outcome.next.inj h).symm⟩
  · intro ⟨hnot, heq⟩
    rw [heq]
    exact schedule_round_of_not_selectable hnot

theorem schedule_round_done_iff :
    schedule_round objects t = .done t' ↔
      Selectable objects t t.next_slot ∧ t' = t.move t.next_slot := by
  constructor
  · intro h
    have hselectable : Selectable objects t t.next_slot := by
      by_contra hnot
      rw [schedule_round_of_not_selectable hnot] at h
      cases h
    rw [schedule_round_of_selectable hselectable] at h
    exact ⟨hselectable, (Loop.Outcome.done.inj h).symm⟩
  · intro ⟨hselectable, heq⟩
    rw [heq]
    exact schedule_round_of_selectable hselectable

theorem next_slot_move_of_ne {pid : Nat} (h : pid ≠ t.next_pid) :
    (t.move pid).next_slot = pid + 1 :=
  if_neg h

theorem next_slot_move_next_pid : (t.move t.next_pid).next_slot = 1 :=
  if_pos rfl

end rounds

/-! ## The slots in use -/

/-- The slots in use are those from 1 up to `next_pid`, and one of them is that of the process that
    runs. -/
structure Filled (t : ProcessTable) : Prop where
  filled : ∀ pid, (t.processes pid).isSome ↔ 1 ≤ pid ∧ pid < t.next_pid
  current_pos : 1 ≤ t.current_pid
  current_lt : t.current_pid < t.next_pid
  next_le : t.next_pid ≤ MAX_PROCESS

section filled

variable {t t' : ProcessTable} {objects : Nat → ProcessObject} {process : Nat}

theorem filled_process_init (process : Nat) : Filled (process_init process) := by
  constructor
  · intro pid
    by_cases hpid : pid = 1
    · simp [process_init, create_process, hpid]
    · have hnone : (process_init process).processes pid = none := Function.update_of_ne hpid _ _
      rw [hnone]
      simp only [Option.isSome_none, Bool.false_eq_true, process_init, create_process, false_iff]
      omega
  · exact Nat.le_refl 1
  · exact Nat.lt_succ_self 1
  · exact (by decide : 2 ≤ MAX_PROCESS)

theorem Filled.create_process (ht : Filled t) (hlt : t.next_pid < MAX_PROCESS) :
    Filled (t.create_process process) := by
  have hcurrent := ht.current_lt
  constructor
  · intro pid
    by_cases hpid : pid = t.next_pid
    · rw [hpid]
      simp only [ProcessTable.create_process, Function.update_self, Option.isSome_some, true_iff]
      omega
    · simp only [ProcessTable.create_process, Function.update_of_ne hpid]
      rw [ht.filled pid]
      omega
  · exact ht.current_pos
  · exact Nat.lt_succ_of_lt hcurrent
  · exact hlt

theorem Filled.lt_of_selectable (ht : Filled t) {pid : Nat} (h : Selectable objects t pid) :
    1 ≤ pid ∧ pid < t.next_pid := by
  obtain ⟨process, hprocess, _⟩ := h
  rw [← ht.filled pid, hprocess]
  rfl

/-- The loop of `schedule` changes which process runs, nothing else, and comes to no slot behind
    `next_pid`. -/
theorem Filled.visits (ht : Filled t) (h : Loop.Visits (schedule_round objects) t t') :
    ∃ pid, t' = t.move pid ∧ 1 ≤ pid ∧ pid ≤ t.next_pid := by
  have hcurrent := ht.current_lt
  refine Loop.invariant_of_visits
    (fun u => ∃ pid, u = t.move pid ∧ 1 ≤ pid ∧ pid ≤ t.next_pid) ?_ ?_ h
  · exact ⟨t.current_pid, rfl, ht.current_pos, Nat.le_of_lt hcurrent⟩
  · intro u u' ⟨pid, hu, hpos, hle⟩ hround
    obtain ⟨_, hu'⟩ := schedule_round_next_iff.mp hround
    subst hu
    refine ⟨_, hu', ?_⟩
    by_cases hlast : pid = t.next_pid
    · rw [hlast, next_slot_move_next_pid]
      omega
    · rw [next_slot_move_of_ne hlast]
      omega

/-- A process that `schedule` selects is in the table. -/
theorem Filled.schedule (ht : Filled t) {fuel : Nat}
    (h : Loop.run (schedule_round objects) fuel t = some t') : Filled t' := by
  obtain ⟨u, hvisits, hdone⟩ := Loop.run_eq_some_iff.mp ⟨fuel, h⟩
  obtain ⟨pid, rfl, _⟩ := ht.visits hvisits
  obtain ⟨hselectable, rfl⟩ := schedule_round_done_iff.mp hdone
  obtain ⟨hpos, hlt⟩ := ht.lt_of_selectable hselectable
  exact ⟨ht.filled, hpos, hlt, ht.next_le⟩

end filled

theorem filled_of_reachable : ∀ t, Reachable table_system t → Filled t := by
  apply invariant_of_step
  · intro t ⟨process, ht⟩
    rw [ht]
    exact filled_process_init process
  · intro t e t' _ ht ⟨hbounds, hstep⟩
    cases e with
    | create_process process | create_kthread process =>
      obtain ⟨_, rfl⟩ := hstep
      exact ht.create_process (hbounds _ rfl)
    | schedule objects =>
      obtain ⟨fuel, hrun⟩ := hstep
      exact ht.schedule hrun

/-! ## Indices -/

section indices

variable {t : ProcessTable} {objects : Nat → ProcessObject}

/-- While there is a free slot, every call stays in the table. -/
theorem Filled.inBounds_of_lt (ht : Filled t) (hlt : t.next_pid < MAX_PROCESS) (e : TableEvent) :
    t.InBounds e := by
  have hcurrent := ht.current_lt
  intro i huses
  cases e with
  | create_process process | create_kthread process =>
    rw [huses]
    exact hlt
  | schedule objects =>
    rcases huses with hi | ⟨t', hvisits, hi⟩
    · omega
    · -- the loop looks at the slot `next_pid` before it starts again
      obtain ⟨c, rfl, _, hc⟩ := ht.visits hvisits
      by_cases hend : c = t.next_pid
      · rw [hend, next_slot_move_next_pid] at hi
        omega
      · rw [next_slot_move_of_ne hend] at hi
        omega

/-- The processes in the table that wait can be selected. -/
theorem Filled.selectable (ht : Filled t)
    (hwait : ∀ process, (objects process).id ≠ 0 ∧ (objects process).state = .Wait) {pid : Nat}
    (hpos : 1 ≤ pid) (hlt : pid < t.next_pid) : Selectable objects t pid := by
  obtain ⟨process, hprocess⟩ := Option.isSome_iff_exists.mp ((ht.filled pid).mpr ⟨hpos, hlt⟩)
  exact ⟨process, hprocess, hwait process⟩

/-- When all processes wait, `schedule` selects the next one. -/
theorem Filled.run_of_all_wait (ht : Filled t)
    (hwait : ∀ process, (objects process).id ≠ 0 ∧ (objects process).state = .Wait) :
    ∃ fuel, Loop.run (schedule_round objects) fuel t =
      some (t.move (if t.current_pid + 1 < t.next_pid then t.current_pid + 1 else 1)) := by
  have hlt := ht.current_lt
  have hpos := ht.current_pos
  have hslot : t.next_slot = t.current_pid + 1 := next_slot_move_of_ne (Nat.ne_of_lt hlt)
  apply Loop.run_eq_some_iff.mpr
  by_cases hlast : t.current_pid + 1 < t.next_pid
  · rw [if_pos hlast]
    refine ⟨t, .refl, schedule_round_done_iff.mpr ?_⟩
    rw [hslot]
    exact ⟨ht.selectable hwait (by omega) hlast, rfl⟩
  · -- the slot `next_pid` comes first, which is not in use
    rw [if_neg hlast]
    have hend : t.current_pid + 1 = t.next_pid := by omega
    rw [hend] at hslot
    have hnot : ¬ Selectable objects t t.next_slot := by
      intro h
      obtain ⟨_, hin⟩ := ht.lt_of_selectable h
      omega
    refine ⟨t.move t.next_slot, .single (schedule_round_next_iff.mpr ⟨hnot, rfl⟩), ?_⟩
    rw [hslot, schedule_round_done_iff, next_slot_move_next_pid]
    exact ⟨ht.selectable hwait (Nat.le_refl 1) (by omega), rfl⟩

/-- Setting a process to wait leaves the others as they are. -/
theorem waiting_of_all_wait (t : ProcessTable) (objects : Nat → ProcessObject)
    (hwait : ∀ process, (objects process).id ≠ 0 ∧ (objects process).state = .Wait) :
    ∀ process, (t.waiting objects process).id ≠ 0 ∧ (t.waiting objects process).state = .Wait := by
  intro process
  cases hcurrent : t.processes t.current_pid with
  | none =>
    simp only [waiting, hcurrent]
    exact hwait process
  | some current =>
    by_cases heq : process = current
    · simp only [waiting, hcurrent, heq, Function.update_self]
      exact ⟨(hwait current).1, trivial⟩
    · simp only [waiting, hcurrent, Function.update_of_ne heq]
      exact hwait process

end indices

end ProcessTable

/-! ## Processes and their table -/

/-- The table of a kernel: the processes lie in the kernel window. -/
def Kernel.process_table (k : Kernel) (current_pid : Nat) : ProcessTable :=
  ⟨fun pid => (k.processes pid).map fun p => KERNEL_START + p.start_phy.toNat, k.next_pid,
    current_pid⟩

section kernel

variable {P : Platform} {k k' : Kernel} {contents : Nat → UInt8} {current : Nat}

theorem process_table_update {p : Process}
    (hprocesses : k'.processes = Function.update k.processes k.next_pid (some p))
    (hnext : k'.next_pid = k.next_pid + 1) :
    k'.process_table current =
      (k.process_table current).create_process (KERNEL_START + p.start_phy.toNat) := by
  unfold Kernel.process_table ProcessTable.create_process
  rw [hprocesses, hnext]
  congr 1
  funext pid
  by_cases hpid : pid = k.next_pid
  · rw [hpid, Function.update_self, Function.update_self]
    rfl
  · rw [Function.update_of_ne hpid, Function.update_of_ne hpid]

/-- A creation is one of the table. -/
theorem table_step_of_update {p : Process} (hpid : k.next_pid < MAX_PROCESS)
    (hfree : k.processes k.next_pid = none)
    (hprocesses : k'.processes = Function.update k.processes k.next_pid (some p))
    (hnext : k'.next_pid = k.next_pid + 1) :
    table_system.step (k.process_table current)
      (.create_process (KERNEL_START + p.start_phy.toNat)) (k'.process_table current) := by
  refine ⟨?_, ?_, process_table_update hprocesses hnext⟩
  · intro i hi
    rw [hi]
    exact hpid
  · show (k.processes k.next_pid).map _ = none
    rw [hfree]
    rfl

end kernel

/-! ## Memory -/

/-- The processes that have an image of their own: without a block for it, it is at address zero. -/
def Kernel.images (k : Kernel) : Nat :=
  (List.range k.next_pid).countP fun pid =>
    (k.processes pid).any fun p => p.user_image_phy_addr ≠ 0

/-- The memory of the page tables and of the images. -/
def Kernel.process_bytes (k : Kernel) : Nat :=
  (k.next_pid - 1) * 2 ^ pts_log2size + k.images * 2 ^ image_log2size

section memory

variable {P : Platform} {k k' : Kernel} {contents : Nat → UInt8} {m m' : Scheduler}

/-- The processes before the new one stay. -/
theorem images_update {p : Process}
    (hprocesses : k'.processes = Function.update k.processes k.next_pid (some p))
    (hnext : k'.next_pid = k.next_pid + 1) :
    k'.images = k.images + if p.user_image_phy_addr ≠ 0 then 1 else 0 := by
  have hsame : ∀ pid ∈ List.range k.next_pid, k'.processes pid = k.processes pid := by
    intro pid hpid
    rw [hprocesses, Function.update_of_ne (Nat.ne_of_lt (List.mem_range.mp hpid))]
  have hnew : k'.processes k.next_pid = some p := by
    rw [hprocesses, Function.update_self]
  unfold Kernel.images
  rw [hnext, List.range_succ, List.countP_append, List.countP_singleton, hnew]
  congr 1
  · apply List.countP_congr
    intro pid hpid
    rw [hsame pid hpid]
  · simp

/-- **A creation takes the memory of its process from the allocator.** -/
theorem process_bytes_of_create_process (h : create_process P k contents = some k')
    (hbuddy : Reachable (buddy_system P.region.allocator) k.buddy) (hpos : 1 ≤ k.next_pid) :
    Reachable (buddy_system P.region.allocator) k'.buddy ∧
      k'.process_bytes + used_bytes k.buddy ≤ k.process_bytes + used_bytes k'.buddy := by
  obtain ⟨a, s, halloc, _, _, _, rfl⟩ := create_process_iff.mp h
  obtain ⟨hbuddy', hlive, hpts, himage⟩ := ProcessBlocks.alloc_spec hbuddy halloc
  refine ⟨hbuddy', ?_⟩
  -- the block of the image is there exactly when its address is not zero
  have hcount : (if (a.process P.region.allocator k.next_pid).user_image_phy_addr ≠ 0 then 1
      else 0) * 2 ^ image_log2size ≤ (a.image.toList.map fun l => 2 ^ l.log2size).sum := by
    cases ha : a.image with
    | none =>
      have hzero : (a.process P.region.allocator k.next_pid).user_image_phy_addr = 0 := by
        show buf_phy _ a.image = 0
        rw [ha]
        rfl
      simp [hzero]
    | some l =>
      have hle : (if (a.process P.region.allocator k.next_pid).user_image_phy_addr ≠ 0 then 1
          else 0) ≤ 1 := by
        split <;> omega
      have hmul := Nat.mul_le_mul_right (2 ^ image_log2size) hle
      simpa [himage l ha] using hmul
  have hnext : k.next_pid + 1 - 1 = k.next_pid - 1 + 1 := by omega
  unfold Kernel.process_bytes used_bytes
  rw [images_update (k := k) rfl rfl]
  simp only [hlive, List.map_append, List.map_cons, List.sum_append, List.sum_cons, hpts, hnext,
    Nat.add_mul, Nat.one_mul]
  have hsum : ∀ tables images stack image pts syscall object live new : Nat, new ≤ image →
      tables + pts + (images + new) + live ≤
        tables + images + (stack + (image + (pts + (syscall + (object + live))))) := by omega
  exact hsum _ _ _ _ _ _ _ _ _ hcount

/-- **The memory of the processes is allocated**, whatever calls were made before. -/
theorem process_bytes_le_live (hm : Reachable (scheduling_system P) m) :
    Reachable (buddy_system P.region.allocator) m.kernel.buddy ∧
      m.kernel.process_bytes ≤ used_bytes m.kernel.buddy := by
  induction hm with
  | init h =>
    obtain ⟨m₀, contents, raw, hbuddy, h⟩ := h
    obtain ⟨kernel, hkernel, h⟩ := Option.bind_eq_some_iff.mp h
    obtain ⟨p, _, h⟩ := Option.bind_eq_some_iff.mp h
    cases h
    obtain ⟨hbuddy', hbytes⟩ := process_bytes_of_create_process hkernel hbuddy (Nat.le_refl 1)
    refine ⟨hbuddy', ?_⟩
    -- before the first process there is none
    have hzero : Kernel.process_bytes { m₀.kernel with processes := fun _ => none, next_pid := 1 } =
        0 := by simp [Kernel.process_bytes, Kernel.images]
    rw [hzero] at hbytes
    exact Nat.le_trans (Nat.le_add_right _ _) (Nat.zero_add _ ▸ hbytes)
  | @step m m' e hm h ih =>
    obtain ⟨hbuddy, hle⟩ := ih
    have hslots := Scheduler.slots_of_reachable m hm
    have hpos := hslots.current_pos
    have hlt := hslots.current_lt
    cases e with
    | create_process contents raw =>
      obtain ⟨kernel, hkernel, h⟩ := Option.bind_eq_some_iff.mp h
      obtain ⟨p, _, h⟩ := Option.bind_eq_some_iff.mp h
      cases h
      obtain ⟨hbuddy', hbytes⟩ := process_bytes_of_create_process hkernel hbuddy (by omega)
      have hle' : kernel.process_bytes ≤ used_bytes kernel.buddy := by omega
      exact ⟨hbuddy', hle'⟩
    | schedule selected =>
      obtain ⟨⟨fuel, h⟩, _⟩ := h
      rw [(Scheduler.schedule_keeps h).1]
      exact ⟨hbuddy, hle⟩

/-- All of it is in the region. -/
theorem process_bytes_le_region (hm : Reachable (scheduling_system P) m) :
    m.kernel.process_bytes ≤ 2 ^ P.region.root_log2size := by
  obtain ⟨hbuddy, hle⟩ := process_bytes_le_live hm
  exact hle.trans (used_bytes_le hbuddy)

/-- There is not enough memory to fill the table. -/
theorem next_pid_lt_of_scheduling (hm : Reachable (scheduling_system P) m) :
    m.kernel.next_pid < MAX_PROCESS := by
  have htables : (m.kernel.next_pid - 1) * 2 ^ pts_log2size ≤ 2 ^ P.region.root_log2size :=
    Nat.le_trans (Nat.le_add_right _ _) (process_bytes_le_region hm)
  have hhigh := P.region.high
  rw [pts_log2size_eq] at htables
  have hend : IDENTITY_MAP_PHY_END ≤ 2 ^ 32 := by decide
  have hlow : 2 ^ 22 * 3 ≤ IDENTITY_MAP_PHY_START := by decide
  have hstart := P.region.low
  unfold MAX_PROCESS
  omega

end memory

/-! ## Runs of the scheduler -/

section scheduler

variable {P : Platform} {m m' : Scheduler}

/-- A call of `schedule` is one of the table. All processes wait when its loop starts. -/
theorem table_step_of_schedule (hm : m.Slots)
    (ht : Filled (m.kernel.process_table m.current_pid)) (hroom : m.kernel.next_pid < MAX_PROCESS)
    {fuel : Nat} (h : m.schedule fuel = some m') :
    table_system.step (m.kernel.process_table m.current_pid) (.schedule fun _ => ⟨1, .Wait⟩)
      (m'.kernel.process_table m'.current_pid) := by
  have hwait := waiting_of_all_wait (m.kernel.process_table m.current_pid) (fun _ => ⟨1, .Wait⟩)
    (fun _ => ⟨Nat.one_ne_zero, rfl⟩)
  obtain rfl := Scheduler.eq_select_of_schedule hm h
  exact ⟨ht.inBounds_of_lt hroom _, ht.run_of_all_wait hwait⟩

/-- **The scheduler runs on the table**: every run of it is a run of the table. -/
theorem table_of_scheduling (hm : Reachable (scheduling_system P) m) :
    Reachable table_system (m.kernel.process_table m.current_pid) := by
  induction hm with
  | init h =>
    obtain ⟨m₀, contents, raw, _, h⟩ := h
    obtain ⟨p, _, _, hprocesses, hnext, _, _, _, hcurrent⟩ := Scheduler.create_process_cases h
    rw [hcurrent, process_table_update hprocesses hnext]
    exact .init ⟨_, rfl⟩
  | @step m m' e hm h ih =>
    have hslots := Scheduler.slots_of_reachable m hm
    cases e with
    | create_process contents raw =>
      obtain ⟨p, _, hfree, hprocesses, hnext, hpid, _, _, hcurrent⟩ :=
        Scheduler.create_process_cases h
      rw [hcurrent]
      exact .step ih (table_step_of_update hpid hfree hprocesses hnext)
    | schedule selected =>
      obtain ⟨⟨fuel, h⟩, _⟩ := h
      exact .step ih (table_step_of_schedule hslots (filled_of_reachable _ ih)
        (next_pid_lt_of_scheduling hm) h)

theorem inBounds_of_scheduling (hm : Reachable (scheduling_system P) m) (e : TableEvent) :
    (m.kernel.process_table m.current_pid).InBounds e :=
  (filled_of_reachable _ (table_of_scheduling hm)).inBounds_of_lt (next_pid_lt_of_scheduling hm) e

end scheduler

/-! ## Main results -/

/-- **The bounds of the process table.** Whatever calls of the three functions were made since
    `process_init`, every index that the next one uses is in the table: that of a creation, also by
    `create_kthread`, and those of `schedule`, whatever the processes hold. -/
theorem process_table_in_bounds (P : Platform) (m : Scheduler)
    (hm : Reachable (scheduling_system P) m) (e : TableEvent) (i : Nat)
    (hi : (m.kernel.process_table m.current_pid).Uses e i) : i < MAX_PROCESS :=
  inBounds_of_scheduling hm e i hi

/-- The slot of the next thread, after two processes. -/
theorem third_slot_in_bounds : ∃ m, Reachable (scheduling_system platform_2G) m ∧
    (m.kernel.process_table m.current_pid).Uses (.create_kthread (KERNEL_START + 0x5000000)) 3 ∧
    3 < MAX_PROCESS := by
  obtain ⟨m, hm, hnext, -⟩ := Scheduler.reachable_two_processes
  have huses : (m.kernel.process_table m.current_pid).Uses
      (.create_kthread (KERNEL_START + 0x5000000)) 3 := hnext.symm
  exact ⟨m, hm, huses, process_table_in_bounds platform_2G m hm _ 3 huses⟩

/-- **How many processes there can be**: all page tables, and the images that were allocated, are
    in the region at once. -/
theorem scheduling_in_bounds (P : Platform) (m : Scheduler)
    (hm : Reachable (scheduling_system P) m) :
    (m.kernel.next_pid - 1) * 2 ^ pts_log2size + m.kernel.images * 2 ^ image_log2size ≤
        2 ^ P.region.root_log2size ∧
      m.kernel.next_pid < MAX_PROCESS ∧
      ∀ e, (m.kernel.process_table m.current_pid).InBounds e :=
  ⟨process_bytes_le_region hm, next_pid_lt_of_scheduling hm, inBounds_of_scheduling hm⟩

theorem two_processes_in_bounds : ∃ m, Reachable (scheduling_system platform_2G) m ∧
    m.kernel.next_pid = 3 ∧ ∀ e, (m.kernel.process_table m.current_pid).InBounds e := by
  obtain ⟨m, hm, hnext, -⟩ := Scheduler.reachable_two_processes
  exact ⟨m, hm, hnext, (scheduling_in_bounds platform_2G m hm).2.2⟩

end Modern05
