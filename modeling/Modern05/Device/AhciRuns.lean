import Modern05.Device.AhciPort

/-! # Runs of the disk driver and the disk

    The invariant says for each place in `read` what the device can be doing and what is in the
    memory. A step of the device needs a command that the driver is polling
    (`PendingRead.Holds.polls`), so while the driver writes a command nobody reads it.

    * `reads_are_atomic`: in every interleaving the calls that have returned are single steps of
      `disk_spec`, and the device only works on complete commands.
    * `issued_read_returns_iff`: a call that has issued its command can still return, with success
      if the port works, unless the port has failed in an earlier call. Then it polls forever: the
      driver has cleared the error bit, and never starts the port again.
-/

namespace Modern05

open LTS Memory Bits Bits.BitField

/-! ## The invariant -/

/-- What the invariant is about. `error` is the bit of `is` that the driver tests. -/
structure PortView where
  mem : Bytes
  device : DevicePhase
  ci : UInt32
  error : Bool

def AhciState.view {C : CommandMemory} (s : AhciState C) : PortView :=
  ⟨s.mem, s.device, s.ci, decide (s.is &&& HBA_PxIS_TFES ≠ 0)⟩

section invariant

variable {C : CommandMemory} {disk : Nat → UInt8}

/-- No call is pending: there is nothing to do for the device. -/
def PortView.Rest (v : PortView) : Prop :=
  v.device = .halted ∨ v.device = .idle ∧ ∀ j < 32, ¬ Issued v.ci j

/-- The call has issued no command. -/
structure Quiet (C : CommandMemory) (before : Bytes × Bool) (v : PortView) : Prop where
  device : v.device = .idle ∧ before.2 = false ∨ v.device = .halted ∧ before.2 = true
  ci : v.device = .idle → ∀ j < 32, ¬ Issued v.ci j
  mem : ChangesOnly C.area before.1 v.mem

/-- The driver has found a slot, and its assertions hold. -/
structure Found (C : CommandMemory) (slot : Nat) : Prop where
  find : ∃ slots, find_cmdslot_loop slots 0 32 = some slot
  headers : C.cmdheader_phy < IDENTITY_MAP_PHY_END

theorem Found.lt {slot : Nat} (h : Found C slot) : slot < 32 := by
  obtain ⟨slots, hfind⟩ := h.find
  obtain ⟨-, hlt, -⟩ := find_cmdslot_loop_spec hfind
  omega

/-- The call is using a slot. -/
structure Preparing (C : CommandMemory) (before : Bytes × Bool) (slot : Nat) (v : PortView) :
    Prop where
  quiet : Quiet C before v
  no_error : v.error = false
  found : Found C slot

/-- The command was issued. It waits, it is running, it is complete, it has failed, or the port has
    failed before. -/
inductive Polling (disk : Nat → UInt8) (c : ReadCall C) (before : Bytes × Bool) (slot : Nat)
    (v : PortView) : Prop where
  | queued (hdevice : v.device = .idle) (hci : ∀ j < 32, Issued v.ci j ↔ j = slot)
      (herror : v.error = false) (hbefore : before.2 = false)
      (hcommand : Programmed c slot v.mem) (hmem : ChangesOnly C.area before.1 v.mem)
  | running (k : Nat) (hdevice : v.device = .running slot k)
      (hci : ∀ j < 32, Issued v.ci j ↔ j = slot) (herror : v.error = false)
      (hbefore : before.2 = false) (hcommand : Programmed c slot v.mem)
      (hk : k ≤ c.bytes)
      (hmem : ChangesOnly C.area
        (overwrite before.1 c.buf_phy_addr.toNat k (c.data disk)) v.mem)
  | done (hdevice : v.device = .idle) (hci : ∀ j < 32, ¬ Issued v.ci j)
      (herror : v.error = false) (hbefore : before.2 = false)
      (hmem : ChangesOnly C.area
        (overwrite before.1 c.buf_phy_addr.toNat c.bytes (c.data disk)) v.mem)
  | failed (hdevice : v.device = .halted) (herror : v.error = true) (hbefore : before.2 = false)
      (hmem : ChangesOnly (c.buffer ∪ C.area) before.1 v.mem)
  | ignored (hdevice : v.device = .halted) (hci : Issued v.ci slot) (herror : v.error = false)
      (hbefore : before.2 = true) (hmem : ChangesOnly C.area before.1 v.mem)

/-- The tables are in the kernel window, as far as the driver has tested it. -/
def Mapped (C : CommandMemory) (slot : Nat) : Prop := C.cmdtbl_phy slot < IDENTITY_MAP_PHY_END

/-- What holds at each place in `read`. While assignments are left to do, the invariant is about the
    memory as it will be after them. -/
def PendingRead.Holds (disk : Nat → UInt8) (p : PendingRead C) (v : PortView) : Prop :=
  match p.phase with
  | .clear_is => Quiet C p.before v
  | .find_slot => Quiet C p.before v ∧ v.error = false
  | .header slot todo => Preparing C p.before slot v ∧
      (∃ ps, todo = members_at ps (C.header slot) ∧
        ∀ q ∈ ps, InFront q.1 ∧ q.1.Inside sizeof_HBA_CMD_HEADER) ∧
      prdt_length (store_all todo v.mem) (C.header slot) = (prdtl p.call.count).toNat
  | .table slot todo => Preparing C p.before slot v ∧ Mapped C slot ∧
      prdt_length v.mem (C.header slot) = (prdtl p.call.count).toNat ∧
      (∀ q ∈ todo, q.1.InBytes (C.cmdtbl_phy slot)
        (prdt_offset + sizeof_HBA_PRDT_ENTRY * C.prdt_max)) ∧
      load_table (store_all todo v.mem) (C.cmdtbl_phy slot) (prdtl p.call.count).toNat =
        p.call.command
  | .wait slot _ | .issue slot =>
      Preparing C p.before slot v ∧ Mapped C slot ∧ Programmed p.call slot v.mem
  | .poll_ci slot | .poll_is slot =>
      Found C slot ∧ Mapped C slot ∧ Polling disk p.call p.before slot v
  | .check => ∃ slot, Found C slot ∧ Mapped C slot ∧ Polling disk p.call p.before slot v ∧
      ¬ Issued v.ci slot
  | .panicked => Quiet C p.before v

/-! ## Steps of the device -/

variable {p : PendingRead C} {c : ReadCall C} {before : Bytes × Bool} {v : PortView} {slot k : Nat}

/-- The driver is polling the slot. -/
def PendingRead.Polls (p : PendingRead C) (slot : Nat) : Prop :=
  p.phase = .poll_ci slot ∨ p.phase = .poll_is slot

theorem PendingRead.holds_of_polls (hp : p.Polls slot) :
    p.Holds disk v ↔ Found C slot ∧ Mapped C slot ∧ Polling disk p.call p.before slot v := by
  rcases hp with hp | hp
  · simp only [PendingRead.Holds, hp]
  · simp only [PendingRead.Holds, hp]

/-- The device works on the command of the slot, or can start to. -/
def PortView.Works (v : PortView) (slot : Nat) : Prop :=
  (∃ k, v.device = .running slot k) ∨ v.device = .idle ∧ slot < 32 ∧ Issued v.ci slot

theorem PortView.Rest.not_works (h : v.Rest) : ¬ v.Works slot := by
  rintro (⟨k, hrunning⟩ | ⟨hidle, hslot, hissued⟩)
  · rcases h with hhalted | ⟨hidle, -⟩
    · exact absurd (hhalted.symm.trans hrunning) (by simp)
    · exact absurd (hidle.symm.trans hrunning) (by simp)
  · rcases h with hhalted | ⟨-, hci⟩
    · exact absurd (hhalted.symm.trans hidle) (by simp)
    · exact hci slot hslot hissued

theorem Quiet.rest (h : Quiet C before v) : v.Rest := by
  rcases h.device with ⟨hidle, -⟩ | ⟨hhalted, -⟩
  · exact .inr ⟨hidle, h.ci hidle⟩
  · exact .inl hhalted

theorem Polling.of_works {i : Nat} (h : Polling disk c before i v) (hi : i < 32)
    (hv : v.Works slot) :
    slot = i ∧ Issued v.ci i := by
  cases h with
  | queued hdevice hci =>
    rcases hv with ⟨k, hrunning⟩ | ⟨-, hslot, hissued⟩
    · exact absurd (hdevice.symm.trans hrunning) (by simp)
    · exact ⟨(hci slot hslot).mp hissued, (hci i hi).mpr rfl⟩
  | running k hdevice hci =>
    rcases hv with ⟨k', hrunning⟩ | ⟨hidle, -⟩
    · cases hdevice.symm.trans hrunning
      exact ⟨rfl, (hci _ hi).mpr rfl⟩
    · exact absurd (hdevice.symm.trans hidle) (by simp)
  | done hdevice hci => exact absurd hv (PortView.Rest.not_works (.inr ⟨hdevice, hci⟩))
  | failed hdevice => exact absurd hv (PortView.Rest.not_works (.inl hdevice))
  | ignored hdevice => exact absurd hv (PortView.Rest.not_works (.inl hdevice))

/-- **Only a polling driver has work for the device.** -/
theorem PendingRead.Holds.polls (h : p.Holds disk v) (hv : v.Works slot) : p.Polls slot := by
  unfold PendingRead.Holds at h
  split at h
  · exact absurd hv h.rest.not_works
  · exact absurd hv h.1.rest.not_works
  · exact absurd hv h.1.quiet.rest.not_works
  · exact absurd hv h.1.quiet.rest.not_works
  · exact absurd hv h.1.quiet.rest.not_works
  · exact absurd hv h.1.quiet.rest.not_works
  · rename_i i hphase
    obtain ⟨rfl, -⟩ := h.2.2.of_works h.1.lt hv
    exact .inl hphase
  · rename_i i hphase
    obtain ⟨rfl, -⟩ := h.2.2.of_works h.1.lt hv
    exact .inr hphase
  · -- the driver has seen that the bit is clear
    obtain ⟨i, hfound, -, hpoll, hnot⟩ := h
    exact absurd (hpoll.of_works hfound.lt hv).2 hnot
  · exact absurd hv h.rest.not_works

variable {s s' : AhciState C}

/-- The bytes brought to the buffer so far are all that a running command has changed. -/
theorem changesOnly_transferred (c : ReadCall C) (hk : k ≤ c.bytes) {m m' : Bytes}
    (hmem : ChangesOnly C.area (overwrite m c.buf_phy_addr.toNat k (c.data disk)) m') :
    ChangesOnly (c.buffer ∪ C.area) m m' := by
  have hle := c.bytes_le.2
  have hbuffer : Set.Ico c.buf_phy_addr.toNat (c.buf_phy_addr.toNat + k) ⊆ c.buffer ∪ C.area :=
    (Set.Ico_subset_Ico_right (by omega)).trans Set.subset_union_left
  exact (ChangesOnly.overwrite _ hbuffer).trans (hmem.mono Set.subset_union_right)

/-- The device reads the command of the call. -/
theorem Polling.command (h : Polling disk c before slot s.view) (hwired : C.Wired s.mem)
    (hfound : Found C slot) (hdevice : s.device = .running slot k) :
    s.command slot = c.command ∧ before.2 = false ∧ s.view.error = false ∧
      (∀ j < 32, Issued s.ci j ↔ j = slot) ∧ Programmed c slot s.mem ∧ k ≤ c.bytes ∧
      ChangesOnly C.area
        (overwrite before.1 c.buf_phy_addr.toNat k (c.data disk)) s.mem := by
  cases h with
  | running k' hdevice' hci herror hbefore hcommand hk hmem =>
    cases hdevice.symm.trans hdevice'
    exact ⟨hcommand.fetch hwired hfound.lt, hbefore, herror, hci, hcommand, hk, hmem⟩
  | queued hdevice' => exact absurd (hdevice.symm.trans hdevice') (by simp)
  | done hdevice' => exact absurd (hdevice.symm.trans hdevice') (by simp)
  | failed hdevice' => exact absurd (hdevice.symm.trans hdevice') (by simp)
  | ignored hdevice' => exact absurd (hdevice.symm.trans hdevice') (by simp)

theorem Polling.start (h : Polling disk c before slot s.view) (hslot : slot < 32)
    (hdevice : s.device = .idle) (hissued : Issued s.ci slot) :
    Polling disk c before slot { s with device := .running slot 0 : AhciState C }.view := by
  cases h with
  | queued _ hci herror hbefore hcommand hmem =>
    refine .running 0 rfl hci herror hbefore hcommand (Nat.zero_le _) ?_
    rwa [overwrite_zero]
  | done _ hci => exact absurd hissued (hci slot hslot)
  | running k hdevice' => exact absurd (hdevice.symm.trans hdevice') (by simp)
  | failed hdevice' => exact absurd (hdevice.symm.trans hdevice') (by simp)
  | ignored hdevice' => exact absurd (hdevice.symm.trans hdevice') (by simp)

/-- **One byte.** It goes to the buffer, so the command stays as it is. -/
theorem Polling.transfer (h : Polling disk c before slot s.view) (hwired : C.Wired s.mem)
    (hfound : Found C slot) (hdevice : s.device = .running slot k)
    (hk : k < 512 * (s.command slot).1.count) :
    C.Wired (s.transfer disk slot k) ∧
      Polling disk c before slot { s with
        mem := s.transfer disk slot k, device := .running slot (k + 1) : AhciState C }.view := by
  obtain ⟨hcommand, hbefore, herror, hci, hprogrammed, -, hmem⟩ :=
    h.command hwired hfound hdevice
  rw [hcommand] at hk
  have hk : k < c.bytes := hk
  have htransfer : s.transfer disk slot k =
      overwrite s.mem (c.buf_phy_addr.toNat + k) 1 (fun i => c.data disk (k + i)) := by
    rw [AhciState.transfer, hcommand, c.locate hk]
    apply overwrite_congr
    intro i hi
    rw [Nat.lt_one_iff.mp hi]
    rfl
  have harea : ∀ x ∈ C.area, s.transfer disk slot k x = s.mem x := by
    intro x hx
    rw [htransfer]
    apply overwrite_of_notMem
    intro hmem
    have hx' : x = c.buf_phy_addr.toNat + k := by
      rw [Set.mem_Ico] at hmem
      omega
    exact c.notMem_area (c.mem_buffer hk) (hx' ▸ hx)
  refine ⟨hwired.of_headers fun x hx => harea x (C.headers_subset hx), ?_⟩
  refine .running (k + 1) rfl hci herror hbefore (hprogrammed.congr hfound.lt harea) hk ?_
  show ChangesOnly C.area _ (s.transfer disk slot k)
  rw [htransfer, ← overwrite_add]
  exact hmem.overwrite_both _ _ _

theorem Polling.complete (h : Polling disk c before slot s.view) (hwired : C.Wired s.mem)
    (hfound : Found C slot) (hdevice : s.device = .running slot k)
    (hk : k = 512 * (s.command slot).1.count) :
    C.Wired ((HBA_CMD_HEADER.prdbc_bits.at_address (C.header slot)).store k s.mem) ∧
      Polling disk c before slot { s with
        mem := (HBA_CMD_HEADER.prdbc_bits.at_address (C.header slot)).store k s.mem
        device := .idle
        ci := s.ci &&& ~~~slot_bit slot : AhciState C }.view := by
  obtain ⟨hcommand, hbefore, herror, hci, -, -, hmem⟩ := h.command hwired hfound hdevice
  rw [hcommand] at hk
  have hk : k = c.bytes := hk
  have hprdbc := changesOnly_store
    (inBytes_at_address (show HBA_CMD_HEADER.prdbc_bits.Inside sizeof_HBA_CMD_HEADER by decide)
      (C.header slot)) k s.mem
  refine ⟨hwired.store (by decide) slot k, .done rfl ?_ herror hbefore ?_⟩
  · intro j hj hissued
    obtain ⟨hj', hne⟩ := (issued_and_not s.ci hfound.lt hj).mp hissued
    exact hne ((hci j hj).mp hj').symm
  · rw [← hk]
    exact hmem.trans (hprdbc.mono ((C.header_subset hfound.lt).trans C.headers_subset))

theorem Polling.fail (h : Polling disk c before slot s.view) (hwired : C.Wired s.mem)
    (hfound : Found C slot) (hdevice : s.device = .running slot k) (ci : UInt32) :
    Polling disk c before slot { s with
      is := s.is ||| HBA_PxIS_TFES, device := .halted, ci := ci : AhciState C }.view := by
  obtain ⟨-, hbefore, -, -, -, hk, hmem⟩ := h.command hwired hfound hdevice
  refine .failed rfl ?_ hbefore (changesOnly_transferred c hk hmem)
  show decide ((s.is ||| HBA_PxIS_TFES) &&& HBA_PxIS_TFES ≠ 0) = true
  rw [decide_eq_true_eq]
  intro hzero
  have hbit := congrArg (fun w : UInt32 => w.toNat.testBit 30) hzero
  simp only [UInt32.toNat_and, UInt32.toNat_or, Nat.testBit_and, Nat.testBit_or] at hbit
  revert hbit
  have htfes : HBA_PxIS_TFES.toNat.testBit 30 = true := by decide
  rw [htfes, Bool.or_true]
  decide

/-! ## Results -/

/-- What `read` does with a port that has a free slot: it depends on how the port behaves. -/
theorem read_of_found (hfound : Found C slot) (hmapped : Mapped C slot) (busy : Nat)
    (error : Option Bytes) (c : ReadCall C) (disk : Nat → UInt8) (m : Bytes) :
    ∃ port, Modern05.read port disk m c.startl c.starth c.count c.buf_phy_addr =
      if 1000000 ≤ busy then some (false, m)
      else match error with
        | some m' => some (false, m')
        | none => some (true, execute disk c.command.1 c.command.2 m) := by
  obtain ⟨slots, hfind⟩ := hfound.find
  have hfind : find_cmdslot ⟨slots, 0, C.cmdheader_phy, C.cmdtbl_phy, busy, error⟩ = some slot := by
    rw [find_cmdslot, UInt32.or_zero, hfind]
  have hmapped : C.cmdtbl_phy slot < IDENTITY_MAP_PHY_END := hmapped
  refine ⟨⟨slots, 0, C.cmdheader_phy, C.cmdtbl_phy, busy, error⟩, ?_⟩
  cases error with
  | none =>
    simp only [Modern05.read, hfind, hfound.headers, hmapped, guard, if_true, Option.bind_eq_bind,
      Option.pure_def, Option.bind_some, ReadCall.command]
  | some m' =>
    simp only [Modern05.read, hfind, hfound.headers, hmapped, guard, if_true, Option.bind_eq_bind,
      Option.pure_def, Option.bind_some]

/-- A call that returns without having issued a command. -/
theorem Quiet.refused (h : Quiet C before v) {port : HBA_PORT}
    (hread : Modern05.read port disk before.1 c.startl c.starth c.count c.buf_phy_addr =
      some (false, before.1)) :
    AtomicRead disk c false before (v.mem, v.device = .halted) where
  refines := ⟨port, before.1, hread, h.mem⟩
  buffer := h.mem.mono Set.subset_union_right
  refused := fun _ _ => h.mem
  after_error := by
    intro hfailed
    rcases h.device with ⟨-, hbefore⟩ | ⟨hhalted, -⟩
    · exact absurd (hbefore.symm.trans hfailed) (by decide)
    · exact ⟨rfl, decide_eq_true hhalted, h.mem⟩

/-- A call that returns after its command has failed. -/
theorem Polling.returns_false (h : Polling disk c before slot v) (hfound : Found C slot)
    (hmapped : Mapped C slot) (herror : v.error = true) :
    AtomicRead disk c false before (v.mem, v.device = .halted) ∧ v.Rest := by
  cases h with
  | failed hdevice _ hbefore hmem =>
    obtain ⟨port, hread⟩ := read_of_found hfound hmapped 0 (some v.mem) c disk before.1
    refine ⟨⟨⟨port, v.mem, hread, .refl _ _⟩, hmem, fun _ hhalted => ?_, fun hfailed => ?_⟩,
      .inl hdevice⟩
    · exact absurd (hhalted.symm.trans (decide_eq_true hdevice)) (by decide)
    · exact absurd (hbefore.symm.trans hfailed) (by decide)
  | queued _ _ herror' => exact absurd (herror'.symm.trans herror) (by decide)
  | running _ _ _ herror' => exact absurd (herror'.symm.trans herror) (by decide)
  | done _ _ herror' => exact absurd (herror'.symm.trans herror) (by decide)
  | ignored _ _ herror' => exact absurd (herror'.symm.trans herror) (by decide)

/-- A call that returns after its command is complete. -/
theorem Polling.returns_true (h : Polling disk c before slot v) (hfound : Found C slot)
    (hmapped : Mapped C slot) (hci : ¬ Issued v.ci slot) (herror : v.error = false) :
    AtomicRead disk c true before (v.mem, v.device = .halted) ∧ v.Rest := by
  cases h with
  | done hdevice hci _ hbefore hmem =>
    obtain ⟨port, hread⟩ := read_of_found hfound hmapped 0 none c disk before.1
    have hread : Modern05.read port disk before.1 c.startl c.starth c.count c.buf_phy_addr =
        some (true, execute disk c.command.1 c.command.2 before.1) := hread
    rw [c.execute] at hread
    refine ⟨⟨⟨port, _, hread, hmem⟩, changesOnly_transferred c (Nat.le_refl _) hmem,
      fun h => absurd h (by decide), fun hfailed => ?_⟩, .inr ⟨hdevice, hci⟩⟩
    exact absurd (hbefore.symm.trans hfailed) (by decide)
  | queued _ hci' => exact absurd ((hci' slot hfound.lt).mpr rfl) hci
  | running _ _ hci' => exact absurd ((hci' slot hfound.lt).mpr rfl) hci
  | failed _ herror' => exact absurd (herror'.symm.trans herror) (by decide)
  | ignored _ hci' => exact absurd hci' hci

/-! ## Steps of the driver -/

/-- What a step of the driver can do: go on, or return. -/
inductive DriverGoes (disk : Nat → UInt8) (p : PendingRead C) (s s' : AhciState C) : Prop where
  | enters (phase : ReadPhase) (hpending : s'.pending = some { p with phase := phase })
      (hlog : s'.log = s.log) (hwired : C.Wired s'.mem)
      (hholds : PendingRead.Holds disk { p with phase := phase } s'.view)
  | leaves (ok : Bool) (hpending : s'.pending = none) (hlog : s'.log = s.log ++ [.read p.call ok])
      (hwired : C.Wired s'.mem) (hrest : s'.view.Rest)
      (hread : AtomicRead disk p.call ok p.before (s'.mem, s'.device = .halted))

theorem Quiet.of_mem (h : Quiet C before v) {m : Bytes} (hm : ChangesOnly C.area v.mem m) :
    Quiet C before { v with mem := m } := ⟨h.device, h.ci, h.mem.trans hm⟩

theorem goes_clear_is (hwired : C.Wired s.mem) (h : Quiet C p.before s.view) :
    DriverGoes disk p s (.enter { s with is := s.is &&& ~~~0xffffffff } p .find_slot) := by
  have hclear : s.is &&& ~~~0xffffffff = 0 := by
    have hnone : ~~~(0xffffffff : UInt32) = 0 := by decide
    rw [hnone, UInt32.and_zero]
  refine .enters .find_slot rfl rfl hwired ⟨⟨h.device, h.ci, h.mem⟩, ?_⟩
  show decide ((s.is &&& ~~~0xffffffff) &&& HBA_PxIS_TFES ≠ 0) = false
  rw [hclear]
  decide

theorem goes_find_slot (hwired : C.Wired s.mem) (h : Quiet C p.before s.view)
    (herror : s.view.error = false) (hphase : p.phase = .find_slot)
    (hstep : s.driver_step p = some s') : DriverGoes disk p s s' := by
  simp only [AhciState.driver_step, hphase] at hstep
  split at hstep
  · rename_i hfind
    cases hstep
    have hread : Modern05.read ⟨s.sact, s.ci, 0, fun _ => 0, 0, none⟩ disk p.before.1 p.call.startl
        p.call.starth p.call.count p.call.buf_phy_addr = some (false, p.before.1) := by
      simp only [Modern05.read, find_cmdslot, hfind]
    exact .leaves false rfl rfl hwired h.rest (h.refused hread)
  · rename_i slot hfind
    split at hstep
    · rename_i hmapped
      cases hstep
      refine .enters (.header slot _) rfl rfl hwired ⟨⟨h, herror, ⟨_, hfind⟩, hmapped⟩, ?_, ?_⟩
      · refine ⟨header_members p.call.count, rfl, fun q hq => ?_⟩
        have hfront := inFront_header_members p.call.count q hq
        exact ⟨hfront, Nat.le_trans hfront (by decide)⟩
      · exact prdt_length_stores _ _ _
    · cases hstep
      exact .enters .panicked rfl rfl hwired h

/-- An assignment to the header. -/
theorem goes_header {q : BitField × Nat} {todo : List (BitField × Nat)} (hwired : C.Wired s.mem)
    (h : PendingRead.Holds disk { p with phase := .header slot (q :: todo) } s.view) :
    DriverGoes disk p s ((s.write q).enter p (.header slot todo)) := by
  obtain ⟨hprep, ⟨ps, hps, hfront⟩, hlength⟩ := h
  obtain ⟨f, ps, rfl, hq, htodo⟩ : ∃ f ps', ps = f :: ps' ∧
      (f.1.at_address (C.header slot), f.2) = q ∧ members_at ps' (C.header slot) = todo := by
    obtain ⟨f, ps', hf⟩ := List.exists_cons_of_ne_nil (l := ps) (by rintro rfl; cases hps)
    subst hf
    rw [members_at, List.map_cons] at hps
    exact ⟨f, ps', rfl, (List.cons.inj hps).1.symm, (List.cons.inj hps).2.symm⟩
  rw [List.forall_mem_cons] at hfront
  subst hq
  have harea : ChangesOnly C.area s.mem ((f.1.at_address (C.header slot)).store f.2 s.mem) :=
    (changesOnly_store (inBytes_at_address hfront.1.2 _) f.2 s.mem).mono
      ((C.header_subset hprep.found.lt).trans C.headers_subset)
  refine .enters (.header slot todo) rfl rfl (hwired.store hfront.1.1 slot f.2) ⟨?_, ?_, hlength⟩
  · exact ⟨hprep.quiet.of_mem harea, hprep.no_error, hprep.found⟩
  · exact ⟨ps, htodo.symm, hfront.2⟩

theorem goes_header_done (hwired : C.Wired s.mem)
    (h : PendingRead.Holds disk { p with phase := .header slot [] } s.view)
    (hphase : p.phase = .header slot []) (hstep : s.driver_step p = some s') :
    DriverGoes disk p s s' := by
  obtain ⟨hprep, -, hlength⟩ := h
  have hlow := C.table_low slot hprep.found.lt
  simp only [AhciState.driver_step, hphase, hwired slot hprep.found.lt,
    if_neg (Nat.not_lt.mpr hlow)] at hstep
  split at hstep
  · rename_i hmapped
    cases hstep
    refine .enters (.table slot _) rfl rfl hwired ⟨hprep, hmapped, hlength, ?_, ?_⟩
    · exact inBytes_table _ _ _ _ _ p.call.prdtl_pos p.call.room
    · exact load_table_stores _ _ _ _ _ _
  · cases hstep
    exact .enters .panicked rfl rfl hwired hprep.quiet

/-- An assignment to the table. -/
theorem goes_table {q : BitField × Nat} {todo : List (BitField × Nat)} (hwired : C.Wired s.mem)
    (h : PendingRead.Holds disk { p with phase := .table slot (q :: todo) } s.view) :
    DriverGoes disk p s ((s.write q).enter p (.table slot todo)) := by
  obtain ⟨hprep, hmapped, hlength, hbytes, htable⟩ := h
  rw [List.forall_mem_cons] at hbytes
  have hslot := hprep.found.lt
  have hchanges : ChangesOnly (C.table slot) s.mem (q.1.store q.2 s.mem) :=
    changesOnly_store hbytes.1 q.2 s.mem
  -- the headers are somewhere else
  have hheaders : ∀ x ∈ C.headers, q.1.store q.2 s.mem x = s.mem x := fun x hx =>
    hchanges x fun hmem => Set.disjoint_left.mp (C.apart slot hslot) hx hmem
  refine .enters (.table slot todo) rfl rfl (hwired.of_headers hheaders)
    ⟨⟨hprep.quiet.of_mem (hchanges.mono (C.table_subset hslot)), hprep.no_error, hprep.found⟩,
      hmapped, ?_, hbytes.2, htable⟩
  rw [← hlength]
  exact prdt_length_congr fun x hx => hheaders x (C.header_subset hslot hx)

theorem goes_wait {spin : Nat} (hwired : C.Wired s.mem) (hprep : Preparing C p.before slot s.view)
    (hmapped : Mapped C slot) (hprogrammed : Programmed p.call slot s.mem)
    (hphase : p.phase = .wait slot spin) (hstep : s.driver_step p = some s') :
    DriverGoes disk p s s' := by
  simp only [AhciState.driver_step, hphase] at hstep
  split at hstep
  · cases hstep
    exact .enters (.wait slot (spin + 1)) rfl rfl hwired ⟨hprep, hmapped, hprogrammed⟩
  · split at hstep
    · cases hstep
      obtain ⟨port, hread⟩ :=
        read_of_found hprep.found hmapped 1000000 none p.call disk p.before.1
      exact .leaves false rfl rfl hwired hprep.quiet.rest (hprep.quiet.refused hread)
    · cases hstep
      exact .enters (.issue slot) rfl rfl hwired ⟨hprep, hmapped, hprogrammed⟩

/-- The command is issued, to a port that takes it or to one that has failed before. -/
theorem goes_issue (hwired : C.Wired s.mem) (hprep : Preparing C p.before slot s.view)
    (hmapped : Mapped C slot) (hprogrammed : Programmed p.call slot s.mem) :
    DriverGoes disk p s (.enter { s with ci := s.ci ||| slot_bit slot } p (.poll_ci slot)) := by
  have hslot := hprep.found.lt
  refine .enters (.poll_ci slot) rfl rfl hwired ⟨hprep.found, hmapped, ?_⟩
  rcases hprep.quiet.device with ⟨hidle, hbefore⟩ | ⟨hhalted, hbefore⟩
  · refine .queued hidle (fun j hj => ?_) hprep.no_error hbefore hprogrammed hprep.quiet.mem
    have hnot := hprep.quiet.ci hidle j hj
    exact (issued_or s.ci hslot).trans ⟨fun h => (h.resolve_left hnot).symm, fun h => .inr h.symm⟩
  · exact .ignored hhalted ((issued_or s.ci hslot).mpr (.inr rfl)) hprep.no_error hbefore
      hprep.quiet.mem

theorem goes_poll_ci (hwired : C.Wired s.mem) (hfound : Found C slot) (hmapped : Mapped C slot)
    (hpoll : Polling disk p.call p.before slot s.view) (hphase : p.phase = .poll_ci slot)
    (hstep : s.driver_step p = some s') : DriverGoes disk p s s' := by
  simp only [AhciState.driver_step, hphase] at hstep
  split at hstep
  · rename_i hci
    cases hstep
    exact .enters .check rfl rfl hwired
      ⟨slot, hfound, hmapped, hpoll, (and_slot_bit s.ci hfound.lt).mp hci⟩
  · cases hstep
    exact .enters (.poll_is slot) rfl rfl hwired ⟨hfound, hmapped, hpoll⟩

theorem goes_poll_is (hwired : C.Wired s.mem) (hfound : Found C slot) (hmapped : Mapped C slot)
    (hpoll : Polling disk p.call p.before slot s.view) (hphase : p.phase = .poll_is slot)
    (hstep : s.driver_step p = some s') : DriverGoes disk p s s' := by
  simp only [AhciState.driver_step, hphase] at hstep
  split at hstep
  · rename_i herror
    cases hstep
    obtain ⟨hread, hrest⟩ := hpoll.returns_false hfound hmapped (decide_eq_true herror)
    exact .leaves false rfl rfl hwired hrest hread
  · cases hstep
    exact .enters (.poll_ci slot) rfl rfl hwired ⟨hfound, hmapped, hpoll⟩

theorem goes_check (hwired : C.Wired s.mem) (hfound : Found C slot) (hmapped : Mapped C slot)
    (hpoll : Polling disk p.call p.before slot s.view) (hci : ¬ Issued s.ci slot) :
    DriverGoes disk p s (s.leave p (decide (s.is &&& HBA_PxIS_TFES = 0))) := by
  by_cases herror : s.is &&& HBA_PxIS_TFES = 0
  · obtain ⟨hread, hrest⟩ := hpoll.returns_true hfound hmapped hci (by
      show decide (s.is &&& HBA_PxIS_TFES ≠ 0) = false
      rw [herror]
      decide)
    rw [decide_eq_true herror]
    exact .leaves true rfl rfl hwired hrest hread
  · obtain ⟨hread, hrest⟩ := hpoll.returns_false hfound hmapped (decide_eq_true herror)
    rw [decide_eq_false herror]
    exact .leaves false rfl rfl hwired hrest hread

/-- **One step of the driver.** -/
theorem driver_goes (hwired : C.Wired s.mem) (h : p.Holds disk s.view)
    (hstep : s.driver_step p = some s') : DriverGoes disk p s s' := by
  obtain ⟨c, before, phase⟩ := p
  cases phase with
  | clear_is =>
    cases hstep
    exact goes_clear_is hwired h
  | find_slot => exact goes_find_slot hwired h.1 h.2 rfl hstep
  | header slot todo =>
    cases todo with
    | nil => exact goes_header_done hwired h rfl hstep
    | cons q todo =>
      cases hstep
      exact goes_header hwired h
  | table slot todo =>
    cases todo with
    | nil =>
      cases hstep
      exact .enters (.wait slot 0) rfl rfl hwired ⟨h.1, h.2.1, h.2.2.1, h.2.2.2.2⟩
    | cons q todo =>
      cases hstep
      exact goes_table hwired h
  | wait slot spin => exact goes_wait hwired h.1 h.2.1 h.2.2 rfl hstep
  | issue slot =>
    cases hstep
    exact goes_issue hwired h.1 h.2.1 h.2.2
  | poll_ci slot => exact goes_poll_ci hwired h.1 h.2.1 h.2.2 rfl hstep
  | poll_is slot => exact goes_poll_is hwired h.1 h.2.1 h.2.2 rfl hstep
  | check =>
    cases hstep
    obtain ⟨slot, hfound, hmapped, hpoll, hci⟩ := h
    exact goes_check hwired hfound hmapped hpoll hci
  | panicked => cases hstep

/-! ## Runs -/

/-- The invariant of the driver and the device. -/
structure AhciInv (disk : Nat → UInt8) (s : AhciState C) : Prop where
  wired : C.Wired s.mem
  run : ∃ m₀, Steps (disk_spec C disk) (m₀, false) s.log s.settled
  phase : match s.pending with
    | none => s.view.Rest
    | some p => p.Holds disk s.view

theorem AhciInv.rest (h : AhciInv disk s) (hpending : s.pending = none) : s.view.Rest := by
  have hphase := h.phase
  rwa [hpending] at hphase

theorem AhciInv.holds (h : AhciInv disk s) (hpending : s.pending = some p) :
    p.Holds disk s.view := by
  have hphase := h.phase
  rwa [hpending] at hphase

theorem AhciInv.call (h : AhciInv disk s) (hpending : s.pending = none) (c : ReadCall C) :
    AhciInv disk { s with pending := some ⟨c, (s.mem, s.device = .halted), .clear_is⟩ } := by
  have hrest := h.rest hpending
  obtain ⟨m₀, hrun⟩ := h.run
  refine ⟨h.wired, ⟨m₀, ?_⟩, ?_, ?_, .refl _ _⟩
  · rwa [AhciState.settled, hpending] at hrun
  · rcases hrest with hhalted | ⟨hidle, -⟩
    · exact .inr ⟨hhalted, decide_eq_true hhalted⟩
    · have hidle : s.device = .idle := hidle
      exact .inl ⟨hidle, decide_eq_false (by rw [hidle]; decide)⟩
  · intro hidle
    rcases hrest with hhalted | ⟨-, hci⟩
    · exact absurd (hhalted.symm.trans hidle) (by simp)
    · exact hci

theorem AhciInv.driver (h : AhciInv disk s) (hpending : s.pending = some p)
    (hstep : s.driver_step p = some s') : AhciInv disk s' := by
  obtain ⟨m₀, hrun⟩ := h.run
  rw [AhciState.settled, hpending] at hrun
  cases driver_goes h.wired (h.holds hpending) hstep with
  | enters phase hpending' hlog hwired hholds =>
    refine ⟨hwired, ⟨m₀, ?_⟩, ?_⟩
    · rwa [AhciState.settled, hpending', hlog]
    · rwa [hpending']
  | leaves ok hpending' hlog hwired hrest hread =>
    refine ⟨hwired, ⟨m₀, ?_⟩, ?_⟩
    · rw [AhciState.settled, hpending', hlog]
      exact .tail hrun hread
    · rwa [hpending']

theorem AhciInv.kernel (h : AhciInv disk s) (hpending : s.pending = none) {m : Bytes}
    (hm : ∀ x ∈ C.area, m x = s.mem x) :
    AhciInv disk { s with mem := m, log := s.log ++ [.kernel m] } := by
  have hrest := h.rest hpending
  obtain ⟨m₀, hrun⟩ := h.run
  rw [AhciState.settled, hpending] at hrun
  refine ⟨h.wired.of_headers fun x hx => hm x (C.headers_subset hx), ⟨m₀, ?_⟩, ?_⟩
  · simp only [AhciState.settled, hpending]
    exact .tail hrun ⟨hm, rfl⟩
  · simp only [hpending]
    exact hrest

/-- A status does not set or clear the error bit. -/
theorem view_status (s : AhciState C) {is : UInt32} (his : is &&& HBA_PxIS_TFES = 0)
    {sact tfd : UInt32} :
    { s with is := s.is ||| is, sact := sact, tfd := tfd : AhciState C }.view = s.view := by
  have herror : (s.is ||| is) &&& HBA_PxIS_TFES = s.is &&& HBA_PxIS_TFES := by
    have hdistrib : (s.is ||| is) &&& HBA_PxIS_TFES =
        s.is &&& HBA_PxIS_TFES ||| is &&& HBA_PxIS_TFES := by
      apply UInt32.toNat_inj.mp
      simp only [UInt32.toNat_and, UInt32.toNat_or, Nat.and_or_distrib_right]
    rw [hdistrib, his, UInt32.or_zero]
  simp only [AhciState.view, herror]

theorem AhciInv.status (h : AhciInv disk s) {is : UInt32} (his : is &&& HBA_PxIS_TFES = 0)
    (sact tfd : UInt32) :
    AhciInv disk { s with is := s.is ||| is, sact := sact, tfd := tfd } := by
  refine ⟨h.wired, h.run, ?_⟩
  rw [view_status s his]
  exact h.phase

/-- **A step of the device** on the command that the driver is polling. -/
theorem AhciInv.device (h : AhciInv disk s) (hv : s.view.Works slot)
    (hpending : s'.pending = s.pending) (hlog : s'.log = s.log)
    (hstep : ∀ (c : ReadCall C) before, Found C slot → Polling disk c before slot s.view →
      C.Wired s'.mem ∧ Polling disk c before slot s'.view) : AhciInv disk s' := by
  obtain ⟨m₀, hrun⟩ := h.run
  cases hp : s.pending with
  | none => exact absurd hv (h.rest hp).not_works
  | some p =>
    have hholds := h.holds hp
    have hpolls := hholds.polls hv
    obtain ⟨hfound, hmapped, hpoll⟩ := (PendingRead.holds_of_polls hpolls).mp hholds
    obtain ⟨hwired, hpoll'⟩ := hstep p.call p.before hfound hpoll
    have hpending' := hpending.trans hp
    refine ⟨hwired, ⟨m₀, ?_⟩, ?_⟩
    · rw [AhciState.settled, hp] at hrun
      rwa [AhciState.settled, hpending', hlog]
    · rw [hpending']
      exact (PendingRead.holds_of_polls hpolls).mpr ⟨hfound, hmapped, hpoll'⟩

theorem ahci_inv (s : AhciState C) (hs : Reachable (ahci_system C disk) s) : AhciInv disk s := by
  refine invariant_of_step ?_ ?_ s hs
  · rintro s ⟨hwired, hci, hdevice, hpending, hlog⟩
    refine ⟨hwired, ⟨s.mem, ?_⟩, ?_⟩
    · rw [hlog, AhciState.settled, hpending, hdevice]
      exact .refl
    · rw [hpending]
      refine .inr ⟨hdevice, fun j _ => ?_⟩
      show ¬ Issued s.ci j
      rw [hci, Issued]
      simp
  · intro s l s' _ h hstep
    cases l with
    | call c =>
      obtain ⟨hpending, rfl⟩ := hstep
      exact h.call hpending c
    | driver =>
      obtain ⟨p, hpending, hstep⟩ := hstep
      exact h.driver hpending hstep
    | kernel m =>
      obtain ⟨hpending, hm, rfl⟩ := hstep
      exact h.kernel hpending hm
    | status is sact tfd =>
      obtain ⟨his, rfl⟩ := hstep
      exact h.status his sact tfd
    | start slot =>
      obtain ⟨hslot, hdevice, hissued, rfl⟩ := hstep
      exact h.device (.inr ⟨hdevice, hslot, hissued⟩) rfl rfl fun c before hfound hpoll =>
        ⟨h.wired, hpoll.start hslot hdevice hissued⟩
    | transfer =>
      obtain ⟨slot, k, hdevice, hk, rfl⟩ := hstep
      exact h.device (.inl ⟨k, hdevice⟩) rfl rfl fun c before hfound hpoll =>
        hpoll.transfer h.wired hfound hdevice hk
    | complete =>
      obtain ⟨slot, k, hdevice, hk, rfl⟩ := hstep
      exact h.device (.inl ⟨k, hdevice⟩) rfl rfl fun c before hfound hpoll =>
        hpoll.complete h.wired hfound hdevice hk
    | fail cleared =>
      obtain ⟨slot, k, hdevice, rfl⟩ := hstep
      exact h.device (.inl ⟨k, hdevice⟩) rfl rfl fun c before hfound hpoll =>
        ⟨h.wired, hpoll.fail h.wired hfound hdevice _⟩

/-! ## Calls that return -/

/-- Some continuation returns from the call. -/
def CanReturn (disk : Nat → UInt8) (s : AhciState C) (c : ReadCall C) (ok : Bool) : Prop :=
  ∃ ls s', Steps (ahci_system C disk) s ls s' ∧ s'.pending = none ∧
    s'.log = s.log ++ [.read c ok]

theorem CanReturn.of_step {l : AhciLabel C} {ok : Bool} (hstep : (ahci_system C disk).step s l s')
    (hlog : s'.log = s.log) (h : CanReturn disk s' c ok) : CanReturn disk s c ok := by
  obtain ⟨ls, s'', hsteps, hpending, hlog'⟩ := h
  exact ⟨l :: ls, s'', hsteps.head hstep, hpending, by rw [hlog', hlog]⟩

theorem can_return_of_leave {ok : Bool} (hpending : s.pending = some p)
    (hstep : s.driver_step p = some (s.leave p ok)) : CanReturn disk s p.call ok :=
  ⟨[.driver], _, .tail .refl ⟨p, hpending, hstep⟩, rfl, rfl⟩

/-- The driver has seen the bit clear: it returns what the error bit says. -/
theorem can_return_check (hpending : s.pending = some p) (hphase : p.phase = .check) :
    CanReturn disk s p.call (!s.view.error) := by
  apply can_return_of_leave hpending
  simp only [AhciState.driver_step, hphase, AhciState.view]
  by_cases herror : s.is &&& HBA_PxIS_TFES = 0
  · simp [herror]
  · simp [herror]

/-- With a clear bit, the next test of it ends the loop. -/
theorem can_return_poll_ci (hpending : s.pending = some p) (hphase : p.phase = .poll_ci slot)
    (hslot : slot < 32) (hci : ¬ Issued s.ci slot) : CanReturn disk s p.call (!s.view.error) := by
  have hstep : s.driver_step p = some (s.enter p .check) := by
    simp only [AhciState.driver_step, hphase, (and_slot_bit s.ci hslot).mpr hci, if_true]
  have hcheck : CanReturn disk (s.enter p .check) p.call (!(s.enter p .check).view.error) :=
    can_return_check (p := { p with phase := .check }) rfl rfl
  exact .of_step (l := .driver) ⟨p, hpending, hstep⟩ rfl hcheck

/-- When the error bit is set, the driver returns the error. -/
theorem can_return_false (hpending : s.pending = some p) (hpolls : p.Polls slot)
    (hslot : slot < 32) (herror : s.view.error = true) : CanReturn disk s p.call false := by
  have htfes : s.is &&& HBA_PxIS_TFES ≠ 0 := of_decide_eq_true herror
  rcases hpolls with hphase | hphase
  · by_cases hci : Issued s.ci slot
    · have hstep : s.driver_step p = some (s.enter p (.poll_is slot)) := by
        have hbit : ¬ s.ci &&& slot_bit slot = 0 :=
          fun h => (and_slot_bit s.ci hslot).mp h hci
        simp only [AhciState.driver_step, hphase, if_neg hbit]
      apply CanReturn.of_step (l := .driver) ⟨p, hpending, hstep⟩ rfl
      have hleave : CanReturn disk (s.enter p (.poll_is slot))
          (PendingRead.call { p with phase := .poll_is slot }) false := by
        apply can_return_of_leave rfl
        show (if s.is &&& HBA_PxIS_TFES ≠ 0 then _ else _) = _
        rw [if_pos htfes]
      exact hleave
    · have hreturn : CanReturn disk s p.call (!s.view.error) :=
        can_return_poll_ci hpending hphase hslot hci
      rwa [herror] at hreturn
  · apply can_return_of_leave hpending
    simp only [AhciState.driver_step, hphase, if_pos htfes]

/-- When the bit is clear and there is no error, the driver returns success. -/
theorem can_return_true (hpending : s.pending = some p) (hpolls : p.Polls slot)
    (hslot : slot < 32) (hci : ¬ Issued s.ci slot) (herror : s.view.error = false) :
    CanReturn disk s p.call true := by
  have htfes : ¬ s.is &&& HBA_PxIS_TFES ≠ 0 := of_decide_eq_false herror
  rcases hpolls with hphase | hphase
  · have hreturn : CanReturn disk s p.call (!s.view.error) :=
      can_return_poll_ci hpending hphase hslot hci
    rwa [herror] at hreturn
  · have hstep : s.driver_step p = some (s.enter p (.poll_ci slot)) := by
      simp only [AhciState.driver_step, hphase, if_neg htfes]
    apply CanReturn.of_step (l := .driver) ⟨p, hpending, hstep⟩ rfl
    have hreturn : CanReturn disk (s.enter p (.poll_ci slot)) p.call
        (!(s.enter p (.poll_ci slot)).view.error) :=
      can_return_poll_ci (p := { p with phase := .poll_ci slot }) rfl rfl hslot hci
    have herror' : (s.enter p (.poll_ci slot)).view.error = false := herror
    rwa [herror'] at hreturn

/-- **A running command is completed**: byte by byte, by induction on the bytes that are left. -/
theorem can_return_running {n : Nat} (hwired : C.Wired s.mem) (hpending : s.pending = some p)
    (hpolls : p.Polls slot) (hfound : Found C slot)
    (hpoll : Polling disk p.call p.before slot s.view) (hdevice : s.device = .running slot k)
    (hn : p.call.bytes = k + n) : CanReturn disk s p.call true := by
  obtain ⟨hcommand, -, herror, -, -, -, -⟩ := hpoll.command hwired hfound hdevice
  induction n generalizing s k with
  | zero =>
    have hk : k = 512 * (s.command slot).1.count := by
      rw [hcommand]
      exact hn.symm
    refine .of_step (l := .complete) ⟨slot, k, hdevice, hk, rfl⟩ rfl ?_
    refine can_return_true hpending hpolls hfound.lt (fun hissued => ?_) herror
    exact ((issued_and_not s.ci hfound.lt hfound.lt).mp hissued).2 rfl
  | succ n ih =>
    have hk : k < 512 * (s.command slot).1.count := by
      rw [hcommand]
      show k < p.call.bytes
      omega
    obtain ⟨hwired', hpoll'⟩ := hpoll.transfer hwired hfound hdevice hk
    refine .of_step (l := .transfer) ⟨slot, k, hdevice, hk, rfl⟩ rfl ?_
    obtain ⟨hcommand', -, herror', -, -, -, -⟩ := hpoll'.command hwired' hfound rfl
    exact ih hwired' hpending hpoll' rfl (by omega) hcommand' herror'

/-- From every state of the port but one, the call can return. -/
theorem can_return_polling (hwired : C.Wired s.mem) (hpending : s.pending = some p)
    (hpolls : p.Polls slot) (hfound : Found C slot)
    (hpoll : Polling disk p.call p.before slot s.view) (hbefore : p.before.2 = false) :
    CanReturn disk s p.call (decide (s.device ≠ .halted)) := by
  have hworks (h : s.device ≠ .halted) (hreturn : CanReturn disk s p.call true) :
      CanReturn disk s p.call (decide (s.device ≠ .halted)) := by
    rwa [decide_eq_true h]
  cases hpoll with
  | queued hdevice hci herror hbefore' hcommand hmem =>
    have hdevice : s.device = .idle := hdevice
    have hissued : Issued s.ci slot := (hci slot hfound.lt).mpr rfl
    have hpoll : Polling disk p.call p.before slot s.view :=
      .queued hdevice hci herror hbefore' hcommand hmem
    apply hworks (by rw [hdevice]; decide)
    refine .of_step (l := .start slot) ⟨hfound.lt, hdevice, hissued, rfl⟩ rfl ?_
    exact can_return_running hwired hpending hpolls hfound
      (hpoll.start hfound.lt hdevice hissued) rfl (Nat.zero_add _).symm
  | running k hdevice hci herror hbefore' hcommand hk hmem =>
    have hdevice : s.device = .running slot k := hdevice
    apply hworks (by rw [hdevice]; exact fun h => nomatch h)
    exact can_return_running hwired hpending hpolls hfound
      (.running k hdevice hci herror hbefore' hcommand hk hmem) hdevice
      (Nat.add_sub_of_le hk).symm
  | done hdevice hci herror =>
    have hdevice : s.device = .idle := hdevice
    apply hworks (by rw [hdevice]; decide)
    exact can_return_true hpending hpolls hfound.lt (hci slot hfound.lt) herror
  | failed hdevice herror =>
    have hdevice : s.device = .halted := hdevice
    rw [decide_eq_false (not_not.mpr hdevice)]
    exact can_return_false hpending hpolls hfound.lt herror
  | ignored _ _ _ hbefore' => exact absurd (hbefore.symm.trans hbefore') (by decide)

/-! ## Calls that do not return -/

/-- The call polls a port that has halted before. -/
structure Hangs (c : ReadCall C) (slot : Nat) (s : AhciState C) : Prop where
  polls : ∃ p, s.pending = some p ∧ p.call = c ∧ p.Polls slot
  device : s.device = .halted
  issued : Issued s.ci slot
  no_error : s.view.error = false

theorem Hangs.driver (h : Hangs c slot s) (hslot : slot < 32) (hpending : s.pending = some p)
    (hstep : s.driver_step p = some s') : Hangs c slot s' ∧ s'.log = s.log := by
  obtain ⟨p', hpending', hcall, hpolls⟩ := h.polls
  obtain rfl : p = p' := Option.some_inj.mp (hpending.symm.trans hpending')
  rcases hpolls with hphase | hphase
  · have hbit : ¬ s.ci &&& slot_bit slot = 0 := fun h' => (and_slot_bit s.ci hslot).mp h' h.issued
    simp only [AhciState.driver_step, hphase, if_neg hbit] at hstep
    cases hstep
    exact ⟨⟨⟨_, rfl, hcall, .inr rfl⟩, h.device, h.issued, h.no_error⟩, rfl⟩
  · have htfes : ¬ s.is &&& HBA_PxIS_TFES ≠ 0 := of_decide_eq_false h.no_error
    simp only [AhciState.driver_step, hphase, if_neg htfes] at hstep
    cases hstep
    exact ⟨⟨⟨_, rfl, hcall, .inl rfl⟩, h.device, h.issued, h.no_error⟩, rfl⟩

theorem Hangs.step (h : Hangs c slot s) (hslot : slot < 32) {l : AhciLabel C}
    (hstep : (ahci_system C disk).step s l s') : Hangs c slot s' ∧ s'.log = s.log := by
  obtain ⟨p, hpending, hcall, hpolls⟩ := h.polls
  have hcalled {P : Prop} (hnone : s.pending = none) : P :=
    absurd (hpending.symm.trans hnone) (by simp)
  have hhalted {P : Prop} {i k : Nat} (hrunning : s.device = .running i k) : P :=
    absurd (h.device.symm.trans hrunning) (by simp)
  cases l with
  | call c => exact hcalled hstep.1
  | kernel m => exact hcalled hstep.1
  | driver =>
    obtain ⟨p, hpending, hstep⟩ := hstep
    exact h.driver hslot hpending hstep
  | status is sact tfd =>
    obtain ⟨his, rfl⟩ := hstep
    refine ⟨⟨⟨p, hpending, hcall, hpolls⟩, h.device, h.issued, ?_⟩, rfl⟩
    rw [view_status s his]
    exact h.no_error
  | start i => exact absurd (h.device.symm.trans hstep.2.1) (by simp)
  | transfer =>
    obtain ⟨i, k, hrunning, -⟩ := hstep
    exact hhalted hrunning
  | complete =>
    obtain ⟨i, k, hrunning, -⟩ := hstep
    exact hhalted hrunning
  | fail cleared =>
    obtain ⟨i, k, hrunning, -⟩ := hstep
    exact hhalted hrunning

theorem Hangs.steps (h : Hangs c slot s) (hslot : slot < 32) {ls : List (AhciLabel C)}
    (hsteps : Steps (ahci_system C disk) s ls s') : Hangs c slot s' ∧ s'.log = s.log := by
  induction hsteps with
  | refl => exact ⟨h, rfl⟩
  | tail _ hlast ih =>
    obtain ⟨h', hlog'⟩ := ih
    obtain ⟨h'', hlog''⟩ := h'.step hslot hlast
    exact ⟨h'', hlog''.trans hlog'⟩

end invariant

/-! ## Main results -/

/-- **Calls of `read` are atomic.** In every interleaving of the driver and the device, the calls
    that have returned are the steps of a run of `disk_spec`, one after the other; and a command
    that the device works on is complete, and the one of the call that is polling its slot. -/
theorem reads_are_atomic (C : CommandMemory) (disk : Nat → UInt8) (s : AhciState C)
    (hs : Reachable (ahci_system C disk) s) :
    (∃ m₀, Steps (disk_spec C disk) (m₀, false) s.log s.settled) ∧
      ∀ slot k, s.device = .running slot k → ∃ p, s.pending = some p ∧ p.Polls slot ∧
        s.command slot = p.call.command ∧ k ≤ p.call.bytes := by
  have hinv := ahci_inv s hs
  refine ⟨hinv.run, fun slot k hdevice => ?_⟩
  have hworks : s.view.Works slot := .inl ⟨k, hdevice⟩
  cases hpending : s.pending with
  | none => exact absurd hworks (hinv.rest hpending).not_works
  | some p =>
    have hholds := hinv.holds hpending
    have hpolls := hholds.polls hworks
    obtain ⟨hfound, -, hpoll⟩ := (PendingRead.holds_of_polls hpolls).mp hholds
    obtain ⟨hcommand, -, -, -, -, hk, -⟩ := hpoll.command hinv.wired hfound hdevice
    exact ⟨p, rfl, hpolls, hcommand, hk⟩

/-! A port with small tables, and calls for the first sector. -/

section example_port

def example_commands : CommandMemory where
  cmdheader_phy := 0x5001000
  cmdtbl_phy := fun slot => 0x5002000 + 0x100 * slot
  prdt_max := 8
  header_low := by decide
  header_end := fun _ => by decide
  table_low := fun slot _ => by
    show 0x4000000 ≤ 0x5002000 + 0x100 * slot
    omega
  table_end := fun slot hslot _ => by
    show 0x5002000 + 0x100 * slot + 0x100 ≤ 0x100000000
    omega
  apart := fun slot _ => disjoint_of_le (by
    show 0x5001400 ≤ 0x5002000 + 0x100 * slot
    omega)

theorem example_area : example_commands.area ⊆ Set.Ico 0x5001000 0x5010000 := by
  rintro x (⟨hlow, hx⟩ | ⟨slot, hslot, hlow, hx⟩)
  · have hx : x < 0x5001400 := hx
    exact ⟨hlow, by omega⟩
  · have hlow : 0x5002000 + 0x100 * slot ≤ x := hlow
    have hx : x < 0x5002000 + 0x100 * slot + 0x100 := hx
    exact ⟨by omega, by omega⟩

def example_read : ReadCall example_commands where
  startl := 0
  starth := 0
  count := 1
  buf_phy_addr := 0x4000000
  count_pos := by decide
  count_le := by decide
  room := by decide
  no_wrap := by decide
  apart := (disjoint_of_le (by decide)).mono_right example_area

/-- The headers point to the tables. The rest of the memory is zero. -/
def example_wiring : Bytes := fun x =>
  if 0x5001000 ≤ x ∧ x < 0x5001400 ∧ 8 ≤ x % 32 ∧ x % 32 < 12 then
    byte (0x5002000 + 0x100 * ((x - 0x5001000) / 32)) (x % 32 - 8)
  else 0

def example_start : AhciState example_commands :=
  ⟨example_wiring, 0, 0, 0, 0, .idle, none, []⟩

def example_disk : Nat → UInt8 := fun i => UInt8.ofNat i

/-- The state after some steps. -/
def example_after (ls : List (AhciLabel example_commands)) :
    Option (AhciState example_commands) :=
  ls.foldlM AhciState.exec example_start

theorem wired_example : example_commands.Wired example_wiring := by
  unfold CommandMemory.Wired
  decide +kernel

theorem reachable_example {ls : List (AhciLabel example_commands)}
    {s : AhciState example_commands} (h : example_after ls = some s) :
    Reachable (ahci_system example_commands example_disk) s := by
  have hstart : (ahci_system example_commands example_disk).init example_start :=
    ⟨wired_example, rfl, rfl, rfl, rfl⟩
  exact Reachable.foldlM AhciState.step_of_exec (.init hstart) h

/-- The driver calls `read` and issues the command. -/
def issue_steps : List (AhciLabel example_commands) :=
  .call example_read :: List.replicate 26 .driver

/-- The slot that is polled, whether the port had failed before, and whether it has failed. -/
def polled (s : AhciState example_commands) : Option (Nat × Bool × Bool) :=
  s.pending.bind fun p =>
    match p.phase with
    | .poll_ci slot => some (slot, p.before.2, s.device = .halted)
    | _ => none

theorem polls_of_polled {ls : List (AhciLabel example_commands)} {slot : Nat} {before failed : Bool}
    (h : (example_after ls).bind polled = some (slot, before, failed)) :
    ∃ s, Reachable (ahci_system example_commands example_disk) s ∧
      ∃ p, s.pending = some p ∧ p.Polls slot ∧ p.before.2 = before ∧
        decide (s.device = .halted) = failed := by
  obtain ⟨s, hs, hpolled⟩ := Option.bind_eq_some_iff.mp h
  obtain ⟨p, hpending, hphase⟩ := Option.bind_eq_some_iff.mp hpolled
  refine ⟨s, reachable_example hs, p, hpending, ?_⟩
  split at hphase
  · rename_i i hi
    cases hphase
    exact ⟨.inl hi, rfl, rfl⟩
  · cases hphase

end example_port

/-- A command for one sector is issued, and in some continuation the call returns with success. -/
theorem first_sector_read : ∃ s c m₀, Reachable (ahci_system example_commands example_disk) s ∧
    s.log.getLast? = some (.read c true) ∧
    Steps (disk_spec example_commands example_disk) (m₀, false) s.log s.settled := by
  have hpolled : (example_after issue_steps).bind polled = some (0, false, false) := by
    decide +kernel
  obtain ⟨s, hs, p, hpending, hpolls, hbefore, hworks⟩ := polls_of_polled hpolled
  have hinv := ahci_inv s hs
  obtain ⟨hfound, -, hpoll⟩ := (PendingRead.holds_of_polls hpolls).mp (hinv.holds hpending)
  obtain ⟨ls, s', hsteps, -, hlog⟩ :=
    can_return_polling hinv.wired hpending hpolls hfound hpoll hbefore
  rw [decide_eq_true (of_decide_eq_false hworks)] at hlog
  have hs' := hs.steps hsteps
  obtain ⟨⟨m₀, hrun⟩, -⟩ := reads_are_atomic example_commands example_disk s' hs'
  refine ⟨s', p.call, m₀, hs', ?_, hrun⟩
  rw [hlog, List.getLast?_concat]

/-- **When a call returns.** A call that has issued its command can return in some continuation if
    the port had not failed when it was called: with success if the port still works, and otherwise
    with the error. If the port had failed, the call polls in every continuation. -/
theorem issued_read_returns_iff (C : CommandMemory) (disk : Nat → UInt8) (s : AhciState C)
    (hs : Reachable (ahci_system C disk) s) (p : PendingRead C) (hp : s.pending = some p)
    (slot : Nat) (hpolls : p.Polls slot) :
    (p.before.2 = false → ∃ ls s', Steps (ahci_system C disk) s ls s' ∧ s'.pending = none ∧
        s'.log = s.log ++ [.read p.call (decide (s.device ≠ .halted))]) ∧
      (p.before.2 = true → ∀ ls s', Steps (ahci_system C disk) s ls s' →
        s'.log = s.log ∧ ∃ p', s'.pending = some p' ∧ p'.call = p.call ∧ p'.Polls slot) := by
  have hinv := ahci_inv s hs
  obtain ⟨hfound, -, hpoll⟩ := (PendingRead.holds_of_polls hpolls).mp (hinv.holds hp)
  constructor
  · exact can_return_polling hinv.wired hp hpolls hfound hpoll
  · intro hbefore ls s' hsteps
    have hhangs : Hangs p.call slot s := by
      cases hpoll with
      | ignored hdevice hci herror => exact ⟨⟨p, hp, rfl, hpolls⟩, hdevice, hci, herror⟩
      | queued _ _ _ hbefore' => exact absurd (hbefore.symm.trans hbefore') (by decide)
      | running _ _ _ _ hbefore' => exact absurd (hbefore.symm.trans hbefore') (by decide)
      | done _ _ _ hbefore' => exact absurd (hbefore.symm.trans hbefore') (by decide)
      | failed _ _ hbefore' => exact absurd (hbefore.symm.trans hbefore') (by decide)
    obtain ⟨hhangs', hlog⟩ := hhangs.steps hfound.lt hsteps
    exact ⟨hlog, hhangs'.polls⟩

/-- After an error, the next call takes the next slot and never returns. -/
theorem read_hangs_after_error : ∃ s, Reachable (ahci_system example_commands example_disk) s ∧
    ∀ ls s', Steps (ahci_system example_commands example_disk) s ls s' →
      ∃ p', s'.pending = some p' ∧ p'.Polls 1 := by
  have hpolled : (example_after (issue_steps ++ [.start 0, .fail false, .driver, .driver] ++
      issue_steps)).bind polled = some (1, true, true) := by decide +kernel
  obtain ⟨s, hs, p, hpending, hpolls, hbefore, -⟩ := polls_of_polled hpolled
  refine ⟨s, hs, fun ls s' hsteps => ?_⟩
  have hforever := issued_read_returns_iff example_commands example_disk s hs p hpending 1 hpolls
  obtain ⟨-, p', hpending', -, hpolls'⟩ := hforever.2 hbefore ls s' hsteps
  exact ⟨p', hpending', hpolls'⟩

end Modern05
