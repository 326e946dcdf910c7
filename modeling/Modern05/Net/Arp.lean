import Modern05.Device.Receive
import Modern05.Framework.OrderedMap
import Modern05.Lib.Memory

/-! # The ARP table and its lock

    `ArpDriver` in `net/arp.cpp` keeps its two maps behind a spinlock. The ARP thread calls
    `put` and `find`, and so does the interrupt handler of the card: for an IPv4 frame,
    `handle_rx` calls `RxUpper`, `IPDriver::HandleRx` and `ArpDriver::find`, in this order.

    There is one CPU. An interrupt may come between any two steps of the thread, which goes
    on when the handler has returned. Nothing masks interrupts while the thread has the lock,
    so a handler that wants it then waits for a thread that does not run.

    * `lockInv_of_reachable`: in every run the lock is set exactly while one of the two is
      between `lock` and `unlock`.
    * `interrupt_deadlocks`: an interrupt that wants the lock while the thread has it stops
      the kernel.
    * `irq_of_reads_ipv4`: the interrupts that read an IPv4 frame for this host want it.
    * `irq_keeps_off_lock`: other interrupts do not touch it.
-/

namespace Modern05

open LTS Memory

/-! ## Addresses and maps -/

def EthernetAddress.lt (a b : EthernetAddress) : Bool := memcmp a.toList b.toList < 0

abbrev IPv4Address := Vector UInt8 4

def IPv4Address.to_u32 (a : IPv4Address) : Nat :=
  a.toList.foldl (fun n b => 256 * n + b.toNat) 0

/-- The source compares the number of the left address with itself. -/
def IPv4Address.lt (a _rhs : IPv4Address) : Bool := a.to_u32 < a.to_u32

/-- A `std::map`. Its comparison is an argument of each operation. -/
abbrev KMap (K V : Type) := OrderedMap K V

/-! ## The driver -/

structure ArpDriver where
  lock_ : Bool
  eth2ip : KMap EthernetAddress IPv4Address
  ip2eth : KMap IPv4Address EthernetAddress

/-- The steps of a call. A lookup leaves its result to the caller. -/
inductive ArpStep where
  | lock
  | unlock
  | put_eth2ip (eth : EthernetAddress) (ip : IPv4Address)
  | put_ip2eth (ip : IPv4Address) (eth : EthernetAddress)
  | find_eth2ip (mac : EthernetAddress)
  | find_ip2eth (ip : IPv4Address)
  /-- An assertion fails or an access faults. -/
  | halt
  deriving DecidableEq

/-- One step, which is not possible at `lock` while the lock is set. -/
def ArpStep.exec (a : ArpDriver) : ArpStep → Option ArpDriver
  | .lock => if a.lock_ then none else some { a with lock_ := true }
  | .unlock => some { a with lock_ := false }
  | .put_eth2ip eth ip => some { a with eth2ip := a.eth2ip.assign EthernetAddress.lt eth ip }
  | .put_ip2eth ip eth => some { a with ip2eth := a.ip2eth.assign IPv4Address.lt ip eth }
  | .find_eth2ip _ => some a
  | .find_ip2eth _ => some a
  | .halt => none

/-- The functions of the driver that use the maps; `find` is overloaded. -/
inductive ArpCall where
  | put (eth : EthernetAddress) (ip : IPv4Address)
  | find (ip : IPv4Address)
  | find_mac (mac : EthernetAddress)

def ArpCall.steps : ArpCall → List ArpStep
  | .put eth ip => [.lock, .put_eth2ip eth ip, .put_ip2eth ip eth, .unlock]
  | .find ip => [.lock, .find_ip2eth ip, .unlock]
  | .find_mac mac => [.lock, .find_eth2ip mac, .unlock]

/-! ## The handler -/

/-- The packet is queued for the thread, without a lock. Bytes behind the data of a frame
    that is too short for the card count as 0. -/
def ArpDriver.HandleRx (data : List UInt8) : List ArpStep :=
  let be16 (i : Nat) : Nat := 256 * (data.getD i 0).toNat + (data.getD (i + 1) 0).toNat
  -- unknown hw addr or proto addr
  if ¬ (be16 0 = 1 ∧ be16 2 = 0x0800) then []
  else if data.getD 4 0 ≠ 6 then [.halt]
  else if data.getD 5 0 ≠ 4 then [.halt]
  else []

def IPDriver.HandleRx (src : EthernetAddress) : List ArpStep := (ArpCall.find_mac src).steps

def RxUpper (u : Upper) : List ArpStep :=
  if u.protocol = EtherTypeARP then ArpDriver.HandleRx u.data
  else if u.protocol = EtherTypeIPv4 then IPDriver.HandleRx u.src
  else []

/-- A call of `handle_rx`, and what follows it. -/
def after_handle_rx (d : RxDevice) (next : RxDevice → List ArpStep) : List ArpStep :=
  match d.handle_rx with
  | none => [.halt]
  | some (u, d) => u.toList.flatMap RxUpper ++ next d

/-- The blocks of `irq`, from one of them on. A block acknowledges its own bit only, so that
    each test sees the bit as it was. -/
def irq_steps (isr : Isr) : List IrqBlock → RxDevice → List ArpStep
  | [], _ => []
  | b :: bs, d =>
    if isr b.bit = true ∧ b.action = .handle_rx then after_handle_rx d (irq_steps isr bs)
    else irq_steps isr bs d

def irq (isr : Isr) (d : RxDevice) : List ArpStep :=
  if isr.zero then [] else irq_steps isr irq_blocks d

/-! ## Runs -/

/-- The steps that the thread and the handler have before them. -/
structure ArpState where
  arp : ArpDriver
  thread : List ArpStep
  handler : List ArpStep

inductive ArpEvent where
  /-- The thread calls a function. -/
  | call (c : ArpCall)
  | thread
  /-- An interrupt, with the register and the ring as the card has left them. -/
  | interrupt (isr : Isr) (d : RxDevice)
  | handler

def arp_system : System ArpState ArpEvent where
  init := fun s => s.arp.lock_ = false ∧ s.thread = [] ∧ s.handler = []
  step := fun s e s' =>
    match e with
    | .call c => s.handler = [] ∧ s.thread = [] ∧ s' = { s with thread := c.steps }
    | .thread => s.handler = [] ∧ ∃ step rest arp, s.thread = step :: rest ∧
        step.exec s.arp = some arp ∧ s' = { s with arp := arp, thread := rest }
    | .interrupt isr d => s.handler = [] ∧ s' = { s with handler := irq isr d }
    | .handler => ∃ step rest arp, s.handler = step :: rest ∧
        step.exec s.arp = some arp ∧ s' = { s with arp := arp, handler := rest }

/-- Between `lock` and `unlock`: of the two, `unlock` comes first. -/
def holding : List ArpStep → Bool
  | [] => false
  | .lock :: _ => false
  | .unlock :: _ => true
  | _ :: rest => holding rest

/-- The handler waits for the lock, and the thread that has it waits for the handler. -/
def ArpState.Deadlocked (s : ArpState) : Prop :=
  s.handler.head? = some .lock ∧ s.arp.lock_ = true ∧ holding s.thread = true

/-! ## Every run -/

/-- `lock` and `unlock` alternate. -/
def Balanced : List ArpStep → Prop
  | [] => True
  | .lock :: rest => holding rest = true ∧ Balanced rest
  | .unlock :: rest => holding rest = false ∧ Balanced rest
  | _ :: rest => Balanced rest

/-- Steps of somebody who does not have the lock. -/
def Fresh (steps : List ArpStep) : Prop := Balanced steps ∧ holding steps = false

theorem fresh_find_mac (mac : EthernetAddress) {rest : List ArpStep} (h : Fresh rest) :
    Fresh ((ArpCall.find_mac mac).steps ++ rest) :=
  ⟨⟨rfl, h.2, h.1⟩, rfl⟩

theorem fresh_call (c : ArpCall) : Fresh c.steps := by
  cases c <;> exact ⟨⟨rfl, rfl, trivial⟩, rfl⟩

theorem fresh_halt {rest : List ArpStep} (h : Fresh rest) : Fresh (.halt :: rest) := h

theorem RxUpper_cases (u : Upper) : RxUpper u = [] ∨ RxUpper u = [.halt] ∨
    (u.protocol = EtherTypeIPv4 ∧ RxUpper u = (ArpCall.find_mac u.src).steps) := by
  unfold RxUpper
  split
  · -- the ARP driver takes no lock in the handler
    dsimp only [ArpDriver.HandleRx]
    split_ifs <;> simp
  · split
    · next hprotocol => exact .inr (.inr ⟨hprotocol, rfl⟩)
    · exact .inl rfl

theorem fresh_RxUpper (u : Upper) {rest : List ArpStep} (h : Fresh rest) :
    Fresh (RxUpper u ++ rest) := by
  rcases RxUpper_cases u with hnone | hhalt | ⟨-, hfind⟩
  · rw [hnone]
    exact h
  · rw [hhalt]
    exact fresh_halt h
  · rw [hfind]
    exact fresh_find_mac u.src h

theorem fresh_after_handle_rx (d : RxDevice) {next : RxDevice → List ArpStep}
    (hnext : ∀ d, Fresh (next d)) : Fresh (after_handle_rx d next) := by
  unfold after_handle_rx
  split
  · exact fresh_halt ⟨trivial, rfl⟩
  · next u d' _ =>
    cases u with
    | none => exact hnext d'
    | some u =>
      rw [Option.toList_some, List.flatMap_singleton]
      exact fresh_RxUpper u (hnext d')

theorem fresh_irq (isr : Isr) (d : RxDevice) : Fresh (irq isr d) := by
  -- by induction over the blocks, for whatever device the earlier ones leave
  have hblocks : ∀ bs d, Fresh (irq_steps isr bs d) := by
    intro bs
    induction bs with
    | nil => exact fun _ => ⟨trivial, rfl⟩
    | cons b bs ih =>
      intro d
      unfold irq_steps
      split
      · exact fresh_after_handle_rx d ih
      · exact ih d
  unfold irq
  split
  · exact ⟨trivial, rfl⟩
  · exact hblocks irq_blocks d

structure LockInv (s : ArpState) : Prop where
  lock : s.arp.lock_ = (holding s.thread || holding s.handler)
  one : holding s.thread = true → holding s.handler = false
  thread : Balanced s.thread
  handler : Balanced s.handler

/-- A step of one party keeps the lock in order, whoever has it. -/
theorem lock_step {a a' : ArpDriver} {step : ArpStep} {rest : List ArpStep} {other : Bool}
    (hlock : a.lock_ = (holding (step :: rest) || other))
    (hone : holding (step :: rest) = true → other = false) (hbalanced : Balanced (step :: rest))
    (h : step.exec a = some a') :
    a'.lock_ = (holding rest || other) ∧ (holding rest = true → other = false) ∧
      Balanced rest := by
  cases step with
  | lock =>
    -- the lock was free, so nobody had it
    have hfree : a.lock_ = false := by
      by_contra hset
      simp [ArpStep.exec, hset] at h
    have hother : other = false := by
      rw [hfree] at hlock
      exact hlock.symm
    rw [ArpStep.exec, hfree] at h
    cases h
    exact ⟨by rw [hbalanced.1]; rfl, fun _ => hother, hbalanced.2⟩
  | unlock =>
    cases h
    have hother : other = false := hone rfl
    exact ⟨by rw [hbalanced.1, hother]; rfl, fun _ => hother, hbalanced.2⟩
  | put_eth2ip | put_ip2eth | find_eth2ip | find_ip2eth =>
    cases h
    exact ⟨hlock, hone, hbalanced⟩
  | halt => cases h

theorem lockInv_of_reachable : ∀ s, Reachable arp_system s → LockInv s := by
  refine invariant_of_step ?_ ?_
  · rintro s ⟨hfree, hthread, hhandler⟩
    constructor
    · rw [hfree, hthread, hhandler]
      rfl
    · rw [hthread]
      exact fun h => absurd h (by decide)
    · rw [hthread]
      trivial
    · rw [hhandler]
      trivial
  · intro s e s' _ hs hstep
    have hlock := hs.lock
    have hone := hs.one
    cases e with
    | call c =>
      obtain ⟨hhandler, hthread, rfl⟩ := hstep
      obtain ⟨hbalanced, hholding⟩ := fresh_call c
      rw [hthread] at hlock
      refine ⟨?_, fun _ => ?_, hbalanced, hs.handler⟩
      · rw [hlock, hholding]
        rfl
      · show holding s.handler = false
        rw [hhandler]
        rfl
    | thread =>
      obtain ⟨-, step, rest, arp, hthread, hexec, rfl⟩ := hstep
      rw [hthread] at hlock hone
      obtain ⟨hlock', hone', hrest⟩ := lock_step hlock hone (hthread ▸ hs.thread) hexec
      exact ⟨hlock', hone', hrest, hs.handler⟩
    | interrupt isr d =>
      obtain ⟨hhandler, rfl⟩ := hstep
      obtain ⟨hbalanced, hholding⟩ := fresh_irq isr d
      rw [hhandler] at hlock
      refine ⟨?_, fun _ => hholding, hs.thread, hbalanced⟩
      rw [hlock, hholding]
      rfl
    | handler =>
      obtain ⟨step, rest, arp, hhandler, hexec, rfl⟩ := hstep
      rw [hhandler] at hlock hone
      -- the same step lemma with the roles exchanged
      have hone' : holding (step :: rest) = true → holding s.thread = false := by
        intro hholding
        by_contra hthread
        rw [hone (by simpa using hthread)] at hholding
        cases hholding
      rw [Bool.or_comm] at hlock
      obtain ⟨hlock', hrest, hbalanced⟩ := lock_step hlock hone' (hhandler ▸ hs.handler) hexec
      refine ⟨?_, fun hthread => ?_, hs.thread, hbalanced⟩
      · rw [hlock', Bool.or_comm]
      · by_contra hholding
        rw [hrest (by simpa using hholding)] at hthread
        cases hthread

/-! ## Interrupts that use the lock -/

/-- The next frame of the ring is an IPv4 frame for this host, with the right checksum. -/
def RxDevice.ipv4_waits (d : RxDevice) : Prop :=
  d.checked ∧ d.addressed ∧ d.upper.protocol = EtherTypeIPv4

/-- Among the frames that an interrupt reads is such a frame: it reads one for `RxOk` and one
    for `RxOverflow`, behind the first if there was one. -/
def reads_ipv4 (isr : Isr) (d : RxDevice) : Prop :=
  ((isr RxOk = true ∨ isr RxOverflow = true) ∧ d.ipv4_waits) ∨
  (isr RxOk = true ∧ isr RxOverflow = true ∧ d.packet_size ≠ 0 ∧
    (d.consume_rx d.packet_size).ipv4_waits)

/-- Two of the blocks call `handle_rx`. -/
theorem irq_steps_eq (isr : Isr) (d : RxDevice) :
    irq_steps isr irq_blocks d =
      let overflow (d : RxDevice) : List ArpStep :=
        if isr RxOverflow = true then after_handle_rx d (fun _ => []) else []
      if isr RxOk = true then after_handle_rx d overflow else overflow d := by
  have hrest : irq_steps isr (irq_blocks.drop 1) = fun d =>
      if isr RxOverflow = true then after_handle_rx d (fun _ => []) else [] := by
    funext d
    simp [irq_steps, irq_blocks]
  show (if isr RxOk = true ∧ IrqAction.handle_rx = .handle_rx then
    after_handle_rx d (irq_steps isr (irq_blocks.drop 1)) else
    irq_steps isr (irq_blocks.drop 1) d) = _
  rw [hrest]
  simp

theorem lock_mem_RxUpper {u : Upper} (h : .lock ∈ RxUpper u) : u.protocol = EtherTypeIPv4 := by
  rcases RxUpper_cases u with hnone | hhalt | ⟨hprotocol, -⟩
  · simp [hnone] at h
  · simp [hhalt] at h
  · exact hprotocol

theorem lock_mem_after_handle_rx {d : RxDevice} {next : RxDevice → List ArpStep}
    (h : .lock ∈ after_handle_rx d next) :
    d.ipv4_waits ∨ .lock ∈ next d ∨
      (d.packet_size ≠ 0 ∧ .lock ∈ next (d.consume_rx d.packet_size)) := by
  unfold after_handle_rx at h
  split at h
  · simp at h
  · next u d' hhandle =>
    rcases List.mem_append.mp h with hupper | hnext
    · left
      obtain ⟨u', hu', hlock⟩ := List.mem_flatMap.mp hupper
      obtain rfl : u = some u' := by simpa using hu'
      obtain ⟨hchecked, haddressed, rfl⟩ := RxDevice.handle_rx_upper hhandle
      exact ⟨hchecked, haddressed, lock_mem_RxUpper hlock⟩
    · right
      rcases RxDevice.handle_rx_cases hhandle with ⟨-, rfl⟩ | ⟨hsize, rfl⟩
      · exact .inl hnext
      · exact .inr ⟨hsize, hnext⟩

/-- An interrupt that reads no IPv4 frame for this host does not take the lock. -/
theorem irq_keeps_off_lock {isr : Isr} {d : RxDevice} (h : ¬ reads_ipv4 isr d) :
    .lock ∉ irq isr d := by
  intro hmem
  apply h
  -- what the block for overflows reads
  have hoverflow : ∀ d, .lock ∈ (if isr RxOverflow = true then after_handle_rx d (fun _ => [])
      else []) → isr RxOverflow = true ∧ d.ipv4_waits := by
    intro d hd
    split at hd
    · next hset => simpa [hset] using lock_mem_after_handle_rx hd
    · simp at hd
  unfold irq at hmem
  split at hmem
  · simp at hmem
  rw [irq_steps_eq] at hmem
  dsimp only at hmem
  split at hmem
  · next hok =>
    rcases lock_mem_after_handle_rx hmem with hfirst | hagain | ⟨hsize, hsecond⟩
    · exact .inl ⟨.inl hok, hfirst⟩
    · exact .inl ⟨.inl hok, (hoverflow _ hagain).2⟩
    · obtain ⟨hset, hwaits⟩ := hoverflow _ hsecond
      exact .inr ⟨hok, hset, hsize, hwaits⟩
  · obtain ⟨hset, hwaits⟩ := hoverflow _ hmem
    exact .inl ⟨.inr hset, hwaits⟩

/-- Other interrupts may come at any time. -/
def keeps_off_lock (s : ArpState) (e : ArpEvent) : Prop :=
  match e with
  | .interrupt isr d => holding s.thread = true → ¬ reads_ipv4 isr d
  | _ => True

theorem no_lock_of_reachable : ∀ s, Reachable (arp_system.restrict keeps_off_lock) s →
    holding s.thread = true → .lock ∉ s.handler := by
  refine invariant_of_step ?_ ?_
  · rintro s ⟨-, -, hhandler⟩ _
    simp [hhandler]
  · intro s e s' _ hs hstep
    cases e with
    | call c =>
      obtain ⟨-, hhandler, -, rfl⟩ := hstep
      simp [hhandler]
    | thread =>
      obtain ⟨-, hhandler, step, rest, arp, -, -, rfl⟩ := hstep
      simp [hhandler]
    | interrupt isr d =>
      obtain ⟨hguard, -, rfl⟩ := hstep
      intro hholding
      exact irq_keeps_off_lock (hguard hholding)
    | handler =>
      obtain ⟨-, step, rest, arp, hhandler, -, rfl⟩ := hstep
      intro hholding hmem
      apply hs hholding
      rw [hhandler]
      exact List.mem_cons_of_mem step hmem

theorem takes_lock_of_waits {d : RxDevice} (hd : d.ipv4_waits) (next : RxDevice → List ArpStep) :
    (after_handle_rx d next).head? = some .lock := by
  obtain ⟨hchecked, haddressed, hprotocol⟩ := hd
  have hupper : RxUpper d.upper = IPDriver.HandleRx d.upper.src := by
    simp [RxUpper, hprotocol, EtherTypeARP, EtherTypeIPv4]
  simp [after_handle_rx, RxDevice.handle_rx_of_checked hchecked haddressed, hupper,
    IPDriver.HandleRx, ArpCall.steps]

/-- For an IPv4 frame the handler first of all takes the lock. -/
theorem irq_takes_lock {isr : Isr} (hset : isr RxOk = true ∨ isr RxOverflow = true)
    {d : RxDevice} (hd : d.ipv4_waits) : (irq isr d).head? = some .lock := by
  have hzero : isr.zero = false := by
    rcases hset with h | h
    · exact Isr.zero_of_true (by decide) h
    · exact Isr.zero_of_true (by decide) h
  rw [irq, hzero, irq_steps_eq]
  by_cases hok : isr RxOk = true
  · simp [hok, takes_lock_of_waits hd]
  · simp [hok, hset.resolve_left hok, takes_lock_of_waits hd]

/-- A frame in front of another one for which the lock is taken. -/
theorem head_RxUpper_append (u : Upper) {rest : List ArpStep} (h : rest.head? = some .lock) :
    (RxUpper u ++ rest).head? = some .lock ∨ (RxUpper u ++ rest).head? = some .halt := by
  rcases RxUpper_cases u with hnone | hhalt | ⟨-, hfind⟩
  · rw [hnone]
    exact .inl h
  · rw [hhalt]
    exact .inr rfl
  · rw [hfind]
    exact .inl rfl

/-- A frame in front of the IPv4 frame may stop the kernel; if not, the lock comes next. -/
theorem irq_of_reads_ipv4 {isr : Isr} {d : RxDevice} (h : reads_ipv4 isr d) :
    (irq isr d).head? = some .lock ∨ (irq isr d).head? = some .halt := by
  rcases h with ⟨hset, hd⟩ | ⟨hok, hoverflow, hsize, hd⟩
  · exact .inl (irq_takes_lock hset hd)
  · have hirq : irq isr d = after_handle_rx d (fun d => after_handle_rx d (fun _ => [])) := by
      rw [irq, Isr.zero_of_true (by decide) hok, irq_steps_eq]
      simp [hok, hoverflow]
    rw [hirq, after_handle_rx]
    split
    · exact .inr rfl
    · next u d' hhandle =>
      obtain ⟨hnone, -⟩ | ⟨-, rfl⟩ := RxDevice.handle_rx_cases hhandle
      · exact absurd hnone hsize
      have hnext := takes_lock_of_waits hd (fun _ => [])
      cases u with
      | none => exact .inl hnext
      | some u =>
        rw [Option.toList_some, List.flatMap_singleton]
        exact head_RxUpper_append u hnext

/-- An interrupt that wants the lock while the thread has it. -/
theorem interrupt_deadlocks {s : ArpState} (hs : Reachable arp_system s)
    (hhandler : s.handler = []) (hholding : holding s.thread = true) {isr : Isr} {d : RxDevice}
    (hlock : (irq isr d).head? = some .lock) :
    ∃ s', arp_system.step s (.interrupt isr d) s' ∧ s'.Deadlocked := by
  refine ⟨_, ⟨hhandler, rfl⟩, hlock, ?_, hholding⟩
  rw [(lockInv_of_reachable s hs).lock, hholding]
  rfl

/-- When no interrupt reads an IPv4 frame for this host while the thread has the lock, the
    handler never waits for it. An interrupt that does so waits forever, unless a frame in
    front of it has stopped the kernel before. -/
theorem arp_lock_deadlocks_only_on_ipv4 (s : ArpState) :
    (Reachable (arp_system.restrict keeps_off_lock) s → ¬ s.Deadlocked) ∧
    (Reachable arp_system s → s.handler = [] → holding s.thread = true →
      ∀ isr d, reads_ipv4 isr d → ∃ s', arp_system.step s (.interrupt isr d) s' ∧
        (s'.Deadlocked ∨ s'.handler.head? = some .halt)) := by
  constructor
  · rintro hs ⟨hfirst, -, hholding⟩
    exact no_lock_of_reachable s hs hholding (List.mem_of_mem_head? hfirst)
  · intro hs hhandler hholding isr d hreads
    rcases irq_of_reads_ipv4 hreads with hlock | hhalt
    · obtain ⟨s', hstep, hdeadlocked⟩ := interrupt_deadlocks hs hhandler hholding hlock
      exact ⟨s', hstep, .inl hdeadlocked⟩
    · exact ⟨_, ⟨hhandler, rfl⟩, .inr hhalt⟩

/-! ### A frame -/

/-- A broadcast of 60 bytes with the type of IPv4. -/
def ipv4_data : List UInt8 :=
  List.replicate 6 0xff ++ [2, 0, 0, 0, 0, 1] ++ [0x08, 0x00] ++ List.replicate 46 0

/-- It stands in the ring with its checksum. -/
def ipv4_device : RxDevice :=
  ⟨Vector.replicate 6 0,
    copy (fun _ => 0) 0
      (stored_frame (1, 0) (ipv4_data ++ word32 (crc32iso_hdlc 0 ipv4_data).toNat)), 0, 0⟩

theorem ipv4_device_waits : ipv4_device.ipv4_waits := by
  refine ⟨(checked_device_with ipv4_data (by decide) (by decide)).1, .inl ?_, ?_⟩
  · decide +kernel
  · decide +kernel

/-- The thread is in a call of `put`, in front of `lock`. -/
def putting : ArpState :=
  ⟨⟨false, [], []⟩, (ArpCall.put (Vector.replicate 6 2) (Vector.replicate 4 10)).steps, []⟩

theorem reachable_putting : Reachable (arp_system.restrict keeps_off_lock) putting := by
  have hinit : Reachable (arp_system.restrict keeps_off_lock) ⟨⟨false, [], []⟩, [], []⟩ :=
    .init ⟨rfl, rfl, rfl⟩
  have hcall : (arp_system.restrict keeps_off_lock).step ⟨⟨false, [], []⟩, [], []⟩
      (.call (.put (Vector.replicate 6 2) (Vector.replicate 4 10))) putting :=
    ⟨trivial, rfl, rfl, rfl⟩
  exact .step hinit hcall

/-- A frame that comes before `lock` is handled, and the handler gets the lock. -/
theorem ipv4_frame_before_lock : ∃ s,
    Reachable (arp_system.restrict keeps_off_lock) s ∧ s.handler.head? = some .lock ∧
    s.thread = putting.thread ∧ ¬ s.Deadlocked := by
  obtain ⟨isr, hok⟩ : ∃ isr : Isr, isr RxOk = true := ⟨fun _ => true, rfl⟩
  have hinterrupt : (arp_system.restrict keeps_off_lock).step putting
      (.interrupt isr ipv4_device) { putting with handler := irq isr ipv4_device } :=
    ⟨fun h => absurd h (by decide), rfl, rfl⟩
  have hreach := reachable_putting.step hinterrupt
  exact ⟨_, hreach, irq_takes_lock (.inl hok) ipv4_device_waits, rfl,
    (arp_lock_deadlocks_only_on_ipv4 _).1 hreach⟩

/-- A frame that comes after `lock` stops the kernel. -/
theorem ipv4_frame_after_lock : ∃ s, Reachable arp_system s ∧ s.Deadlocked := by
  have hlock : arp_system.step putting .thread
      ⟨⟨true, [], []⟩, putting.thread.tail, []⟩ := ⟨rfl, _, _, _, rfl, rfl, rfl⟩
  have hreach := reachable_putting.of_restrict.step hlock
  obtain ⟨isr, hok⟩ : ∃ isr : Isr, isr RxOk = true := ⟨fun b => b == RxOk, rfl⟩
  obtain ⟨s, hstep, hs⟩ := interrupt_deadlocks hreach rfl rfl
    (irq_takes_lock (.inl hok) ipv4_device_waits)
  exact ⟨s, hreach.step hstep, hs⟩

end Modern05
