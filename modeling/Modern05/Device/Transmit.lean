import Modern05.Common.SSQueue
import Modern05.Device.Rtl8139

/-! # Sending packets

    `RTL8139Driver::TxEnqueue` passes packets through the queue to the thread
    `kthread_entry`, which copies each one to the buffer of the next descriptor, starts the
    card and waits for `handle_tx`, called by `irq`, to tell it that the card is done.

    The producer, the thread, the handler and the card take their steps in any order. Of a
    step of the source that writes a shared field and reads others, each access is one step
    here where another party could come in between.

    The zeros with which `tx_async` pads a short packet do not go into the buffer: the source
    adds the size to the address of a pointer in the array `tx_buffer`, and writes to the
    device object or behind it. The indices of the queue are the last fields of the object.

    * `TxControl`: at each time one of the thread, the card and the handler is in charge.
    * `TxData`: the packet that has been taken from the queue and is not sent yet, and how
      far it has come.
-/

namespace Modern05

open LTS Memory

/-! ## Packets -/

/-- The part of a `KEthernetPacket` that is sent. -/
structure EthernetPacket where
  dst : EthernetAddress
  src : EthernetAddress
  protocol : Nat
  data : List UInt8

def EthernetHeaderSize : Nat := 6 + 6 + 2

/-- The bytes from `pkt_start` on, with the protocol in network order. -/
def EthernetPacket.bytes (p : EthernetPacket) : List UInt8 :=
  p.dst.toList ++ p.src.toList ++ [UInt8.ofNat (p.protocol / 256), UInt8.ofNat p.protocol] ++ p.data

theorem EthernetPacket.length_bytes (p : EthernetPacket) :
    p.bytes.length = EthernetHeaderSize + p.data.length := by
  simp [EthernetPacket.bytes, EthernetHeaderSize]
  omega

def TxQueueSize : Nat := 32

/-! ## The object

    Counted from `tx_buffer`, the fields of the device are at these offsets: `tx_buffer` 0,
    `tx_buffer_phy` 32, `tx_buffer_size` 48, `tx_buffer_index` 56, `tx_done_` 60, `regs` 64,
    `config_space` 72, `arp_` 80, `ipv4_` 88, and `tx_queue_` with `rx_queue_` 96,
    `rx_start_` 120 and `rx_end_` 128. The object ends at 136. -/

section

variable {Ptr : Type}

/-- `memset(tx_buffer + offset, 0, n)` for an offset in bytes that is not before the
    pointers of `rx_queue_`. The third of them, which is not used any more, and what is
    behind the object are not modelled. -/
def SSQueue.memset_zero (q : SSQueue Ptr) (offset n : Nat) : SSQueue Ptr :=
  { q with
    rx_start_ := if offset ≤ 120 ∧ 128 ≤ offset + n then 0 else q.rx_start_
    rx_end_ := if offset ≤ 128 ∧ 136 ≤ offset + n then 0 else q.rx_end_ }

/-- The zeros miss an index, or it is zero already. -/
theorem SSQueue.memset_zero_eq (q : SSQueue Ptr) {offset : Nat}
    (hstart : offset ≤ 120 → q.rx_start_ = 0) (hend : offset ≤ 128 → q.rx_end_ = 0) (n : Nat) :
    q.memset_zero offset n = q := by
  have hstart' : (if offset ≤ 120 ∧ 128 ≤ offset + n then 0 else q.rx_start_) = q.rx_start_ := by
    split
    · next h => exact (hstart h.1).symm
    · rfl
  have hend' : (if offset ≤ 128 ∧ 136 ≤ offset + n then 0 else q.rx_end_) = q.rx_end_ := by
    split
    · next h => exact (hend h.1).symm
    · rfl
  rw [SSQueue.memset_zero, hstart', hend']

end

/-! ## State -/

/-- Where the thread is. It has called `tx_async` with a size, which grows on the way. -/
inductive TxPc where
  /-- In `deq`, at the step that the queue knows. -/
  | deq
  /-- At `while (!tx_ready())`. -/
  | ready
  | tx_async (size : Nat)
  | memcpy (size : Nat)
  | memset (size : Nat)
  | crc (size : Nat)
  /-- In front of the write to the status of the descriptor. -/
  | start (size : Nat)
  /-- At `while (!tx_done_)`. -/
  | wait
  | clear
  deriving DecidableEq

/-- Where the handler is in its block for `TxOk`. -/
inductive TxIrqPc where
  | idle
  | increment
  | wrap
  | done
  | ack
  deriving DecidableEq

/-- What the card does with a descriptor. -/
inductive NicPhase where
  | idle
  | started
  | sent
  /-- Bit 13 is set again, the interrupt is still to come. -/
  | owned
  deriving DecidableEq

structure TxState (Ptr : Type) where
  q : QueueState Ptr EthernetPacket
  /-- The four buffers of 4096 bytes, one behind the other. -/
  tx_buffer : Bytes
  tx_buffer_index : Nat
  tx_done_ : Bool
  tx_status : Nat → Nat
  isr : Isr
  pc : TxPc
  handler : TxIrqPc
  nic : Nat → NicPhase
  transmitted : List (List UInt8)

namespace TxState

variable {Ptr : Type} [DecidableEq Ptr] (s : TxState Ptr)

/-- Where the buffer of a descriptor starts. -/
def buffer_start (i : Nat) : Nat := 4096 * i

def tx_ready : Bool := (s.tx_status s.tx_buffer_index).testBit 13

/-- The bytes that the card sends: the size is in the low bits of the status. -/
def frame (i : Nat) : List UInt8 := bytes s.tx_buffer (buffer_start i) (s.tx_status i % 2 ^ 13)

/-! ## Steps -/

/-- `tx_status & ~(1<<13) | (size & 0xfff)` -/
def start_status (status size : Nat) : Nat :=
  (status &&& (2 ^ 32 - 1 - 2 ^ 13)) ||| (size &&& 0xfff)

/-- The thread. -/
def thread : Option (TxState Ptr) :=
  match s.pc with
  | .deq =>
    match s.q.deq_pc with
    | .idle => (s.q.exec .deq_read).map (fun q => { s with q := q })
    | .swap => (s.q.exec .deq_swap).map (fun q => { s with q := q })
    | .publish => (s.q.exec .deq_publish).map (fun q => { s with q := q, pc := .ready })
  | .ready =>
    if s.tx_ready then
      some { s with pc := .tx_async (EthernetHeaderSize + (s.q.mem s.q.consumer).data.length) }
    else
      some s
  | .tx_async size =>
    -- the packet is dropped where `tx_async` returns false
    if s.tx_ready then some { s with pc := .memcpy size } else some { s with pc := .deq }
  | .memcpy size =>
    let data := (s.q.mem s.q.consumer).bytes.take size
    let tx_buffer := copy s.tx_buffer (buffer_start s.tx_buffer_index) data
    some { s with tx_buffer := tx_buffer, pc := .memset size }
  | .memset size =>
    -- expand to 64-4 bytes if shorter
    if size < 64 - 4 then
      let queue := s.q.queue.memset_zero (8 * (s.tx_buffer_index + size)) (64 - 4 - size)
      some { s with q := { s.q with queue := queue }, pc := .crc (64 - 4) }
    else
      some { s with pc := .crc size }
  | .crc size =>
    let start := buffer_start s.tx_buffer_index
    let crc32 := crc32iso_hdlc 0 (bytes s.tx_buffer start size)
    -- append crc32
    let tx_buffer := copy s.tx_buffer (start + size) (word32 crc32.toNat)
    some { s with tx_buffer := tx_buffer, pc := .start (size + 4) }
  | .start size =>
    let i := s.tx_buffer_index
    let tx_status := Function.update s.tx_status i (start_status (s.tx_status i) size)
    some { s with tx_status := tx_status, nic := Function.update s.nic i .started, pc := .wait }
  | .wait => if s.tx_done_ then some { s with pc := .clear } else some s
  | .clear => some { s with tx_done_ := false, pc := .deq }

/-- `irq` at its block for `TxOk`, and `handle_tx`. -/
def irq : TxState Ptr :=
  match s.handler with
  | .idle => if s.isr TxOk then { s with handler := .increment } else s
  | .increment => { s with tx_buffer_index := s.tx_buffer_index + 1, handler := .wrap }
  | .wrap => { s with tx_buffer_index := s.tx_buffer_index % 4, handler := .done }
  | .done => { s with tx_done_ := true, handler := .ack }
  | .ack => { s with isr := s.isr.write [TxOk], handler := .idle }

/-- The card goes on with a descriptor: it sends the buffer, sets bit 13 and raises the
    interrupt. -/
def card (i : Nat) : Option (TxState Ptr) :=
  match s.nic i with
  | .idle => none
  | .started =>
    some { s with
      transmitted := s.transmitted ++ [s.frame i]
      nic := Function.update s.nic i .sent }
  | .sent =>
    some { s with
      tx_status := Function.update s.tx_status i (s.tx_status i ||| 2 ^ 13)
      nic := Function.update s.nic i .owned }
  | .owned => some { s with isr := s.isr.raise TxOk, nic := Function.update s.nic i .idle }

end TxState

/-- The producer takes the steps of `TxEnqueue`: it fills its packet and calls `enq`. -/
inductive TxEvent where
  | producer (e : QueueEvent EthernetPacket)
  | thread
  | irq
  | card (i : Nat)

section

variable {Ptr : Type} [DecidableEq Ptr]

def TxState.exec (s : TxState Ptr) : TxEvent → Option (TxState Ptr)
  | .producer e => if e.of_producer then (s.q.exec e).map (fun q => { s with q := q }) else none
  | .thread => s.thread
  | .irq => some s.irq
  | .card i => s.card i

/-- Nothing is queued and all descriptors have bit 13 set. -/
def tx_system (Ptr : Type) [DecidableEq Ptr] : System (TxState Ptr) TxEvent where
  init := fun s => (queue_system Ptr EthernetPacket TxQueueSize).init s.q ∧
    s.tx_buffer_index = 0 ∧ s.tx_done_ = false ∧ (∀ i < 4, (s.tx_status i).testBit 13 = true) ∧
    s.isr TxOk = false ∧ s.pc = .deq ∧ s.handler = .idle ∧ s.nic = (fun _ => .idle) ∧
    s.transmitted = []
  step := fun s e s' => s.exec e = some s'

end

/-! ## Who is in charge -/

/-- Bit 13 is clear. -/
def NicPhase.sending : NicPhase → Bool
  | .started => true
  | .sent => true
  | .idle => false
  | .owned => false

section

variable {Ptr : Type}

/-- A transmission goes from the thread to the card, from there to the handler, and back.
    An interrupt that comes while the handler has still to acknowledge the last one is lost,
    and the thread waits forever. -/
structure TxControl (s : TxState Ptr) : Prop where
  index : s.handler ≠ .wrap → s.tx_buffer_index < 4
  own : ∀ i < 4, (s.tx_status i).testBit 13 = !(s.nic i).sending
  busy : ∀ i, s.nic i ≠ .idle → i = s.tx_buffer_index ∧ s.pc = .wait ∧ s.tx_done_ = false
  raised : s.isr TxOk = true → s.handler ≠ .ack →
    s.pc = .wait ∧ s.tx_done_ = false ∧ ∀ i, s.nic i = .idle
  handling : s.handler ≠ .idle → s.handler ≠ .ack → s.isr TxOk = true
  done : s.tx_done_ = true → s.pc = .wait ∨ s.pc = .clear

variable {s s' : TxState Ptr}

/-- While the thread does not wait, the card is idle and no interrupt is under way. -/
theorem TxControl.idle (hs : TxControl s) (hpc : s.pc ≠ .wait) :
    (∀ i, s.nic i = .idle) ∧ (s.isr TxOk = true → s.handler = .ack) := by
  constructor
  · intro i
    by_contra hbusy
    exact hpc (hs.busy i hbusy).2.1
  · intro hok
    by_contra hack
    exact hpc (hs.raised hok hack).1

/-- Then the next descriptor is ready. -/
theorem TxControl.ready (hs : TxControl s) (hpc : s.pc ≠ .wait) : s.tx_ready = true := by
  obtain ⟨hnic, hisr⟩ := hs.idle hpc
  have hindex : s.tx_buffer_index < 4 := by
    apply hs.index
    intro hwrap
    have hack := hisr (hs.handling (by simp [hwrap]) (by simp [hwrap]))
    rw [hwrap] at hack
    cases hack
  rw [TxState.tx_ready, hs.own _ hindex, hnic]
  rfl

/-- The thread prepares a packet. -/
theorem TxControl.work (hs : TxControl s) (hwait : s.pc ≠ .wait) (hclear : s.pc ≠ .clear)
    (q : QueueState Ptr EthernetPacket) (tx_buffer : Bytes) (pc : TxPc) :
    TxControl { s with q := q, tx_buffer := tx_buffer, pc := pc } := by
  obtain ⟨hnic, hisr⟩ := hs.idle hwait
  refine ⟨hs.index, hs.own, ?_, ?_, hs.handling, ?_⟩
  · intro i hbusy
    exact absurd (hnic i) hbusy
  · intro hok hack
    exact absurd (hisr hok) hack
  · intro hdone
    rcases hs.done hdone with h | h
    · exact absurd h hwait
    · exact absurd h hclear

theorem testBit_start_status (status size : Nat) :
    (TxState.start_status status size).testBit 13 = false := by
  have hmask : (2 ^ 32 - 1 - 2 ^ 13).testBit 13 = false := by decide
  have hsize : (0xfff).testBit 13 = false := by decide
  rw [TxState.start_status, Nat.testBit_or, Nat.testBit_and, Nat.testBit_and, hmask, hsize]
  simp

/-- The length that is written: the bits of the old one are kept. -/
theorem start_status_mod (status : Nat) {size : Nat} (h : size ≤ 0xfff) :
    TxState.start_status status size % 2 ^ 13 = (status % 2 ^ 13) ||| size := by
  have hsize : size &&& 0xfff = size := by
    have hmod := Nat.and_two_pow_sub_one_eq_mod size 12
    rwa [Nat.mod_eq_of_lt (by omega)] at hmod
  have hmask : (2 ^ 32 - 1 - 2 ^ 13) % 2 ^ 13 = 2 ^ 13 - 1 := by decide
  rw [TxState.start_status, hsize, Nat.or_mod_two_pow, Nat.and_mod_two_pow, hmask,
    Nat.and_two_pow_sub_one_eq_mod, Nat.mod_mod, Nat.mod_eq_of_lt (show size < 2 ^ 13 by omega)]

/-- The card sends at least the bytes it has been given. -/
theorem le_start_status (status : Nat) {size : Nat} (h : size ≤ 0xfff) :
    size ≤ TxState.start_status status size % 2 ^ 13 := by
  rw [start_status_mod status h]
  exact Nat.right_le_or

/-- The thread starts the card. -/
theorem TxControl.start (hs : TxControl s) (hwait : s.pc ≠ .wait) (hclear : s.pc ≠ .clear)
    (size : Nat) {tx_status : Nat → Nat} {nic : Nat → NicPhase}
    (hstatus : tx_status = Function.update s.tx_status s.tx_buffer_index
      (TxState.start_status (s.tx_status s.tx_buffer_index) size))
    (hnic : nic = Function.update s.nic s.tx_buffer_index .started) :
    TxControl { s with tx_status := tx_status, nic := nic, pc := .wait } := by
  obtain ⟨hidle, hisr⟩ := hs.idle hwait
  refine ⟨hs.index, ?_, ?_, ?_, hs.handling, fun _ => .inl rfl⟩
  · intro i hi
    show (tx_status i).testBit 13 = !(nic i).sending
    rw [hstatus, hnic]
    by_cases heq : i = s.tx_buffer_index
    · rw [heq, Function.update_self, Function.update_self, testBit_start_status]
      rfl
    · rw [Function.update_of_ne heq, Function.update_of_ne heq]
      exact hs.own i hi
  · intro i hbusy
    have hdone : s.tx_done_ = false := by
      by_contra hdone
      exact (hs.done (by simpa using hdone)).elim hwait hclear
    have hbusy : nic i ≠ .idle := hbusy
    refine ⟨?_, rfl, hdone⟩
    -- all other descriptors are idle
    by_contra hne
    rw [hnic, Function.update_of_ne hne] at hbusy
    exact hbusy (hidle i)
  · intro hok hack
    exact absurd (hisr hok) hack

theorem TxControl.seen (hs : TxControl s) (hdone : s.tx_done_ = true) :
    TxControl { s with pc := .clear } := by
  refine ⟨hs.index, hs.own, ?_, ?_, hs.handling, fun _ => .inr rfl⟩
  · intro i hbusy
    rw [(hs.busy i hbusy).2.2] at hdone
    cases hdone
  · intro hok hack
    rw [(hs.raised hok hack).2.1] at hdone
    cases hdone

theorem TxControl.clear (hs : TxControl s) (hpc : s.pc = .clear) :
    TxControl { s with tx_done_ := false, pc := .deq } := by
  obtain ⟨hnic, hisr⟩ := hs.idle (by simp [hpc])
  refine ⟨hs.index, hs.own, ?_, ?_, hs.handling, fun h => by cases h⟩
  · intro i hbusy
    exact absurd (hnic i) hbusy
  · intro hok hack
    exact absurd (hisr hok) hack

/-- The handler. It moves the index only while the card is idle. -/
theorem TxControl.irq (hs : TxControl s) : TxControl s.irq := by
  unfold TxState.irq
  split
  · next hpc =>
    split
    · next hok =>
      exact ⟨fun _ => hs.index (by simp [hpc]), hs.own, hs.busy,
        fun _ _ => hs.raised hok (by simp [hpc]), fun _ _ => hok, hs.done⟩
    · exact hs
  · next hpc =>
    have hok := hs.handling (by simp [hpc]) (by simp [hpc])
    obtain ⟨hwait, hdone, hnic⟩ := hs.raised hok (by simp [hpc])
    exact ⟨fun hwrap => absurd rfl hwrap, hs.own, fun i hbusy => absurd (hnic i) hbusy,
      fun _ _ => ⟨hwait, hdone, hnic⟩, fun _ _ => hok, hs.done⟩
  · next hpc =>
    have hok := hs.handling (by simp [hpc]) (by simp [hpc])
    obtain ⟨hwait, hdone, hnic⟩ := hs.raised hok (by simp [hpc])
    exact ⟨fun _ => Nat.mod_lt _ (by decide), hs.own, fun i hbusy => absurd (hnic i) hbusy,
      fun _ _ => ⟨hwait, hdone, hnic⟩, fun _ _ => hok, hs.done⟩
  · next hpc =>
    have hok := hs.handling (by simp [hpc]) (by simp [hpc])
    obtain ⟨hwait, -, hnic⟩ := hs.raised hok (by simp [hpc])
    exact ⟨fun _ => hs.index (by simp [hpc]), hs.own, fun i hbusy => absurd (hnic i) hbusy,
      fun _ hack => absurd rfl hack, fun _ _ => hok, fun _ => .inl hwait⟩
  · next hpc =>
    refine ⟨fun _ => hs.index (by simp [hpc]), hs.own, hs.busy, fun hok _ => ?_,
      fun hidle => absurd rfl hidle, hs.done⟩
    have hok : s.isr.write [TxOk] TxOk = true := hok
    rw [Isr.write_of_mem _ (by simp)] at hok
    cases hok

/-- The card, which works on one descriptor at a time. -/
theorem TxControl.card (hs : TxControl s) {i : Nat} (h : s.card i = some s') : TxControl s' := by
  -- another descriptor would have to be the one of the index as well
  have hother : s.nic i ≠ .idle → ∀ j, j ≠ i → s.nic j = .idle := by
    intro hi j hj
    by_contra hbusy
    exact hj ((hs.busy j hbusy).1.trans (hs.busy i hi).1.symm)
  -- while the card is busy, no interrupt is waiting for the handler
  have hquiet : s.nic i ≠ .idle → s.isr TxOk = true → s.handler = .ack := by
    intro hi hok
    by_contra hack
    exact hi ((hs.raised hok hack).2.2 i)
  have hown : ∀ (status : Nat) (phase : NicPhase), (i < 4 → status.testBit 13 = !phase.sending) →
      ∀ j < 4, (Function.update s.tx_status i status j).testBit 13 =
        !(Function.update s.nic i phase j).sending := by
    intro status phase hi j hj
    by_cases hji : j = i
    · rw [hji, Function.update_self, Function.update_self]
      exact hi (hji ▸ hj)
    · rw [Function.update_of_ne hji, Function.update_of_ne hji]
      exact hs.own j hj
  have hstay : ∀ phase : NicPhase, phase.sending = (s.nic i).sending →
      ∀ j < 4, (s.tx_status j).testBit 13 = !(Function.update s.nic i phase j).sending := by
    intro phase hsame
    have hstatus := hown (s.tx_status i) phase (fun hi => by rw [hsame]; exact hs.own i hi)
    rwa [Function.update_eq_self] at hstatus
  have hbusy : ∀ phase j, s.nic i ≠ .idle → Function.update s.nic i phase j ≠ .idle →
      j = s.tx_buffer_index ∧ s.pc = .wait ∧ s.tx_done_ = false := by
    intro phase j hi hj
    by_cases hji : j = i
    · rw [hji]
      exact hs.busy i hi
    · rw [Function.update_of_ne hji] at hj
      exact absurd (hother hi j hji) hj
  unfold TxState.card at h
  split at h
  · cases h
  · next hphase =>
    cases h
    have hi : s.nic i ≠ .idle := by simp [hphase]
    exact ⟨hs.index, hstay .sent (by rw [hphase]; rfl), fun j => hbusy _ j hi,
      fun hok hack => absurd (hquiet hi hok) hack, hs.handling, hs.done⟩
  · next hphase =>
    cases h
    have hi : s.nic i ≠ .idle := by simp [hphase]
    refine ⟨hs.index, hown _ _ fun _ => ?_, fun j => hbusy _ j hi,
      fun hok hack => absurd (hquiet hi hok) hack, hs.handling, hs.done⟩
    rw [Nat.testBit_or, Nat.testBit_two_pow_self, Bool.or_true]
    rfl
  · next hphase =>
    cases h
    have hi : s.nic i ≠ .idle := by simp [hphase]
    obtain ⟨-, hwait, hdone⟩ := hs.busy i hi
    have hraised : s.isr.raise TxOk TxOk = true := Function.update_self _ _ _
    refine ⟨hs.index, hstay .idle (by rw [hphase]; rfl), fun j => hbusy _ j hi,
      fun _ _ => ⟨hwait, hdone, fun j => ?_⟩, fun _ _ => hraised, hs.done⟩
    show Function.update s.nic i .idle j = .idle
    by_cases hji : j = i
    · rw [hji, Function.update_self]
    · rw [Function.update_of_ne hji]
      exact hother hi j hji

/-! ## How far a packet has come -/

/-- Each frame that has been sent starts with the bytes of its packet. Behind them are the
    padding and the checksum. -/
def Carried (frames : List (List UInt8)) (packets : List EthernetPacket) : Prop :=
  List.Forall₂ (fun frame p => p.bytes <+: frame) frames packets

/-- The buffer of the next descriptor starts with the packet. -/
def TxState.Buffered (s : TxState Ptr) (p : EthernetPacket) : Prop :=
  bytes s.tx_buffer (TxState.buffer_start s.tx_buffer_index) p.bytes.length = p.bytes

/-- All packets that have been taken from the queue are sent. -/
def TxState.Resting (s : TxState Ptr) : Prop :=
  match s.pc with
  | .deq => True
  | .wait => s.nic s.tx_buffer_index ≠ .started
  | .clear => True
  | _ => False

/-- The packet has been taken from the queue and is not sent yet. -/
def TxState.Current (s : TxState Ptr) (p : EthernetPacket) : Prop :=
  match s.pc with
  | .deq => False
  | .ready => s.q.mem s.q.consumer = p
  | .tx_async size => s.q.mem s.q.consumer = p ∧ size = p.bytes.length
  | .memcpy size => s.q.mem s.q.consumer = p ∧ size = p.bytes.length
  | .memset size => size = p.bytes.length ∧ s.Buffered p
  | .crc size => p.bytes.length ≤ size ∧ size + 4 ≤ 0xfff ∧ s.Buffered p
  | .start size => p.bytes.length ≤ size ∧ size ≤ 0xfff ∧ s.Buffered p
  | .wait => s.nic s.tx_buffer_index = .started ∧ s.Buffered p ∧
      p.bytes.length ≤ s.tx_status s.tx_buffer_index % 2 ^ 13
  | .clear => False

/-- What has been sent, and what is on its way. -/
def TxState.Progress (s : TxState Ptr) : Prop :=
  (s.Resting ∧ Carried s.transmitted s.q.dequeued) ∨
  ∃ sent p, s.q.dequeued = sent ++ [p] ∧ Carried s.transmitted sent ∧ s.Current p

structure TxData (s : TxState Ptr) : Prop where
  queue : QueueInv TxQueueSize s.q
  deq : s.q.deq_pc ≠ .idle → s.pc = .deq
  progress : s.Progress

/-- The packet goes on by one step. -/
theorem TxState.Progress.advance (hs : s.Progress) (hrest : ¬s.Resting)
    (hdequeued : s'.q.dequeued = s.q.dequeued) (htransmitted : s'.transmitted = s.transmitted)
    (hcurrent : ∀ p, s.Current p → s'.Current p) : s'.Progress := by
  rcases hs with ⟨hresting, -⟩ | ⟨sent, p, hlast, hcarried, hp⟩
  · exact absurd hresting hrest
  · right
    refine ⟨sent, p, hdequeued.trans hlast, ?_, hcurrent p hp⟩
    rwa [htransmitted]

/-- Nothing is on its way, before the step and after it. -/
theorem TxState.Progress.rest (hs : s.Progress) (hcurrent : ∀ p, ¬s.Current p)
    (hdequeued : s'.q.dequeued = s.q.dequeued) (htransmitted : s'.transmitted = s.transmitted)
    (hresting : s'.Resting) : s'.Progress := by
  rcases hs with ⟨-, hcarried⟩ | ⟨sent, p, -, -, hp⟩
  · left
    refine ⟨hresting, ?_⟩
    rwa [hdequeued, htransmitted]
  · exact absurd hp (hcurrent p)

/-- A packet in the buffer is not touched by what is written behind it. -/
theorem TxState.Buffered.copy {p : EthernetPacket} (h : s.Buffered p) {size : Nat}
    (hsize : p.bytes.length ≤ size) (data : List UInt8) :
    bytes (copy s.tx_buffer (TxState.buffer_start s.tx_buffer_index + size) data)
      (TxState.buffer_start s.tx_buffer_index) p.bytes.length = p.bytes := by
  refine Eq.trans (bytes_congr fun x hx => overwrite_of_notMem fun hmem => ?_) h
  have hlow := hmem.1
  have hhigh := hx.2
  omega

/-- A step of `tx_async` on the packet. -/
theorem TxData.work (hc : TxControl s) (hs : TxData s) (hwait : s.pc ≠ .wait) (hrest : ¬s.Resting)
    (tx_buffer : Bytes) (pc : TxPc)
    (hcurrent : ∀ p, s.Current p → TxState.Current { s with tx_buffer := tx_buffer, pc := pc } p) :
    TxControl { s with tx_buffer := tx_buffer, pc := pc } ∧
      TxData { s with tx_buffer := tx_buffer, pc := pc } := by
  have hclear : s.pc ≠ .clear := fun hpc => hrest (by simp [TxState.Resting, hpc])
  have hdeq : s.pc ≠ .deq := fun hpc => hrest (by simp [TxState.Resting, hpc])
  refine ⟨hc.work hwait hclear s.q tx_buffer pc, hs.queue, fun hbusy => ?_, ?_⟩
  · exact absurd (hs.deq hbusy) hdeq
  · exact hs.progress.advance hrest rfl rfl hcurrent

/-- The handler. -/
theorem TxData.irq (hc : TxControl s) (hs : TxData s) : TxData s.irq := by
  -- the index changes between two transmissions
  have hindex : s.handler ≠ .idle → s.handler ≠ .ack → ∀ (i : Nat) (handler : TxIrqPc),
      TxData { s with tx_buffer_index := i, handler := handler } := by
    intro hidle hack i handler
    obtain ⟨hwait, -, hnic⟩ := hc.raised (hc.handling hidle hack) hack
    refine ⟨hs.queue, hs.deq, hs.progress.rest (fun p hp => ?_) rfl rfl ?_⟩
    · simp [TxState.Current, hwait, hnic] at hp
    · simp [TxState.Resting, hwait, hnic]
  unfold TxState.irq
  split
  · split
    · exact ⟨hs.queue, hs.deq, hs.progress⟩
    · exact hs
  · next hpc => exact hindex (by simp [hpc]) (by simp [hpc]) _ _
  · next hpc => exact hindex (by simp [hpc]) (by simp [hpc]) _ _
  · exact ⟨hs.queue, hs.deq, hs.progress⟩
  · exact ⟨hs.queue, hs.deq, hs.progress⟩

/-- The card sends the packet that is on its way. -/
theorem TxData.card (hc : TxControl s) (hs : TxData s) {i : Nat} (h : s.card i = some s') :
    TxData s' := by
  unfold TxState.card at h
  split at h
  · cases h
  · next hphase =>
    cases h
    obtain ⟨rfl, hwait, -⟩ := hc.busy i (by simp [hphase])
    refine ⟨hs.queue, hs.deq, .inl ⟨?_, ?_⟩⟩
    · simp [TxState.Resting, hwait]
    · rcases hs.progress with ⟨hresting, -⟩ | ⟨sent, p, hlast, hcarried, hp⟩
      · simp [TxState.Resting, hwait, hphase] at hresting
      · simp only [TxState.Current, hwait] at hp
        obtain ⟨-, hbuffered, hlength⟩ := hp
        have hframe : p.bytes <+: s.frame s.tx_buffer_index := by
          obtain ⟨k, hk⟩ := Nat.exists_eq_add_of_le hlength
          rw [TxState.frame, hk, bytes_add, hbuffered]
          exact List.prefix_append _ _
        show Carried (s.transmitted ++ [_]) s.q.dequeued
        rw [hlast]
        exact List.rel_append hcarried (.cons hframe .nil)
  · next hphase =>
    cases h
    obtain ⟨rfl, hwait, -⟩ := hc.busy i (by simp [hphase])
    refine ⟨hs.queue, hs.deq, hs.progress.rest (fun p hp => ?_) rfl rfl ?_⟩
    · simp [TxState.Current, hwait, hphase] at hp
    · simp [TxState.Resting, hwait]
  · next hphase =>
    cases h
    obtain ⟨rfl, hwait, -⟩ := hc.busy i (by simp [hphase])
    refine ⟨hs.queue, hs.deq, hs.progress.rest (fun p hp => ?_) rfl rfl ?_⟩
    · simp [TxState.Current, hwait, hphase] at hp
    · simp [TxState.Resting, hwait]

end

section

variable {Ptr : Type} [DecidableEq Ptr] {s s' : TxState Ptr}

theorem TxData.producer (hs : TxData s) {e : QueueEvent EthernetPacket} (he : e.of_producer = true)
    {q : QueueState Ptr EthernetPacket} (h : s.q.exec e = some q) : TxData { s with q := q } := by
  obtain ⟨hconsumer, hmem, hdequeued, hdeq⟩ := hs.queue.producer_frame he h
  have hpacket : q.mem q.consumer = s.q.mem s.q.consumer := by
    rw [hconsumer, hmem]
  refine ⟨hs.queue.step (by decide) h, fun hbusy => hs.deq (hdeq ▸ hbusy), ?_⟩
  rcases hs.progress with ⟨hresting, hcarried⟩ | ⟨sent, p, hlast, hcarried, hp⟩
  · left
    refine ⟨hresting, ?_⟩
    rwa [hdequeued]
  · right
    refine ⟨sent, p, hdequeued.trans hlast, hcarried, ?_⟩
    unfold TxState.Current at hp ⊢
    simp only [hpacket]
    exact hp

/-- The thread takes a packet from the queue. -/
theorem TxData.deq_step (hs : TxData s) (hpc : s.pc = .deq) (h : s.thread = some s') :
    TxData s' ∧ ∃ q pc, s' = { s with q := q, pc := pc } := by
  have hcarried : Carried s.transmitted s.q.dequeued := by
    rcases hs.progress with ⟨-, hcarried⟩ | ⟨sent, p, -, -, hp⟩
    · exact hcarried
    · simp [TxState.Current, hpc] at hp
  simp only [TxState.thread, hpc] at h
  split at h
  · next hdeq =>
    obtain ⟨q, hq, rfl⟩ := Option.map_eq_some_iff.mp h
    have hdequeued : q.dequeued = s.q.dequeued := by
      dsimp only [QueueState.exec] at hq
      rw [hdeq] at hq
      dsimp only at hq
      split at hq <;> cases hq <;> rfl
    refine ⟨⟨hs.queue.step (by decide) hq, fun _ => rfl, .inl ⟨trivial, ?_⟩⟩, q, .deq, rfl⟩
    rwa [hdequeued]
  · next hdeq =>
    obtain ⟨q, hq, rfl⟩ := Option.map_eq_some_iff.mp h
    have hdequeued : q.dequeued = s.q.dequeued := by
      dsimp only [QueueState.exec] at hq
      rw [hdeq] at hq
      cases hq
      rfl
    refine ⟨⟨hs.queue.step (by decide) hq, fun _ => rfl, .inl ⟨trivial, ?_⟩⟩, q, .deq, rfl⟩
    rwa [hdequeued]
  · next hdeq =>
    -- the call returns with the packet
    obtain ⟨q, hq, rfl⟩ := Option.map_eq_some_iff.mp h
    have hinv := hs.queue.step (by decide) hq
    dsimp only [QueueState.exec] at hq
    rw [hdeq] at hq
    cases hq
    refine ⟨⟨hinv, fun hbusy => absurd rfl hbusy, .inr ⟨s.q.dequeued, _, rfl, hcarried, rfl⟩⟩,
      _, _, rfl⟩

/-- The zeros of a short packet do not change the indices of the queue, which are at 120 and
    128, and the size fits into its field. Packets with three or more bytes of data are long
    enough for the first. -/
def TxState.in_bounds (s : TxState Ptr) (e : TxEvent) : Bool :=
  match e, s.pc with
  | .thread, .memset size =>
    (8 * (s.tx_buffer_index + size) ≤ 120 → s.q.queue.rx_start_ = 0) &&
    (8 * (s.tx_buffer_index + size) ≤ 128 → s.q.queue.rx_end_ = 0) && size + 4 ≤ 0xfff
  | _, _ => true

/-- The thread. -/
theorem TxData.thread (hc : TxControl s) (hs : TxData s) (hbounds : s.in_bounds .thread = true)
    (h : s.thread = some s') : TxControl s' ∧ TxData s' := by
  cases hpc : s.pc with
  | deq =>
    obtain ⟨hdata, q, pc, rfl⟩ := hs.deq_step hpc h
    exact ⟨hc.work (by simp [hpc]) (by simp [hpc]) q s.tx_buffer pc, hdata⟩
  | ready =>
    simp only [TxState.thread, hpc, hc.ready (by simp [hpc]), if_true] at h
    cases h
    apply hs.work hc (by simp [hpc]) (by simp [TxState.Resting, hpc])
    intro p hp
    simp only [TxState.Current, hpc] at hp
    exact ⟨hp, by rw [hp, p.length_bytes]⟩
  | tx_async size =>
    simp only [TxState.thread, hpc, hc.ready (by simp [hpc]), if_true] at h
    cases h
    apply hs.work hc (by simp [hpc]) (by simp [TxState.Resting, hpc])
    intro p hp
    simp only [TxState.Current, hpc] at hp
    exact hp
  | memcpy size =>
    simp only [TxState.thread, hpc] at h
    cases h
    apply hs.work hc (by simp [hpc]) (by simp [TxState.Resting, hpc])
    intro p hp
    simp only [TxState.Current, hpc] at hp
    obtain ⟨hmem, hsize⟩ := hp
    have hdata : (s.q.mem s.q.consumer).bytes.take size = p.bytes := by
      rw [hmem, hsize, List.take_length]
    rw [hdata]
    exact ⟨hsize, bytes_copy _ _ _⟩
  | memset size =>
    simp only [TxState.in_bounds, hpc, Bool.and_eq_true, decide_eq_true_eq] at hbounds
    obtain ⟨⟨hstart, hend⟩, hfits⟩ := hbounds
    -- the queue stays as it is
    simp only [TxState.thread, hpc, SSQueue.memset_zero_eq _ hstart hend] at h
    split at h
    · next hshort =>
      cases h
      apply hs.work hc (by simp [hpc]) (by simp [TxState.Resting, hpc])
      intro p hp
      simp only [TxState.Current, hpc] at hp
      exact ⟨by omega, by decide, hp.2⟩
    · cases h
      apply hs.work hc (by simp [hpc]) (by simp [TxState.Resting, hpc])
      intro p hp
      simp only [TxState.Current, hpc] at hp
      exact ⟨by omega, hfits, hp.2⟩
  | crc size =>
    simp only [TxState.thread, hpc] at h
    cases h
    apply hs.work hc (by simp [hpc]) (by simp [TxState.Resting, hpc])
    intro p hp
    simp only [TxState.Current, hpc] at hp
    obtain ⟨hsize, hfits, hbuffered⟩ := hp
    exact ⟨by omega, hfits, hbuffered.copy hsize _⟩
  | start size =>
    simp only [TxState.thread, hpc] at h
    cases h
    refine ⟨hc.start (by simp [hpc]) (by simp [hpc]) size rfl rfl, hs.queue,
      fun hbusy => absurd (hs.deq hbusy) (by simp [hpc]), ?_⟩
    refine hs.progress.advance (by simp [TxState.Resting, hpc]) rfl rfl fun p hp => ?_
    simp only [TxState.Current, hpc] at hp
    obtain ⟨hsize, hfits, hbuffered⟩ := hp
    refine ⟨Function.update_self _ _ _, hbuffered, ?_⟩
    show _ ≤ Function.update s.tx_status s.tx_buffer_index _ s.tx_buffer_index % 2 ^ 13
    rw [Function.update_self]
    exact Nat.le_trans hsize (le_start_status _ hfits)
  | wait =>
    simp only [TxState.thread, hpc] at h
    split at h
    · next hdone =>
      cases h
      refine ⟨hc.seen hdone, hs.queue, fun hbusy => absurd (hs.deq hbusy) (by simp [hpc]), ?_⟩
      refine hs.progress.rest (fun p hp => ?_) rfl rfl trivial
      -- the card was idle before the handler set the flag
      simp only [TxState.Current, hpc] at hp
      have hbusy := hc.busy s.tx_buffer_index (by simp [hp.1])
      rw [hbusy.2.2] at hdone
      cases hdone
    · cases h
      exact ⟨hc, hs⟩
  | clear =>
    simp only [TxState.thread, hpc] at h
    cases h
    refine ⟨hc.clear hpc, hs.queue, fun _ => rfl, ?_⟩
    exact hs.progress.rest (fun p hp => by simp [TxState.Current, hpc] at hp) rfl rfl trivial

theorem tx_inv_of_reachable : ∀ s : TxState Ptr,
    Reachable ((tx_system Ptr).restrict (fun s e => s.in_bounds e = true)) s →
    TxControl s ∧ TxData s := by
  refine invariant_of_step ?_ ?_
  · rintro s ⟨hqueue, hindex, hdone, hown, hisr, hpc, hhandler, hnic, htransmitted⟩
    have hq := queueInv_init (by decide) hqueue
    obtain ⟨-, -, -, -, hdeq, -, hdequeued, -⟩ := hqueue
    refine ⟨⟨?_, ?_, ?_, ?_, ?_, ?_⟩, hq, fun hbusy => absurd hdeq hbusy, .inl ⟨?_, ?_⟩⟩
    · simp [hindex]
    · intro i hi
      rw [hown i hi, hnic]
      rfl
    · intro i hbusy
      simp [hnic] at hbusy
    · intro hok
      simp [hisr] at hok
    · intro hidle
      exact absurd hhandler hidle
    · intro hset
      simp [hdone] at hset
    · simp [TxState.Resting, hpc]
    · rw [htransmitted, hdequeued]
      exact .nil
  · rintro s e s' - ⟨hc, hs⟩ ⟨hbounds, hstep⟩
    cases e with
    | producer e =>
      have hstep : (if e.of_producer then (s.q.exec e).map (fun q => { s with q := q })
        else none) = some s' := hstep
      split at hstep
      · next he =>
        obtain ⟨q, hq, rfl⟩ := Option.map_eq_some_iff.mp hstep
        exact ⟨⟨hc.index, hc.own, hc.busy, hc.raised, hc.handling, hc.done⟩, hs.producer he hq⟩
      · cases hstep
    | thread => exact hs.thread hc hbounds hstep
    | irq =>
      cases hstep
      exact ⟨hc.irq, hs.irq hc⟩
    | card i => exact ⟨hc.card hstep, hs.card hc hstep⟩

/-- **Packets are sent once and in order** while the padding stays off the queue: at most one
    descriptor is outstanding, `tx_async` never returns false, and the frames that are sent
    carry the first packets that were accepted. -/
theorem packets_sent_in_order (Ptr : Type) [DecidableEq Ptr] (s : TxState Ptr)
    (hs : Reachable ((tx_system Ptr).restrict (fun s e => s.in_bounds e = true)) s) :
    (∀ i < 4, ∀ j < 4, (s.tx_status i).testBit 13 = false → (s.tx_status j).testBit 13 = false →
      i = j) ∧
    (∀ size, s.pc = .tx_async size → s.tx_ready = true) ∧
    ∃ sent, sent <+: s.q.enqueued ∧ Carried s.transmitted sent := by
  obtain ⟨hc, hd⟩ := tx_inv_of_reachable s hs
  have hbusy : ∀ i < 4, (s.tx_status i).testBit 13 = false → i = s.tx_buffer_index := by
    intro i hi hclear
    refine (hc.busy i fun hidle => ?_).1
    rw [hc.own i hi, hidle] at hclear
    cases hclear
  have hdequeued : s.q.dequeued <+: s.q.enqueued := by
    rw [hd.queue.taken]
    exact List.take_prefix _ _
  refine ⟨?_, ?_, ?_⟩
  · intro i hi j hj hicl hjcl
    rw [hbusy i hi hicl, hbusy j hj hjcl]
  · intro size hpc
    exact hc.ready (by simp [hpc])
  · rcases hd.progress with ⟨-, hcarried⟩ | ⟨sent, p, hlast, hcarried, -⟩
    · exact ⟨_, hdequeued, hcarried⟩
    · rw [hlast] at hdequeued
      exact ⟨sent, (List.prefix_append sent [p]).trans hdequeued, hcarried⟩

end

/-! ### Runs -/

/-- The device at its start, with empty packets in the queue. -/
def tx_start : TxState Nat where
  q := ⟨⟨id, TxQueueSize, 0, 0⟩, fun _ => ⟨Vector.replicate 6 0, Vector.replicate 6 0, 0, []⟩,
    32, 33, .idle, .idle, [], []⟩
  tx_buffer := fun _ => 0
  tx_buffer_index := 0
  tx_done_ := false
  tx_status := fun _ => 2 ^ 13
  isr := fun _ => false
  pc := .deq
  handler := .idle
  nic := fun _ => .idle
  transmitted := []

theorem tx_start_init : (tx_system Nat).init tx_start := by
  have hdistinct : DistinctPointers TxQueueSize tx_start.q := distinctPointers_numbered rfl rfl rfl
  refine ⟨⟨rfl, rfl, rfl, rfl, rfl, rfl, rfl, hdistinct⟩, rfl, rfl, ?_, rfl, rfl, rfl, rfl, rfl⟩
  intro i _
  exact Nat.testBit_two_pow_self

/-- A broadcast with a number of zeros as data. -/
def zeros (n : Nat) : EthernetPacket :=
  ⟨Vector.replicate 6 0xff, Vector.replicate 6 2, EtherTypeARP, List.replicate n 0⟩

/-- `TxEnqueue` with a packet, and the thread up to the start of the card. -/
def enqueue_and_start (p : EthernetPacket) : List TxEvent :=
  [.producer (.refill p), .producer .enq_read, .producer .enq_swap, .producer .enq_publish] ++
    List.replicate 9 .thread

/-- The card sends it. -/
def enqueue_and_send (p : EthernetPacket) : List TxEvent := enqueue_and_start p ++ [.card 0]

/-- The card and the handler finish, and the thread goes on for as long as it can. -/
def enqueue_and_go_on (p : EthernetPacket) : List TxEvent :=
  enqueue_and_start p ++ List.replicate 3 (.card 0) ++ List.replicate 5 .irq ++
    List.replicate 11 .thread ++ [.card 1]

/-- A step that stays in bounds. -/
def TxState.exec_in_bounds (s : TxState Nat) (e : TxEvent) : Option (TxState Nat) :=
  if s.in_bounds e then s.exec e else none

/-- A packet of the size of an ARP request is sent. -/
theorem arp_request_is_sent : ∃ s : TxState Nat,
    Reachable ((tx_system Nat).restrict (fun s e => s.in_bounds e = true)) s ∧
    s.transmitted.length = 1 ∧ ∃ sent, sent <+: s.q.enqueued ∧ Carried s.transmitted sent := by
  have hrun : ((enqueue_and_send (zeros 28)).foldlM TxState.exec_in_bounds tx_start).map
      (fun s => s.transmitted.length) = some 1 := by
    decide +kernel
  obtain ⟨s, hs, hlength⟩ := Option.map_eq_some_iff.mp hrun
  have hreach : Reachable ((tx_system Nat).restrict (fun s e => s.in_bounds e = true)) s := by
    refine Reachable.foldlM (fun s e s' he => ?_) (.init tx_start_init) hs
    unfold TxState.exec_in_bounds at he
    split at he
    · next hbounds => exact ⟨hbounds, he⟩
    · cases he
  exact ⟨s, hreach, hlength, (packets_sent_in_order Nat s hreach).2.2⟩

/-- The padding of a packet with two bytes of data clears `rx_end_`: the queue is not empty
    any more, and a second frame is sent. -/
theorem padding_sends_stale_packet : ∃ s : TxState Nat, Reachable (tx_system Nat) s ∧
    s.q.enqueued.length = 1 ∧ s.transmitted.length = 2 ∧
    ¬ ∃ sent, sent <+: s.q.enqueued ∧ Carried s.transmitted sent := by
  have hrun : ((enqueue_and_go_on (zeros 2)).foldlM TxState.exec tx_start).map
      (fun s => (s.q.enqueued.length, s.transmitted.length)) = some (1, 2) := by
    decide +kernel
  obtain ⟨s, hs, hlengths⟩ := Option.map_eq_some_iff.mp hrun
  obtain ⟨henqueued, htransmitted⟩ := Prod.mk.inj hlengths
  have hreach : Reachable (tx_system Nat) s :=
    Reachable.foldlM (fun _ _ _ he => he) (.init tx_start_init) hs
  refine ⟨s, hreach, henqueued, htransmitted, ?_⟩
  rintro ⟨sent, hsent, hcarried⟩
  have hle := hsent.length_le
  have heq := hcarried.length_eq
  omega

end Modern05
