import Modern05.Device.Receive
import Modern05.Device.Transmit

/-! # Receiving what was sent

    A packet goes through `TxEnqueue`, the queue, `kthread_entry` and `tx_async` into the buffer of
    a descriptor. The frame there is put into the receive ring of the device it is for, and
    `handle_rx` hands the packet on.

    The padding of a short packet is what was in the buffer before. The checksum is computed over
    the buffer and covers it, so that the receiver accepts the frame.

    * `taken_of_enqueue`: the thread takes the packet from the queue.
    * `fill_buffer`: what is in the buffer when the card is started.
    * `upper_of_frame`: what the receiver makes of it.
-/

namespace Modern05

open Memory RxDevice

section

variable {Ptr : Type} [DecidableEq Ptr]

/-! ## Through the queue -/

/-- Nothing is under way: the queue is empty and both sides are between their calls. -/
structure TxState.Idle (s : TxState Ptr) : Prop where
  pc : s.pc = .deq
  deq : s.q.deq_pc = .idle
  enq : s.q.enq_pc = .idle
  empty : s.q.queue.empty
  room : ¬ s.q.queue.full
  ready : s.tx_ready = true

/-- The thread has the packet and the descriptor is free. -/
structure TxState.Taken (s : TxState Ptr) (p : EthernetPacket) : Prop where
  pc : s.pc = .ready
  packet : s.q.mem s.q.consumer = p
  ready : s.tx_ready = true

/-- `TxEnqueue` with a packet, and the call of `deq` in the thread. -/
def enqueue_and_take (p : EthernetPacket) : List TxEvent :=
  [.producer (.refill p), .producer .enq_read, .producer .enq_swap, .producer .enq_publish] ++
    List.replicate 3 .thread

/-- `tx_async` until it starts the card. -/
def fill : List TxEvent := List.replicate 5 .thread

/-- A call of `deq` that finds a packet. -/
theorem deq_returns {s : TxState Ptr} (hpc : s.pc = .deq) (hdeq : s.q.deq_pc = .idle)
    (hsome : ¬ s.q.queue.empty) :
    ∃ s', (List.replicate 3 TxEvent.thread).foldlM TxState.exec s = some s' ∧ s'.pc = .ready ∧
      s'.q.mem s'.q.consumer = s.q.mem (s.q.queue.rx_queue_ s.q.queue.rx_start_) ∧
      s'.tx_ready = s.tx_ready := by
  let slot := s.q.queue.rx_queue_ s.q.queue.rx_start_
  let queue := { s.q.queue with
    rx_queue_ := Function.update s.q.queue.rx_queue_ s.q.queue.rx_start_ s.q.consumer
    rx_start_ := (s.q.queue.rx_start_ + 1) % s.q.queue.size }
  let q := { s.q with
    queue := queue, consumer := slot, deq_pc := .idle, dequeued := s.q.dequeued ++ [s.q.mem slot] }
  refine ⟨{ s with q := q, pc := .ready }, ?_, rfl, rfl, rfl⟩
  simp [List.replicate, TxState.exec, TxState.thread, QueueState.exec, hpc, hdeq, hsome, q, queue,
    slot]

theorem taken_of_enqueue {s : TxState Ptr} (hs : s.Idle) (p : EthernetPacket) :
    ∃ s', (enqueue_and_take p).foldlM TxState.exec s = some s' ∧ s'.Taken p := by
  -- the packet is in the slot at the end of the queue, which is also its start
  have henqueue : ∃ s', [TxEvent.producer (.refill p), .producer .enq_read, .producer .enq_swap,
      .producer .enq_publish].foldlM TxState.exec s = some s' ∧ s'.pc = .deq ∧
      s'.q.deq_pc = .idle ∧ ¬ s'.q.queue.empty ∧
      s'.q.mem (s'.q.queue.rx_queue_ s'.q.queue.rx_start_) = p ∧ s'.tx_ready = true := by
    let queue := { s.q.queue with
      rx_queue_ := Function.update s.q.queue.rx_queue_ s.q.queue.rx_end_ s.q.producer
      rx_end_ := s.q.queue.next }
    let q := { s.q with
      queue := queue, mem := Function.update s.q.mem s.q.producer p
      producer := s.q.queue.rx_queue_ s.q.queue.rx_end_, enqueued := s.q.enqueued ++ [p] }
    refine ⟨{ s with q := q }, ?_, hs.pc, hs.deq, fun hempty => hs.room hempty.symm, ?_, hs.ready⟩
    · simp [TxState.exec, QueueEvent.of_producer, QueueState.exec, hs.enq, hs.room, q, queue]
    · have hslot : s.q.queue.rx_start_ = s.q.queue.rx_end_ := hs.empty
      show Function.update s.q.mem s.q.producer p
        (Function.update s.q.queue.rx_queue_ s.q.queue.rx_end_ s.q.producer
          s.q.queue.rx_start_) = p
      rw [hslot, Function.update_self, Function.update_self]
  obtain ⟨s₁, hrun₁, hpc, hdeq, hsome, hpacket, hready⟩ := henqueue
  obtain ⟨s₂, hrun₂, hpc₂, hpacket₂, hready₂⟩ := deq_returns hpc hdeq hsome
  refine ⟨s₂, ?_, hpc₂, hpacket₂.trans hpacket, hready₂.trans hready⟩
  rw [enqueue_and_take, List.foldlM_append, hrun₁]
  exact hrun₂

/-! ## In the buffer -/

/-- The frame in the buffer: the packet, padding up to 60 bytes, and the checksum of both. -/
theorem fill_buffer {s : TxState Ptr} {p : EthernetPacket} (hs : s.Taken p) :
    ∃ s' data, fill.foldlM TxState.exec s = some s' ∧
      s'.pc = .start (max p.bytes.length 60 + 4) ∧
      bytes s'.tx_buffer (TxState.buffer_start s'.tx_buffer_index) (max p.bytes.length 60 + 4) =
        data ++ word32 (crc32iso_hdlc 0 data).toNat ∧
      data.length = max p.bytes.length 60 ∧ p.bytes <+: data := by
  let start := TxState.buffer_start s.tx_buffer_index
  let size := max p.bytes.length 60
  let filled := copy s.tx_buffer start p.bytes
  let data := bytes filled start size
  let tx_buffer := copy filled (start + size) (word32 (crc32iso_hdlc 0 data).toNat)
  have hready : s.thread = some { s with pc := .tx_async p.bytes.length } := by
    simp [TxState.thread, hs.pc, hs.ready, hs.packet, p.length_bytes]
  have htx_async : TxState.thread { s with pc := .tx_async p.bytes.length } =
      some { s with pc := .memcpy p.bytes.length } := if_pos hs.ready
  have hmemcpy : TxState.thread { s with pc := .memcpy p.bytes.length } =
      some { s with tx_buffer := filled, pc := .memset p.bytes.length } := by
    simp [TxState.thread, hs.packet, filled, start]
  -- the zeros go to the queue, if anywhere in this state
  have hmemset : ∃ q, TxState.thread { s with tx_buffer := filled, pc := .memset p.bytes.length } =
      some { s with q := q, tx_buffer := filled, pc := .crc size } := by
    by_cases hshort : p.bytes.length < 64 - 4
    · have hsize : size = 64 - 4 := Nat.max_eq_right (Nat.le_of_lt hshort)
      rw [hsize]
      exact ⟨_, if_pos hshort⟩
    · have hsize : size = p.bytes.length := Nat.max_eq_left (Nat.not_lt.mp hshort)
      rw [hsize]
      exact ⟨s.q, if_neg hshort⟩
  obtain ⟨q, hmemset⟩ := hmemset
  have hrun : fill.foldlM TxState.exec s =
      some { s with q := q, tx_buffer := tx_buffer, pc := .start (size + 4) } := by
    simp only [fill, List.replicate, List.foldlM_cons, TxState.exec, hready, htx_async, hmemcpy,
      hmemset, Option.bind_eq_bind, Option.bind_some]
    rfl
  refine ⟨_, data, hrun, rfl, bytes_copy_behind filled start size _, length_bytes _ _ _, ?_⟩
  obtain ⟨k, hk⟩ := Nat.exists_eq_add_of_le (Nat.le_max_left p.bytes.length 60)
  show p.bytes <+: bytes filled start (max p.bytes.length 60)
  rw [hk, bytes_add, bytes_copy]
  exact List.prefix_append _ _

end

/-! ## In the ring -/

/-- The receiver of a frame that starts with a packet gets the packet, with the padding. -/
theorem upper_of_frame {d : RxDevice} {p : EthernetPacket} (hprotocol : p.protocol < 2 ^ 16)
    {padding : List UInt8}
    (h : Stored d.rx_buffer d.rx_offset
      (p.bytes ++ padding ++ word32 (crc32iso_hdlc 0 (p.bytes ++ padding)).toNat)) :
    d.checked ∧ d.upper = ⟨p.dst, p.src, p.protocol, p.data ++ padding⟩ := by
  have hlong : 6 + 6 + 2 ≤ (p.bytes ++ padding).length := by
    rw [List.length_append, p.length_bytes, EthernetHeaderSize]
    omega
  refine ⟨checked_of_stored h hlong, ?_⟩
  obtain ⟨hsize, hbytes⟩ := h
  -- the fields of the frame, one behind the other
  have hlength :
      (p.bytes ++ padding ++ word32 (crc32iso_hdlc 0 (p.bytes ++ padding)).toNat).length =
      6 + (6 + (2 + ((p.data ++ padding).length + 4))) := by
    simp [EthernetPacket.bytes, word32]
    omega
  have hsize : d.packet_size = 6 + (6 + (2 + ((p.data ++ padding).length + 4))) :=
    hsize.trans hlength
  rw [hlength, bytes_add, bytes_add, bytes_add, bytes_add] at hbytes
  simp only [EthernetPacket.bytes, List.append_assoc] at hbytes
  obtain ⟨hdst, hbytes⟩ := List.append_inj hbytes (by simp [length_bytes])
  obtain ⟨hsrc, hbytes⟩ := List.append_inj hbytes (by simp [length_bytes])
  obtain ⟨hprot, hbytes⟩ := List.append_inj hbytes (by simp [length_bytes])
  rw [← List.append_assoc] at hbytes
  obtain ⟨hdata, -⟩ := List.append_inj hbytes (by simp [length_bytes])
  have hupper : d.packet_size - 6 - 6 - 2 - 4 = (p.data ++ padding).length := by omega
  rw [upper, load_address_of_bytes hdst, load_address_of_bytes hsrc,
    load_be16_of_bytes hprotocol hprot, hupper]
  exact congrArg _ hdata

/-- **Receiving undoes sending.** A packet that is enqueued while nothing is under way is taken by
    the thread. From any state in which it has taken a packet, `tx_async` leaves a frame in the
    buffer from which the device that it is for gets the packet, padded to 46 bytes of data. -/
theorem receive_undoes_transmit {Ptr : Type} [DecidableEq Ptr] (s : TxState Ptr)
    (p : EthernetPacket) (hprotocol : p.protocol < 2 ^ 16) (hdata : p.data.length ≤ 1500) :
    (s.Idle → ∃ s', (enqueue_and_take p).foldlM TxState.exec s = some s' ∧ s'.Taken p) ∧
    (s.Taken p → ∃ s' size, fill.foldlM TxState.exec s = some s' ∧ s'.pc = .start size ∧
      size = max (EthernetHeaderSize + p.data.length) 60 + 4 ∧ size ≤ 1518 ∧
      ∀ d : RxDevice, d.mac = p.dst →
        Stored d.rx_buffer d.rx_offset
          (bytes s'.tx_buffer (TxState.buffer_start s'.tx_buffer_index) size) →
        d.checked ∧ ∃ data,
          d.handle_rx = some (some ⟨p.dst, p.src, p.protocol, data⟩, d.consume_rx d.packet_size) ∧
          data.length = max p.data.length 46 ∧ p.data <+: data) := by
  refine ⟨fun hs => taken_of_enqueue hs p, fun hs => ?_⟩
  obtain ⟨s', frame, hrun, hpc, hframe, hlength, padding, rfl⟩ := fill_buffer hs
  have hheader : EthernetHeaderSize = 14 := rfl
  rw [p.length_bytes] at hpc hframe hlength
  refine ⟨s', _, hrun, hpc, rfl, by omega, fun d hmac hstored => ?_⟩
  rw [hframe] at hstored
  obtain ⟨hchecked, hupper⟩ := upper_of_frame hprotocol hstored
  refine ⟨hchecked, p.data ++ padding, ?_, ?_, List.prefix_append _ _⟩
  · have haddressed : d.addressed := by
      right
      rw [hmac]
      exact congrArg Upper.dst hupper
    rw [handle_rx_of_checked hchecked haddressed, hupper]
  · rw [List.length_append, p.length_bytes] at hlength
    rw [List.length_append]
    omega

theorem idle_tx_start : tx_start.Idle :=
  ⟨rfl, rfl, rfl, rfl, by decide, Nat.testBit_two_pow_self⟩

/-- A packet with two bytes of data, although its padding gets into the queue. -/
theorem short_packet_comes_back : ∃ s' frame,
    (enqueue_and_take (zeros 2) ++ fill).foldlM TxState.exec tx_start = some s' ∧
    bytes s'.tx_buffer (TxState.buffer_start s'.tx_buffer_index) 64 = frame ∧
    ∃ d' data, RxDevice.handle_rx ⟨(zeros 2).dst, copy (fun _ => 0) 0 (stored_frame (1, 0) frame),
        0, 0⟩ = some (some ⟨(zeros 2).dst, (zeros 2).src, (zeros 2).protocol, data⟩, d') ∧
      data.length = 46 := by
  obtain ⟨s₁, hrun₁, htaken⟩ := (receive_undoes_transmit tx_start (zeros 2) (by decide)
    (by decide)).1 idle_tx_start
  obtain ⟨s₂, size, hrun₂, -, rfl, -, hreceive⟩ := (receive_undoes_transmit s₁ (zeros 2)
    (by decide) (by decide)).2 htaken
  have hsize :
      (bytes s₂.tx_buffer (TxState.buffer_start s₂.tx_buffer_index) 64).length < 2 ^ 16 := by
    rw [length_bytes]
    decide
  have hstored := stored_copy (fun _ => 0) 0 (1, 0) hsize
  obtain ⟨-, data, hhandle, hlength, -⟩ := hreceive ⟨(zeros 2).dst, _, 0, 0⟩ rfl hstored
  refine ⟨s₂, _, ?_, rfl, _, data, hhandle, hlength⟩
  rw [List.foldlM_append, hrun₁]
  exact hrun₂

end Modern05
