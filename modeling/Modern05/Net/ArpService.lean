import Modern05.Common.SSQueue
import Modern05.Net.ArpReply

/-! # The ARP service

    The ARP driver as a whole: `HandleRx` and `queue_up_mapping` of `net/arp.cpp` in the interrupt
    handler, and the thread of `ArpThreadStart`, which takes packets from the queue, puts their
    senders into the table, answers requests and asks for the gateway in every 10000th round.

    A frame may come between any two steps of the thread; the handler runs to its end. The thread
    uses the queue in the steps of `SSQueue.lean`, and of the table it makes one step, since the
    handler of ARP packets does not use it. The lock of the table is left out here;
    `ArpThreads.lean` has it.

    * `queue_up_mapping_spec`: a packet is queued unless three are waiting.
    * `arpServiceInv_of_reachable`: what the thread has polled, put and sent.
    * `arp_service_runs`: every run, from the frames that came to those that were sent.
-/

namespace Modern05

open LTS ArpDriver

/-! ## Requests -/

def EthernetAddress.Broadcast : EthernetAddress := Vector.replicate 6 0xff

/-- The address of the gateway. -/
def IPDriver.gateway_address : IPv4Address := ⟨#[172, 20, 0, 1], rfl⟩

namespace ArpDriver

/-- The packet that `Request` builds. -/
def request_packet (mac : EthernetAddress) (ip_target : IPv4Address) : ArpPacket where
  hardware_address_space := swap_endian_u16 ArpHwAddressSpaceEthernet
  protocol_address_space := swap_endian_u16 ArpProtoAddressSpaceIPv4
  hw_len := 6
  proto_len := 4
  opcode := swap_endian_u16 ArpOpcodeRequest
  hw_sender := mac
  proto_sender := IPDriver.address
  hw_target := Vector.replicate 6 0
  proto_target := ip_target

def Request (mac : EthernetAddress) (ip_target : IPv4Address) : EthernetPacket :=
  TxEnqueue mac EthernetAddress.Broadcast EtherTypeARP (request_packet mac ip_target).bytes

def request_gateway_ethernet_address (mac : EthernetAddress) : EthernetPacket :=
  Request mac IPDriver.gateway_address

end ArpDriver

/-! ## The queue -/

/-- `queue_up_mapping`: the packet is copied to what the producer's pointer points to, and `enq` is
    called. When the queue is full its first step returns. -/
def queue_up_mapping (q : QueueState UInt64 ArpPacket) (packet : ArpPacket) :
    Option (QueueState UInt64 ArpPacket) := do
  let q ← q.exec (.refill packet)
  let q ← q.exec .enq_read
  if q.queue.full then some q
  else
    let q ← q.exec .enq_swap
    q.exec .enq_publish

/-! ## Runs -/

/-- Where the thread is in its loop: before `deq`, in it, before the packet is handled, and behind
    `kyield`. -/
inductive ArpPc where
  | poll
  | swap
  | publish
  | handle
  | request
  deriving DecidableEq, Repr

/-- The driver and its thread. The producer of the queue has `tmp_pkt`, the consumer the packet of
    the thread. What was received, polled and sent is recorded. -/
structure ArpService where
  rx_queue_ : QueueState UInt64 ArpPacket
  arp : ArpDriver
  pc : ArpPc
  i : Nat
  received : List (List UInt8)
  /-- of each round the packet that was handled and its address, if there was one -/
  polled : List (Option (ArpPacket × UInt64))
  sent : List EthernetPacket

namespace ArpService

/-- `HandleRx`. An assertion that fails stops the kernel. -/
def handle_rx (s : ArpService) (data : List UInt8) : Option ArpService := do
  let packet ← rx_packet data
  match packet with
  | none => some { s with received := s.received ++ [data] }
  | some packet =>
    let q ← queue_up_mapping s.rx_queue_ packet
    some { s with rx_queue_ := q, received := s.received ++ [data] }

/-- A step of the thread. -/
def thread (mac : EthernetAddress) (s : ArpService) : Option ArpService :=
  match s.pc with
  | .poll => do
    let q ← s.rx_queue_.exec .deq_read
    -- an empty queue
    if s.rx_queue_.queue.empty then
      some { s with rx_queue_ := q, polled := s.polled ++ [none], pc := .request }
    else some { s with rx_queue_ := q, pc := .swap }
  | .swap => do
    let q ← s.rx_queue_.exec .deq_swap
    some { s with rx_queue_ := q, pc := .publish }
  | .publish => do
    let q ← s.rx_queue_.exec .deq_publish
    some { s with rx_queue_ := q, pc := .handle }
  | .handle => do
    let addr := s.rx_queue_.consumer
    let packet := s.rx_queue_.mem addr
    let (arp, reply) ← s.arp.arp_thread_poll_rx mac true packet addr
    some { s with
      arp := arp
      polled := s.polled ++ [some (packet, addr)]
      sent := s.sent ++ reply.toList
      pc := .request }
  | .request =>
    some { s with
      sent := if s.i % 10000 = 0 then s.sent ++ [request_gateway_ethernet_address mac] else s.sent
      i := (s.i + 1) % 2 ^ 64
      pc := .poll }

end ArpService

inductive ArpServiceEvent where
  | frame (data : List UInt8)
  | thread

/-- The thread starts after `SetIPDriver`, with the queue of four slots that the constructor has
    made. -/
def arp_service (mac : EthernetAddress) : System ArpService ArpServiceEvent where
  init := fun s => (queue_system UInt64 ArpPacket 4).init s.rx_queue_ ∧ s.arp = own_table mac ∧
    s.pc = .poll ∧ s.i = 0 ∧ s.received = [] ∧ s.polled = [] ∧ s.sent = []
  step := fun s e s' =>
    match e with
    | .frame data => s.handle_rx data = some s'
    | .thread => s.thread mac = some s'

/-! ## The queue of the service -/

section queue

variable {q q' q'' : QueueState UInt64 ArpPacket}

theorem full_iff (hq : QueueInv 4 q) :
    q.queue.full ↔ q.enqueued.length = q.dequeued.length + 3 := by
  have hle := hq.le
  have hroom := hq.room
  rw [SSQueue.full, queue_next hq, hq.start_eq]
  omega

/-- What the consumer sees of the queue is the same. -/
structure SameConsumer (q q' : QueueState UInt64 ArpPacket) : Prop where
  consumer : q'.consumer = q.consumer
  packet : q'.mem q.consumer = q.mem q.consumer
  dequeued : q'.dequeued = q.dequeued
  deq_pc : q'.deq_pc = q.deq_pc

theorem SameConsumer.trans (h : SameConsumer q q') (h' : SameConsumer q' q'') :
    SameConsumer q q'' where
  consumer := h'.consumer.trans h.consumer
  packet := by
    have hpacket := h'.packet
    rw [h.consumer] at hpacket
    exact hpacket.trans h.packet
  dequeued := h'.dequeued.trans h.dequeued
  deq_pc := h'.deq_pc.trans h.deq_pc

/-- A step of the producer. -/
theorem producer_step (hq : Reachable (queue_system UInt64 ArpPacket 4) q)
    {e : QueueEvent ArpPacket} (he : e.of_producer = true) (h : q.exec e = some q') :
    Reachable (queue_system UInt64 ArpPacket 4) q' ∧ SameConsumer q q' := by
  obtain ⟨hconsumer, hpacket, hdequeued, hpc⟩ :=
    (queueInv_of_reachable (by decide) q hq).producer_frame he h
  exact ⟨.step hq h, hconsumer, hpacket, hdequeued, hpc⟩

/-- **A packet is queued unless three are waiting**, and the thread does not notice. -/
theorem queue_up_mapping_spec (hq : Reachable (queue_system UInt64 ArpPacket 4) q)
    (hidle : q.enq_pc = .idle) (packet : ArpPacket) :
    ∃ q', queue_up_mapping q packet = some q' ∧
      Reachable (queue_system UInt64 ArpPacket 4) q' ∧ SameConsumer q q' ∧ q'.enq_pc = .idle ∧
      q'.enqueued =
        if q.enqueued.length = q.dequeued.length + 3 then q.enqueued
        else q.enqueued ++ [packet] := by
  have hrefill : q.exec (.refill packet) =
      some { q with mem := Function.update q.mem q.producer packet } := by
    rw [QueueState.exec, hidle]
  obtain ⟨hq₁, hsame₁⟩ := producer_step hq rfl hrefill
  have hfull := full_iff (queueInv_of_reachable (by decide) q hq)
  by_cases h : q.queue.full
  · -- the packet is dropped
    refine ⟨{ q with mem := Function.update q.mem q.producer packet }, ?_, hq₁, hsame₁, hidle, ?_⟩
    · simp only [queue_up_mapping, Option.bind_eq_bind, Option.bind_some, QueueState.exec, hidle, h,
        if_true]
    · rw [if_pos (hfull.mp h)]
  · have hread : QueueState.exec { q with mem := Function.update q.mem q.producer packet }
        .enq_read = some { q with
          mem := Function.update q.mem q.producer packet
          enq_pc := .swap q.queue.next packet } := by
      simp only [QueueState.exec, hidle, h, if_false, Function.update_self]
    obtain ⟨hq₂, hsame₂⟩ := producer_step hq₁ rfl hread
    obtain ⟨hq₃, hsame₃⟩ := producer_step (e := .enq_swap) hq₂ rfl rfl
    obtain ⟨hq₄, hsame₄⟩ := producer_step (e := .enq_publish) hq₃ rfl rfl
    refine ⟨_, ?_, hq₄, ((hsame₁.trans hsame₂).trans hsame₃).trans hsame₄, rfl, ?_⟩
    · simp only [queue_up_mapping, hrefill, Option.bind_eq_bind, Option.bind_some, hread, h,
        if_false]
      rfl
    · rw [if_neg (mt hfull.mpr h)]

end queue

/-! ## What a run leaves -/

/-- The packets that `HandleRx` hands to the queue. -/
def accepted_packets (received : List (List UInt8)) : List ArpPacket :=
  received.filterMap fun data => (rx_packet data).join

/-- The packets that the thread has handled. -/
def ArpService.handled (s : ArpService) : List ArpPacket :=
  s.polled.filterMap fun r => r.map Prod.fst

section

variable (mac : EthernetAddress)

/-- This host, and the senders of packets. -/
def senders (packets : List ArpPacket) : List (EthernetAddress × IPv4Address) :=
  (mac, IPDriver.address) :: packets.map fun p => (p.hw_sender, p.proto_sender)

/-- The reply to what was polled in a round. -/
def reply_to : Option (ArpPacket × UInt64) → List EthernetPacket
  | none => []
  | some (p, addr) =>
    if be p.opcode = ArpOpcodeRequest then
      [TxEnqueue mac p.hw_sender EtherTypeARP (reply_packet mac p.hw_sender (addr + 24)).bytes]
    else []

/-- The request for the gateway in the round `k`. -/
def gateway_request (k : Nat) : List EthernetPacket :=
  if k % 2 ^ 64 % 10000 = 0 then [request_gateway_ethernet_address mac] else []

/-- What is sent in rounds that poll the given packets. -/
def rounds (polled : List (Option (ArpPacket × UInt64))) : List EthernetPacket :=
  (polled.mapIdx fun k r => reply_to mac r ++ gateway_request mac k).flatten

theorem rounds_concat (polled : List (Option (ArpPacket × UInt64)))
    (r : Option (ArpPacket × UInt64)) :
    rounds mac (polled ++ [r]) =
      rounds mac polled ++ (reply_to mac r ++ gateway_request mac polled.length) := by
  rw [rounds, List.mapIdx_concat, List.flatten_append, List.flatten_singleton, rounds]

theorem puts_senders_concat (packets : List ArpPacket) (p : ArpPacket) :
    puts (senders mac (packets ++ [p])) =
      (puts (senders mac packets)).put p.hw_sender p.proto_sender := by
  rw [senders, List.map_append, ← List.cons_append, puts, List.foldl_append]
  rfl

/-- A packet is handled: its sender is put, and requests are answered. -/
theorem arp_thread_poll_rx_eq (a : ArpDriver) (packet : ArpPacket) (addr : UInt64) :
    ∃ reply, a.arp_thread_poll_rx mac true packet addr =
        some (a.put packet.hw_sender packet.proto_sender, reply) ∧
      reply.toList = reply_to mac (some (packet, addr)) := by
  by_cases h : be packet.opcode = ArpOpcodeRequest
  · refine ⟨_, poll_request a mac true h addr, ?_⟩
    rw [reply_to, if_pos h]
    rfl
  · refine ⟨none, ?_, ?_⟩
    · rw [arp_thread_poll_rx, if_neg h]
    · rw [reply_to, if_neg h]
      rfl

end

/-- What holds between any two steps. -/
structure ArpServiceInv (mac : EthernetAddress) (s : ArpService) : Prop where
  queue : Reachable (queue_system UInt64 ArpPacket 4) s.rx_queue_
  enq_pc : s.rx_queue_.enq_pc = .idle
  deq_pc : s.rx_queue_.deq_pc =
    if s.pc = .swap then .swap else if s.pc = .publish then .publish else .idle
  /-- a packet that was taken and is not yet handled is still the one that was taken -/
  dequeued : s.rx_queue_.dequeued =
    s.handled ++ if s.pc = .handle then [s.rx_queue_.mem s.rx_queue_.consumer] else []
  enqueued : s.rx_queue_.enqueued.Sublist (accepted_packets s.received)
  arp : s.arp = puts (senders mac s.handled)
  i : s.i = (if s.pc = .request then s.polled.length - 1 else s.polled.length) % 2 ^ 64
  polled : s.pc = .request → s.polled ≠ []
  /-- behind `kyield` the request of the round is still to come -/
  sent : s.sent ++ (if s.pc = .request then gateway_request mac (s.polled.length - 1) else []) =
    rounds mac s.polled

namespace ArpServiceInv

variable {mac : EthernetAddress} {s s' : ArpService}

theorem init (h : (arp_service mac).init s) : ArpServiceInv mac s := by
  obtain ⟨hqueue, harp, hpc, hi, hreceived, hpolled, hsent⟩ := h
  obtain ⟨-, -, -, henq, hdeq, henqueued, hdequeued, -⟩ := id hqueue
  constructor
  · exact .init hqueue
  · exact henq
  · rw [hpc, hdeq]
    rfl
  · rw [hdequeued, hpc, ArpService.handled, hpolled]
    rfl
  · rw [henqueued]
    exact List.nil_sublist _
  · rw [harp, ArpService.handled, hpolled]
    rfl
  · rw [hi, hpc, hpolled]
    rfl
  · intro h
    rw [hpc] at h
    cases h
  · rw [hsent, hpc, hpolled]
    rfl

/-- A frame changes the queue only, and of the queue nothing that the thread uses. -/
theorem frame (hs : ArpServiceInv mac s) {data : List UInt8} (h : s.handle_rx data = some s') :
    ArpServiceInv mac s' := by
  rw [ArpService.handle_rx] at h
  obtain ⟨packet, hpacket, h⟩ := Option.bind_eq_some_iff.mp h
  cases packet with
  | none =>
    obtain rfl := Option.some.inj h
    have haccepted : accepted_packets (s.received ++ [data]) = accepted_packets s.received := by
      rw [accepted_packets, List.filterMap_append, List.filterMap_cons, hpacket]
      simp [accepted_packets]
    exact { hs with enqueued := by rw [haccepted]; exact hs.enqueued }
  | some packet =>
    obtain ⟨q, hq, hreach, hsame, hidle, henqueued⟩ :=
      queue_up_mapping_spec hs.queue hs.enq_pc packet
    simp only [hq, Option.bind_eq_bind, Option.bind_some] at h
    obtain rfl := Option.some.inj h
    have haccepted : accepted_packets (s.received ++ [data]) =
        accepted_packets s.received ++ [packet] := by
      rw [accepted_packets, List.filterMap_append, List.filterMap_cons, hpacket]
      simp [accepted_packets]
    have hdequeued := hs.dequeued
    constructor
    · exact hreach
    · exact hidle
    · exact hsame.deq_pc.trans hs.deq_pc
    · show q.dequeued = s.handled ++ if s.pc = .handle then [q.mem q.consumer] else []
      rw [hsame.dequeued, hsame.consumer, hsame.packet]
      exact hdequeued
    · show q.enqueued.Sublist (accepted_packets (s.received ++ [data]))
      rw [henqueued, haccepted]
      split
      · exact hs.enqueued.trans (List.sublist_append_left _ _)
      · exact hs.enqueued.append (List.Sublist.refl _)
    · exact hs.arp
    · exact hs.i
    · exact hs.polled
    · exact hs.sent

/-- A round without a packet. -/
theorem empty_round (hs : ArpServiceInv mac s) (hpc : s.pc = .poll) :
    ArpServiceInv mac { s with polled := s.polled ++ [none], pc := .request } := by
  have hhandled : ArpService.handled { s with polled := s.polled ++ [none], pc := .request } =
      s.handled := by
    simp [ArpService.handled]
  have hsent := hs.sent
  simp only [hpc, reduceCtorEq, if_false, List.append_nil] at hsent
  constructor
  · exact hs.queue
  · exact hs.enq_pc
  · have hdeq := hs.deq_pc
    rw [hpc] at hdeq
    exact hdeq
  · have hdequeued := hs.dequeued
    rw [hpc] at hdequeued
    rw [hhandled]
    exact hdequeued
  · exact hs.enqueued
  · rw [hhandled]
    exact hs.arp
  · have hi := hs.i
    rw [hpc] at hi
    simpa using hi
  · simp
  · simp only [rounds_concat, reply_to, hsent, List.length_append, List.length_singleton,
      Nat.add_sub_cancel, if_true, List.nil_append]

/-- A step of the consumer inside `deq`. -/
theorem consumer_step (hs : ArpServiceInv mac s) {e : QueueEvent ArpPacket}
    {q : QueueState UInt64 ArpPacket} (pc : ArpPc) (hq : s.rx_queue_.exec e = some q)
    (hbefore : s.pc ≠ .request) (hafter : pc ≠ .request) (henq : q.enq_pc = s.rx_queue_.enq_pc)
    (hdeq : q.deq_pc = if pc = .swap then .swap else if pc = .publish then .publish else .idle)
    (hdequeued : q.dequeued = s.handled ++ if pc = .handle then [q.mem q.consumer] else [])
    (henqueued : q.enqueued = s.rx_queue_.enqueued) :
    ArpServiceInv mac { s with rx_queue_ := q, pc := pc } := by
  have hi := hs.i
  have hsent := hs.sent
  rw [if_neg hbefore] at hi hsent
  constructor
  · exact .step hs.queue hq
  · exact henq.trans hs.enq_pc
  · exact hdeq
  · exact hdequeued
  · rw [henqueued]
    exact hs.enqueued
  · exact hs.arp
  · simpa only [hafter, if_false] using hi
  · intro h
    exact absurd h hafter
  · simpa only [hafter, if_false] using hsent

/-- The packet is handled. -/
theorem handle (hs : ArpServiceInv mac s) (hpc : s.pc = .handle) {reply : Option EthernetPacket}
    (hreply : reply.toList = reply_to mac
      (some (s.rx_queue_.mem s.rx_queue_.consumer, s.rx_queue_.consumer))) :
    ArpServiceInv mac { s with
      arp := s.arp.put (s.rx_queue_.mem s.rx_queue_.consumer).hw_sender
        (s.rx_queue_.mem s.rx_queue_.consumer).proto_sender
      polled := s.polled ++ [some (s.rx_queue_.mem s.rx_queue_.consumer, s.rx_queue_.consumer)]
      sent := s.sent ++ reply.toList
      pc := .request } := by
  have hhandled : (s.polled ++
      [some (s.rx_queue_.mem s.rx_queue_.consumer, s.rx_queue_.consumer)]).filterMap
        (fun r => r.map Prod.fst) = s.handled ++ [s.rx_queue_.mem s.rx_queue_.consumer] := by
    simp [ArpService.handled]
  have hdeq := hs.deq_pc
  have hdequeued := hs.dequeued
  have hi := hs.i
  have hsent := hs.sent
  simp only [hpc, reduceCtorEq, if_false, if_true, List.append_nil] at hdeq hdequeued hi hsent
  constructor
  · exact hs.queue
  · exact hs.enq_pc
  · exact hdeq
  · simp only [ArpService.handled, hhandled, reduceCtorEq, if_false, List.append_nil]
    exact hdequeued
  · exact hs.enqueued
  · show _ = puts (senders mac (List.filterMap _ _))
    rw [hhandled, puts_senders_concat, ← hs.arp]
  · simpa using hi
  · simp
  · simp only [rounds_concat, hsent, hreply, List.length_append, List.length_singleton,
      Nat.add_sub_cancel, if_true, List.append_assoc]

/-- The end of a round. -/
theorem request (hs : ArpServiceInv mac s) (hpc : s.pc = .request) :
    ArpServiceInv mac { s with
      sent := if s.i % 10000 = 0 then s.sent ++ [request_gateway_ethernet_address mac] else s.sent
      i := (s.i + 1) % 2 ^ 64
      pc := .poll } := by
  have hdeq := hs.deq_pc
  have hdequeued := hs.dequeued
  have hi := hs.i
  have hsent := hs.sent
  have hpos : 0 < s.polled.length := List.length_pos_iff.mpr (hs.polled hpc)
  simp only [hpc, reduceCtorEq, if_false, if_true, List.append_nil] at hdeq hdequeued hi hsent
  constructor
  · exact hs.queue
  · exact hs.enq_pc
  · exact hdeq
  · simp only [reduceCtorEq, if_false, List.append_nil]
    exact hdequeued
  · exact hs.enqueued
  · exact hs.arp
  · simp only [reduceCtorEq, if_false]
    omega
  · intro h
    cases h
  · simp only [reduceCtorEq, if_false, List.append_nil]
    rw [← hsent, gateway_request, ← hi]
    split
    · rfl
    · rw [List.append_nil]

/-- **The thread can always make its next step**, and the step keeps the invariant. -/
theorem thread (hs : ArpServiceInv mac s) :
    ∃ s', s.thread mac = some s' ∧ ArpServiceInv mac s' := by
  have hdeq := hs.deq_pc
  have hdequeued := hs.dequeued
  cases hpc : s.pc with
  | poll =>
    simp only [hpc, reduceCtorEq, if_false, List.append_nil] at hdeq hdequeued
    by_cases hempty : s.rx_queue_.queue.empty
    · refine ⟨_, ?_, hs.empty_round hpc⟩
      simp only [ArpService.thread, hpc, QueueState.exec, hdeq, hempty, if_true,
        Option.bind_eq_bind, Option.bind_some]
    · have hexec : s.rx_queue_.exec .deq_read = some { s.rx_queue_ with deq_pc := .swap } := by
        simp only [QueueState.exec, hdeq, hempty, if_false]
      refine ⟨_, ?_, hs.consumer_step .swap hexec (by rw [hpc]; decide) (by decide) rfl rfl
        (by simpa using hdequeued) rfl⟩
      simp only [ArpService.thread, hpc, hexec, hempty, if_false, Option.bind_eq_bind,
        Option.bind_some]
  | swap =>
    simp only [hpc, reduceCtorEq, if_false, if_true, List.append_nil] at hdeq hdequeued
    obtain ⟨q, hexec, henq, hdeq', hdequeued', henqueued⟩ :
        ∃ q, s.rx_queue_.exec .deq_swap = some q ∧
          q.enq_pc = s.rx_queue_.enq_pc ∧ q.deq_pc = .publish ∧
          q.dequeued = s.rx_queue_.dequeued ∧ q.enqueued = s.rx_queue_.enqueued := by
      simp only [QueueState.exec, hdeq]
      exact ⟨_, rfl, rfl, rfl, rfl, rfl⟩
    refine ⟨_, ?_, hs.consumer_step .publish hexec (by rw [hpc]; decide) (by decide) henq
      hdeq' (by simpa using hdequeued'.trans hdequeued) henqueued⟩
    simp only [ArpService.thread, hpc, hexec, Option.bind_eq_bind, Option.bind_some]
  | publish =>
    simp only [hpc, reduceCtorEq, if_false, if_true, List.append_nil] at hdeq hdequeued
    obtain ⟨q, hexec, henq, hdeq', hdequeued', henqueued⟩ :
        ∃ q, s.rx_queue_.exec .deq_publish = some q ∧
          q.enq_pc = s.rx_queue_.enq_pc ∧ q.deq_pc = .idle ∧
          q.dequeued = s.rx_queue_.dequeued ++ [q.mem q.consumer] ∧
          q.enqueued = s.rx_queue_.enqueued := by
      simp only [QueueState.exec, hdeq]
      exact ⟨_, rfl, rfl, rfl, rfl, rfl⟩
    refine ⟨_, ?_, hs.consumer_step .handle hexec (by rw [hpc]; decide) (by decide) henq
      hdeq' (by simpa [hdequeued] using hdequeued') henqueued⟩
    simp only [ArpService.thread, hpc, hexec, Option.bind_eq_bind, Option.bind_some]
  | handle =>
    obtain ⟨reply, hpoll, hreply⟩ := arp_thread_poll_rx_eq mac s.arp
      (s.rx_queue_.mem s.rx_queue_.consumer) s.rx_queue_.consumer
    refine ⟨_, ?_, hs.handle hpc hreply⟩
    simp only [ArpService.thread, hpc, hpoll, Option.bind_eq_bind, Option.bind_some]
  | request =>
    refine ⟨_, ?_, hs.request hpc⟩
    simp only [ArpService.thread, hpc]

end ArpServiceInv

theorem arpServiceInv_of_reachable (mac : EthernetAddress) :
    ∀ s, Reachable (arp_service mac) s → ArpServiceInv mac s := by
  apply invariant_of_step
  · intro s h
    exact .init h
  · intro s e s' _ hs h
    cases e with
    | frame data => exact hs.frame h
    | thread =>
      obtain ⟨t, ht, hinv⟩ := hs.thread
      obtain rfl : t = s' := Option.some.inj (ht.symm.trans h)
      exact hinv

/-! ## Every run -/

/-- Each reply is for a request that was handled. -/
theorem length_replies (mac : EthernetAddress) (s : ArpService) :
    (s.polled.flatMap (reply_to mac)).length =
      (s.handled.filter fun p => be p.opcode = ArpOpcodeRequest).length := by
  rw [ArpService.handled]
  induction s.polled with
  | nil => rfl
  | cons r polled ih =>
    rw [List.flatMap_cons, List.length_append, ih]
    cases r with
    | none => simp [reply_to]
    | some r =>
      by_cases h : be r.1.opcode = ArpOpcodeRequest
      · simp [reply_to, h, Nat.add_comm]
      · simp [reply_to, h]

theorem handled_prefix {mac : EthernetAddress} {s : ArpService} (hs : ArpServiceInv mac s) :
    s.handled <+: s.rx_queue_.enqueued := by
  have htaken := (queueInv_of_reachable (by decide) s.rx_queue_ hs.queue).taken
  have hprefix : s.handled <+: s.rx_queue_.dequeued := by
    rw [hs.dequeued]
    exact List.prefix_append _ _
  rw [htaken] at hprefix
  exact hprefix.trans (List.take_prefix _ _)

/-- **Every run of the service**, with frames that come at any time. The packets that the thread has
    handled are those that came, in order, without the ones that met three waiting packets. The
    table knows their senders: the last IP address of each hardware address, but for every IP
    address the sender of the last packet. What was sent are, round by round, the replies to all
    requests, whatever their target is, and the requests for the gateway; there are not more replies
    than requests that came. The thread has always a next step. -/
theorem arp_service_runs (mac : EthernetAddress) (s : ArpService)
    (hs : Reachable (arp_service mac) s) :
    s.handled <+: s.rx_queue_.enqueued ∧
    s.rx_queue_.enqueued.Sublist (accepted_packets s.received) ∧
    (∀ data packet, rx_packet data = some (some packet) →
      ∃ s', (arp_service mac).step s (.frame data) s' ∧ s'.rx_queue_.enqueued =
        if s.rx_queue_.enqueued.length = s.rx_queue_.dequeued.length + 3 then s.rx_queue_.enqueued
        else s.rx_queue_.enqueued ++ [packet]) ∧
    (∀ eth, s.arp.find_mac eth =
      ((senders mac s.handled).reverse.find? (fun p => p.1 == eth)).map Prod.snd) ∧
    (∀ ip, s.arp.find ip = (senders mac s.handled).getLast?.map Prod.fst) ∧
    s.sent ++ (if s.pc = .request then gateway_request mac (s.polled.length - 1) else []) =
      rounds mac s.polled ∧
    (s.polled.flatMap (reply_to mac)).length ≤
      ((accepted_packets s.received).filter fun p => be p.opcode = ArpOpcodeRequest).length ∧
    ∃ s', (arp_service mac).step s .thread s' := by
  have hinv := arpServiceInv_of_reachable mac s hs
  have hhandled := handled_prefix hinv
  refine ⟨hhandled, hinv.enqueued, ?_, ?_, ?_, hinv.sent, ?_, ?_⟩
  · intro data packet hpacket
    obtain ⟨q, hq, -, -, -, henqueued⟩ := queue_up_mapping_spec hinv.queue hinv.enq_pc packet
    refine ⟨{ s with rx_queue_ := q, received := s.received ++ [data] }, ?_, henqueued⟩
    show s.handle_rx data = _
    simp only [ArpService.handle_rx, hpacket, hq, Option.bind_eq_bind, Option.bind_some]
  · intro eth
    rw [hinv.arp, find_mac_puts]
  · intro ip
    rw [hinv.arp, find_puts]
  · rw [length_replies]
    exact ((hhandled.sublist.trans hinv.enqueued).filter _).length_le
  · obtain ⟨s', h, -⟩ := hinv.thread
    exact ⟨s', h⟩

/-- The service before the first frame, with packets at the addresses 0 to 5. -/
def service_start (mac : EthernetAddress) : ArpService where
  rx_queue_ := ⟨⟨UInt64.ofNat, 4, 0, 0⟩, fun _ => request_packet mac IPDriver.address, 4, 5, .idle,
    .idle, [], []⟩
  arp := own_table mac
  pc := .poll
  i := 0
  received := []
  polled := []
  sent := []

/-- The pointer of each place is the number of the place. -/
theorem distinct_service_start (mac : EthernetAddress) :
    DistinctPointers 4 (service_start mac).rx_queue_ := by
  have hslot : ∀ i < 4, (UInt64.ofNat i).toNat = i := by decide
  intro p q hp hq h
  replace h := congrArg UInt64.toNat h
  cases p with
  | slot i =>
    have hi := hslot i hp
    cases q with
    | slot j => exact congrArg QueuePlace.slot (hi.symm.trans (h.trans (hslot j hq)))
    | producer => exact absurd (hi.symm.trans h) (Nat.ne_of_lt hp)
    | consumer => exact absurd (hi.symm.trans h) (Nat.ne_of_lt (Nat.lt_succ_of_lt hp))
  | producer =>
    cases q with
    | slot j => exact absurd (h.trans (hslot j hq)) (Nat.ne_of_gt hq)
    | producer => rfl
    | consumer => exact absurd h (show ¬ 4 = 5 by decide)
  | consumer =>
    cases q with
    | slot j => exact absurd (h.trans (hslot j hq)) (Nat.ne_of_gt (Nat.lt_succ_of_lt hq))
    | producer => exact absurd h (show ¬ 5 = 4 by decide)
    | consumer => rfl

theorem reachable_service_start (mac : EthernetAddress) :
    Reachable (arp_service mac) (service_start mac) :=
  .init ⟨⟨rfl, rfl, rfl, rfl, rfl, rfl, rfl, distinct_service_start mac⟩, rfl, rfl, rfl, rfl, rfl,
    rfl⟩

/-- The gateway asks for this host. The thread handles the packet and answers. -/
theorem gateway_answered : ∃ s, Reachable (arp_service #v[2, 0, 0, 0, 0, 3]) s ∧
    s.handled = [request #v[172, 20, 0, 1] IPDriver.address] ∧ s.sent.length = 1 ∧
    s.arp.find_mac #v[2, 0, 0, 0, 0, 1] = some #v[172, 20, 0, 1] := by
  have h₀ := reachable_service_start #v[2, 0, 0, 0, 0, 3]
  have h₁ := h₀.step (l := ArpServiceEvent.frame (request #v[172, 20, 0, 1] IPDriver.address).bytes)
    rfl
  have h₂ := h₁.step (l := ArpServiceEvent.thread) rfl
  have h₃ := h₂.step (l := ArpServiceEvent.thread) rfl
  have h₄ := h₃.step (l := ArpServiceEvent.thread) rfl
  have h₅ := h₄.step (l := ArpServiceEvent.thread) rfl
  obtain ⟨-, -, -, hfind, -⟩ := arp_service_runs _ _ h₅
  refine ⟨_, h₅, rfl, rfl, ?_⟩
  rw [hfind]
  rfl

end Modern05
