import Modern05.Device.Transmit
import Modern05.Net.ArpTable

/-! # ARP packets and replies

    The packets of `include/net/arp.hpp` byte by byte, and what `net/arp.cpp` does with them:
    `HandleRx` checks a packet and queues it, the ARP thread takes it from the queue in
    `arp_thread_poll_rx`, puts the sender into the table and answers requests.

    The thread asks the table for the address that is requested, not the IP driver for its own;
    and it copies the target of the reply from the pointer to the requested address instead of
    the sender of the request.

    * `ArpPacket.of_data_bytes`: a packet is read as it was written, whatever is behind it.
    * `HandleRx_eq`: the steps of the handler are those of the full function.
    * `poll_request`: every request is answered.
    * `reply_correct_iff`: when the answer is right.
-/

namespace Modern05

/-! ## Packets -/

/-- The numbers are as they stand in memory, in network order. -/
structure ArpPacket where
  hardware_address_space : UInt16
  protocol_address_space : UInt16
  hw_len : UInt8
  proto_len : UInt8
  opcode : UInt16
  hw_sender : EthernetAddress
  proto_sender : IPv4Address
  hw_target : EthernetAddress
  proto_target : IPv4Address
  deriving DecidableEq

def ArpOpcodeRequest : UInt16 := 1
def ArpOpcodeReply : UInt16 := 2
def ArpHwAddressSpaceEthernet : UInt16 := 1
def ArpProtoAddressSpaceIPv4 : UInt16 := 0x0800

def store_u16 (v : UInt16) : List UInt8 := [UInt8.ofNat v.toNat, UInt8.ofNat (v.toNat / 256)]

def load_u16 (data : List UInt8) (i : Nat) : UInt16 :=
  .ofNat ((data.getD i 0).toNat + 256 * (data.getD (i + 1) 0).toNat)

/-- The packet in memory. -/
def ArpPacket.bytes (p : ArpPacket) : List UInt8 :=
  store_u16 p.hardware_address_space ++ store_u16 p.protocol_address_space ++
    [p.hw_len, p.proto_len] ++ store_u16 p.opcode ++ p.hw_sender.toList ++
    p.proto_sender.toList ++ p.hw_target.toList ++ p.proto_target.toList

/-- `reinterpret_cast<ArpPacket*>(data.data())` -/
def ArpPacket.of_data (data : List UInt8) : ArpPacket where
  hardware_address_space := load_u16 data 0
  protocol_address_space := load_u16 data 2
  hw_len := data.getD 4 0
  proto_len := data.getD 5 0
  opcode := load_u16 data 6
  hw_sender := Vector.ofFn (fun i => data.getD (8 + i) 0)
  proto_sender := Vector.ofFn (fun i => data.getD (14 + i) 0)
  hw_target := Vector.ofFn (fun i => data.getD (18 + i) 0)
  proto_target := Vector.ofFn (fun i => data.getD (24 + i) 0)

/-- A byte of a field behind `before`. -/
theorem getD_field (before field rest : List UInt8) {i : Nat} (hi : i < field.length) :
    (before ++ (field ++ rest)).getD (before.length + i) 0 = field.getD i 0 := by
  simp [List.getD_eq_getElem?_getD, List.getElem?_append_right, List.getElem?_append_left hi]

theorem load_store_u16 (before : List UInt8) (v : UInt16) {data rest : List UInt8} {k : Nat}
    (hdata : data = before ++ (store_u16 v ++ rest)) (hk : before.length = k) :
    load_u16 data k = v := by
  subst hdata hk
  have hlow := getD_field before (store_u16 v) rest (i := 0) (by simp [store_u16])
  have hhigh := getD_field before (store_u16 v) rest (i := 1) (by simp [store_u16])
  have hv := v.toNat_lt
  apply UInt16.toNat_inj.mp
  rw [load_u16, ← Nat.add_zero before.length, Nat.add_assoc, hlow, Nat.zero_add, hhigh]
  simp [store_u16]
  omega

theorem ofFn_field (before : List UInt8) {n : Nat} (v : Vector UInt8 n) {data rest : List UInt8}
    {k : Nat} (hdata : data = before ++ (v.toList ++ rest)) (hk : before.length = k) :
    Vector.ofFn (fun i : Fin n => data.getD (k + i) 0) = v := by
  subst hdata hk
  ext i hi
  rw [Vector.getElem_ofFn, getD_field before v.toList rest (by simpa using hi)]
  simp [hi]

/-- A packet is read as it was written, whatever is behind it. -/
theorem ArpPacket.of_data_bytes (p : ArpPacket) (rest : List UInt8) :
    ArpPacket.of_data (p.bytes ++ rest) = p := by
  obtain ⟨hw, proto, hw_len, proto_len, opcode, hw_sender, proto_sender, hw_target,
    proto_target⟩ := p
  -- what is in front of the addresses
  let header := store_u16 hw ++ store_u16 proto ++ [hw_len, proto_len] ++ store_u16 opcode
  simp only [ArpPacket.of_data, ArpPacket.mk.injEq]
  refine ⟨?_, ?_, rfl, rfl, ?_, ?_, ?_, ?_, ?_⟩
  · exact load_store_u16 [] hw (by simp [bytes]; rfl) rfl
  · exact load_store_u16 (store_u16 hw) proto (by simp [bytes]; rfl) rfl
  · exact load_store_u16 (store_u16 hw ++ store_u16 proto ++ [hw_len, proto_len]) opcode
      (by simp [bytes]; rfl) rfl
  · exact ofFn_field header hw_sender (by simp [bytes, header]; rfl) rfl
  · exact ofFn_field (header ++ hw_sender.toList) proto_sender (by simp [bytes, header]; rfl)
      (by simp [header, store_u16])
  · exact ofFn_field (header ++ hw_sender.toList ++ proto_sender.toList) hw_target
      (by simp [bytes, header]; rfl) (by simp [header, store_u16])
  · exact ofFn_field (header ++ hw_sender.toList ++ proto_sender.toList ++ hw_target.toList)
      proto_target (by simp [bytes, header]; rfl) (by simp [header, store_u16])

/-! ## The functions of the driver -/

/-- `be` of the source. -/
def be (v : UInt16) : UInt16 := swap_endian_u16 v

/-- `cpu2be` and `be` undo each other. -/
theorem be_swap_endian (v : UInt16) : be (swap_endian_u16 v) = v := by
  have hv := v.toNat_lt
  apply UInt16.toNat_inj.mp
  rw [be, toNat_swap_endian_u16, toNat_swap_endian_u16]
  omega

/-- The address of this host. -/
def IPDriver.address : IPv4Address := #v[172, 20, 0, 3]

/-- The packet that the call hands to the queue of the card. -/
def TxEnqueue (mac dst : EthernetAddress) (protocol : Nat) (payload : List UInt8) :
    EthernetPacket := ⟨dst, mac, protocol, payload⟩

/-- `memcpy(b, &p, 4)` for a pointer `p`. -/
def pointer_bytes (p : UInt64) : IPv4Address := Vector.ofFn fun i => .ofNat (p.toNat / 256 ^ i.val)

namespace ArpDriver

/-- `HandleRx`, with the packet that it hands to the queue. There is no result where an assertion
    fails. -/
def rx_packet (data : List UInt8) : Option (Option ArpPacket) :=
  let packet := ArpPacket.of_data data
  -- unknown hw addr or proto addr
  if ¬ (be packet.hardware_address_space = ArpHwAddressSpaceEthernet ∧
      be packet.protocol_address_space = ArpProtoAddressSpaceIPv4) then some none
  else if packet.hw_len ≠ 6 then none
  else if packet.proto_len ≠ 4 then none
  else if be packet.opcode = ArpOpcodeRequest then some (some packet)
  else if be packet.opcode = ArpOpcodeReply then some (some packet)
  -- unknown opcode
  else some none

/-- The packet that `handle_request` builds. It copies the pointer `ip_target` itself. -/
def reply_packet (mac mac_target : EthernetAddress) (ip_target : UInt64) : ArpPacket where
  hardware_address_space := swap_endian_u16 ArpHwAddressSpaceEthernet
  protocol_address_space := swap_endian_u16 ArpProtoAddressSpaceIPv4
  hw_len := 6
  proto_len := 4
  opcode := swap_endian_u16 ArpOpcodeReply
  hw_sender := mac
  proto_sender := IPDriver.address
  hw_target := mac_target
  proto_target := pointer_bytes ip_target

/-- The reply to a packet at `addr`, if there is one. The driver may have no IP driver. -/
def handle_request (a : ArpDriver) (mac : EthernetAddress) (ip_driver_ : Bool) (packet : ArpPacket)
    (addr : UInt64) : Option (Option EthernetPacket) :=
  if be packet.opcode ≠ ArpOpcodeRequest then none
  else
    -- a pointer into the packet; the call of `find` makes an address of what it points to
    let ip_target := addr + 24
    match a.find packet.proto_target, ip_driver_ with
    | some mac_target, true =>
      let reply_packet := reply_packet mac mac_target ip_target
      some (some (TxEnqueue mac packet.hw_sender EtherTypeARP reply_packet.bytes))
    | _, _ => some none

/-- With the packet that `deq` has left at `addr`. -/
def arp_thread_poll_rx (a : ArpDriver) (mac : EthernetAddress) (ip_driver_ : Bool)
    (packet : ArpPacket) (addr : UInt64) : Option (ArpDriver × Option EthernetPacket) :=
  let a := a.put packet.hw_sender packet.proto_sender
  if be packet.opcode = ArpOpcodeRequest then do
    let reply ← a.handle_request mac ip_driver_ packet addr
    pure (a, reply)
  else some (a, none)

/-- A number in network order. -/
theorem toNat_be_load (data : List UInt8) (i : Nat) :
    (be (load_u16 data i)).toNat = 256 * (data.getD i 0).toNat + (data.getD (i + 1) 0).toNat := by
  have hlow := (data.getD i 0).toNat_lt
  have hhigh := (data.getD (i + 1) 0).toNat_lt
  have hload : (load_u16 data i).toNat =
      (data.getD i 0).toNat + 256 * (data.getD (i + 1) 0).toNat := by
    rw [load_u16, UInt16.toNat_ofNat']
    exact Nat.mod_eq_of_lt (by omega)
  rw [be, toNat_swap_endian_u16, hload]
  omega

/-- The packet is one for Ethernet and IPv4. -/
def Known (p : ArpPacket) : Prop :=
  be p.hardware_address_space = ArpHwAddressSpaceEthernet ∧
    be p.protocol_address_space = ArpProtoAddressSpaceIPv4

/-- The assertions fail for packets of Ethernet and IPv4 with other lengths. -/
theorem rx_packet_eq_none_iff (data : List UInt8) : rx_packet data = none ↔
    Known (.of_data data) ∧ ¬ ((ArpPacket.of_data data).hw_len = 6 ∧
      (ArpPacket.of_data data).proto_len = 4) := by
  dsimp only [rx_packet, Known]
  generalize ArpPacket.of_data data = packet
  split_ifs with hknown hhw hproto <;> simp [*]

theorem known_of_data_iff (data : List UInt8) : Known (.of_data data) ↔
    256 * (data.getD 0 0).toNat + (data.getD 1 0).toNat = 1 ∧
      256 * (data.getD 2 0).toNat + (data.getD 3 0).toNat = 0x0800 := by
  rw [Known, ← UInt16.toNat_inj, ← UInt16.toNat_inj]
  exact Iff.of_eq (congrArg₂ And (congrArg (· = 1) (toNat_be_load data 0))
    (congrArg (· = 0x0800) (toNat_be_load data 2)))

/-- The steps of the handler are those of the full function. -/
theorem HandleRx_eq (data : List UInt8) :
    HandleRx data = if rx_packet data = none then [.halt] else [] := by
  by_cases hknown : Known (.of_data data)
  · refine (if_neg (not_not.mpr ((known_of_data_iff data).mp hknown))).trans ?_
    -- the two assertions
    by_cases hlen : data.getD 4 0 = 6 ∧ data.getD 5 0 = 4
    · rw [if_neg (not_not.mpr hlen.1), if_neg (not_not.mpr hlen.2), if_neg]
      exact fun hnone => ((rx_packet_eq_none_iff data).mp hnone).2 hlen
    · rw [if_pos (c := rx_packet data = none) ((rx_packet_eq_none_iff data).mpr ⟨hknown, hlen⟩)]
      split_ifs with hhw hproto
      · rfl
      · rfl
      · exact absurd ⟨not_not.mp hhw, not_not.mp hproto⟩ hlen
  · have hnone : rx_packet data ≠ none := fun h => hknown ((rx_packet_eq_none_iff data).mp h).1
    rw [if_neg hnone]
    exact if_pos (mt (known_of_data_iff data).mpr hknown)

/-! ## Requests and replies -/

/-- The address that was put is found under every address. -/
theorem find_put (a : ArpDriver) (eth : EthernetAddress) (ip q : IPv4Address) :
    (a.put eth ip).find q = some eth := by
  rw [find, put, OrderedMap.find_assign sameTrans_ip, if_pos (same_ip ip q)]

/-- Every request is answered, to its sender. -/
theorem poll_request (a : ArpDriver) (mac : EthernetAddress) (ip_driver_ : Bool)
    {packet : ArpPacket} (hrequest : be packet.opcode = ArpOpcodeRequest) (addr : UInt64) :
    a.arp_thread_poll_rx mac ip_driver_ packet addr =
      some (a.put packet.hw_sender packet.proto_sender,
        if ip_driver_ then some (TxEnqueue mac packet.hw_sender EtherTypeARP
          (reply_packet mac packet.hw_sender (addr + 24)).bytes) else none) := by
  simp only [arp_thread_poll_rx, handle_request, hrequest, find_put]
  cases ip_driver_ <;> rfl

/-- A packet that passes the checks is queued as it was written. -/
theorem rx_packet_bytes {p : ArpPacket} (hknown : Known p) (hhw : p.hw_len = 6)
    (hproto : p.proto_len = 4)
    (hopcode : be p.opcode = ArpOpcodeRequest ∨ be p.opcode = ArpOpcodeReply)
    (padding : List UInt8) : rx_packet (p.bytes ++ padding) = some (some p) := by
  dsimp only [rx_packet]
  rw [ArpPacket.of_data_bytes]
  unfold Known at hknown
  rw [if_neg (not_not.mpr hknown), if_neg (not_not.mpr hhw), if_neg (not_not.mpr hproto)]
  split_ifs with hrequest hreply
  · rfl
  · rfl
  · exact absurd hopcode (not_or.mpr ⟨hrequest, hreply⟩)

/-- The handler of the host that receives the reply queues it. -/
theorem rx_reply_packet (mac mac_target : EthernetAddress) (ip_target : UInt64)
    (padding : List UInt8) :
    rx_packet ((reply_packet mac mac_target ip_target).bytes ++ padding) =
      some (some (reply_packet mac mac_target ip_target)) := by
  refine rx_packet_bytes (p := reply_packet mac mac_target ip_target) ⟨?_, ?_⟩ rfl rfl (.inr ?_)
    padding
  · exact be_swap_endian ArpHwAddressSpaceEthernet
  · exact be_swap_endian ArpProtoAddressSpaceIPv4
  · exact be_swap_endian ArpOpcodeReply

/-- The thread of that host puts the sender and does not answer. -/
theorem poll_reply_packet (b : ArpDriver) (mac : EthernetAddress) (ip_driver_ : Bool)
    (sender mac_target : EthernetAddress) (ip_target addr : UInt64) :
    b.arp_thread_poll_rx mac ip_driver_ (reply_packet sender mac_target ip_target) addr =
      some (b.put sender IPDriver.address, none) :=
  if_neg (by decide : be (swap_endian_u16 ArpOpcodeReply) ≠ ArpOpcodeRequest)

end ArpDriver

theorem ArpPacket.bytes_inj {p p' : ArpPacket} (h : p.bytes = p'.bytes) : p = p' := by
  rw [← ArpPacket.of_data_bytes p [], h, ArpPacket.of_data_bytes]

/-! ## What a reply should be -/

open ArpDriver

/-- The packet that is sent is an answer to the request: its fields say so, and the host that
    receives it, with any padding, puts the sender into its table. -/
structure Answers (mac : EthernetAddress) (request : ArpPacket) (sent : EthernetPacket) : Prop where
  addressed : sent.dst = request.hw_sender ∧ sent.protocol = EtherTypeARP
  reply : ∃ reply : ArpPacket, sent.data = reply.bytes ∧ be reply.opcode = ArpOpcodeReply ∧
    reply.hw_sender = mac ∧ reply.proto_sender = IPDriver.address ∧
    reply.hw_target = request.hw_sender ∧ reply.proto_target = request.proto_sender
  recorded : ∀ padding, ∃ queued, rx_packet (sent.data ++ padding) = some (some queued) ∧
    ∀ (b : ArpDriver) (mac' : EthernetAddress) (ip_driver_ : Bool) (addr : UInt64),
      b.arp_thread_poll_rx mac' ip_driver_ queued addr = some (b.put mac IPDriver.address, none)

/-- Requests for this host are answered, and no others. -/
def CorrectReply (mac : EthernetAddress) (request : ArpPacket) (sent : Option EthernetPacket) :
    Prop :=
  (sent.isSome = true ↔ request.proto_target = IPDriver.address) ∧
    ∀ r, sent = some r → Answers mac request r

/-- The reply is an answer but for its target address. -/
theorem answers_iff (mac : EthernetAddress) (request : ArpPacket) (ip_target : UInt64) :
    Answers mac request (TxEnqueue mac request.hw_sender EtherTypeARP
      (reply_packet mac request.hw_sender ip_target).bytes) ↔
    request.proto_sender = pointer_bytes ip_target := by
  constructor
  · intro h
    obtain ⟨reply, hdata, -, -, -, -, htarget⟩ := h.reply
    rw [← htarget, ← ArpPacket.bytes_inj hdata]
    rfl
  · intro hsender
    constructor
    · exact ⟨rfl, rfl⟩
    · exact ⟨_, rfl, be_swap_endian ArpOpcodeReply, rfl, rfl, rfl, hsender.symm⟩
    · intro padding
      exact ⟨_, rx_reply_packet _ _ _ padding, fun b mac' ip_driver_ addr =>
        poll_reply_packet b mac' ip_driver_ _ _ _ addr⟩

/-- **Replies.** The thread puts the sender of the request into the table, and with an IP driver it
    answers. This is right exactly when the request is for this host and the address of its
    sender happens to be the low half of the pointer to the requested address. -/
theorem reply_correct_iff (a : ArpDriver) (mac : EthernetAddress) (ip_driver_ : Bool)
    (request : ArpPacket) (addr : UInt64) (hrequest : be request.opcode = ArpOpcodeRequest) :
    ∃ sent, a.arp_thread_poll_rx mac ip_driver_ request addr =
        some (a.put request.hw_sender request.proto_sender, sent) ∧
      (CorrectReply mac request sent ↔
        if ip_driver_ then request.proto_target = IPDriver.address ∧
          request.proto_sender = pointer_bytes (addr + 24)
        else request.proto_target ≠ IPDriver.address) := by
  refine ⟨_, poll_request a mac ip_driver_ hrequest addr, ?_⟩
  cases ip_driver_ with
  | false => simp [CorrectReply]
  | true =>
    simp only [CorrectReply, if_true, Option.isSome_some, true_iff, Option.some.injEq]
    constructor
    · rintro ⟨htarget, hanswers⟩
      exact ⟨htarget, (answers_iff mac request _).mp (hanswers _ rfl)⟩
    · rintro ⟨htarget, hsender⟩
      refine ⟨htarget, ?_⟩
      rintro r rfl
      exact (answers_iff mac request _).mpr hsender

/-- A request of the gateway, which is 172.20.0.1, or of another host. -/
def request (proto_sender proto_target : IPv4Address) : ArpPacket where
  hardware_address_space := swap_endian_u16 ArpHwAddressSpaceEthernet
  protocol_address_space := swap_endian_u16 ArpProtoAddressSpaceIPv4
  hw_len := 6
  proto_len := 4
  opcode := swap_endian_u16 ArpOpcodeRequest
  hw_sender := #v[2, 0, 0, 0, 0, 1]
  proto_sender := proto_sender
  hw_target := Vector.replicate 6 0
  proto_target := proto_target

theorem opcode_request (proto_sender proto_target : IPv4Address) :
    be (request proto_sender proto_target).opcode = ArpOpcodeRequest :=
  be_swap_endian ArpOpcodeRequest

/-- The table with this host in it, as `SetIPDriver` leaves it. -/
def own_table (mac : EthernetAddress) : ArpDriver := ArpDriver.empty.put mac IPDriver.address

/-- The host 24.0.0.5 gets the right reply when the packet is at this address. -/
theorem reply_to_pointer : ∃ a sent,
    (own_table #v[2, 0, 0, 0, 0, 3]).arp_thread_poll_rx #v[2, 0, 0, 0, 0, 3] true
      (request #v[24, 0, 0, 5] IPDriver.address) 0xffff800005000000 =
        some (a, sent) ∧
    CorrectReply #v[2, 0, 0, 0, 0, 3] (request #v[24, 0, 0, 5] IPDriver.address) sent := by
  obtain ⟨sent, hpoll, hcorrect⟩ := reply_correct_iff (own_table #v[2, 0, 0, 0, 0, 3])
    #v[2, 0, 0, 0, 0, 3] true (request #v[24, 0, 0, 5] IPDriver.address) 0xffff800005000000
    (opcode_request _ _)
  exact ⟨_, sent, hpoll, hcorrect.mpr (by decide)⟩

/-- The gateway asks for another host, and this host answers. When it asks for this host, the
    target of the answer is 24.0.0.5 instead of the gateway. -/
theorem gateway_misled :
    (∃ a r, (own_table #v[2, 0, 0, 0, 0, 3]).arp_thread_poll_rx #v[2, 0, 0, 0, 0, 3] true
      (request #v[172, 20, 0, 1] #v[172, 20, 0, 9]) 0xffff800005000000 = some (a, some r)) ∧
    ∃ a r, (own_table #v[2, 0, 0, 0, 0, 3]).arp_thread_poll_rx #v[2, 0, 0, 0, 0, 3] true
      (request #v[172, 20, 0, 1] IPDriver.address) 0xffff800005000000 = some (a, some r) ∧
      (ArpPacket.of_data r.data).proto_target = #v[24, 0, 0, 5] := by
  rw [poll_request _ _ true (opcode_request _ _), poll_request _ _ true (opcode_request _ _)]
  refine ⟨⟨_, _, rfl⟩, ⟨_, _, rfl, ?_⟩⟩
  decide

end Modern05
