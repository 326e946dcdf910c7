import Modern05.Net.ArpReply

/-! # Any frame from the network

    A call of `handle_rx` on a frame with arbitrary bytes, through the checks of the card's driver
    and the handlers above it. The interrupt may have come while the ARP thread has the lock.

    Two kinds of frames stop the kernel, both with the right checksum and for this host: an ARP
    packet for Ethernet and IPv4 that gives other lengths, on which an assertion fails; and an
    IPv4 packet while the thread has the lock.

    * `receive_congr`: the call depends on the bytes of the frame only.
    * `receive_returns_iff`: for all other frames the call returns, behind the frame.
-/

namespace Modern05

open ArpDriver LTS Memory RxDevice

/-- A call of `handle_rx` from its start to its end. There is no result when it does not return. -/
def receive (a : ArpDriver) (d : RxDevice) : Option (ArpDriver × RxDevice) := do
  let (u, d) ← d.handle_rx
  let a ← (u.toList.flatMap RxUpper).foldlM ArpStep.exec a
  pure (a, d)

/-- The steps of the driver are those of the handler in `arp_system`. -/
theorem map_fst_receive (a : ArpDriver) (d : RxDevice) :
    (receive a d).map Prod.fst = (after_handle_rx d (fun _ => [])).foldlM ArpStep.exec a := by
  unfold receive after_handle_rx
  cases d.handle_rx with
  | none => rfl
  | some r => simp

/-! ## The handlers -/

/-- The upper layer does not return. -/
def Upper.Stops (u : Upper) (locked : Bool) : Prop :=
  (u.protocol = EtherTypeARP ∧ Known (.of_data u.data) ∧
    ¬ ((ArpPacket.of_data u.data).hw_len = 6 ∧ (ArpPacket.of_data u.data).proto_len = 4)) ∨
  (u.protocol = EtherTypeIPv4 ∧ locked = true)

theorem exec_RxUpper_of_stops {a : ArpDriver} {u : Upper} (h : u.Stops a.lock_) :
    (RxUpper u).foldlM ArpStep.exec a = none := by
  rcases h with ⟨hprotocol, hpacket⟩ | ⟨hprotocol, hlocked⟩
  · rw [RxUpper, if_pos hprotocol, HandleRx_eq, if_pos ((rx_packet_eq_none_iff u.data).mpr hpacket)]
    rfl
  · have hipv4 : ¬ EtherTypeIPv4 = EtherTypeARP := by decide
    rw [RxUpper, hprotocol, if_neg hipv4, if_pos rfl]
    simp [IPDriver.HandleRx, ArpCall.steps, ArpStep.exec, hlocked]

/-- Otherwise the driver is as before: the lock is taken and released. -/
theorem exec_RxUpper {a : ArpDriver} {u : Upper} (h : ¬ u.Stops a.lock_) :
    (RxUpper u).foldlM ArpStep.exec a = some a := by
  unfold RxUpper
  split
  · next hprotocol =>
    rw [HandleRx_eq, if_neg fun hnone => h (.inl ⟨hprotocol, (rx_packet_eq_none_iff _).mp hnone⟩)]
    rfl
  · split
    · next hprotocol =>
      have hfree : a.lock_ = false := by
        by_contra hlocked
        exact h (.inr ⟨hprotocol, by simpa using hlocked⟩)
      obtain ⟨lock_, eth2ip, ip2eth⟩ := a
      obtain rfl : lock_ = false := hfree
      rfl
    · rfl

/-! ## The call -/

/-- The result of a call on a frame with a header and a checksum. -/
theorem receive_eq (a : ArpDriver) {d : RxDevice} (hlong : 6 + 6 + 2 + 4 ≤ d.packet_size) :
    (d.checked ∧ d.addressed ∧ d.upper.Stops a.lock_ ∧ receive a d = none) ∨
    (¬ (d.checked ∧ d.addressed ∧ d.upper.Stops a.lock_) ∧
      receive a d = some (a, d.consume_rx d.packet_size)) := by
  obtain ⟨u, hu⟩ := handle_rx_returns hlong
  cases u with
  | none =>
    -- a frame that is dropped does not pass both tests
    have hdropped : ¬ (d.checked ∧ d.addressed) := by
      rintro ⟨hchecked, haddressed⟩
      rw [handle_rx_of_checked hchecked haddressed] at hu
      cases hu
    right
    refine ⟨fun h => hdropped ⟨h.1, h.2.1⟩, ?_⟩
    simp [receive, hu]
  | some u =>
    obtain ⟨hchecked, haddressed, rfl⟩ := handle_rx_upper hu
    by_cases hstops : d.upper.Stops a.lock_
    · left
      refine ⟨hchecked, haddressed, hstops, ?_⟩
      simp [receive, hu, exec_RxUpper_of_stops hstops]
    · right
      refine ⟨fun h => hstops h.2.2, ?_⟩
      simp [receive, hu, exec_RxUpper hstops]

theorem receive_congr (a : ArpDriver) (d : RxDevice) (m : Bytes)
    (hlong : 6 + 6 + 2 + 4 ≤ d.packet_size)
    (hm : ∀ x ∈ Set.Ico d.rx_offset (d.rx_offset + 4 + d.packet_size), m x = d.rx_buffer x) :
    receive a { d with rx_buffer := m } =
      (receive a d).map (fun r => (r.1, { r.2 with rx_buffer := m })) := by
  simp only [receive, handle_rx_congr d m hlong hm]
  cases d.handle_rx with
  | none => rfl
  | some r => simp

/-- The read offset stays aligned. -/
theorem aligned_of_reachable (s : RxState) (hs : Reachable rx_system s) :
    s.device.rx_offset % 4 = 0 := by
  have hextent := extent_mod_four s.consumed
  rw [(rxInv_of_reachable s hs).read, RX_RING_SIZE]
  omega

theorem length_bytes_arp (p : ArpPacket) : p.bytes.length = 28 := by
  simp [ArpPacket.bytes, store_u16]

/-- **Frames from the network.** In every state in which an interrupt may come, the call on a frame
    of at least 64 bytes returns exactly when the frame is not one of the two kinds that stop the
    kernel. Then the driver is as before and the read offset is behind the frame. The call depends
    on the bytes of the frame only, and an ARP packet is inside of its data. -/
theorem receive_returns_iff (s : ArpState) (hs : Reachable arp_system s) (hhandler : s.handler = [])
    (d : RxDevice) (haligned : d.rx_offset % 4 = 0) (hsize : 64 ≤ d.packet_size) :
    ((∃ r, receive s.arp d = some r) ↔
      ¬ (d.checked ∧ d.addressed ∧ d.upper.Stops (holding s.thread))) ∧
    (∀ a' d', receive s.arp d = some (a', d') → a' = s.arp ∧
      d'.rx_offset = (d.rx_offset + stride d.packet_size) % RX_RING_SIZE) ∧
    (∀ m, (∀ x ∈ Set.Ico d.rx_offset (d.rx_offset + 4 + d.packet_size), m x = d.rx_buffer x) →
      receive s.arp { d with rx_buffer := m } =
        (receive s.arp d).map (fun r => (r.1, { r.2 with rx_buffer := m }))) ∧
    ∀ p : ArpPacket, p.bytes.length ≤ d.upper.data.length := by
  have hlock : s.arp.lock_ = holding s.thread := by
    rw [(lockInv_of_reachable s hs).lock, hhandler]
    exact Bool.or_false _
  rw [← hlock]
  refine ⟨?_, ?_, fun m hm => receive_congr s.arp d m (by omega) hm, fun p => ?_⟩
  · rcases receive_eq s.arp (d := d) (by omega) with ⟨hc, ha, hstops, hnone⟩ | ⟨hreturns, hsome⟩
    · simp [hnone, hc, ha, hstops]
    · simp [hsome, hreturns]
  · intro a' d' h
    rcases receive_eq s.arp (d := d) (by omega) with ⟨-, -, -, hnone⟩ | ⟨-, hsome⟩
    · rw [hnone] at h
      cases h
    · rw [hsome] at h
      cases h
      exact ⟨rfl, rx_offset_consume_rx haligned d.packet_size⟩
  · rw [length_bytes_arp]
    simp only [upper, length_bytes]
    omega

/-! ### Frames that come and frames that stop -/

/-- A broadcast of 60 bytes with an ARP packet for Ethernet and IPv4 whose `hw_len` is 0. -/
def arp_data : List UInt8 :=
  List.replicate 6 0xff ++ [2, 0, 0, 0, 0, 1] ++ [0x08, 0x06] ++ [0, 1, 8, 0, 0, 4, 0, 1] ++
    List.replicate 38 0

def idle_state : ArpState := ⟨.empty, [], []⟩

theorem reachable_idle : Reachable arp_system idle_state := .init ⟨rfl, rfl, rfl⟩

/-- An IPv4 frame while nobody has the lock. -/
theorem ipv4_frame_returns : ∃ r, receive idle_state.arp (device_with ipv4_data) = some r := by
  have hsize := (checked_device_with ipv4_data (by decide) (by decide)).2
  refine (receive_returns_iff idle_state reachable_idle rfl (device_with ipv4_data) rfl
    (by rw [hsize]; decide)).1.mpr ?_
  rintro ⟨-, -, ⟨harp, -⟩ | ⟨-, hlocked⟩⟩
  · exact absurd (harp.symm.trans ipv4_device_waits.2.2) (by decide)
  · cases hlocked

/-- The assertion on `hw_len` fails. -/
theorem arp_frame_stops : (device_with arp_data).packet_size = 64 ∧
    receive idle_state.arp (device_with arp_data) = none := by
  obtain ⟨hchecked, hsize⟩ := checked_device_with arp_data (by decide) (by decide)
  have haddressed : (device_with arp_data).addressed := .inl (by decide +kernel)
  have hstops : (device_with arp_data).upper.Stops false :=
    .inl ⟨by decide +kernel, ⟨by decide +kernel, by decide +kernel⟩, by decide +kernel⟩
  refine ⟨hsize, ?_⟩
  rcases receive_eq idle_state.arp (d := device_with arp_data) (by rw [hsize]; decide) with
    ⟨-, -, -, hnone⟩ | ⟨hreturns, -⟩
  · exact hnone
  · exact absurd ⟨hchecked, haddressed, hstops⟩ hreturns

end Modern05
