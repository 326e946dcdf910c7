import Modern05.Device.Transmit

/-! # One call of `tx_async`

    `Rtl8139Device::tx_async` of `device/rtl8139.cpp` as a function on the transmit buffers, the
    status of the descriptors and the memory of the device object. In `TxState` its parts are steps
    of the thread that others can come in between; here the call is one step, and the memory that
    the zeros go to is there byte for byte. `thread_tx_async` connects the two.

    * `padded` and `wire_frame` are what a packet should be on the wire.
    * `exact_frame_iff` says when it is: a short packet finds zeros where its padding should be, the
      fields that the zeros hit are zero, and the length that was there before has no other bit.
-/

namespace Modern05

open Memory

/-! ## The call -/

/-- The device, for one call. -/
structure TxDevice where
  /-- The memory of the object from `tx_buffer` on; the object ends at 136. -/
  object : Bytes
  /-- The four buffers of 4096 bytes, one behind the other. -/
  tx_buffer : Bytes
  /-- The registers of the descriptors. -/
  tx_status : Nat → Nat

def sizeof_object : Nat := 136

namespace TxDevice

/-- The field at 56. -/
def tx_buffer_index (d : TxDevice) : Nat := load32 d.object 56

def tx_ready (d : TxDevice) : Bool := (d.tx_status d.tx_buffer_index).testBit 13

/-- The bytes that the card sends for a descriptor. -/
def frame (d : TxDevice) (i : Nat) : List UInt8 :=
  bytes d.tx_buffer (TxState.buffer_start i) (d.tx_status i % 2 ^ 13)

/-- `buffer` is the address of the packet. A packet has a header, so that the zeros do not reach
    the fields that the call reads. -/
def tx_async (d : TxDevice) (buffer : UInt64) (packet : List UInt8) :
    Except Fault (Bool × TxDevice) :=
  if !d.tx_ready then .ok (false, d)
  else if 2 ^ 32 ≤ (buffer - UInt64.ofNat KERNEL_START).toNat then
    .error (.assertion "invalid tx buffer set, must be < 4G")
  else
    let i := d.tx_buffer_index
    let start := TxState.buffer_start i
    let size := packet.length
    let tx_buffer := copy d.tx_buffer start packet
    -- expand to 64-4 bytes if shorter; the size is added to the address of a pointer
    let object :=
      if size < 64 - 4 then clear d.object (8 * (i + size)) (64 - 4 - size) else d.object
    let size := if size < 64 - 4 then 64 - 4 else size
    let crc32 := crc32iso_hdlc 0 (bytes tx_buffer start size)
    -- append crc32
    let tx_buffer := copy tx_buffer (start + size) (word32 crc32.toNat)
    let size := size + 4
    -- set size and start tx
    let tx_status := Function.update d.tx_status i (TxState.start_status (d.tx_status i) size)
    .ok (true, ⟨object, tx_buffer, tx_status⟩)

end TxDevice

/-! ## What it is for -/

/-- A packet with zeros up to the smallest size. -/
def padded (packet : List UInt8) : List UInt8 := packet ++ List.replicate (60 - packet.length) 0

def wire_frame (packet : List UInt8) : List UInt8 :=
  padded packet ++ word32 (crc32iso_hdlc 0 (padded packet)).toNat

/-- The buffer, the length and the frame are those of the packet, and nothing else changes. -/
structure SendsExactly (d : TxDevice) (packet : List UInt8) (d' : TxDevice) : Prop where
  data : bytes d'.tx_buffer (TxState.buffer_start d.tx_buffer_index) (max packet.length 60) =
    padded packet
  crc : bytes d'.tx_buffer
      (TxState.buffer_start d.tx_buffer_index + max packet.length 60) 4 =
    word32 (crc32iso_hdlc 0 (padded packet)).toNat
  length : d'.tx_status d.tx_buffer_index % 2 ^ 13 = max packet.length 60 + 4
  object : ∀ x < sizeof_object, d'.object x = d.object x
  others : ∀ j < 4, j ≠ d.tx_buffer_index →
    ∀ x ∈ Set.Ico (TxState.buffer_start j) (TxState.buffer_start j + 4096),
      d'.tx_buffer x = d.tx_buffer x
  wire : d'.frame d.tx_buffer_index = wire_frame packet

/-! ## The parts of a call -/

namespace TxDevice

variable {d : TxDevice} {packet : List UInt8} {buffer : UInt64}

/-- The device after a call that sends. -/
def sent (d : TxDevice) (packet : List UInt8) : TxDevice :=
  let i := d.tx_buffer_index
  let start := TxState.buffer_start i
  let size := max packet.length 60
  let tx_buffer := copy d.tx_buffer start packet
  let crc32 := crc32iso_hdlc 0 (bytes tx_buffer start size)
  ⟨if packet.length < 60 then clear d.object (8 * (i + packet.length)) (60 - packet.length)
    else d.object,
    copy tx_buffer (start + size) (word32 crc32.toNat),
    Function.update d.tx_status i (TxState.start_status (d.tx_status i) (size + 4))⟩

theorem tx_async_of_ready (hready : d.tx_ready = true)
    (hbuffer : (buffer - UInt64.ofNat KERNEL_START).toNat < 2 ^ 32) (packet : List UInt8) :
    d.tx_async buffer packet = .ok (true, d.sent packet) := by
  have hsize : (if packet.length < 64 - 4 then 64 - 4 else packet.length) =
      max packet.length 60 := by
    split <;> omega
  unfold tx_async
  rw [hready, Bool.not_true, if_neg (by decide), if_neg (Nat.not_le.mpr hbuffer)]
  dsimp only
  rw [hsize]
  rfl

/-- Where the padding should be is what was there before. -/
theorem bytes_sent (d : TxDevice) (packet : List UInt8) :
    bytes (d.sent packet).tx_buffer (TxState.buffer_start d.tx_buffer_index)
        (max packet.length 60) =
      packet ++ bytes d.tx_buffer (TxState.buffer_start d.tx_buffer_index + packet.length)
        (60 - packet.length) := by
  generalize hstart : TxState.buffer_start d.tx_buffer_index = start
  have hcopied : bytes (copy d.tx_buffer start packet) start (max packet.length 60) =
      packet ++ bytes d.tx_buffer (start + packet.length) (60 - packet.length) := by
    rw [show max packet.length 60 = packet.length + (60 - packet.length) by omega, bytes_add,
      bytes_copy]
    congr 1
    apply bytes_congr
    intro x hx
    rw [copy_eq_ite, if_neg (by have := hx.1; omega)]
  rw [← hcopied]
  apply bytes_congr
  intro x hx
  -- the checksum is behind them
  have hlt := hx.2
  simp only [sent, hstart]
  rw [copy_eq_ite, if_neg (by omega)]

/-- The checksum is that of the bytes that are in the buffer. -/
theorem bytes_sent_crc (d : TxDevice) (packet : List UInt8) :
    bytes (d.sent packet).tx_buffer
        (TxState.buffer_start d.tx_buffer_index + max packet.length 60) 4 =
      word32 (crc32iso_hdlc 0 (bytes (d.sent packet).tx_buffer
        (TxState.buffer_start d.tx_buffer_index) (max packet.length 60))).toNat := by
  have hsame : bytes (d.sent packet).tx_buffer (TxState.buffer_start d.tx_buffer_index)
      (max packet.length 60) = bytes (copy d.tx_buffer (TxState.buffer_start d.tx_buffer_index)
        packet) (TxState.buffer_start d.tx_buffer_index) (max packet.length 60) := by
    apply bytes_congr
    intro x hx
    have hlt := hx.2
    simp only [sent]
    rw [copy_eq_ite _ _ _ x, if_neg (by omega)]
  rw [hsame]
  exact bytes_copy _ _ (word32 _)

/-- The zeros go to the end of the object, or behind it. -/
theorem object_sent_iff (hmin : 14 ≤ packet.length) :
    (∀ x < sizeof_object, (d.sent packet).object x = d.object x) ↔
      (packet.length < 60 → ∀ x, 8 * (d.tx_buffer_index + packet.length) ≤ x →
        x < sizeof_object → d.object x = 0) := by
  have hobject : sizeof_object = 136 := rfl
  unfold sent
  dsimp only
  split
  · rename_i hshort
    constructor
    · intro h _ x hlow hhigh
      rw [← h x hhigh, clear, overwrite_of_mem ⟨hlow, by omega⟩]
    · intro h x hx
      by_cases hmem : x ∈ Set.Ico (8 * (d.tx_buffer_index + packet.length))
          (8 * (d.tx_buffer_index + packet.length) + (60 - packet.length))
      · rw [clear, overwrite_of_mem hmem, h hshort x hmem.1 hx]
      · rw [clear, overwrite_of_notMem hmem]
  · rename_i hlong
    exact ⟨fun _ h => absurd h hlong, fun _ _ _ => rfl⟩

/-- A packet and its checksum stay in their buffer. -/
theorem others_sent (hmax : packet.length ≤ 1514) {j x : Nat} (hj : j ≠ d.tx_buffer_index)
    (hx : x ∈ Set.Ico (TxState.buffer_start j) (TxState.buffer_start j + 4096)) :
    (d.sent packet).tx_buffer x = d.tx_buffer x := by
  obtain ⟨hlow, hhigh⟩ := hx
  have hcrc : ∀ w, (word32 w).length = 4 := fun _ => rfl
  unfold TxState.buffer_start at hlow hhigh
  simp only [sent, TxState.buffer_start]
  rw [copy_eq_ite, if_neg (by rw [hcrc]; omega), copy_eq_ite, if_neg (by omega)]

end TxDevice

/-! ## When a frame is exact -/

/-- **A call sends its packet, and changes nothing else, exactly when** the old content of the
    buffer is zero where the padding should be, the fields that the zeros go to are zero, and the
    old length has no bit that the new one does not have. -/
theorem exact_frame_iff (d : TxDevice) (buffer : UInt64) (packet : List UInt8)
    (hready : d.tx_ready = true)
    (hbuffer : (buffer - UInt64.ofNat KERNEL_START).toNat < 2 ^ 32)
    (hmin : 14 ≤ packet.length) (hmax : packet.length ≤ 1514) :
    ∃ d', d.tx_async buffer packet = .ok (true, d') ∧
      (SendsExactly d packet d' ↔
        bytes d.tx_buffer (TxState.buffer_start d.tx_buffer_index + packet.length)
            (60 - packet.length) = List.replicate (60 - packet.length) 0 ∧
        (packet.length < 60 → ∀ x, 8 * (d.tx_buffer_index + packet.length) ≤ x →
          x < sizeof_object → d.object x = 0) ∧
        (d.tx_status d.tx_buffer_index % 2 ^ 13) ||| (max packet.length 60 + 4) =
          max packet.length 60 + 4) := by
  have hlength : (d.sent packet).tx_status d.tx_buffer_index % 2 ^ 13 =
      (d.tx_status d.tx_buffer_index % 2 ^ 13) ||| (max packet.length 60 + 4) := by
    have hupdate : (d.sent packet).tx_status d.tx_buffer_index =
        TxState.start_status (d.tx_status d.tx_buffer_index) (max packet.length 60 + 4) :=
      Function.update_self _ _ _
    rw [hupdate, start_status_mod _ (by omega)]
  refine ⟨d.sent packet, TxDevice.tx_async_of_ready hready hbuffer packet, ?_, ?_⟩
  · intro h
    refine ⟨?_, (TxDevice.object_sent_iff hmin).mp h.object, ?_⟩
    · have hdata := h.data
      rw [TxDevice.bytes_sent, padded] at hdata
      exact List.append_cancel_left hdata
    · rw [← hlength, h.length]
  · rintro ⟨hzeros, hobject, hbits⟩
    have hdata : bytes (d.sent packet).tx_buffer (TxState.buffer_start d.tx_buffer_index)
        (max packet.length 60) = padded packet := by
      rw [TxDevice.bytes_sent, hzeros, padded]
    have hcrc := TxDevice.bytes_sent_crc d packet
    rw [hdata] at hcrc
    rw [hbits] at hlength
    refine ⟨hdata, hcrc, hlength, (TxDevice.object_sent_iff hmin).mpr hobject,
      fun j _ hj x hx => TxDevice.others_sent hmax hj hx, ?_⟩
    rw [TxDevice.frame, hlength, bytes_add, hdata, hcrc, wire_frame]

/-- A device that has not sent anything, with one packet in its queue. -/
def fresh_device : TxDevice where
  object := copy (fun _ => 0) 128 [1]
  tx_buffer := fun _ => 0
  tx_status := fun _ => 2 ^ 13

/-- The same without a packet in its queue. -/
def idle_device : TxDevice := { fresh_device with object := fun _ => 0 }

/-- The first packet, padded with 46 zeros. The fields that the other zeros go to are zero. -/
theorem first_packet_exact : ∃ d',
    idle_device.tx_async 0xffff800004000000 (List.replicate 14 0xff) = .ok (true, d') ∧
    SendsExactly idle_device (List.replicate 14 0xff) d' := by
  obtain ⟨d', hsent, hiff⟩ := exact_frame_iff idle_device 0xffff800004000000
    (List.replicate 14 0xff) (by decide) (by decide) (by decide) (by decide)
  exact ⟨d', hsent, hiff.mpr ⟨rfl, fun _ _ _ _ => rfl, by decide⟩⟩

/-- The card is done with a packet, and `handle_tx` goes on to the next descriptor. -/
def TxDevice.completed (d : TxDevice) : TxDevice :=
  let i := d.tx_buffer_index
  { d with
    object := overwrite d.object 56 4 (byte ((i + 1) % 4))
    tx_status := Function.update d.tx_status i (d.tx_status i ||| 2 ^ 13) }

/-- The packets are sent, one after the other. -/
def TxDevice.send_all (d : TxDevice) (packets : List (List UInt8)) : Except Fault TxDevice :=
  packets.foldlM (fun d packet => do
    let r ← d.tx_async 0xffff800004000000 packet
    pure r.2.completed) d

/-- Four packets of 64 bytes, and then a short one: it is padded with the bytes of the first packet,
    the frame is as long as the first one was, and a packet is lost from the queue. -/
theorem short_packet_not_exact : ∃ d d',
    fresh_device.send_all (List.replicate 4 (List.replicate 64 0xff)) = .ok d ∧
    d.tx_ready = true ∧
    d.tx_async 0xffff800004000000 (List.replicate 14 0x11) = .ok (true, d') ∧
    bytes d'.tx_buffer 0 60 = List.replicate 14 0x11 ++ List.replicate 46 0xff ∧
    d'.tx_status 0 % 2 ^ 13 = 68 ∧
    load64 d.object 128 = 1 ∧ load64 d'.object 128 = 0 := by
  have hrun : (do
      let d ← fresh_device.send_all (List.replicate 4 (List.replicate 64 0xff))
      let r ← d.tx_async 0xffff800004000000 (List.replicate 14 0x11)
      pure ((d.tx_ready, r.1, bytes r.2.tx_buffer 0 60), r.2.tx_status 0 % 2 ^ 13,
        load64 d.object 128, load64 r.2.object 128)) =
      .ok ((true, true, List.replicate 14 0x11 ++ List.replicate 46 0xff), 68, 1, 0) := by
    decide +kernel
  obtain ⟨d, hd, hrun⟩ := except_bind_ok hrun
  obtain ⟨⟨sent, d'⟩, hd', hrun⟩ := except_bind_ok hrun
  obtain ⟨hfirst, hrest⟩ := Prod.mk.inj (Except.ok.inj hrun)
  obtain ⟨hready, hfirst⟩ := Prod.mk.inj hfirst
  obtain ⟨rfl, hbytes⟩ := Prod.mk.inj hfirst
  obtain ⟨hlength, hrest⟩ := Prod.mk.inj hrest
  obtain ⟨hbefore, hafter⟩ := Prod.mk.inj hrest
  exact ⟨d, d', hd, hready, hd', hbytes, hlength, hbefore, hafter⟩

/-! ## The steps of the thread -/

/-- The state of the thread has the same buffers, descriptors and indices as the object. -/
structure Represents {Ptr : Type} (s : TxState Ptr) (d : TxDevice) : Prop where
  tx_buffer : s.tx_buffer = d.tx_buffer
  tx_status : s.tx_status = d.tx_status
  tx_buffer_index : s.tx_buffer_index = d.tx_buffer_index
  rx_start_ : s.q.queue.rx_start_ = load64 d.object 120
  rx_end_ : s.q.queue.rx_end_ = load64 d.object 128

namespace TxDevice

variable {d : TxDevice} {packet : List UInt8}

/-- The zeros do not reach the index of the descriptor. -/
theorem tx_buffer_index_sent (hmin : 14 ≤ packet.length) :
    (d.sent packet).tx_buffer_index = d.tx_buffer_index := by
  apply load32_congr
  intro x hx
  have hlt := hx.2
  unfold sent
  dsimp only
  split
  · rw [clear, overwrite_of_notMem (fun hmem => by have := hmem.1; omega)]
  · rfl

/-- A field behind the pointers of `rx_queue_` is cleared as a whole, or not at all. -/
theorem load64_sent (hmin : 14 ≤ packet.length) {a : Nat} (ha : a = 120 ∨ a = 128) :
    load64 (d.sent packet).object a =
      if packet.length < 60 ∧ 8 * (d.tx_buffer_index + packet.length) ≤ a then 0
      else load64 d.object a := by
  unfold sent
  dsimp only
  by_cases hshort : packet.length < 60
  · rw [if_pos hshort]
    by_cases hlow : 8 * (d.tx_buffer_index + packet.length) ≤ a
    · rw [if_pos ⟨hshort, hlow⟩]
      exact load64_clear hlow (by omega)
    · rw [if_neg (fun h => hlow h.2)]
      apply load64_congr
      intro x hx
      have hlt := hx.2
      rw [clear, overwrite_of_notMem (fun hmem => by have := hmem.1; omega)]
  · rw [if_neg hshort, if_neg (fun h => hshort h.1)]

end TxDevice

section thread

variable {Ptr : Type} {s : TxState Ptr} {d : TxDevice} {packet : List UInt8}

/-- The state after the steps of the thread in `tx_async`. -/
def TxState.sent (s : TxState Ptr) (packet : List UInt8) : TxState Ptr :=
  let i := s.tx_buffer_index
  let start := buffer_start i
  let size := max packet.length 60
  let tx_buffer := copy s.tx_buffer start packet
  let crc32 := crc32iso_hdlc 0 (bytes tx_buffer start size)
  { s with
    q := { s.q with
      queue := if packet.length < 60 then
          s.q.queue.memset_zero (8 * (i + packet.length)) (60 - packet.length)
        else s.q.queue }
    tx_buffer := copy tx_buffer (start + size) (word32 crc32.toNat)
    tx_status := Function.update s.tx_status i (start_status (s.tx_status i) (size + 4))
    nic := Function.update s.nic i .started
    pc := .wait }

theorem TxState.exec_sent [DecidableEq Ptr] (hready : s.tx_ready = true)
    (hpacket : (s.q.mem s.q.consumer).bytes = packet) (hpc : s.pc = .tx_async packet.length) :
    (List.replicate 5 TxEvent.thread).foldlM TxState.exec s = some (s.sent packet) := by
  by_cases hshort : packet.length < 60
  · have hmax : max packet.length 60 = 60 := by omega
    simp [List.replicate, exec, thread, hpc, hready, hpacket, hshort, sent, hmax]
  · have hmax : max packet.length 60 = packet.length := by omega
    simp [List.replicate, exec, thread, hpc, hready, hpacket, hshort, sent, hmax]

theorem Represents.sent (h : Represents s d) (hmin : 14 ≤ packet.length) :
    Represents (s.sent packet) (d.sent packet) := by
  have hindex := h.tx_buffer_index
  refine ⟨?_, ?_, ?_, ?_, ?_⟩
  · simp only [TxState.sent, TxDevice.sent, h.tx_buffer, hindex]
  · simp only [TxState.sent, TxDevice.sent, h.tx_status, hindex]
  · rw [TxDevice.tx_buffer_index_sent hmin]
    exact hindex
  · rw [TxDevice.load64_sent hmin (.inl rfl), ← h.rx_start_, ← hindex]
    simp only [TxState.sent]
    split
    · simp only [SSQueue.memset_zero]
      exact if_congr (by omega) rfl rfl
    · rw [if_neg (by omega)]
  · rw [TxDevice.load64_sent hmin (.inr rfl), ← h.rx_end_, ← hindex]
    simp only [TxState.sent]
    split
    · simp only [SSQueue.memset_zero]
      exact if_congr (by omega) rfl rfl
    · rw [if_neg (by omega)]

/-- **The five steps of the thread in `tx_async` are the call**, if nobody comes in between. -/
theorem thread_tx_async [DecidableEq Ptr] (h : Represents s d)
    (hpacket : (s.q.mem s.q.consumer).bytes = packet) (hpc : s.pc = .tx_async packet.length)
    (hready : d.tx_ready = true) {buffer : UInt64}
    (hbuffer : (buffer - UInt64.ofNat KERNEL_START).toNat < 2 ^ 32) :
    ∃ s' d', (List.replicate 5 TxEvent.thread).foldlM TxState.exec s = some s' ∧
      d.tx_async buffer packet = .ok (true, d') ∧ Represents s' d' := by
  have hready' : s.tx_ready = true := by
    rw [TxState.tx_ready, h.tx_status, h.tx_buffer_index]
    exact hready
  have hmin : 14 ≤ packet.length := by
    rw [← hpacket, EthernetPacket.length_bytes]
    exact Nat.le_add_right _ _
  exact ⟨s.sent packet, d.sent packet, TxState.exec_sent hready' hpacket hpc,
    TxDevice.tx_async_of_ready hready hbuffer packet, h.sent hmin⟩

end thread

end Modern05
