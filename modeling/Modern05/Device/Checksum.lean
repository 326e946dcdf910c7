import Modern05.Device.Rtl8139
import Modern05.Framework.Crc
import Mathlib.Data.Nat.Bitwise

/-! # The checksum of frames

    `crc32iso_hdlc` of `device/rtl8139.cpp` computes the remainder that gives CRC-32/ISO-HDLC its
    name, in a reflected register of 64 bits of which it uses 32. The bits of a message are taken
    from the lowest one of each byte on.

    A checksum of 32 bits finds every burst of at most 32 bits, whatever the length of the frame.
    So `handle_rx` does not hand on such a frame.
-/

namespace Modern05

open Memory Polynomial

/-! ## The remainder -/

/-- The bits of a message, the lowest bit of each byte first. -/
def message_bits (data : List UInt8) : List Bool := Crc.message 8 (data.map UInt8.toNat)

/-- `X ^ 32` and the bits of 0x04C11DB7, the highest first. -/
noncomputable def crc32_polynomial : (ZMod 2)[X] :=
  X ^ 32 + Crc.poly (Crc.bits 32 0x04C11DB7).reverse

/-- CRC-32/ISO-HDLC: the register starts with ones, the remainder is reflected, and its bits are
    inverted in the end. -/
noncomputable def crc32 (data : List UInt8) : Nat :=
  Crc.number 32
    ((Crc.poly (List.replicate 32 true) * X ^ (data.length * 8) +
      Crc.poly (message_bits data) * X ^ 32) %ₘ crc32_polynomial) ^^^ 0xFFFFFFFF

/-- The constant of the source is the polynomial from its other end. -/
theorem generator_eq : Crc.generator 32 0xedb88320 = crc32_polynomial := by
  have hbits : Crc.bits 32 0xedb88320 = (Crc.bits 32 0x04C11DB7).reverse := by decide
  rw [Crc.generator, crc32_polynomial, hbits]

/-! ## The register -/

theorem toNat_crc32_bit (crc : UInt64) :
    (crc32_bit crc).toNat = Crc.shift 0xedb88320 crc.toNat := by
  have hodd : crc &&& 1 ≠ 0 ↔ crc.toNat.testBit 0 = true := by
    rw [ne_eq, ← UInt64.toNat_inj, UInt64.toNat_and, Nat.testBit_zero, decide_eq_true_iff]
    change ¬ crc.toNat &&& 1 = 0 ↔ _
    rw [Nat.and_one_is_mod]
    omega
  unfold crc32_bit Crc.shift
  by_cases h : crc &&& 1 ≠ 0
  · rw [if_pos h, if_pos (hodd.mp h), UInt64.toNat_xor, UInt64.toNat_shiftRight]
    rfl
  · rw [if_neg h, if_neg (mt hodd.mpr h), UInt64.toNat_shiftRight]
    rfl

theorem toNat_crc32_byte (crc : UInt64) (byte : UInt8) :
    (crc32_byte crc byte).toNat = Crc.feed 8 0xedb88320 crc.toNat byte.toNat := by
  have hbits : ∀ n (c : UInt64),
      (Nat.iterate crc32_bit n c).toNat = (Crc.shift 0xedb88320)^[n] c.toNat := by
    intro n
    induction n with
    | zero => exact fun c => rfl
    | succ n ih =>
      intro c
      rw [Function.iterate_succ_apply, Function.iterate_succ_apply, ih, toNat_crc32_bit]
  rw [crc32_byte, hbits, UInt64.toNat_xor, UInt8.toNat_toUInt64, Crc.feed]

theorem toNat_foldl_crc32_byte (crc : UInt64) (data : List UInt8) :
    (data.foldl crc32_byte crc).toNat =
      (data.map UInt8.toNat).foldl (Crc.feed 8 0xedb88320) crc.toNat := by
  induction data generalizing crc with
  | nil => rfl
  | cons byte data ih => rw [List.foldl_cons, ih, toNat_crc32_byte, List.map_cons, List.foldl_cons]

theorem toNat_crc32iso_hdlc (crc : UInt64) (data : List UInt8) :
    (crc32iso_hdlc crc data).toNat =
      (data.map UInt8.toNat).foldl (Crc.feed 8 0xedb88320) (crc.toNat ^^^ 0xFFFFFFFF) ^^^
        0xFFFFFFFF := by
  rw [crc32iso_hdlc, UInt64.toNat_xor, toNat_foldl_crc32_byte, UInt64.toNat_xor]
  rfl

theorem map_toNat_lt (data : List UInt8) : ∀ u ∈ data.map UInt8.toNat, u < 2 ^ 8 := by
  intro u hu
  obtain ⟨byte, -, rfl⟩ := List.mem_map.mp hu
  exact byte.toNat_lt

/-- The second inversion of one call is undone by the first one of the next. -/
theorem crc32iso_hdlc_append (crc : UInt64) (a b : List UInt8) :
    crc32iso_hdlc (crc32iso_hdlc crc a) b = crc32iso_hdlc crc (a ++ b) := by
  have hinvert : ∀ x : UInt64, x ^^^ 0xffffffff ^^^ 0xffffffff = x := by
    intro x
    rw [UInt64.xor_assoc, UInt64.xor_self, UInt64.xor_zero]
  rw [crc32iso_hdlc, crc32iso_hdlc, crc32iso_hdlc, hinvert, List.foldl_append]

theorem crc32iso_hdlc_lt_of_lt {crc : UInt64} (h : crc.toNat < 2 ^ 32) (data : List UInt8) :
    (crc32iso_hdlc crc data).toNat < 2 ^ 32 := by
  rw [toNat_crc32iso_hdlc]
  exact Nat.xor_lt_two_pow
    (Crc.foldl_feed_lt (by decide) (by decide) (map_toNat_lt data)
      (Nat.xor_lt_two_pow h (by decide))) (by decide)

/-- The call on a whole message is the remainder. -/
theorem crc32iso_hdlc_zero (data : List UInt8) : (crc32iso_hdlc 0 data).toNat = crc32 data := by
  have hstart : (0 : UInt64).toNat ^^^ 0xFFFFFFFF = 0xFFFFFFFF := by decide
  have hones : Crc.bits 32 0xFFFFFFFF = List.replicate 32 true := by decide
  have hregister := Crc.poly_foldl_feed (w := 32) (k := 8) (g := 0xedb88320) (v := 0xFFFFFFFF)
    (by decide) (by decide) (map_toNat_lt data) (by decide)
  rw [List.length_map, hones, generator_eq] at hregister
  rw [toNat_crc32iso_hdlc, crc32, hstart, message_bits, ← hregister, Crc.number_poly_bits]
  exact Crc.foldl_feed_lt (by decide) (by decide) (map_toNat_lt data) (by decide)

/-- **The checksum in parts.** A second call goes on where the first one stopped, the results have
    32 bits, and the call that starts from 0 is CRC-32/ISO-HDLC. -/
theorem crc32iso_hdlc_incremental (c : UInt32) (a b : List UInt8) :
    crc32iso_hdlc (crc32iso_hdlc c.toUInt64 a) b = crc32iso_hdlc c.toUInt64 (a ++ b) ∧
      (crc32iso_hdlc c.toUInt64 a).toNat < 2 ^ 32 ∧
      (crc32iso_hdlc 0 a).toNat = crc32 a := by
  refine ⟨crc32iso_hdlc_append _ a b, crc32iso_hdlc_lt_of_lt ?_ a, crc32iso_hdlc_zero a⟩
  rw [UInt32.toNat_toUInt64]
  exact c.toNat_lt

/-- The check value of the algorithm, over the digits from 1 to 9. -/
example : crc32iso_hdlc 0 [0x31, 0x32, 0x33, 0x34, 0x35, 0x36, 0x37, 0x38, 0x39] = 0xCBF43926 := by
  decide +kernel

/-! ## Bursts -/

/-- The checksums of two messages differ, if the messages do so in a window of 32 bits. -/
theorem crc32iso_hdlc_ne_of_burst {a b : List UInt8} (hlen : a.length = b.length) (hne : a ≠ b)
    (hburst : Crc.DiffersInWindow 32 (message_bits a) (message_bits b)) :
    crc32iso_hdlc 0 a ≠ crc32iso_hdlc 0 b := by
  have htoNat : Function.Injective UInt8.toNat := fun _ _ h => UInt8.toNat_inj.mp h
  have hregisters := Crc.foldl_feed_ne_of_differsInWindow (w := 32) (k := 8) (g := 0xedb88320)
    (v := (0 : UInt64).toNat ^^^ 0xFFFFFFFF) (by decide) (by decide) (by decide) (by decide)
    (by decide) (map_toNat_lt a) (map_toNat_lt b) (by simpa using hlen) hburst
    (fun h => hne (List.map_injective_iff.mpr htoNat h))
  intro h
  have h := congrArg UInt64.toNat h
  rw [toNat_crc32iso_hdlc, toNat_crc32iso_hdlc] at h
  exact hregisters (Nat.xor_left_inj.mp h)

namespace RxDevice

/-- A frame that ends with the checksum of other data is dropped. -/
theorem handle_rx_of_other_checksum {d : RxDevice} {sent received : List UInt8}
    (h : Stored d.rx_buffer d.rx_offset (received ++ word32 (crc32iso_hdlc 0 sent).toNat))
    (hne : crc32iso_hdlc 0 sent ≠ crc32iso_hdlc 0 received) :
    d.handle_rx = some (none, d.consume_rx (received.length + 4)) := by
  obtain ⟨hsize, hbytes⟩ := h
  have hlength : (received ++ word32 (crc32iso_hdlc 0 sent).toNat).length =
      received.length + 4 := by
    simp [word32]
  have hsize : d.packet_size = received.length + 4 := hsize.trans hlength
  rw [hlength, bytes_add] at hbytes
  obtain ⟨hdata, hcrc⟩ := List.append_inj hbytes (by simp [length_bytes])
  have hstored := load32_of_bytes hcrc (crc32iso_hdlc_lt sent)
  dsimp only [handle_rx]
  rw [hsize, Nat.add_sub_cancel, hdata, hstored, if_neg (by omega), if_neg (by omega), if_pos]
  exact fun h => hne (UInt64.toNat_inj.mp h)

end RxDevice

/-- **Every short burst is found.** The checksums of two messages of one length differ, if the
    messages differ, but only in at most 32 consecutive bits; and a frame with such an error
    before its checksum is dropped. -/
theorem short_burst_detected :
    (∀ a b : List UInt8, a.length = b.length → a ≠ b →
      Crc.DiffersInWindow 32 (message_bits a) (message_bits b) →
      crc32iso_hdlc 0 a ≠ crc32iso_hdlc 0 b) ∧
    (∀ (d : RxDevice) (sent received : List UInt8), sent.length = received.length →
      sent ≠ received → Crc.DiffersInWindow 32 (message_bits sent) (message_bits received) →
      Stored d.rx_buffer d.rx_offset (received ++ word32 (crc32iso_hdlc 0 sent).toNat) →
      d.handle_rx = some (none, d.consume_rx (received.length + 4))) :=
  ⟨fun _ _ hlen hne hburst => crc32iso_hdlc_ne_of_burst hlen hne hburst,
    fun _ _ _ hlen hne hburst hstored =>
      RxDevice.handle_rx_of_other_checksum hstored (crc32iso_hdlc_ne_of_burst hlen hne hburst)⟩

/-- Nine bits are inverted, over the end of the first byte. -/
def inverted_frame : RxDevice where
  mac := Vector.replicate 6 0
  rx_buffer := copy (fun _ => 0) 0 [0, 0, 6, 0, 0xfe, 0x03, 0x92, 0x42, 0xcc, 0xb6]
  rx_offset := 0
  current_address_of_packet_read := 0

theorem inverted_frame_dropped :
    inverted_frame.handle_rx = some (none, inverted_frame.consume_rx 6) :=
  short_burst_detected.2 inverted_frame [0x01, 0x02] [0xfe, 0x03] rfl (by decide)
    ⟨[], (message_bits [0x01, 0x02]).take 9, (message_bits [0xfe, 0x03]).take 9,
      (message_bits [0x01, 0x02]).drop 9, by decide, by decide, by decide, by decide⟩
    ⟨by decide +kernel, by decide +kernel⟩

end Modern05
