import Modern05.Framework.Memory
import Modern05.Lib.Utils

/-! # The network card

    The part of `Rtl8139Device` in `device/rtl8139.cpp` that receives frames: the checksum,
    `handle_rx` and `consume_rx` on the ring that the card writes to, and what `irq` does for
    each bit of the interrupt status register.

    A register is a map from the numbers of its bits. `irq` is a list of blocks, one for each
    `if` of the source, in their order. Offsets are numbers; `consume_rx_words` has the widths of
    the source, and follows `consume_rx` through every sequence of calls (`holds_consume_all`).
-/

namespace Modern05

open Memory

/-! ## Registers -/

/-- The bits of the interrupt status register. -/
def RxOk : Nat := 0
def RxError : Nat := 1
def TxOk : Nat := 2
def TxError : Nat := 3
def RxOverflow : Nat := 4
def RxFifoOverflow : Nat := 6
def Timeout : Nat := 14
def RxAck : List Nat := [RxOk, RxOverflow, RxFifoOverflow]

abbrev Isr := Nat → Bool

/-- A bit is cleared by writing 1 to it. -/
def Isr.write (isr : Isr) (bits : List Nat) : Isr := fun b => isr b && !bits.contains b

/-- The card sets a bit. -/
def Isr.raise (isr : Isr) (bit : Nat) : Isr := Function.update isr bit true

/-- `regs->isr == 0` -/
def Isr.zero (isr : Isr) : Bool := (List.range 16).all (fun b => !isr b)

theorem Isr.write_le {isr : Isr} {bits : List Nat} {b : Nat} (h : isr.write bits b = true) :
    isr b = true := by
  simp [Isr.write] at h
  exact h.1

theorem Isr.write_of_mem (isr : Isr) {bits : List Nat} {b : Nat} (h : b ∈ bits) :
    isr.write bits b = false := by
  simp [Isr.write, h]

theorem Isr.raise_of_true {isr : Isr} {bit b : Nat} (h : isr b = true) :
    isr.raise bit b = true := by
  by_cases hb : b = bit
  · simp [Isr.raise, hb]
  · simp [Isr.raise, hb, h]

theorem Isr.raise_of_ne (isr : Isr) {bit b : Nat} (h : b ≠ bit) : isr.raise bit b = isr b :=
  Function.update_of_ne h _ _

theorem Isr.zero_of_true {isr : Isr} {b : Nat} (hb : b < 16) (h : isr b = true) :
    isr.zero = false := by
  simp [Isr.zero]
  exact ⟨b, hb, h⟩

/-! ## Frames -/

abbrev EthernetAddress := Vector UInt8 6

def EthernetAddress.IsBroadcast (a : EthernetAddress) : Bool := a.all (· == 0xff)

def EtherTypeIPv4 : Nat := 0x0800
def EtherTypeARP : Nat := 0x0806

/-- The arguments of `RxUpper`. -/
structure Upper where
  dst : EthernetAddress
  src : EthernetAddress
  protocol : Nat
  data : List UInt8
  deriving DecidableEq

/-- The address that is stored at `a`. -/
def load_address (m : Bytes) (a : Nat) : EthernetAddress := Vector.ofFn (fun i => m (a + i))

/-- A 16-bit number in network order. -/
def load_be16 (m : Bytes) (a : Nat) : Nat := 256 * (m a).toNat + (m (a + 1)).toNat

theorem load_address_congr {m m' : Bytes} {a : Nat} (h : ∀ x ∈ Set.Ico a (a + 6), m' x = m x) :
    load_address m' a = load_address m a := by
  unfold load_address
  congr 1
  funext i
  exact h _ ⟨Nat.le_add_right _ _, Nat.add_lt_add_left i.isLt a⟩

theorem load_address_of_bytes {m : Bytes} {a : Nat} {v : EthernetAddress}
    (h : bytes m a 6 = v.toList) : load_address m a = v := by
  ext i hi
  have hbyte : m (a + i) = v[i] := by
    have hget := congrArg (fun l => l[i]?) h
    simpa [bytes, hi] using hget
  rw [load_address, Vector.getElem_ofFn, hbyte]

theorem load_be16_of_bytes {m : Bytes} {a v : Nat} (hv : v < 2 ^ 16)
    (h : bytes m a 2 = [UInt8.ofNat (v / 256), UInt8.ofNat v]) : load_be16 m a = v := by
  obtain ⟨h0, h1⟩ : m a = UInt8.ofNat (v / 256) ∧ m (a + 1) = UInt8.ofNat v := by
    simpa [bytes, List.range_succ] using h
  rw [load_be16, h0, h1, UInt8.toNat_ofNat', UInt8.toNat_ofNat']
  omega

/-- One bit of the checksum. -/
def crc32_bit (crc : UInt64) : UInt64 :=
  if crc &&& 1 ≠ 0 then (crc >>> 1) ^^^ 0xedb88320 else crc >>> 1

def crc32_byte (crc : UInt64) (byte : UInt8) : UInt64 :=
  Nat.iterate crc32_bit 8 (crc ^^^ byte.toUInt64)

def crc32iso_hdlc (crc : UInt64) (data : List UInt8) : UInt64 :=
  data.foldl crc32_byte (crc ^^^ 0xffffffff) ^^^ 0xffffffff

/-! The checksum has 32 bits, although it is computed with 64. -/

theorem xor_lt {a b : UInt64} (ha : a.toNat < 2 ^ 32) (hb : b.toNat < 2 ^ 32) :
    (a ^^^ b).toNat < 2 ^ 32 := by
  rw [UInt64.toNat_xor]
  exact Nat.xor_lt_two_pow ha hb

theorem crc32_bit_lt {crc : UInt64} (h : crc.toNat < 2 ^ 32) : (crc32_bit crc).toNat < 2 ^ 32 := by
  have hshift : (crc >>> 1).toNat < 2 ^ 32 := by
    rw [UInt64.toNat_shiftRight, Nat.shiftRight_eq_div_pow]
    exact Nat.lt_of_le_of_lt (Nat.div_le_self _ _) h
  unfold crc32_bit
  split
  · exact xor_lt hshift (by decide)
  · exact hshift

theorem crc32_byte_lt {crc : UInt64} (h : crc.toNat < 2 ^ 32) (byte : UInt8) :
    (crc32_byte crc byte).toNat < 2 ^ 32 := by
  have hbits : ∀ n (c : UInt64), c.toNat < 2 ^ 32 → (Nat.iterate crc32_bit n c).toNat < 2 ^ 32 := by
    intro n
    induction n with
    | zero => exact fun c hc => hc
    | succ n ih => exact fun c hc => ih _ (crc32_bit_lt hc)
  have hbyte : byte.toUInt64.toNat < 2 ^ 32 := by
    rw [UInt8.toNat_toUInt64]
    exact Nat.lt_trans byte.toNat_lt (by decide)
  exact hbits 8 _ (xor_lt h hbyte)

theorem crc32iso_hdlc_lt (data : List UInt8) : (crc32iso_hdlc 0 data).toNat < 2 ^ 32 := by
  have hfold : ∀ c : UInt64, c.toNat < 2 ^ 32 → (data.foldl crc32_byte c).toNat < 2 ^ 32 := by
    induction data with
    | nil => exact fun c hc => hc
    | cons byte data ih => exact fun c hc => ih _ (crc32_byte_lt hc byte)
  exact xor_lt (hfold _ (by decide)) (by decide)

/-! ## The receive ring -/

/-- The size of the ring. A frame that starts in it is written without a gap. -/
def RX_RING_SIZE : Nat := 8192

/-- The frame is stored at the address, behind its header. -/
def Stored (m : Bytes) (a : Nat) (frame : List UInt8) : Prop :=
  load32 m a / 2 ^ 16 = frame.length ∧ bytes m (a + 4) frame.length = frame

structure RxDevice where
  mac : EthernetAddress
  rx_buffer : Bytes
  rx_offset : Nat
  current_address_of_packet_read : Nat

namespace RxDevice

/-- What a frame takes in the ring: its header of four bytes, and the end is aligned. -/
def stride (packet_size : Nat) : Nat := (packet_size + 4 + 3) / 4 * 4

def consume_rx (d : RxDevice) (packet_size : Nat) : RxDevice :=
  -- align 4byte
  let rx_offset := (d.rx_offset + packet_size + 4 + 3) / 4 * 4
  { d with
    current_address_of_packet_read := (rx_offset + 2 ^ 32 - 0x10) % 2 ^ 16
    rx_offset := rx_offset % RX_RING_SIZE }

/-- From an aligned offset the driver goes on by what the frame takes. -/
theorem rx_offset_consume_rx {d : RxDevice} (h : d.rx_offset % 4 = 0) (packet_size : Nat) :
    (d.consume_rx packet_size).rx_offset =
      (d.rx_offset + stride packet_size) % RX_RING_SIZE := by
  show (d.rx_offset + packet_size + 4 + 3) / 4 * 4 % RX_RING_SIZE = _
  rw [stride]
  congr 1
  omega

/-- The size in the header at the read offset. -/
def packet_size (d : RxDevice) : Nat := load32 d.rx_buffer d.rx_offset / 2 ^ 16

/-- The call of `RxUpper`, if there is one, and the device afterwards. Sizes below those of
    the checksum and of the header wrap around, and the call does not return. -/
def handle_rx (d : RxDevice) : Option (Option Upper × RxDevice) :=
  let packet_size := d.packet_size
  let data := d.rx_offset + 4
  if packet_size = 0 then some (none, d)
  else if packet_size < 4 then none
  else if load32 d.rx_buffer (data + (packet_size - 4)) ≠
      (crc32iso_hdlc 0 (bytes d.rx_buffer data (packet_size - 4))).toNat then
    -- drop packet crc32 not matched
    some (none, d.consume_rx packet_size)
  else if packet_size < 6 + 6 + 2 + 4 then none
  else
    let dst := load_address d.rx_buffer data
    let src := load_address d.rx_buffer (data + 6)
    let protocol := load_be16 d.rx_buffer (data + 12)
    let upper := bytes d.rx_buffer (data + 14) (packet_size - 6 - 6 - 2 - 4)
    -- drop non-unicast packet
    if !dst.IsBroadcast && dst != d.mac then some (none, d.consume_rx packet_size)
    else some (some ⟨dst, src, protocol, upper⟩, d.consume_rx packet_size)

/-- The frame for which `handle_rx` reaches `consume_rx`. -/
def consumed_frame (d : RxDevice) : List (List UInt8) :=
  if d.packet_size = 0 then [] else [bytes d.rx_buffer (d.rx_offset + 4) d.packet_size]

/-- A call that returns has consumed the frame at the read offset, if its size is not 0. -/
theorem handle_rx_cases {d d' : RxDevice} {u : Option Upper} (h : d.handle_rx = some (u, d')) :
    (d.packet_size = 0 ∧ d' = d) ∨ (d.packet_size ≠ 0 ∧ d' = d.consume_rx d.packet_size) := by
  dsimp only [handle_rx] at h
  by_cases hzero : d.packet_size = 0
  · rw [if_pos hzero] at h
    cases h
    exact .inl ⟨hzero, rfl⟩
  · rw [if_neg hzero] at h
    right
    refine ⟨hzero, ?_⟩
    split_ifs at h <;> cases h <;> rfl

/-- A frame with a header and a checksum is consumed. -/
theorem handle_rx_returns {d : RxDevice} (h : 6 + 6 + 2 + 4 ≤ d.packet_size) :
    ∃ u, d.handle_rx = some (u, d.consume_rx d.packet_size) := by
  dsimp only [handle_rx]
  rw [if_neg (by omega), if_neg (by omega), if_neg (c := d.packet_size < 6 + 6 + 2 + 4) (by omega)]
  split_ifs
  · exact ⟨_, rfl⟩
  · exact ⟨_, rfl⟩
  · exact ⟨_, rfl⟩

/-- The call of `RxUpper` and the new offset depend on the bytes of the frame only. -/
theorem handle_rx_congr (d : RxDevice) (m : Bytes) (hlong : 6 + 6 + 2 + 4 ≤ d.packet_size)
    (hm : ∀ x ∈ Set.Ico d.rx_offset (d.rx_offset + 4 + d.packet_size), m x = d.rx_buffer x) :
    { d with rx_buffer := m }.handle_rx =
      d.handle_rx.map (fun r => (r.1, { r.2 with rx_buffer := m })) := by
  -- each access is to a part of the frame
  have hpart : ∀ a n, d.rx_offset ≤ a → a + n ≤ d.rx_offset + 4 + d.packet_size →
      ∀ x ∈ Set.Ico a (a + n), m x = d.rx_buffer x := by
    intro a n ha hn x hx
    exact hm x ⟨Nat.le_trans ha hx.1, Nat.lt_of_lt_of_le hx.2 hn⟩
  have hsize : RxDevice.packet_size { d with rx_buffer := m } = d.packet_size := by
    show load32 m d.rx_offset / 2 ^ 16 = load32 d.rx_buffer d.rx_offset / 2 ^ 16
    rw [load32_congr (hpart d.rx_offset 4 (by omega) (by omega))]
  have hcrc : load32 m (d.rx_offset + 4 + (d.packet_size - 4)) =
      load32 d.rx_buffer (d.rx_offset + 4 + (d.packet_size - 4)) :=
    load32_congr (hpart _ 4 (by omega) (by omega))
  have hdata : bytes m (d.rx_offset + 4) (d.packet_size - 4) =
      bytes d.rx_buffer (d.rx_offset + 4) (d.packet_size - 4) :=
    bytes_congr (hpart _ _ (by omega) (by omega))
  have hdst : load_address m (d.rx_offset + 4) = load_address d.rx_buffer (d.rx_offset + 4) :=
    load_address_congr (hpart _ 6 (by omega) (by omega))
  have hsrc : load_address m (d.rx_offset + 4 + 6) =
      load_address d.rx_buffer (d.rx_offset + 4 + 6) :=
    load_address_congr (hpart _ 6 (by omega) (by omega))
  have hprotocol : load_be16 m (d.rx_offset + 4 + 12) =
      load_be16 d.rx_buffer (d.rx_offset + 4 + 12) := by
    rw [load_be16, load_be16, hm _ ⟨by omega, by omega⟩, hm _ ⟨by omega, by omega⟩]
  have hupper : bytes m (d.rx_offset + 4 + 14) (d.packet_size - 6 - 6 - 2 - 4) =
      bytes d.rx_buffer (d.rx_offset + 4 + 14) (d.packet_size - 6 - 6 - 2 - 4) :=
    bytes_congr (hpart _ _ (by omega) (by omega))
  simp only [handle_rx, hsize, hcrc, hdata, hdst, hsrc, hprotocol, hupper]
  split_ifs <;> rfl

/-- The frame at the read offset has a header and the right checksum behind its data. -/
def checked (d : RxDevice) : Prop :=
  6 + 6 + 2 + 4 ≤ d.packet_size ∧
  load32 d.rx_buffer (d.rx_offset + 4 + (d.packet_size - 4)) =
    (crc32iso_hdlc 0 (bytes d.rx_buffer (d.rx_offset + 4) (d.packet_size - 4))).toNat

/-- It is for this host. -/
def addressed (d : RxDevice) : Prop :=
  (load_address d.rx_buffer (d.rx_offset + 4)).IsBroadcast = true ∨
    load_address d.rx_buffer (d.rx_offset + 4) = d.mac

/-- What `RxUpper` is called with. -/
def upper (d : RxDevice) : Upper :=
  ⟨load_address d.rx_buffer (d.rx_offset + 4), load_address d.rx_buffer (d.rx_offset + 4 + 6),
    load_be16 d.rx_buffer (d.rx_offset + 4 + 12),
    bytes d.rx_buffer (d.rx_offset + 4 + 14) (d.packet_size - 6 - 6 - 2 - 4)⟩

/-- Only a frame that passes both tests is handed on. -/
theorem handle_rx_upper {d d' : RxDevice} {u : Upper} (h : d.handle_rx = some (some u, d')) :
    d.checked ∧ d.addressed ∧ u = d.upper := by
  dsimp only [handle_rx] at h
  split_ifs at h with hzero htiny hcrc hshort hdst
  · cases h
  · cases h
  · cases h
  · cases h
    refine ⟨⟨by omega, not_not.mp hcrc⟩, ?_, rfl⟩
    simpa [addressed, or_iff_not_imp_left] using hdst

theorem handle_rx_of_checked {d : RxDevice} (hchecked : d.checked) (haddressed : d.addressed) :
    d.handle_rx = some (some d.upper, d.consume_rx d.packet_size) := by
  obtain ⟨hlong, hcrc⟩ := hchecked
  dsimp only [handle_rx]
  have hdst : ¬ (!(load_address d.rx_buffer (d.rx_offset + 4)).IsBroadcast &&
      load_address d.rx_buffer (d.rx_offset + 4) != d.mac) = true := by
    simpa [addressed, or_iff_not_imp_left] using haddressed
  rw [if_neg (by omega), if_neg (by omega), if_neg (not_not.mpr hcrc), if_neg (by omega),
    if_neg hdst]
  rfl

/-- A frame that ends with the checksum of its data passes the first test. -/
theorem checked_of_stored {d : RxDevice} {data : List UInt8}
    (h : Stored d.rx_buffer d.rx_offset (data ++ word32 (crc32iso_hdlc 0 data).toNat))
    (hlong : 6 + 6 + 2 ≤ data.length) : d.checked := by
  obtain ⟨hsize, hbytes⟩ := h
  have hlength : (data ++ word32 (crc32iso_hdlc 0 data).toNat).length = data.length + 4 := by
    simp [word32]
  have hsize : d.packet_size = data.length + 4 := hsize.trans hlength
  rw [hlength, bytes_add] at hbytes
  obtain ⟨hdata, hcrc⟩ := List.append_inj hbytes (by simp [length_bytes])
  refine ⟨by omega, ?_⟩
  rw [hsize, Nat.add_sub_cancel, hdata]
  exact load32_of_bytes hcrc (crc32iso_hdlc_lt data)

/-! ### The offset in machine words -/

/-- What `consume_rx` assigns to `rx_offset` and to the register: the sum has 64 bits as
    `packet_size` has, the offset 32 and the register 16. -/
def consume_rx_words (rx_offset : UInt32) (packet_size : UInt64) : UInt32 × UInt16 :=
  -- align 4byte
  let rx_offset := ((rx_offset.toUInt64 + packet_size + 4 + 3) &&& ~~~3).toUInt32
  -- below 16 the difference wraps, and the register keeps its low half
  (rx_offset % 8192, (rx_offset - 0x10).toUInt16)

/-- One call after another. -/
def consume_all (d : RxDevice) (sizes : List UInt64) : RxDevice :=
  sizes.foldl (fun d size => d.consume_rx size.toNat) d

def consume_all_words (w : UInt32 × UInt16) (sizes : List UInt64) : UInt32 × UInt16 :=
  sizes.foldl (fun w size => consume_rx_words w.1 size) w

theorem toNat_and_not_three (x : UInt64) : (x &&& ~~~3).toNat = x.toNat / 4 * 4 := by
  have hmask : (~~~3 : UInt64).toNat = (2 ^ 62 - 1) <<< 2 := rfl
  have hround : x.toNat / 4 * 4 = (x.toNat >>> 2) <<< 2 := by
    rw [Nat.shiftLeft_eq, Nat.shiftRight_eq_div_pow]
  rw [UInt64.toNat_and, hmask, hround]
  apply Nat.eq_of_testBit_eq
  intro i
  simp only [Nat.testBit_and, Nat.testBit_shiftLeft, Nat.testBit_shiftRight,
    Nat.testBit_two_pow_sub_one]
  by_cases h2 : 2 ≤ i
  · rw [Nat.add_sub_cancel' h2]
    by_cases h64 : i < 64
    · simp [h2, show i - 2 < 62 by omega]
    · -- Neither number has bits from 64 on.
      have hlt : x.toNat < 2 ^ i :=
        Nat.lt_of_lt_of_le x.toNat_lt (Nat.pow_le_pow_right (by omega) (by omega))
      rw [Nat.testBit_lt_two_pow hlt, Bool.false_and, Bool.and_false]
  · simp [h2]

/-- The words hold the numbers of the device. -/
def Holds (w : UInt32 × UInt16) (d : RxDevice) : Prop :=
  w.1.toNat = d.rx_offset ∧ w.2.toNat = d.current_address_of_packet_read

/-- No sum of a call overflows 32 bits. -/
theorem holds_consume_rx {d : RxDevice} {w : UInt32 × UInt16} {size : UInt64}
    (h : w.1.toNat = d.rx_offset) (hd : d.rx_offset < RX_RING_SIZE) (hsize : size < 65536) :
    Holds (consume_rx_words w.1 size) (d.consume_rx size.toNat) := by
  have hsize : size.toNat < 65536 := hsize
  unfold RX_RING_SIZE at hd
  have hsum : (w.1.toUInt64 + size + 4 + 3).toNat = d.rx_offset + size.toNat + 4 + 3 := by
    rw [UInt64.toNat_add, UInt64.toNat_add, UInt64.toNat_add, UInt32.toNat_toUInt64, h]
    show (((d.rx_offset + size.toNat) % 2 ^ 64 + 4) % 2 ^ 64 + 3) % 2 ^ 64 = _
    omega
  have hround : ((w.1.toUInt64 + size + 4 + 3) &&& ~~~3).toUInt32.toNat =
      (d.rx_offset + size.toNat + 4 + 3) / 4 * 4 := by
    rw [UInt64.toNat_toUInt32, toNat_and_not_three, hsum]
    omega
  unfold consume_rx_words consume_rx
  generalize ((w.1.toUInt64 + size + 4 + 3) &&& ~~~3).toUInt32 = o at hround
  rw [← hround]
  constructor
  · exact UInt32.toNat_mod o 8192
  · show (o - 0x10).toUInt16.toNat = (o.toNat + 2 ^ 32 - 0x10) % 2 ^ 16
    rw [UInt32.toNat_toUInt16, UInt32.toNat_sub]
    show (2 ^ 32 - 0x10 + o.toNat) % 2 ^ 32 % 2 ^ 16 = _
    omega

theorem consume_all_concat (d : RxDevice) (sizes : List UInt64) (size : UInt64) :
    d.consume_all (sizes ++ [size]) = (d.consume_all sizes).consume_rx size.toNat :=
  List.foldl_concat ..

theorem consume_all_words_concat (w : UInt32 × UInt16) (sizes : List UInt64) (size : UInt64) :
    consume_all_words w (sizes ++ [size]) =
      consume_rx_words (consume_all_words w sizes).1 size :=
  List.foldl_concat ..

/-- The offset of the device after any number of calls. -/
theorem rx_offset_consume_all {d : RxDevice} (hd : d.rx_offset = 0) (sizes : List UInt64) :
    (d.consume_all sizes).rx_offset =
      (sizes.map (fun size => stride size.toNat)).sum % RX_RING_SIZE ∧
      (sizes.map (fun size => stride size.toNat)).sum % 4 = 0 := by
  induction sizes using List.reverseRecOn with
  | nil => exact ⟨hd, rfl⟩
  | append_singleton sizes size ih =>
    obtain ⟨hoffset, hsum⟩ := ih
    have hstride : stride size.toNat % 4 = 0 := Nat.mul_mod_left _ 4
    have haligned : (d.consume_all sizes).rx_offset % 4 = 0 := by
      rw [hoffset, RX_RING_SIZE]
      omega
    rw [consume_all_concat, rx_offset_consume_rx haligned, hoffset, List.map_append,
      List.sum_append, List.map_singleton, List.sum_singleton]
    exact ⟨Nat.mod_add_mod _ _ _, by omega⟩

/-- **Simulation**: the words follow the device through every sequence of calls. -/
theorem holds_consume_all {d : RxDevice} (hd : d.rx_offset = 0) {w : UInt32 × UInt16}
    (h : Holds w d) {sizes : List UInt64} (hsizes : ∀ size ∈ sizes, size < 65536) :
    Holds (consume_all_words w sizes) (d.consume_all sizes) := by
  induction sizes using List.reverseRecOn with
  | nil => exact h
  | append_singleton sizes size ih =>
    have hlt : (d.consume_all sizes).rx_offset < RX_RING_SIZE := by
      rw [(rx_offset_consume_all hd sizes).1]
      exact Nat.mod_lt _ (by decide)
    have hprev := ih (fun x hx => hsizes x (List.mem_append_left _ hx))
    rw [consume_all_concat, consume_all_words_concat]
    exact holds_consume_rx hprev.1 hlt (hsizes size (by simp))

/-- The register stays 16 bytes behind the offset. -/
theorem register_consume_rx (d : RxDevice) (packet_size : Nat) :
    ((d.consume_rx packet_size).current_address_of_packet_read + 16) % RX_RING_SIZE =
      (d.consume_rx packet_size).rx_offset := by
  show (((d.rx_offset + packet_size + 4 + 3) / 4 * 4 + 2 ^ 32 - 0x10) % 2 ^ 16 + 16) % 8192 =
    (d.rx_offset + packet_size + 4 + 3) / 4 * 4 % 8192
  omega

/-- **Offsets in the ring.** After every call of `consume_rx` in a sequence that starts at
    offset 0, the offset is aligned and inside of the ring, it is the sum of what the frames
    take, and the register is 16 bytes behind it, up to a round of the ring. -/
theorem rx_offset_after_calls (register : UInt16) (sizes : List UInt64) (size : UInt64)
    (hsizes : ∀ x ∈ sizes ++ [size], x < 65536) :
    let w := consume_all_words (0, register) (sizes ++ [size])
    w.1.toNat % 4 = 0 ∧ w.1.toNat < 8192 ∧
      w.1.toNat = ((sizes ++ [size]).map (fun x => (x.toNat + 4 + 3) / 4 * 4)).sum % 8192 ∧
      (w.2.toNat + 16) % 8192 = w.1.toNat := by
  intro w
  let d : RxDevice := ⟨Vector.replicate 6 0, fun _ => 0, 0, register.toNat⟩
  have hstart : d.rx_offset = 0 := rfl
  obtain ⟨hoffset, hsum⟩ := rx_offset_consume_all hstart (sizes ++ [size])
  obtain ⟨h1, h2⟩ := holds_consume_all hstart (w := (0, register)) ⟨rfl, rfl⟩ hsizes
  have hregister := register_consume_rx (d.consume_all sizes) size.toNat
  rw [← consume_all_concat] at hregister
  rw [hoffset] at h1
  have h1 : w.1.toNat = _ := h1
  have h2 : w.2.toNat = _ := h2
  rw [h1, h2]
  refine ⟨?_, Nat.mod_lt _ (by decide), rfl, hregister.trans hoffset⟩
  unfold RX_RING_SIZE
  omega

/-- Two frames of the largest size, which take more than eight rounds of the ring each. -/
theorem rx_offset_after_two_frames :
    (consume_all_words (0, 0) ([65535] ++ [65535])).1.toNat < 8192 ∧
      ((consume_all_words (0, 0) ([65535] ++ [65535])).2.toNat + 16) % 8192 =
        (consume_all_words (0, 0) ([65535] ++ [65535])).1.toNat := by
  have hsizes : ∀ x ∈ [65535] ++ [65535], x < (65536 : UInt64) := by
    intro x hx
    have hx : x = 65535 := by simpa using hx
    rw [hx]
    exact UInt64.lt_iff_toNat_lt.mpr (by decide)
  obtain ⟨_, hlt, _, hregister⟩ := rx_offset_after_calls 0 [65535] 65535 hsizes
  exact ⟨hlt, hregister⟩

end RxDevice

/-! ## Interrupts of the card -/

inductive IrqAction where
  | handle_rx
  | handle_tx
  | print
  deriving DecidableEq

/-- `if (regs->isr & bit) { action; regs->isr = bit; }`, the last part where it is there. -/
structure IrqBlock where
  bit : Nat
  action : IrqAction
  ack : Bool
  deriving DecidableEq

/-- The body of `irq` between the first test and the last write. -/
def irq_blocks : List IrqBlock :=
  [⟨RxOk, .handle_rx, true⟩, ⟨RxError, .print, true⟩, ⟨TxOk, .handle_tx, true⟩,
    ⟨TxError, .print, true⟩, ⟨RxOverflow, .handle_rx, true⟩, ⟨5, .print, false⟩,
    ⟨RxFifoOverflow, .print, false⟩, ⟨13, .print, false⟩, ⟨Timeout, .print, false⟩,
    ⟨15, .print, false⟩]

end Modern05
