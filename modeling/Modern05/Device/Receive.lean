import Modern05.Device.Rtl8139
import Modern05.Framework.LTS

/-! # Receiving frames

    The card and `irq` of the driver side by side. The card appends frames to the ring and
    sets `RxOk` at any time, also between two accesses of `irq` to the status register. It
    never overruns the ring, and so it does not set `RxOverflow`; other bits it sets as it
    likes.

    `irq` calls `handle_rx` once when it finds `RxOk` set, however many frames have arrived,
    and clears the bit afterwards.

    * `ring_disjoint`: frames that are not overrun do not overlap in the buffer.
    * `rxInv_of_reachable`: in every run the frames consumed are the first ones that arrived.
    * `calm_of_reachable`: when no frame arrives too early, at most one is waiting.
    * `Overdue.returns`: after one that does, `irq` leaves a frame behind.
-/

namespace Modern05

open LTS Memory RxDevice

/-! ## State -/

/-- Where `irq` is: before its call, at the test of a block, at the action of a block or at
    its acknowledgement. Behind the last block is the write that acknowledges all bits. -/
inductive IrqPc where
  | idle
  | test (k : Nat)
  | act (k : Nat)
  | ack (k : Nat)
  deriving DecidableEq

structure RxState where
  device : RxDevice
  isr : Isr
  pc : IrqPc
  write_offset : Nat
  arrived : List (List UInt8)
  consumed : List (List UInt8)

/-- The bytes that frames take in the ring. -/
def extent (fs : List (List UInt8)) : Nat := (fs.map (fun f => stride f.length)).sum

/-- A frame as the card stores it, behind a header with its size in the upper half. -/
def stored_frame (status : UInt8 × UInt8) (frame : List UInt8) : List UInt8 :=
  [status.1, status.2, UInt8.ofNat frame.length, UInt8.ofNat (frame.length / 256)] ++ frame

/-! ## Steps -/

inductive RxEvent where
  | arrive (status : UInt8 × UInt8) (frame : List UInt8)
  /-- The card sets another bit of the status register. -/
  | raise (bit : Nat)
  /-- The driver goes on in `irq`, or calls it. -/
  | irq

/-- One access of `irq` to the status register, or one of its actions. -/
def RxState.irq (s : RxState) : Option RxState :=
  match s.pc with
  | .idle => if s.isr.zero then some s else some { s with pc := .test 0 }
  | .test k =>
    match irq_blocks[k]? with
    | some b => some { s with pc := if s.isr b.bit then .act k else .test (k + 1) }
    | none => some { s with isr := s.isr.write RxAck, pc := .idle }
  | .act k =>
    match irq_blocks[k]? with
    | some b =>
      if b.action = .handle_rx then do
        let (_, device) ← s.device.handle_rx
        pure { s with
          device := device
          consumed := s.consumed ++ s.device.consumed_frame
          pc := .ack k }
      else
        some { s with pc := .ack k }
    | none => none
  | .ack k =>
    match irq_blocks[k]? with
    | some b =>
      some { s with isr := if b.ack then s.isr.write [b.bit] else s.isr, pc := .test (k + 1) }
    | none => none

/-- The card appends a frame. -/
def RxState.arrive (s : RxState) (status : UInt8 × UInt8) (frame : List UInt8) : RxState :=
  { s with
    device := { s.device with
      rx_buffer := copy s.device.rx_buffer s.write_offset (stored_frame status frame) }
    isr := s.isr.raise RxOk
    write_offset := (s.write_offset + stride frame.length) % RX_RING_SIZE
    arrived := s.arrived ++ [frame] }

def rx_system : System RxState RxEvent where
  init := fun s => s.device.rx_offset = 0 ∧ s.write_offset = 0 ∧ s.isr = (fun _ => false) ∧
    s.pc = .idle ∧ s.arrived = [] ∧ s.consumed = []
  step := fun s e s' =>
    match e with
    | .arrive status frame =>
      0 < frame.length ∧ frame.length < 2 ^ 16 ∧
      extent s.arrived + stride frame.length ≤ extent s.consumed + RX_RING_SIZE ∧
      s' = s.arrive status frame
    | .raise bit => bit ≠ RxOk ∧ bit ≠ RxOverflow ∧ s' = { s with isr := s.isr.raise bit }
    | .irq => s.irq = some s'

/-! ## Frames in the buffer -/

variable {m m' : Bytes} {a b : Nat} {frame : List UInt8} {status : UInt8 × UInt8}

theorem stored_copy (m : Bytes) (a : Nat) (status : UInt8 × UInt8)
    (hlength : frame.length < 2 ^ 16) : Stored (copy m a (stored_frame status frame)) a frame := by
  have hall := bytes_copy m a (stored_frame status frame)
  have hsplit : (stored_frame status frame).length = 4 + frame.length := by
    simp [stored_frame]
    omega
  rw [hsplit, bytes_add] at hall
  obtain ⟨hheader, hframe⟩ := List.append_inj hall (by simp [length_bytes])
  refine ⟨?_, hframe⟩
  -- the four bytes of the header
  obtain ⟨h0, h1, h2, h3⟩ : copy m a (stored_frame status frame) a = status.1 ∧
      copy m a (stored_frame status frame) (a + 1) = status.2 ∧
      copy m a (stored_frame status frame) (a + 2) = UInt8.ofNat frame.length ∧
      copy m a (stored_frame status frame) (a + 3) = UInt8.ofNat (frame.length / 256) := by
    simpa [bytes, List.range_succ] using hheader
  have hlow := status.1.toNat_lt
  have hhigh := status.2.toNat_lt
  rw [load32, h0, h1, h2, h3, UInt8.toNat_ofNat', UInt8.toNat_ofNat']
  omega

/-- A ring with one frame in it, which ends with its checksum. -/
def device_with (data : List UInt8) : RxDevice :=
  ⟨Vector.replicate 6 0,
    copy (fun _ => 0) 0 (stored_frame (1, 0) (data ++ word32 (crc32iso_hdlc 0 data).toNat)), 0, 0⟩

theorem checked_device_with (data : List UInt8) (hlow : 6 + 6 + 2 ≤ data.length)
    (hhigh : data.length + 4 < 2 ^ 16) :
    (device_with data).checked ∧ (device_with data).packet_size = data.length + 4 := by
  have hlength : (data ++ word32 (crc32iso_hdlc 0 data).toNat).length = data.length + 4 := by
    simp [word32]
  have hstored := stored_copy (fun _ => 0) 0 (1, 0) (hlength ▸ hhigh)
  exact ⟨checked_of_stored hstored hlow, hstored.1.trans hlength⟩

theorem Stored.congr (h : Stored m a frame)
    (hm : ∀ x ∈ Set.Ico a (a + stride frame.length), m' x = m x) : Stored m' a frame := by
  have hstride : frame.length + 4 ≤ stride frame.length := by
    unfold stride
    omega
  refine ⟨?_, ?_⟩
  · rw [load32_congr fun x hx => hm x ⟨hx.1, Nat.lt_of_lt_of_le hx.2 (by omega)⟩]
    exact h.1
  · rw [bytes_congr fun x hx => hm x ⟨Nat.le_trans (Nat.le_add_right a 4) hx.1,
      Nat.lt_of_lt_of_le hx.2 (by omega)⟩]
    exact h.2

/-- Two ranges of a ring of `n` bytes that are less than a lap apart do not overlap, where
    each is laid out from its start without a gap. -/
theorem ring_disjoint {n p l w k : Nat} (hp : p + l ≤ w) (hw : w + k ≤ p + n) :
    p % n + l ≤ w % n ∨ w % n + k ≤ p % n := by
  have hpdiv := Nat.div_add_mod p n
  have hwdiv := Nat.div_add_mod w n
  have hle : p / n ≤ w / n := Nat.div_le_div_right (by omega)
  rcases Nat.eq_or_lt_of_le hle with heq | hlt
  · -- in the same lap
    left
    rw [heq] at hpdiv
    omega
  · right
    have hlap : n * (p / n) + n ≤ n * (w / n) := by
      rw [← Nat.mul_succ]
      exact Nat.mul_le_mul_left n hlt
    omega

theorem extent_append (fs : List (List UInt8)) (f : List UInt8) :
    extent (fs ++ [f]) = extent fs + stride f.length := by
  simp [extent]

theorem extent_mod_four (fs : List (List UInt8)) : extent fs % 4 = 0 := by
  induction fs with
  | nil => rfl
  | cons f fs ih =>
    simp only [extent, List.map_cons, List.sum_cons] at ih ⊢
    have hstride : stride f.length % 4 = 0 := Nat.mul_mod_left _ 4
    omega

theorem extent_take_le (fs : List (List UInt8)) {i j : Nat} (hij : i ≤ j) :
    extent (fs.take i) ≤ extent (fs.take j) := by
  have hsplit := List.take_append_drop i (fs.take j)
  rw [List.take_take, Nat.min_eq_left hij] at hsplit
  calc extent (fs.take i) ≤ extent (fs.take i ++ (fs.take j).drop i) := by simp [extent]
    _ = extent (fs.take j) := by rw [hsplit]

/-- A frame that has not been consumed keeps its place while another is stored. -/
theorem Stored.copy {p w n : Nat} (h : Stored m (p % n) frame)
    (hp : p + stride frame.length ≤ w) {data : List UInt8} (hw : w + data.length ≤ p + n) :
    Stored (copy m (w % n) data) (p % n) frame := by
  refine h.congr fun x hx => overwrite_of_notMem fun hmem => ?_
  have hdisjoint := ring_disjoint hp hw
  have hx : p % n ≤ x ∧ x < p % n + stride frame.length := hx
  have hmem : w % n ≤ x ∧ x < w % n + data.length := hmem
  omega

/-! ## Every run -/

/-- The ring holds the frames that have arrived and are not consumed. -/
structure RxInv (s : RxState) : Prop where
  taken : s.consumed = s.arrived.take s.consumed.length
  read : s.device.rx_offset = extent s.consumed % RX_RING_SIZE
  write : s.write_offset = extent s.arrived % RX_RING_SIZE
  room : extent s.arrived ≤ extent s.consumed + RX_RING_SIZE
  stored : ∀ i frame, s.consumed.length ≤ i → s.arrived[i]? = some frame → 0 < frame.length ∧
    Stored s.device.rx_buffer (extent (s.arrived.take i) % RX_RING_SIZE) frame
  no_overflow : s.isr RxOverflow = false
  /-- A block acts on a bit that it has found set. -/
  set : ∀ k b, s.pc = .act k → irq_blocks[k]? = some b → s.isr b.bit = true
  /-- Until it is acknowledged, `RxOk` means that a frame is waiting. -/
  waiting : s.isr RxOk = true → s.pc ≠ .ack 0 → s.consumed.length < s.arrived.length

/-- Only the first block and the one for overflows call `handle_rx`. -/
theorem handle_rx_block {k : Nat} {b : IrqBlock} (hb : irq_blocks[k]? = some b)
    (haction : b.action = .handle_rx) : k = 0 ∨ b.bit = RxOverflow := by
  have hblocks : ∀ k < irq_blocks.length, ∀ b ∈ irq_blocks[k]?,
      b.action = .handle_rx → k = 0 ∨ b.bit = RxOverflow := by decide
  obtain ⟨hk, -⟩ := List.getElem?_eq_some_iff.mp hb
  exact hblocks k hk b hb haction

section

variable {s s' : RxState}

theorem RxInv.arrive (hs : RxInv s) (status : UInt8 × UInt8) (frame : List UInt8)
    (hpos : 0 < frame.length) (hlength : frame.length < 2 ^ 16)
    (hroom : extent s.arrived + stride frame.length ≤ extent s.consumed + RX_RING_SIZE) :
    RxInv (s.arrive status frame) := by
  have hle : s.consumed.length ≤ s.arrived.length := by
    rw [hs.taken]
    simp
  refine ⟨?_, hs.read, ?_, ?_, ?_, ?_, ?_, ?_⟩
  · show s.consumed = (s.arrived ++ [frame]).take s.consumed.length
    rw [List.take_append_of_le_length hle]
    exact hs.taken
  · show (s.write_offset + stride frame.length) % RX_RING_SIZE =
      extent (s.arrived ++ [frame]) % RX_RING_SIZE
    rw [extent_append, hs.write, Nat.mod_add_mod]
  · show extent (s.arrived ++ [frame]) ≤ _
    rw [extent_append]
    exact hroom
  · intro i f hi hf
    have hi : s.consumed.length ≤ i := hi
    have hf : (s.arrived ++ [frame])[i]? = some f := hf
    show 0 < f.length ∧ Stored (copy s.device.rx_buffer s.write_offset (stored_frame status frame))
      (extent ((s.arrived ++ [frame]).take i) % RX_RING_SIZE) f
    by_cases hold : i < s.arrived.length
    · -- a frame that was there before keeps its place
      rw [List.getElem?_append_left hold] at hf
      obtain ⟨hfpos, hstored⟩ := hs.stored i f hi hf
      refine ⟨hfpos, ?_⟩
      rw [List.take_append_of_le_length (Nat.le_of_lt hold), hs.write]
      have hend : extent (s.arrived.take i) + stride f.length ≤ extent s.arrived := by
        have hnext := extent_take_le s.arrived (show i + 1 ≤ s.arrived.length from hold)
        rw [List.take_length, List.take_add_one, hf] at hnext
        simpa [extent_append] using hnext
      have hstart : extent s.consumed ≤ extent (s.arrived.take i) := by
        rw [hs.taken]
        exact extent_take_le s.arrived hi
      refine hstored.copy hend ?_
      have hstride : (stored_frame status frame).length ≤ stride frame.length := by
        simp only [stored_frame, List.length_append, List.length_cons, List.length_nil, stride]
        omega
      omega
    · obtain ⟨rfl, rfl⟩ : i = s.arrived.length ∧ f = frame := by
        obtain ⟨hlt, -⟩ := List.getElem?_eq_some_iff.mp hf
        have hlt : i < s.arrived.length + 1 := by simpa using hlt
        obtain rfl : i = s.arrived.length := by omega
        simpa [eq_comm] using hf
      refine ⟨hpos, ?_⟩
      rw [List.take_left, hs.write]
      exact stored_copy _ _ _ hlength
  · show s.isr.raise RxOk RxOverflow = false
    rw [Isr.raise_of_ne _ (by decide)]
    exact hs.no_overflow
  · intro k b hpc hb
    exact Isr.raise_of_true (hs.set k b hpc hb)
  · intro _ _
    show s.consumed.length < (s.arrived ++ [frame]).length
    rw [List.length_append, List.length_singleton]
    omega

theorem RxInv.raise (hs : RxInv s) {bit : Nat} (hok : bit ≠ RxOk) (hover : bit ≠ RxOverflow) :
    RxInv { s with isr := s.isr.raise bit } := by
  refine ⟨hs.taken, hs.read, hs.write, hs.room, hs.stored, ?_, ?_, ?_⟩
  · show s.isr.raise bit RxOverflow = false
    rw [Isr.raise_of_ne _ hover.symm]
    exact hs.no_overflow
  · intro k b hpc hb
    exact Isr.raise_of_true (hs.set k b hpc hb)
  · intro hset hpc
    have hset : s.isr.raise bit RxOk = true := hset
    rw [Isr.raise_of_ne _ hok.symm] at hset
    exact hs.waiting hset hpc

/-- `handle_rx` consumes the first frame that is waiting. -/
theorem RxInv.handle_rx (hs : RxInv s) (hwaiting : s.consumed.length < s.arrived.length)
    {u : Option Upper} {d : RxDevice} (h : s.device.handle_rx = some (u, d)) :
    ∃ frame, s.arrived[s.consumed.length]? = some frame ∧
      s.device.consumed_frame = [frame] ∧ d = s.device.consume_rx frame.length := by
  obtain ⟨frame, hframe⟩ : ∃ frame, s.arrived[s.consumed.length]? = some frame :=
    ⟨_, List.getElem?_eq_getElem hwaiting⟩
  obtain ⟨hpos, hstored⟩ := hs.stored _ frame (Nat.le_refl _) hframe
  rw [← hs.taken, ← hs.read] at hstored
  have hsize : s.device.packet_size = frame.length := hstored.1
  have hnonzero : s.device.packet_size ≠ 0 := by omega
  refine ⟨frame, hframe, ?_, ?_⟩
  · rw [consumed_frame, if_neg hnonzero, hsize, hstored.2]
  · rcases handle_rx_cases h with ⟨hzero, -⟩ | ⟨-, hd⟩
    · exact absurd hzero hnonzero
    · rw [hd, hsize]

/-- The read offset moves behind the frame. -/
theorem consume_rx_offset {d : RxDevice} {fs : List (List UInt8)}
    (hread : d.rx_offset = extent fs % RX_RING_SIZE) (frame : List UInt8) :
    (d.consume_rx frame.length).rx_offset = extent (fs ++ [frame]) % RX_RING_SIZE := by
  have hextent := extent_mod_four fs
  have haligned : d.rx_offset % 4 = 0 := by
    rw [hread, RX_RING_SIZE]
    omega
  rw [rx_offset_consume_rx haligned, hread, Nat.mod_add_mod, extent_append]

theorem RxInv.consume (hs : RxInv s) {frame : List UInt8}
    (hframe : s.arrived[s.consumed.length]? = some frame) :
    RxInv { s with
      device := s.device.consume_rx frame.length
      consumed := s.consumed ++ [frame]
      pc := .ack 0 } := by
  have hroom := hs.room
  have hlength : (s.consumed ++ [frame]).length = s.consumed.length + 1 := by simp
  have htaken : s.consumed ++ [frame] = s.arrived.take (s.consumed ++ [frame]).length := by
    rw [hlength, List.take_add_one, hframe, ← hs.taken]
    rfl
  refine ⟨htaken, consume_rx_offset hs.read frame, hs.write, ?_, ?_, hs.no_overflow, ?_, ?_⟩
  · show extent s.arrived ≤ extent (s.consumed ++ [frame]) + RX_RING_SIZE
    rw [extent_append]
    omega
  · intro i f hi hf
    have hi : (s.consumed ++ [frame]).length ≤ i := hi
    exact hs.stored i f (by omega) hf
  · intro k b hpc _
    cases hpc
  · intro _ hpc
    exact absurd rfl hpc

/-- The status register and the position change while the ring does not. -/
theorem RxInv.move (hs : RxInv s) {isr : Isr} {pc : IrqPc}
    (hisr : ∀ b, isr b = true → s.isr b = true)
    (hset : ∀ k b, pc = .act k → irq_blocks[k]? = some b → isr b.bit = true)
    (hwaiting : isr RxOk = true → pc ≠ .ack 0 → s.pc ≠ .ack 0) :
    RxInv { s with isr := isr, pc := pc } := by
  refine ⟨hs.taken, hs.read, hs.write, hs.room, hs.stored, ?_, hset, ?_⟩
  · show isr RxOverflow = false
    by_contra hne
    have htrue := hisr RxOverflow (by simpa using hne)
    rw [hs.no_overflow] at htrue
    cases htrue
  · intro hok hpc
    exact hs.waiting (hisr RxOk hok) (hwaiting hok hpc)

/-- What a step of `irq` does while the ring is in order: its first block consumes the frame
    that waits longest, and no other block touches the ring. -/
inductive IrqStep (s : RxState) : RxState → Prop where
  | returns_false : s.pc = .idle → s.isr.zero = true → IrqStep s s
  | enter : s.pc = .idle → IrqStep s { s with pc := .test 0 }
  | found (k : Nat) (b : IrqBlock) : s.pc = .test k → irq_blocks[k]? = some b →
      s.isr b.bit = true → IrqStep s { s with pc := .act k }
  | skipped (k : Nat) (b : IrqBlock) : s.pc = .test k → irq_blocks[k]? = some b →
      s.isr b.bit = false → IrqStep s { s with pc := .test (k + 1) }
  | returns_true (k : Nat) : s.pc = .test k → irq_blocks[k]? = none →
      IrqStep s { s with isr := s.isr.write RxAck, pc := .idle }
  | consumes (frame : List UInt8) : s.pc = .act 0 →
      s.arrived[s.consumed.length]? = some frame →
      IrqStep s { s with
        device := s.device.consume_rx frame.length
        consumed := s.consumed ++ [frame]
        pc := .ack 0 }
  | acts (k : Nat) : s.pc = .act k → k ≠ 0 → IrqStep s { s with pc := .ack k }
  | acks (k : Nat) (b : IrqBlock) : s.pc = .ack k → irq_blocks[k]? = some b →
      IrqStep s { s with
        isr := if b.ack then s.isr.write [b.bit] else s.isr
        pc := .test (k + 1) }

theorem RxInv.irq_step (hs : RxInv s) (h : s.irq = some s') : IrqStep s s' := by
  unfold RxState.irq at h
  split at h
  · next hpc =>
    split at h
    · next hzero =>
      cases h
      exact .returns_false hpc hzero
    · cases h
      exact .enter hpc
  · next k hpc =>
    split at h
    · next b hb =>
      cases h
      by_cases hbit : s.isr b.bit = true
      · rw [if_pos hbit]
        exact .found k b hpc hb hbit
      · rw [if_neg hbit]
        exact .skipped k b hpc hb (by simpa using hbit)
    · next hb =>
      cases h
      exact .returns_true k hpc hb
  · next k hpc =>
    split at h
    · next b hb =>
      split at h
      · next haction =>
        obtain ⟨⟨u, d⟩, hhandle, h⟩ := Option.bind_eq_some_iff.mp h
        cases h
        have hbit := hs.set k b hpc hb
        -- the block for overflows has not been entered
        obtain rfl : k = 0 := by
          rcases handle_rx_block hb haction with hk | hover
          · exact hk
          · rw [hover, hs.no_overflow] at hbit
            cases hbit
        have hok : s.isr RxOk = true := by
          cases hb
          exact hbit
        obtain ⟨frame, hframe, hconsumed, rfl⟩ :=
          hs.handle_rx (hs.waiting hok (by simp [hpc])) hhandle
        rw [hconsumed]
        exact .consumes frame hpc hframe
      · next haction =>
        cases h
        refine .acts k hpc ?_
        rintro rfl
        cases hb
        exact haction rfl
    · cases h
  · next k hpc =>
    split at h
    · next b hb =>
      cases h
      exact .acks k b hpc hb
    · cases h

theorem RxInv.irq (hs : RxInv s) (h : s.irq = some s') : RxInv s' := by
  cases hs.irq_step h with
  | returns_false => exact hs
  | enter hpc => exact hs.move (fun _ h => h) (fun _ _ h => by cases h) (fun _ _ => by simp [hpc])
  | found k b hpc hb hbit =>
    refine hs.move (fun _ h => h) (fun k' b' hact hb' => ?_) (fun _ _ => by simp [hpc])
    cases hact
    rw [hb] at hb'
    cases hb'
    exact hbit
  | skipped k b hpc =>
    exact hs.move (fun _ h => h) (fun _ _ h => by cases h) (fun _ _ => by simp [hpc])
  | returns_true k hpc =>
    exact hs.move (fun _ h => Isr.write_le h) (fun _ _ h => by cases h) (fun _ _ => by simp [hpc])
  | consumes frame _ hframe => exact hs.consume hframe
  | acts k hpc =>
    exact hs.move (fun _ h => h) (fun _ _ h => by cases h) (fun _ _ => by simp [hpc])
  | acks k b hpc hb =>
    refine hs.move (fun b' hb' => ?_) (fun _ _ h => by cases h) (fun hok _ heq => ?_)
    · split at hb'
      · exact Isr.write_le hb'
      · exact hb'
    · -- the first block acknowledges `RxOk`
      rw [hpc] at heq
      cases heq
      cases hb
      simp [Isr.write_of_mem] at hok

theorem rxInv_of_reachable : ∀ s, Reachable rx_system s → RxInv s := by
  refine invariant_of_step ?_ ?_
  · rintro s ⟨hread, hwrite, hisr, hpc, harrived, hconsumed⟩
    refine ⟨?_, ?_, ?_, ?_, ?_, ?_, ?_, ?_⟩
    · simp [harrived, hconsumed]
    · simp [hread, hconsumed, extent]
    · simp [hwrite, harrived, extent]
    · simp [harrived, hconsumed, extent]
    · intro i frame _ hframe
      simp [harrived] at hframe
    · rw [hisr]
    · intro k b hact _
      rw [hpc] at hact
      cases hact
    · intro hok _
      simp [hisr] at hok
  · intro s e s' _ hs hstep
    cases e with
    | arrive status frame =>
      obtain ⟨hpos, hlength, hroom, rfl⟩ := hstep
      exact hs.arrive status frame hpos hlength hroom
    | raise bit =>
      obtain ⟨hok, hover, rfl⟩ := hstep
      exact hs.raise hok hover
    | irq => exact hs.irq hstep

/-! ## Runs without early frames -/

/-- A frame does not come before the last one is consumed, and not between the test of
    `RxOk` and the return of `irq`. -/
def arrives_in_time (s : RxState) (e : RxEvent) : Prop :=
  match e with
  | .arrive _ _ => s.consumed.length = s.arrived.length ∧ (s.pc = .idle ∨ s.pc = .test 0)
  | .raise _ => True
  | .irq => True

/-- At most one frame is waiting, and only until the first block has acted on it. -/
structure Calm (s : RxState) : Prop where
  one : s.arrived.length ≤ s.consumed.length + 1
  /-- Before the first block has tested it, `RxOk` tells that a frame is waiting. -/
  told : s.isr RxOk = false → s.pc ≠ .act 0 → s.consumed.length = s.arrived.length
  /-- Behind the first block no frame is waiting. -/
  none : s.pc ≠ .idle → s.pc ≠ .test 0 → s.pc ≠ .act 0 → s.consumed.length = s.arrived.length

theorem calm_arrive (h : s.consumed.length = s.arrived.length)
    (hpc : s.pc = .idle ∨ s.pc = .test 0) (status : UInt8 × UInt8) (frame : List UInt8) :
    Calm (s.arrive status frame) := by
  refine ⟨?_, ?_, ?_⟩
  · show (s.arrived ++ [frame]).length ≤ s.consumed.length + 1
    simp [h]
  · intro hok
    have hok : s.isr.raise RxOk RxOk = false := hok
    simp [Isr.raise] at hok
  · intro hidle htest
    exact absurd hpc (not_or_intro hidle htest)

/-- Frames stay where they are, and `irq` does not go back in front of the first block while
    one is waiting. -/
theorem Calm.move (hs : Calm s) {isr : Isr} {pc : IrqPc}
    (htold : isr RxOk = false → pc ≠ .act 0 → s.consumed.length = s.arrived.length)
    (hnone : pc ≠ .idle → pc ≠ .test 0 → pc ≠ .act 0 → s.consumed.length = s.arrived.length) :
    Calm { s with isr := isr, pc := pc } :=
  ⟨hs.one, htold, hnone⟩

theorem Calm.irq (hinv : RxInv s) (hs : Calm s) (h : s.irq = some s') : Calm s' := by
  cases hinv.irq_step h with
  | returns_false => exact hs
  | enter hpc =>
    refine hs.move (fun hok _ => hs.told hok (by simp [hpc])) (fun _ htest => ?_)
    exact absurd rfl htest
  | found k b hpc hb hbit =>
    -- the first block leads to its action, the others have no frame waiting
    have hdrained : IrqPc.act k ≠ .act 0 → s.consumed.length = s.arrived.length := by
      intro hk
      exact hs.none (by simp [hpc]) (by simpa [hpc] using hk) (by simp [hpc])
    exact hs.move (fun _ hact => hdrained hact) (fun _ _ hact => hdrained hact)
  | skipped k b hpc hb hbit =>
    have hdrained : s.consumed.length = s.arrived.length := by
      by_cases hk : k = 0
      · subst hk
        cases hb
        exact hs.told hbit (by simp [hpc])
      · exact hs.none (by simp [hpc]) (by simp [hpc, hk]) (by simp [hpc])
    exact hs.move (fun _ _ => hdrained) (fun _ _ _ => hdrained)
  | returns_true k hpc hb =>
    have hdrained : s.consumed.length = s.arrived.length := by
      refine hs.none (by simp [hpc]) (fun htest => ?_) (by simp [hpc])
      rw [hpc] at htest
      cases htest
      cases hb
    exact hs.move (fun _ _ => hdrained) (fun _ _ _ => hdrained)
  | consumes frame hpc hframe =>
    obtain ⟨hwaiting, -⟩ := List.getElem?_eq_some_iff.mp hframe
    have hone := hs.one
    have hdrained : (s.consumed ++ [frame]).length = s.arrived.length := by
      rw [List.length_append, List.length_singleton]
      omega
    exact ⟨Nat.le_succ_of_le (Nat.le_of_eq hdrained.symm), fun _ _ => hdrained,
      fun _ _ _ => hdrained⟩
  | acts k hpc hk =>
    have hdrained := hs.none (by simp [hpc]) (by simp [hpc]) (by simp [hpc, hk])
    exact hs.move (fun _ _ => hdrained) (fun _ _ _ => hdrained)
  | acks k b hpc hb =>
    have hdrained := hs.none (by simp [hpc]) (by simp [hpc]) (by simp [hpc])
    exact hs.move (fun _ _ => hdrained) (fun _ _ _ => hdrained)

theorem calm_of_reachable :
    ∀ s, Reachable (rx_system.restrict arrives_in_time) s → Calm s := by
  refine invariant_of_step ?_ ?_
  · rintro s ⟨-, -, -, hpc, harrived, hconsumed⟩
    refine ⟨?_, fun _ _ => ?_, fun hidle => absurd hpc hidle⟩
    · simp [harrived]
    · simp [harrived, hconsumed]
  · intro s e s' hreach hs hstep
    cases e with
    | arrive status frame =>
      obtain ⟨⟨hdrained, hpc⟩, -, -, -, rfl⟩ := hstep
      exact calm_arrive hdrained hpc status frame
    | raise bit =>
      obtain ⟨-, hok, -, rfl⟩ := hstep
      refine hs.move (fun hclear => ?_) hs.none
      rw [Isr.raise_of_ne _ hok.symm] at hclear
      exact hs.told hclear
    | irq => exact hs.irq (rxInv_of_reachable s hreach.of_restrict) hstep.2

/-! ## Early frames -/

/-- More frames are waiting than `irq` consumes before it returns. -/
structure Overdue (s : RxState) : Prop where
  waiting : s.consumed.length < s.arrived.length
  /-- The first block is still to take one of them. -/
  front : s.pc = .idle ∨ s.pc = .test 0 ∨ s.pc = .act 0 →
    s.consumed.length + 1 < s.arrived.length
  entered : s.pc = .idle → s.isr RxOk = true

/-- A frame that comes too early, whether another one is waiting or `irq` has passed its test. -/
theorem overdue_arrive (hs : RxInv s) {status : UInt8 × UInt8} {frame : List UInt8}
    (hearly : ¬ arrives_in_time s (.arrive status frame)) : Overdue (s.arrive status frame) := by
  have hlength : (s.arrive status frame).arrived.length = s.arrived.length + 1 :=
    List.length_append
  have hle : s.consumed.length ≤ s.arrived.length := by
    rw [hs.taken]
    simp
  have hraised : (s.arrive status frame).isr RxOk = true := by simp [RxState.arrive, Isr.raise]
  have hwaits : s.pc = .idle ∨ s.pc = .test 0 → s.consumed.length < s.arrived.length := by
    intro hpc
    by_contra hnone
    exact hearly ⟨by omega, hpc⟩
  refine ⟨?_, fun hpc => ?_, fun _ => hraised⟩
  · show s.consumed.length < (s.arrive status frame).arrived.length
    omega
  · show s.consumed.length + 1 < (s.arrive status frame).arrived.length
    have hmore : s.consumed.length < s.arrived.length := by
      rcases hpc with hidle | htest | hact
      · exact hwaits (.inl hidle)
      · exact hwaits (.inr htest)
      · -- the first block has found `RxOk` set, so a frame was waiting before
        have hact : s.pc = .act 0 := hact
        exact hs.waiting (hs.set 0 _ hact rfl) (by simp [hact])
    omega

/-- A step of `irq` takes at most the frame that the first block still had to take. -/
theorem Overdue.irq (hinv : RxInv s) (hs : Overdue s) (h : s.irq = some s') :
    (s'.pc ≠ .idle ∧ Overdue s') ∨
      (s'.pc = .idle ∧ s'.isr RxOk = false ∧ s'.consumed.length < s'.arrived.length) := by
  -- behind the first block it is enough that a frame is waiting
  have hbehind : ∀ (isr : Isr) (pc : IrqPc), pc ≠ .idle → pc ≠ .test 0 → pc ≠ .act 0 →
      Overdue { s with isr := isr, pc := pc } := by
    intro isr pc hidle htest hact
    refine ⟨hs.waiting, fun hfront => ?_, fun h => absurd h hidle⟩
    rcases hfront with h | h | h
    · exact absurd h hidle
    · exact absurd h htest
    · exact absurd h hact
  cases hinv.irq_step h with
  | returns_false hpc hzero =>
    rw [Isr.zero_of_true (by decide) (hs.entered hpc)] at hzero
    cases hzero
  | enter hpc =>
    have hfront := hs.front (.inl hpc)
    exact .inl ⟨by simp, hs.waiting, fun _ => hfront, by simp⟩
  | found k b hpc hb hbit =>
    left
    refine ⟨by simp, ?_⟩
    by_cases hk : k = 0
    · have hfront := hs.front (.inr (.inl (hk ▸ hpc)))
      exact ⟨hs.waiting, fun _ => hfront, by simp⟩
    · exact hbehind s.isr _ (by simp) (by simp) (by simp [hk])
  | skipped k b hpc hb hbit => exact .inl ⟨by simp, hbehind s.isr _ (by simp) (by simp) (by simp)⟩
  | returns_true k hpc hb => exact .inr ⟨rfl, Isr.write_of_mem _ (by decide), hs.waiting⟩
  | consumes frame hpc hframe =>
    have hfront := hs.front (.inr (.inr hpc))
    have hwaiting : (s.consumed ++ [frame]).length < s.arrived.length := by
      rw [List.length_append, List.length_singleton]
      omega
    exact .inl ⟨by simp, hwaiting, by simp, by simp⟩
  | acts k hpc hk => exact .inl ⟨by simp, hbehind s.isr _ (by simp) (by simp) (by simp)⟩
  | acks k b hpc hb => exact .inl ⟨by simp, hbehind _ _ (by simp) (by simp) (by simp)⟩

/-- `irq` goes on until it returns, and nothing arrives on the way. -/
inductive RxState.Returns : RxState → RxState → Prop where
  | last {s s' : RxState} : s.irq = some s' → s'.pc = .idle → Returns s s'
  | goes_on {s s₁ s' : RxState} : s.irq = some s₁ → s₁.pc ≠ .idle → Returns s₁ s' → Returns s s'

theorem Overdue.returns (hinv : RxInv s) (hs : Overdue s) (h : s.Returns s') :
    s'.isr RxOk = false ∧ s'.consumed.length < s'.arrived.length := by
  induction h with
  | last hirq hpc =>
    rcases hs.irq hinv hirq with ⟨hinside, -⟩ | ⟨-, hleft⟩
    · exact absurd hpc hinside
    · exact hleft
  | goes_on hirq hpc _ ih =>
    rcases hs.irq hinv hirq with ⟨-, hoverdue⟩ | ⟨hidle, -⟩
    · exact ih (hinv.irq hirq) hoverdue
    · exact absurd hidle hpc

/-- In a run without early frames, the frames consumed are the first ones that arrived, and
    all of them when `irq` returns with `RxOk` clear. After a frame that comes early, `irq`
    returns with `RxOk` clear and a frame left. -/
theorem frames_in_time_are_consumed (s : RxState)
    (hs : Reachable (rx_system.restrict arrives_in_time) s) :
    s.consumed <+: s.arrived ∧
    (∀ s', rx_system.step s .irq s' → s'.pc = .idle → s'.isr RxOk = false →
      s'.consumed = s'.arrived ∧ s'.device.rx_offset = s'.write_offset) ∧
    ∀ status frame s₁ s', ¬ arrives_in_time s (.arrive status frame) →
      rx_system.step s (.arrive status frame) s₁ → s₁.Returns s' →
      s'.isr RxOk = false ∧ s'.consumed.length < s'.arrived.length := by
  have hinv := rxInv_of_reachable s hs.of_restrict
  refine ⟨?_, fun s' hstep hpc hok => ?_, fun status frame s₁ s' hearly hstep hreturns => ?_⟩
  · rw [hinv.taken]
    exact List.take_prefix _ _
  · have hinv' : RxInv s' := hinv.irq hstep
    have hcalm : Calm s' := (calm_of_reachable s hs).irq hinv hstep
    have hdrained := hcalm.told hok (by simp [hpc])
    have hall : s'.consumed = s'.arrived := by
      rw [hinv'.taken, hdrained, List.take_length]
    refine ⟨hall, ?_⟩
    rw [hinv'.read, hinv'.write, hall]
  · obtain ⟨hpos, hlength, hroom, rfl⟩ := hstep
    exact (overdue_arrive hinv hearly).returns (hinv.arrive status frame hpos hlength hroom)
      hreturns

end

/-! ### One call -/

/-- `n` steps of the driver. -/
def RxState.irqs (s : RxState) : Nat → Option RxState
  | 0 => some s
  | n + 1 => s.irq >>= (·.irqs n)

theorem irqs_succ {s s' : RxState} (h : s.irq = some s') (n : Nat) :
    s.irqs (n + 1) = s'.irqs n := by
  rw [RxState.irqs, h]
  rfl

theorem reachable_irqs {sys : System RxState RxEvent}
    (hsys : ∀ s s', s.irq = some s' → sys.step s .irq s') (n : Nat) :
    ∀ s s', Reachable sys s → s.irqs n = some s' → Reachable sys s' := by
  induction n with
  | zero =>
    rintro s s' hs h
    cases h
    exact hs
  | succ n ih =>
    intro s s'' hs h
    obtain ⟨s', hirq, h'⟩ := Option.bind_eq_some_iff.mp h
    exact ih s' s'' (.step hs (hsys s s' hirq)) h'

section

variable {s s' : RxState} {frame : List UInt8}

/-- A call of `irq` for `RxOk` alone consumes one frame, however many are waiting, and leaves
    `RxOk` clear. -/
theorem irq_consumes_one (hs : RxInv s) (hpc : s.pc = .idle) (hok : s.isr RxOk = true)
    (hothers : ∀ b, b ≠ RxOk → s.isr b = false)
    (hframe : s.arrived[s.consumed.length]? = some frame) (hlong : 6 + 6 + 2 + 4 ≤ frame.length) :
    ∃ s₁ s₂, s.irqs 13 = some s₁ ∧ s₁.irq = some s₂ ∧ s₂.pc = .idle ∧ s₂.isr RxOk = false ∧
      s₂.arrived = s.arrived ∧ s₂.write_offset = s.write_offset ∧
      s₂.consumed = s.consumed ++ [frame] ∧ s₂.device = s.device.consume_rx frame.length := by
  obtain ⟨hwaiting, -⟩ := List.getElem?_eq_some_iff.mp hframe
  obtain ⟨-, hstored⟩ := hs.stored _ frame (Nat.le_refl _) hframe
  rw [← hs.taken, ← hs.read] at hstored
  have hsize : s.device.packet_size = frame.length := hstored.1
  obtain ⟨u, hhandle⟩ := handle_rx_returns (hsize ▸ hlong)
  have hconsumed : s.device.consumed_frame = [frame] := by
    obtain ⟨frame', hframe', hconsumed, -⟩ := hs.handle_rx hwaiting hhandle
    rw [hframe] at hframe'
    cases hframe'
    exact hconsumed
  have hzero : s.isr.zero = false := Isr.zero_of_true (by decide) hok
  have hclear : s.isr.write [RxOk] = fun _ => false := by
    funext b
    by_cases hb : b = RxOk
    · simp [Isr.write, hb]
    · simp [Isr.write, hothers b hb]
  have henter : s.irq = some { s with pc := .test 0 } := by
    simp [RxState.irq, hpc, hzero]
  have htest : RxState.irq { s with pc := .test 0 } = some { s with pc := .act 0 } := by
    simp [RxState.irq, irq_blocks, hok]
  have hact : RxState.irq { s with pc := .act 0 } =
      some ⟨s.device.consume_rx frame.length, s.isr, .ack 0, s.write_offset, s.arrived,
        s.consumed ++ [frame]⟩ := by
    simp [RxState.irq, irq_blocks, hhandle, hsize, hconsumed]
  have hack : RxState.irq ⟨s.device.consume_rx frame.length, s.isr, .ack 0, s.write_offset,
      s.arrived, s.consumed ++ [frame]⟩ =
      some ⟨s.device.consume_rx frame.length, fun _ => false, .test 1, s.write_offset, s.arrived,
        s.consumed ++ [frame]⟩ := by
    simp [RxState.irq, irq_blocks, hclear]
  have hrun := irqs_succ henter 12
  rw [irqs_succ htest 11, irqs_succ hact 10, irqs_succ hack 9] at hrun
  -- no other bit is set
  exact ⟨_, _, hrun, rfl, rfl, rfl, rfl, rfl, rfl, rfl⟩

end

/-- The driver at its start. -/
def rx_start : RxState :=
  ⟨⟨Vector.replicate 6 0, fun _ => 0, 0, 0⟩, fun _ => false, .idle, 0, [], []⟩

/-- The card stores a frame of 64 bytes. -/
def rx_one : RxState := rx_start.arrive (1, 0) (List.replicate 64 0)

/-- It stores a second one before the driver runs. -/
def rx_two : RxState := rx_one.arrive (1, 0) (List.replicate 64 1)

theorem reachable_rx_one : Reachable (rx_system.restrict arrives_in_time) rx_one := by
  have hstart : Reachable (rx_system.restrict arrives_in_time) rx_start :=
    .init ⟨rfl, rfl, rfl, rfl, rfl, rfl⟩
  have harrive : (rx_system.restrict arrives_in_time).step rx_start
      (.arrive (1, 0) (List.replicate 64 0)) rx_one :=
    ⟨⟨rfl, .inl rfl⟩, by decide, by decide, by decide, rfl⟩
  exact .step hstart harrive

/-- The frame is consumed when `irq` returns. -/
theorem one_frame_is_consumed : ∃ s s', Reachable (rx_system.restrict arrives_in_time) s ∧
    rx_system.step s .irq s' ∧ s'.pc = .idle ∧ s'.isr RxOk = false ∧
    s'.arrived = [List.replicate 64 0] ∧
    s'.consumed = s'.arrived ∧ s'.device.rx_offset = s'.write_offset := by
  obtain ⟨s, s', hs, hirq, hpc, hok, harrived, -⟩ := irq_consumes_one
    (rxInv_of_reachable _ reachable_rx_one.of_restrict) rfl rfl
    (fun b hb => Isr.raise_of_ne _ hb) rfl (by decide)
  have hreach := reachable_irqs (fun _ _ h => And.intro trivial h) 13 _ s reachable_rx_one hs
  obtain ⟨-, hreturn, -⟩ := frames_in_time_are_consumed s hreach
  exact ⟨s, s', hreach, hirq, hpc, hok, harrived, hreturn s' hirq hpc hok⟩

/-- Two frames that arrive before `irq` share one interrupt. The first is consumed, and the
    second is left in the ring with `RxOk` clear. -/
theorem second_frame_is_left : ∃ s s', Reachable rx_system s ∧ rx_system.step s .irq s' ∧
    s'.pc = .idle ∧ s'.isr RxOk = false ∧
    s'.arrived = [List.replicate 64 0, List.replicate 64 1] ∧
    s'.consumed = [List.replicate 64 0] ∧ s'.device.rx_offset ≠ s'.write_offset := by
  have htwo : Reachable rx_system rx_two := by
    have harrive : rx_system.step rx_one (.arrive (1, 0) (List.replicate 64 1)) rx_two :=
      ⟨by decide, by decide, by decide, rfl⟩
    exact .step reachable_rx_one.of_restrict harrive
  obtain ⟨s, s', hs, hirq, hpc, hok, harrived, hwrite, hconsumed, hdevice⟩ := irq_consumes_one
    (rxInv_of_reachable _ htwo) rfl rfl
    (fun b hb => (Isr.raise_of_ne _ hb).trans (Isr.raise_of_ne _ hb)) rfl (by decide)
  have hreach := reachable_irqs (fun _ _ h => h) 13 _ s htwo hs
  refine ⟨s, s', hreach, hirq, hpc, hok, harrived, hconsumed, ?_⟩
  rw [hdevice, hwrite]
  decide

end Modern05
