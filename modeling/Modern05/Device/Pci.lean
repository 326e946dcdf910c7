import Modern05.Device.PciBar
import Modern05.Framework.OrderedMap
import Modern05.Lib.Utils

/-! # Enumeration of PCI devices

    `PCIBusDriver` in `include/device/pci.h` and `device/pci.cpp`. `Enumerate` walks over the
    segment groups of the MCFG table, the buses of a group, the devices of a bus and the functions
    of a device. It reads the configuration space of each through the kernel's window on physical
    memory and offers the function to the driver that is registered for its ids.

    * A trace records every configuration space that is read and every function that is offered.
      `Enumerate_eq` gives the trace as a list, and says that the enumeration changes nothing else:
      the probes of the base address registers leave them as they were.
    * `read_mem_iff` says which configuration spaces are read.
    * `pointers_right_iff` says for which groups the pointers are the addresses of the functions.
-/

namespace Modern05

open OrderedMap

/-! ## Drivers -/

def PCI_INVALID_VENDOR : UInt16 := 0xffff

structure PCIBar where
  start : Nat
  size : Nat
  is_io : Bool
  deriving DecidableEq, Repr

/-- What a driver is offered. -/
structure PCIDeviceInfo where
  config_space : Nat
  bars : Vector PCIBar 6
  deriving DecidableEq, Repr

/-- `Enumerate` says whether the driver could initialize the device. -/
structure PCIDeviceDriver where
  name : String
  Enumerate : PCIDeviceInfo → Bool

/-- `<` on a vendor and a device id. -/
def ids_lt (a b : UInt16 × UInt16) : Bool := a.1 < b.1 || (!decide (b.1 < a.1) && a.2 < b.2)

structure PCIBusDriver where
  drivers_ : OrderedMap (UInt16 × UInt16) PCIDeviceDriver
  active_drivers_ : List PCIDeviceDriver

namespace PCIBusDriver

/-- `drivers_.find({vendor, device})` -/
def find (bus : PCIBusDriver) (ids : UInt16 × UInt16) : Option PCIDeviceDriver :=
  OrderedMap.find ids_lt bus.drivers_ ids

def RegisterDriver (bus : PCIBusDriver) (vendor device : UInt16) (obj : PCIDeviceDriver) :
    Except Fault PCIBusDriver :=
  if (bus.find (vendor, device)).isSome then
    .error (.assertion "drivers_.find(\x7bvendor, device\x7d) == drivers_.end()")
  else .ok { bus with drivers_ := emplace ids_lt bus.drivers_ (vendor, device) obj }

end PCIBusDriver

/-! ## Configuration space -/

/-- The fields of a configuration space that the enumeration uses. -/
structure ExtendedConfigSpace where
  vendor : UInt16
  device : UInt16
  bars : Vector BarRegister 6

/-- A segment group of the MCFG table. -/
structure ECMGroup where
  base : UInt64
  bus_start : UInt8
  bus_end : UInt8
  deriving DecidableEq, Repr

def IDENTITY_MAP_START : Nat := KERNEL_START + IDENTITY_MAP_PHY_START

def IDENTITY_MAP_END : Nat := IDENTITY_MAP_START + IDENTITY_MAP_SIZE

namespace ECMGroup

/-- `bus_end - bus_start`, an `int` that is compared with a `u64`. -/
def bus_count (g : ECMGroup) : Nat := u64_sub g.bus_end.toNat g.bus_start.toNat

/-- `KERNEL_START + (base | (j << 20) | (device << 15 | function << 12))` -/
def config_pointer (g : ECMGroup) (j device function : Nat) : Nat :=
  (KERNEL_START + (g.base.toNat ||| ((j <<< 20) % 2 ^ 64) |||
    (device <<< 15 ||| function <<< 12))) % 2 ^ 64

/-- The warning "segment group start addr out of range". -/
def Skipped (g : ECMGroup) : Prop := IDENTITY_MAP_START ≤ g.base.toNat

instance (g : ECMGroup) : Decidable g.Skipped := inferInstanceAs (Decidable (_ ≤ _))

end ECMGroup

/-! ## The enumeration -/

/-- What the enumeration does to the outside, for the function with a number on a bus counted from
    the first one of a group. -/
inductive PciEvent where
  | read (group j device function : Nat) (pointer : Nat)
  | offer (group j device function : Nat) (driver : PCIDeviceDriver) (info : PCIDeviceInfo)

/-- The configuration space behind each pointer, the drivers that have a device, and the trace. -/
structure PciState where
  config : Nat → ExtendedConfigSpace
  active_drivers_ : List PCIDeviceDriver
  trace : List PciEvent

namespace PciState

def emit (s : PciState) (e : PciEvent) : PciState := { s with trace := s.trace ++ [e] }

end PciState

/-- The bars of `info`, and the registers after all probes. -/
def parse_bars (bars : Vector BarRegister 6) : Vector PCIBar 6 × Vector BarRegister 6 :=
  (bars.map fun bar =>
      if bar.value ≠ 0 then
        let (start, size, is_io) := (bar_parse bar).1
        ⟨start.toNat, size.toNat, is_io⟩
      else ⟨0, 0, false⟩,
    bars.map fun bar => if bar.value ≠ 0 then (bar_parse bar).2 else bar)

section enumerate

variable (bus : PCIBusDriver) (i : Nat) (g : ECMGroup)

def enumerate_function (j device : Nat) (s : PciState) (function : Nat) : PciState :=
  let cs := g.config_pointer j device function
  let s := s.emit (.read i j device function cs)
  if (s.config cs).vendor = PCI_INVALID_VENDOR then s
  else
    match bus.find ((s.config cs).vendor, (s.config cs).device) with
    | none => s
    | some driver =>
      let (bars, registers) := parse_bars (s.config cs).bars
      let info : PCIDeviceInfo := ⟨cs, bars⟩
      let s := { s with
        config := Function.update s.config cs { s.config cs with bars := registers } }
      let s := s.emit (.offer i j device function driver info)
      if driver.Enumerate info then
        { s with active_drivers_ := s.active_drivers_ ++ [driver] }
      else s

def enumerate_device (j : Nat) (s : PciState) (device : Nat) : PciState :=
  let cs0 := (KERNEL_START + (g.base.toNat ||| ((j <<< 20) % 2 ^ 64) ||| device <<< 15)) % 2 ^ 64
  let s := s.emit (.read i j device 0 cs0)
  if (s.config cs0).vendor = PCI_INVALID_VENDOR then s
  else (List.range 8).foldl (enumerate_function bus i g j device) s

def enumerate_bus (s : PciState) (j : Nat) : PciState :=
  (List.range 32).foldl (enumerate_device bus i g j) s

def enumerate_group (s : PciState) : PciState :=
  if IDENTITY_MAP_START ≤ g.base.toNat then s
  else (List.range g.bus_count).foldl (enumerate_bus bus i g) s

end enumerate

/-- The loops of `PCIBusDriver::Enumerate`. -/
def PCIBusDriver.Enumerate (bus : PCIBusDriver) (config : Nat → ExtendedConfigSpace)
    (segment_groups : List ECMGroup) : PciState :=
  segment_groups.zipIdx.foldl (fun s (g, i) => enumerate_group bus i g s)
    ⟨config, bus.active_drivers_, []⟩

/-! ## The trace -/

/-- The drivers that took what they were offered. -/
def accepted (events : List PciEvent) : List PCIDeviceDriver :=
  events.filterMap fun
    | .offer _ _ _ _ driver info => if driver.Enumerate info then some driver else none
    | .read .. => none

/-- The state after the events. The configuration space is as it was. -/
def PciState.after (s : PciState) (events : List PciEvent) : PciState :=
  ⟨s.config, s.active_drivers_ ++ accepted events, s.trace ++ events⟩

namespace PciState

theorem after_nil (s : PciState) : s.after [] = s := by
  simp [after, accepted]

theorem after_append (s : PciState) (l l' : List PciEvent) :
    s.after (l ++ l') = (s.after l).after l' := by
  simp [after, accepted]

theorem emit_read (s : PciState) (i j device function p : Nat) :
    s.emit (.read i j device function p) = s.after [.read i j device function p] := by
  simp [after, accepted, emit]

/-- **Loops**: when each pass adds events that depend on the configuration space only, the loop adds
    them all. -/
theorem foldl_after {α : Type} {step : PciState → α → PciState}
    (out : (Nat → ExtendedConfigSpace) → α → List PciEvent)
    (hstep : ∀ s x, step s x = s.after (out s.config x)) (l : List α) (s : PciState) :
    l.foldl step s = s.after (l.flatMap (out s.config)) := by
  induction l generalizing s with
  | nil => exact (after_nil s).symm
  | cons x l ih =>
    rw [List.foldl_cons, ih, hstep, List.flatMap_cons, after_append]
    rfl

end PciState

section trace

variable (bus : PCIBusDriver) (i : Nat) (g : ECMGroup)

/-- The offer for a function that is there. -/
def offer_events (j device : Nat) (config : Nat → ExtendedConfigSpace) (function : Nat) :
    List PciEvent :=
  let cs := g.config_pointer j device function
  if (config cs).vendor = PCI_INVALID_VENDOR then []
  else
    match bus.find ((config cs).vendor, (config cs).device) with
    | none => []
    | some driver => [.offer i j device function driver ⟨cs, (parse_bars (config cs).bars).1⟩]

def function_events (j device : Nat) (config : Nat → ExtendedConfigSpace) (function : Nat) :
    List PciEvent :=
  .read i j device function (g.config_pointer j device function) ::
    offer_events bus i g j device config function

def device_events (j : Nat) (config : Nat → ExtendedConfigSpace) (device : Nat) :
    List PciEvent :=
  .read i j device 0 (g.config_pointer j device 0) ::
    if (config (g.config_pointer j device 0)).vendor = PCI_INVALID_VENDOR then []
    else (List.range 8).flatMap (function_events bus i g j device config)

def bus_events (config : Nat → ExtendedConfigSpace) (j : Nat) : List PciEvent :=
  (List.range 32).flatMap (device_events bus i g j config)

def group_events (config : Nat → ExtendedConfigSpace) : List PciEvent :=
  if g.Skipped then [] else (List.range g.bus_count).flatMap (bus_events bus i g config)

/-- All probes together change no register. -/
theorem parse_bars_registers (bars : Vector BarRegister 6) : (parse_bars bars).2 = bars := by
  have hsame : (fun bar : BarRegister =>
      if bar.value ≠ 0 then (bar_parse bar).2 else bar) = id := by
    funext bar
    rw [bar_parse_eq]
    exact ite_self bar
  simp only [parse_bars, hsame, Vector.map_id]

theorem enumerate_function_eq (j device : Nat) (s : PciState) (function : Nat) :
    enumerate_function bus i g j device s function =
      s.after (function_events bus i g j device s.config function) := by
  rw [function_events, ← List.singleton_append, PciState.after_append, ← PciState.emit_read]
  unfold enumerate_function offer_events
  dsimp only [PciState.emit]
  split
  · exact (PciState.after_nil _).symm
  · split
    · exact (PciState.after_nil _).symm
    · simp only [parse_bars_registers, Function.update_eq_self]
      split <;> simp [PciState.after, accepted, *]

theorem config_pointer_zero (j device : Nat) :
    g.config_pointer j device 0 =
      (KERNEL_START + (g.base.toNat ||| ((j <<< 20) % 2 ^ 64) ||| device <<< 15)) % 2 ^ 64 := by
  simp [ECMGroup.config_pointer]

theorem enumerate_device_eq (j : Nat) (s : PciState) (device : Nat) :
    enumerate_device bus i g j s device = s.after (device_events bus i g j s.config device) := by
  rw [device_events, ← List.singleton_append, PciState.after_append, ← PciState.emit_read]
  unfold enumerate_device
  rw [← config_pointer_zero]
  dsimp only [PciState.emit]
  split
  · exact (PciState.after_nil _).symm
  · exact PciState.foldl_after _ (enumerate_function_eq bus i g j device) _ _

theorem enumerate_bus_eq (s : PciState) (j : Nat) :
    enumerate_bus bus i g s j = s.after (bus_events bus i g s.config j) :=
  PciState.foldl_after _ (enumerate_device_eq bus i g j) _ s

theorem enumerate_group_eq (s : PciState) :
    enumerate_group bus i g s = s.after (group_events bus i g s.config) := by
  unfold enumerate_group group_events
  by_cases h : g.Skipped
  · rw [if_pos h]
    exact (if_pos h).trans (PciState.after_nil s).symm
  · rw [if_neg h]
    exact (if_neg h).trans (PciState.foldl_after _ (enumerate_bus_eq bus i g) _ s)

end trace

/-- **The whole enumeration**: it reads and offers, group after group, and changes no register. -/
theorem Enumerate_eq (bus : PCIBusDriver) (config : Nat → ExtendedConfigSpace)
    (segment_groups : List ECMGroup) :
    bus.Enumerate config segment_groups =
      PciState.after ⟨config, bus.active_drivers_, []⟩
        (segment_groups.zipIdx.flatMap fun x => group_events bus x.2 x.1 config) :=
  PciState.foldl_after (fun config (x : ECMGroup × Nat) => group_events bus x.2 x.1 config)
    (fun s x => enumerate_group_eq bus x.2 x.1 s) _ _

/-! ## What is read -/

section reads

variable {bus : PCIBusDriver} {i i' j j' d d' f f' p : Nat} {g : ECMGroup}
  {config : Nat → ExtendedConfigSpace}

theorem read_not_mem_offer : .read i' j' d' f' p ∉ offer_events bus i g j d config f := by
  unfold offer_events
  dsimp only
  split
  · exact List.not_mem_nil
  · split <;> simp

theorem read_mem_function :
    .read i' j' d' f' p ∈ function_events bus i g j d config f ↔
      i' = i ∧ j' = j ∧ d' = d ∧ f' = f ∧ p = g.config_pointer j d f := by
  simp [function_events, read_not_mem_offer]

theorem read_mem_device :
    .read i' j' d' f' p ∈ device_events bus i g j config d ↔
      i' = i ∧ j' = j ∧ d' = d ∧ f' < 8 ∧ p = g.config_pointer j d f' ∧
      (f' = 0 ∨ (config (g.config_pointer j d 0)).vendor ≠ PCI_INVALID_VENDOR) := by
  unfold device_events
  split
  · next h =>
    simp only [List.mem_singleton, PciEvent.read.injEq, h]
    constructor
    · intro ⟨hi, hj, hd, hf, hp⟩
      subst hf
      exact ⟨hi, hj, hd, by omega, hp, .inl rfl⟩
    · intro ⟨hi, hj, hd, _, hp, hzero⟩
      have hf : f' = 0 := hzero.resolve_right (fun hne => hne rfl)
      subst hf
      exact ⟨hi, hj, hd, rfl, hp⟩
  · next h =>
    simp only [List.mem_cons, PciEvent.read.injEq, List.mem_flatMap, List.mem_range,
      read_mem_function]
    constructor
    · intro hread
      obtain ⟨hi, hj, hd, hf, hp⟩ | ⟨f, hf, hi, hj, hd, rfl, hp⟩ := hread
      · subst hf
        exact ⟨hi, hj, hd, by omega, hp, .inr h⟩
      · exact ⟨hi, hj, hd, hf, hp, .inr h⟩
    · intro ⟨hi, hj, hd, hf, hp, _⟩
      exact .inr ⟨f', hf, hi, hj, hd, rfl, hp⟩

theorem read_mem_group :
    .read i' j d f p ∈ group_events bus i g config ↔
      i' = i ∧ ¬ g.Skipped ∧ j < g.bus_count ∧ d < 32 ∧ f < 8 ∧ p = g.config_pointer j d f ∧
      (f = 0 ∨ (config (g.config_pointer j d 0)).vendor ≠ PCI_INVALID_VENDOR) := by
  unfold group_events bus_events
  split
  · next h => simp [h]
  · next h =>
    simp only [List.mem_flatMap, List.mem_range, read_mem_device]
    constructor
    · intro ⟨j, hj, d, hd, hi, hj', hd', hf, hp, hzero⟩
      subst hj' hd'
      exact ⟨hi, h, hj, hd, hf, hp, hzero⟩
    · intro ⟨hi, _, hj, hd, hf, hp, hzero⟩
      exact ⟨j, hj, d, hd, hi, rfl, rfl, hf, hp, hzero⟩

/-- **The configuration spaces that are read**: those of the first function of every device on every
    bus up to, but not including, the last one, and of the other functions of a device that is
    there. -/
theorem read_mem_iff {segment_groups : List ECMGroup} (hi : segment_groups[i]? = some g) :
    .read i j d f p ∈ (bus.Enumerate config segment_groups).trace ↔
      ¬ g.Skipped ∧ j < g.bus_count ∧ d < 32 ∧ f < 8 ∧ p = g.config_pointer j d f ∧
      (f = 0 ∨ (config (g.config_pointer j d 0)).vendor ≠ PCI_INVALID_VENDOR) := by
  rw [Enumerate_eq]
  simp only [PciState.after, List.nil_append, List.mem_flatMap, read_mem_group]
  constructor
  · intro ⟨⟨g', k⟩, hmem, hik, hread⟩
    simp only at hik hread
    subst hik
    have hg : segment_groups[i]? = some g' := List.mem_zipIdx_iff_getElem?.mp hmem
    rw [hi] at hg
    cases hg
    exact hread
  · intro hread
    exact ⟨(g, i), List.mem_zipIdx_iff_getElem?.mpr hi, rfl, hread⟩

end reads

/-! ## Pointers -/

/-- What two numbers have in common is counted once by `|` and twice by `+`. -/
theorem or_add_and (x y : Nat) : (x ||| y) + (x &&& y) = x + y := by
  induction x using Nat.strong_induction_on generalizing y with
  | _ x ih =>
    by_cases hx : x = 0
    · simp [hx]
    · have hhalf := ih (x / 2) (by omega) (y / 2)
      rw [← Nat.or_div_two, ← Nat.and_div_two] at hhalf
      have hor := Nat.or_mod_two_eq_one (a := x) (b := y)
      have hand := Nat.and_mod_two_eq_one (a := x) (b := y)
      omega

section pointers

variable {g : ECMGroup} {j d f : Nat}

/-- The number of buses is small, unless the last bus is before the first. -/
theorem bus_count_cases (g : ECMGroup) :
    (g.bus_start.toNat ≤ g.bus_end.toNat ∧ g.bus_count = g.bus_end.toNat - g.bus_start.toNat) ∨
    2 ^ 63 < g.bus_count := by
  have hstart := g.bus_start.toNat_lt
  have hend := g.bus_end.toNat_lt
  unfold ECMGroup.bus_count u64_sub
  omega

/-- The lower 20 bits of a pointer are the device and the function. -/
theorem config_pointer_eq (haligned : g.base.toNat % 2 ^ 20 = 0) (hd : d < 32) (hf : f < 8) :
    g.config_pointer j d f =
      (KERNEL_START + ((g.base.toNat ||| (j <<< 20) % 2 ^ 64) + d * 2 ^ 15 + f * 2 ^ 12)) %
        2 ^ 64 := by
  have hlow : d <<< 15 ||| f <<< 12 = d * 2 ^ 15 + f * 2 ^ 12 := by
    have hlt : f <<< 12 < 2 ^ 15 := by
      rw [Nat.shiftLeft_eq]
      omega
    rw [← Nat.shiftLeft_add_eq_or_of_lt hlt, Nat.shiftLeft_eq, Nat.shiftLeft_eq]
  have hhigh : (g.base.toNat ||| (j <<< 20) % 2 ^ 64) % 2 ^ 20 = 0 := by
    have hshift : (j <<< 20) % 2 ^ 64 % 2 ^ 20 = 0 := by
      rw [Nat.shiftLeft_eq]
      omega
    rw [Nat.or_mod_two_pow, haligned, hshift]
    rfl
  obtain ⟨k, hk⟩ := Nat.dvd_of_mod_eq_zero hhigh
  unfold ECMGroup.config_pointer
  rw [hlow, hk, ← Nat.two_pow_add_eq_or_of_lt (by omega) k, Nat.add_assoc (2 ^ 20 * k)]

/-- A pointer whose base and bus have no bit in common. -/
theorem config_pointer_of_disjoint (haligned : g.base.toNat % 2 ^ 20 = 0)
    (hbits : g.base.toNat &&& j <<< 20 = 0) (hd : d < 32) (hf : f < 8)
    (hlt : KERNEL_START + g.base.toNat + (j + 1) * 2 ^ 20 ≤ 2 ^ 64) :
    g.config_pointer j d f =
      KERNEL_START + g.base.toNat + j * 2 ^ 20 + d * 2 ^ 15 + f * 2 ^ 12 := by
  have hsum := or_add_and g.base.toNat (j <<< 20)
  rw [config_pointer_eq haligned hd hf, Nat.mod_eq_of_lt (a := j <<< 20)]
  · rw [Nat.mod_eq_of_lt]
    · rw [Nat.shiftLeft_eq] at hsum hbits ⊢
      omega
    · rw [Nat.shiftLeft_eq] at hsum hbits ⊢
      omega
  · rw [Nat.shiftLeft_eq]
    omega

/-- The pointers for the functions of a group are different, they are the addresses of the functions
    in the kernel's window, and they lie in the part of it that maps physical memory. -/
def PointersRight (g : ECMGroup) : Prop :=
  ∀ (bus : PCIBusDriver) (config : Nat → ExtendedConfigSpace) (segment_groups : List ECMGroup)
    (i : Nat), segment_groups[i]? = some g →
    (∀ j d f p, .read i j d f p ∈ (bus.Enumerate config segment_groups).trace →
      p = (KERNEL_START + g.base.toNat + j <<< 20 + d <<< 15 + f <<< 12) % 2 ^ 64 ∧
      IDENTITY_MAP_START ≤ p ∧ p < IDENTITY_MAP_END) ∧
    (∀ j d f p j' d' f' p', .read i j d f p ∈ (bus.Enumerate config segment_groups).trace →
      .read i j' d' f' p' ∈ (bus.Enumerate config segment_groups).trace →
      (j, d, f) ≠ (j', d', f') → p ≠ p')

/-- No bit of the base is one of a bus number, and the group lies in the window. -/
def Addressable (g : ECMGroup) : Prop :=
  (∀ j < g.bus_count, g.base.toNat &&& j <<< 20 = 0) ∧
  IDENTITY_MAP_PHY_START ≤ g.base.toNat ∧
  g.base.toNat + g.bus_count * 2 ^ 20 ≤ IDENTITY_MAP_PHY_END

theorem Addressable.config_pointer (h : Addressable g) (haligned : g.base.toNat % 2 ^ 20 = 0)
    (hj : j < g.bus_count) (hd : d < 32) (hf : f < 8) :
    g.config_pointer j d f =
      KERNEL_START + g.base.toNat + j * 2 ^ 20 + d * 2 ^ 15 + f * 2 ^ 12 := by
  obtain ⟨hbits, hstart, hend⟩ := h
  have hmax : KERNEL_START + IDENTITY_MAP_PHY_END ≤ 2 ^ 64 := by decide
  exact config_pointer_of_disjoint haligned (hbits j hj) hd hf (by omega)

theorem Addressable.pointers_right (h : Addressable g) (haligned : g.base.toNat % 2 ^ 20 = 0) :
    PointersRight g := by
  have hwindow : IDENTITY_MAP_START = KERNEL_START + IDENTITY_MAP_PHY_START := rfl
  have hwindow_end : IDENTITY_MAP_END = KERNEL_START + IDENTITY_MAP_PHY_END := rfl
  have hmax : KERNEL_START + IDENTITY_MAP_PHY_END ≤ 2 ^ 64 := by decide
  obtain ⟨_, hstart, hend⟩ := id h
  intro bus config segment_groups i hi
  constructor
  · intro j d f p hread
    obtain ⟨_, hj, hd, hf, hp, _⟩ := (read_mem_iff hi).mp hread
    rw [h.config_pointer haligned hj hd hf] at hp
    simp only [Nat.shiftLeft_eq]
    omega
  · intro j d f p j' d' f' p' hread hread' hne heq
    obtain ⟨_, hj, hd, hf, hp, _⟩ := (read_mem_iff hi).mp hread
    obtain ⟨_, hj', hd', hf', hp', _⟩ := (read_mem_iff hi).mp hread'
    rw [h.config_pointer haligned hj hd hf] at hp
    rw [h.config_pointer haligned hj' hd' hf'] at hp'
    have hsame : j = j' ∧ d = d' ∧ f = f' := by omega
    obtain ⟨rfl, rfl, rfl⟩ := hsame
    exact hne rfl

/-- A configuration space that shows every function of every device. -/
def all_present : ExtendedConfigSpace := ⟨0, 0, Vector.replicate 6 ⟨0, 0, by simp⟩⟩

/-- When all devices have all functions, every pointer of a group is used. -/
theorem read_all_present (hskip : ¬ g.Skipped) (hj : j < g.bus_count) (hd : d < 32) (hf : f < 8) :
    .read 0 j d f (g.config_pointer j d f) ∈
      (PCIBusDriver.Enumerate ⟨[], []⟩ (fun _ => all_present) [g]).trace :=
  (read_mem_iff rfl).mpr ⟨hskip, hj, hd, hf, rfl, .inr (by decide)⟩

theorem PointersRight.addressable (h : PointersRight g) (hskip : ¬ g.Skipped)
    (haligned : g.base.toNat % 2 ^ 20 = 0) (hcount : g.bus_count ≠ 0) : Addressable g := by
  have hwindow : IDENTITY_MAP_START = KERNEL_START + IDENTITY_MAP_PHY_START := rfl
  have hwindow_end : IDENTITY_MAP_END = KERNEL_START + IDENTITY_MAP_PHY_END := rfl
  have hstart : IDENTITY_MAP_PHY_START = 2 ^ 26 := by decide
  have hend : IDENTITY_MAP_PHY_END = 2 ^ 32 := by decide
  have hkernel : KERNEL_START = 2 ^ 64 - 2 ^ 47 := by decide
  have hbase : g.base.toNat < IDENTITY_MAP_START := Nat.lt_of_not_le hskip
  obtain ⟨hright, hdistinct⟩ := h ⟨[], []⟩ (fun _ => all_present) [g] 0 rfl
  -- a group with its buses in the wrong order has two of them at one address
  have hsmall : g.bus_count ≤ 255 := by
    rcases bus_count_cases g with ⟨_, hcount⟩ | hlarge
    · have := g.bus_end.toNat_lt
      omega
    · have hfirst := read_all_present (d := 0) (f := 0) hskip (j := 0) (by omega) (by omega)
        (by omega)
      have hsecond := read_all_present (d := 0) (f := 0) hskip (j := 2 ^ 44) (by omega) (by omega)
        (by omega)
      exact absurd rfl (hdistinct _ _ _ _ _ _ _ _ hfirst hsecond (by simp))
  have hpointer : ∀ j d f, j < g.bus_count → d < 32 → f < 8 →
      g.config_pointer j d f =
        (KERNEL_START + g.base.toNat + j <<< 20 + d <<< 15 + f <<< 12) % 2 ^ 64 ∧
      IDENTITY_MAP_START ≤ g.config_pointer j d f ∧ g.config_pointer j d f < IDENTITY_MAP_END :=
    fun j d f hj hd hf => hright j d f _ (read_all_present hskip hj hd hf)
  refine ⟨?_, ?_, ?_⟩
  · intro j hj
    have hsum := or_add_and g.base.toNat (j <<< 20)
    obtain ⟨heq, -, -⟩ := hpointer j 0 0 hj (by omega) (by omega)
    have hshift : j <<< 20 % 2 ^ 64 = j <<< 20 := by
      rw [Nat.shiftLeft_eq]
      omega
    rw [config_pointer_eq haligned (by omega) (by omega), hshift] at heq
    simp only [Nat.shiftLeft_eq] at heq hsum ⊢
    omega
  · obtain ⟨heq, hge, -⟩ := hpointer 0 0 0 (by omega) (by omega) (by omega)
    simp only [Nat.shiftLeft_eq] at heq
    omega
  · obtain ⟨heq, hge, hlt⟩ := hpointer (g.bus_count - 1) 31 7 (by omega) (by omega) (by omega)
    simp only [Nat.shiftLeft_eq] at heq
    omega

end pointers

/-- **When the pointers of a group are right**: it has no bus to go through, or no bit of its base
    is one of a bus number and the whole group is in the part of physical memory that is mapped.
    The code combines base and bus with `|`, and compares the base with a limit for pointers. -/
theorem pointers_right_iff (g : ECMGroup) (hskip : ¬ g.Skipped)
    (haligned : g.base.toNat % 2 ^ 20 = 0) :
    PointersRight g ↔ g.bus_count = 0 ∨ Addressable g := by
  constructor
  · intro h
    by_cases hcount : g.bus_count = 0
    · exact .inl hcount
    · exact .inr (h.addressable hskip haligned hcount)
  · intro h
    rcases h with hcount | h
    · intro bus config segment_groups i hi
      have hno : ∀ j d f p, .read i j d f p ∉ (bus.Enumerate config segment_groups).trace := by
        intro j d f p hread
        obtain ⟨_, hj, _⟩ := (read_mem_iff hi).mp hread
        omega
      exact ⟨fun j d f p hread => absurd hread (hno j d f p),
        fun j d f p j' d' f' p' hread => absurd hread (hno j d f p)⟩
    · exact h.pointers_right haligned

/-- The base and the buses of a common machine, with 256 MiB of configuration space. -/
def q35_group : ECMGroup := ⟨0xb0000000, 0, 255⟩

theorem q35_pointers_right : PointersRight q35_group :=
  (pointers_right_iff q35_group (by decide) (by decide)).mpr
    (.inr ⟨by decide +kernel, by decide, by decide⟩)

/-- A group whose base has the lowest bit of the bus number. -/
def overlapping_group : ECMGroup := ⟨0xb0100000, 0, 2⟩

/-- Its first two buses have the same pointers. -/
theorem overlapping_buses_aliased :
    overlapping_group.config_pointer 0 0 0 = overlapping_group.config_pointer 1 0 0 ∧
    ¬ PointersRight overlapping_group := by
  constructor
  · decide
  · intro h
    obtain ⟨-, hdistinct⟩ := h ⟨[], []⟩ (fun _ => all_present) [overlapping_group] 0 rfl
    have hfirst := read_all_present (g := overlapping_group) (j := 0) (d := 0) (f := 0)
      (by decide) (by decide) (by decide) (by decide)
    have hsecond := read_all_present (g := overlapping_group) (j := 1) (d := 0) (f := 0)
      (by decide) (by decide) (by decide) (by decide)
    exact hdistinct _ _ _ _ _ _ _ _ hfirst hsecond (by decide) (by decide)

end Modern05
