import Modern05.Device.Pci

/-! # What the enumeration of PCI devices covers

    In the MCFG table the last bus of a segment group is part of the group. A machine has functions
    at some of the numbers (bus, device, function) of each group, and shows their configuration
    spaces at the addresses of the group.

    * `offers_eq` says what a function is offered to, as a list: nothing, or its driver once.
    * `enumeration_complete_iff` says when every function of a machine is offered to its driver.
-/

namespace Modern05

/-! ## Machines -/

/-- A function of a device that is there. -/
structure PciFunction where
  config_space : ExtendedConfigSpace
  present : config_space.vendor ≠ PCI_INVALID_VENDOR

def PciFunction.ids (fn : PciFunction) : UInt16 × UInt16 :=
  (fn.config_space.vendor, fn.config_space.device)

/-- The function at each group, bus, device and function number. A device that is there has a
    function 0. -/
structure PciMachine where
  function : Nat → Nat → Nat → Nat → Option PciFunction
  function_zero : ∀ i bus d f, function i bus d f ≠ none → function i bus d 0 ≠ none

namespace ECMGroup

/-- The numbers of a group. -/
def Has (g : ECMGroup) (bus d f : Nat) : Prop :=
  g.bus_start.toNat ≤ bus ∧ bus ≤ g.bus_end.toNat ∧ d < 32 ∧ f < 8

instance (g : ECMGroup) (bus d f : Nat) : Decidable (g.Has bus d f) :=
  inferInstanceAs (Decidable (_ ∧ _ ∧ _ ∧ _))

/-- Where a function is seen in the kernel's window. -/
def address (g : ECMGroup) (bus d f : Nat) : Nat :=
  KERNEL_START + g.base.toNat + (bus - g.bus_start.toNat) * 2 ^ 20 + d * 2 ^ 15 + f * 2 ^ 12

/-- The code gets the addresses of the group right (`pointers_right_iff`). -/
structure Direct (g : ECMGroup) : Prop where
  ordered : g.bus_start.toNat ≤ g.bus_end.toNat
  aligned : g.base.toNat % 2 ^ 20 = 0
  addressable : g.bus_count = 0 ∨ Addressable g

variable {g : ECMGroup} {bus d f : Nat}

theorem Direct.bus_count (h : g.Direct) :
    g.bus_count = g.bus_end.toNat - g.bus_start.toNat := by
  rcases bus_count_cases g with ⟨_, hcount⟩ | hlarge
  · exact hcount
  · have hstart := g.bus_start.toNat_lt
    have hend := g.bus_end.toNat_lt
    have hcount := u64_sub_of_le h.ordered (by omega)
    exact hcount

/-- The pointer of the code is the address of the function, on a bus that is scanned. -/
theorem Direct.config_pointer (h : g.Direct) (hhas : g.Has bus d f)
    (hbus : bus - g.bus_start.toNat < g.bus_count) :
    g.config_pointer (bus - g.bus_start.toNat) d f = g.address bus d f := by
  obtain ⟨-, -, hd, hf⟩ := hhas
  rcases h.addressable with hnone | haddressable
  · omega
  · exact haddressable.config_pointer h.aligned hbus hd hf

end ECMGroup

/-- The machine shows its functions at their addresses; where there is none, a vendor that does not
    exist is read. -/
def Decodes (config : Nat → ExtendedConfigSpace) (segment_groups : List ECMGroup)
    (m : PciMachine) : Prop :=
  ∀ i g, segment_groups[i]? = some g → ∀ bus d f, g.Has bus d f →
    match m.function i bus d f with
    | some fn => config (g.address bus d f) = fn.config_space
    | none => (config (g.address bus d f)).vendor = PCI_INVALID_VENDOR

/-! ## Offers -/

/-- The drivers that a function was offered to, with the configuration space they were given. -/
def offers_for (i j d f : Nat) (events : List PciEvent) : List (PCIDeviceDriver × Nat) :=
  events.filterMap fun
    | .offer i' j' d' f' driver info =>
      if i' = i ∧ j' = j ∧ d' = d ∧ f' = f then some (driver, info.config_space) else none
    | .read .. => none

/-- A list without duplicates of which one element gives something. -/
theorem flatMap_eq_of_single {α β : Type} {l : List α} (hl : l.Nodup) {a : α} (ha : a ∈ l)
    {h : α → List β} (hne : ∀ x ∈ l, x ≠ a → h x = []) : l.flatMap h = h a := by
  induction l with
  | nil => exact absurd ha List.not_mem_nil
  | cons x l ih =>
    obtain ⟨hx, hl⟩ := List.nodup_cons.mp hl
    rw [List.flatMap_cons]
    by_cases heq : x = a
    · have hrest : l.flatMap h = [] := by
        apply List.flatMap_eq_nil_iff.mpr
        intro y hy
        exact hne y (List.mem_cons_of_mem x hy) fun hya => hx (heq ▸ hya ▸ hy)
      rw [hrest, List.append_nil, heq]
    · have hmem : a ∈ l := (List.mem_cons.mp ha).resolve_left fun h => heq h.symm
      rw [hne x List.mem_cons_self heq, List.nil_append]
      exact ih hl hmem fun y hy => hne y (List.mem_cons_of_mem x hy)

section offers

variable {pci : PCIBusDriver} {i i' j j' d d' f f' : Nat} {g : ECMGroup}
  {config : Nat → ExtendedConfigSpace}

theorem offers_for_flatMap {α : Type} (l : List α) (out : α → List PciEvent) :
    offers_for i j d f (l.flatMap out) = l.flatMap fun x => offers_for i j d f (out x) :=
  List.filterMap_flatMap

theorem offers_for_read (p : Nat) (l : List PciEvent) :
    offers_for i j d f (.read i' j' d' f' p :: l) = offers_for i j d f l := rfl

/-- What a configuration space is offered to. -/
def offered (pci : PCIBusDriver) (g : ECMGroup) (config : Nat → ExtendedConfigSpace)
    (j d f : Nat) : List (PCIDeviceDriver × Nat) :=
  let p := g.config_pointer j d f
  if (config p).vendor = PCI_INVALID_VENDOR then []
  else ((pci.find ((config p).vendor, (config p).device)).map (·, p)).toList

theorem offers_function :
    offers_for i' j' d' f' (function_events pci i g j d config f) =
      if i = i' ∧ j = j' ∧ d = d' ∧ f = f' then offered pci g config j d f else [] := by
  rw [function_events, offers_for_read]
  unfold offer_events offered
  dsimp only
  split
  · simp [offers_for]
  · split
    · next hnone => simp [offers_for, hnone]
    · next driver hdriver =>
      rw [hdriver]
      by_cases hlabel : i = i' ∧ j = j' ∧ d = d' ∧ f = f'
      · simp [offers_for, hlabel]
      · simp [offers_for, hlabel]

theorem offers_device (hf : f' < 8) :
    offers_for i' j' d' f' (device_events pci i g j config d) =
      if i = i' ∧ j = j' ∧ d = d' then
        if (config (g.config_pointer j d 0)).vendor = PCI_INVALID_VENDOR then []
        else offered pci g config j d f'
      else [] := by
  rw [device_events, offers_for_read]
  by_cases hzero : (config (g.config_pointer j d 0)).vendor = PCI_INVALID_VENDOR
  · rw [if_pos hzero, if_pos hzero, ite_self]
    rfl
  · rw [if_neg hzero, if_neg hzero, offers_for_flatMap,
      flatMap_eq_of_single List.nodup_range (List.mem_range.mpr hf)]
    · rw [offers_function]
      simp
    · intro f _ hne
      rw [offers_function, if_neg fun h => hne h.2.2.2]

theorem offers_bus (hd : d' < 32) (hf : f' < 8) :
    offers_for i' j' d' f' (bus_events pci i g config j) =
      if i = i' ∧ j = j' then
        if (config (g.config_pointer j d' 0)).vendor = PCI_INVALID_VENDOR then []
        else offered pci g config j d' f'
      else [] := by
  rw [bus_events, offers_for_flatMap,
    flatMap_eq_of_single List.nodup_range (List.mem_range.mpr hd)]
  · rw [offers_device hf]
    simp
  · intro d _ hne
    rw [offers_device hf, if_neg fun h => hne h.2.2]

theorem offers_group (hd : d < 32) (hf : f < 8) :
    offers_for i' j d f (group_events pci i g config) =
      if i = i' ∧ ¬ g.Skipped ∧ j < g.bus_count ∧
        (config (g.config_pointer j d 0)).vendor ≠ PCI_INVALID_VENDOR then
        offered pci g config j d f
      else [] := by
  unfold group_events
  by_cases hskip : g.Skipped
  · rw [if_pos hskip, if_neg fun h => h.2.1 hskip]
    rfl
  · rw [if_neg hskip, offers_for_flatMap]
    by_cases hj : j < g.bus_count
    · rw [flatMap_eq_of_single List.nodup_range (List.mem_range.mpr hj), offers_bus hd hf]
      · simp only [hskip, hj, not_false_eq_true, true_and, and_true]
        split <;> simp [*]
      · intro j' _ hne
        rw [offers_bus hd hf, if_neg fun h => hne h.2]
    · rw [if_neg fun h => hj h.2.2.1]
      apply List.flatMap_eq_nil_iff.mpr
      intro j' hj'
      have hne : j' ≠ j := fun heq => hj (heq ▸ List.mem_range.mp hj')
      rw [offers_bus hd hf, if_neg fun h => hne h.2]

/-- **What a function is offered to** by the whole enumeration. -/
theorem offers_eq {segment_groups : List ECMGroup} (hi : segment_groups[i]? = some g)
    (hd : d < 32) (hf : f < 8) :
    offers_for i j d f (pci.Enumerate config segment_groups).trace =
      if ¬ g.Skipped ∧ j < g.bus_count ∧
        (config (g.config_pointer j d 0)).vendor ≠ PCI_INVALID_VENDOR then
        offered pci g config j d f
      else [] := by
  have hmem : (g, i) ∈ segment_groups.zipIdx := List.mem_zipIdx_iff_getElem?.mpr hi
  have hnodup : segment_groups.zipIdx.Nodup := by
    apply List.Nodup.of_map Prod.snd
    rw [List.zipIdx_map_snd]
    exact List.nodup_range'
  rw [Enumerate_eq]
  simp only [PciState.after, List.nil_append, offers_for_flatMap]
  rw [flatMap_eq_of_single hnodup hmem]
  · rw [offers_group hd hf]
    simp
  · intro x hmem' hne
    obtain ⟨g', i'⟩ := x
    have hne' : i' ≠ i := by
      intro heq
      have hg' := List.mem_zipIdx_iff_getElem?.mp hmem'
      simp only at hg'
      rw [heq, hi] at hg'
      cases hg'
      exact hne (heq ▸ rfl)
    rw [offers_group hd hf, if_neg fun h => hne' h.1]

end offers

/-! ## Coverage -/

/-- Every function of the machine is offered once to the driver that is registered for its ids, if
    there is one, and to no other. -/
def EnumerationComplete (pci : PCIBusDriver) (config : Nat → ExtendedConfigSpace)
    (segment_groups : List ECMGroup) (m : PciMachine) : Prop :=
  ∀ i g, segment_groups[i]? = some g → ∀ bus d f, g.Has bus d f →
    ∀ fn, m.function i bus d f = some fn →
      offers_for i (bus - g.bus_start.toNat) d f (pci.Enumerate config segment_groups).trace =
        ((pci.find fn.ids).map (·, g.address bus d f)).toList

section coverage

variable {pci : PCIBusDriver} {config : Nat → ExtendedConfigSpace}
  {segment_groups : List ECMGroup} {m : PciMachine} {i bus d f : Nat} {g : ECMGroup}
  {fn : PciFunction}

/-- A function that is there is seen at its address. -/
theorem Decodes.config_space (h : Decodes config segment_groups m)
    (hi : segment_groups[i]? = some g) (hhas : g.Has bus d f)
    (hfn : m.function i bus d f = some fn) : config (g.address bus d f) = fn.config_space := by
  have hshown := h i g hi bus d f hhas
  rwa [hfn] at hshown

/-- **The offers of a function that is there**: those of its driver, unless its group is skipped or
    it is on the last bus. -/
theorem offers_of_present (hdecodes : Decodes config segment_groups m)
    (hi : segment_groups[i]? = some g) (hdirect : ¬ g.Skipped → g.Direct) (hhas : g.Has bus d f)
    (hfn : m.function i bus d f = some fn) :
    offers_for i (bus - g.bus_start.toNat) d f (pci.Enumerate config segment_groups).trace =
      if ¬ g.Skipped ∧ bus ≠ g.bus_end.toNat then
        ((pci.find fn.ids).map (·, g.address bus d f)).toList
      else [] := by
  obtain ⟨hstart, hend, hd, hf⟩ := id hhas
  rw [offers_eq hi hd hf]
  by_cases hskip : g.Skipped
  · rw [if_neg fun h => h.1 hskip, if_neg fun h => h.1 hskip]
  · have hdirect := hdirect hskip
    have hlast : bus - g.bus_start.toNat < g.bus_count ↔ bus ≠ g.bus_end.toNat := by
      rw [hdirect.bus_count]
      omega
    by_cases hbus : bus = g.bus_end.toNat
    · rw [if_neg fun h => hlast.mp h.2.1 hbus, if_neg fun h => h.2 hbus]
    have hscanned := hlast.mpr hbus
    -- a device that has a function has function 0, without which the loop skips it
    have hzero : (config (g.config_pointer (bus - g.bus_start.toNat) d 0)).vendor ≠
        PCI_INVALID_VENDOR := by
      have hne : m.function i bus d f ≠ none := by simp [hfn]
      obtain ⟨fn₀, hfn₀⟩ := Option.ne_none_iff_exists'.mp (m.function_zero i bus d f hne)
      have hhas₀ : g.Has bus d 0 := ⟨hstart, hend, hd, by omega⟩
      rw [hdirect.config_pointer hhas₀ hscanned, hdecodes.config_space hi hhas₀ hfn₀]
      exact fn₀.present
    have hoffered : offered pci g config (bus - g.bus_start.toNat) d f =
        ((pci.find fn.ids).map (·, g.address bus d f)).toList := by
      unfold offered
      dsimp only
      rw [hdirect.config_pointer hhas hscanned, hdecodes.config_space hi hhas hfn]
      exact if_neg fn.present
    rw [if_pos ⟨hskip, hscanned, hzero⟩, if_pos ⟨hskip, hbus⟩, hoffered]

end coverage

/-- **When nothing is missed**, on a machine whose groups are at addresses that the code gets right:
    every function that has a driver is on a bus before the last one, in a group that is not
    skipped. The loop over the buses ends before `bus_end`. -/
theorem enumeration_complete_iff (pci : PCIBusDriver) (config : Nat → ExtendedConfigSpace)
    (segment_groups : List ECMGroup) (m : PciMachine) (hdecodes : Decodes config segment_groups m)
    (hdirect : ∀ g ∈ segment_groups, ¬ g.Skipped → g.Direct) :
    EnumerationComplete pci config segment_groups m ↔
      ∀ i g, segment_groups[i]? = some g → ∀ bus d f, g.Has bus d f →
        ∀ fn, m.function i bus d f = some fn → pci.find fn.ids ≠ none →
          ¬ g.Skipped ∧ bus ≠ g.bus_end.toNat := by
  constructor
  · intro h i g hi bus d f hhas fn hfn hdriver
    have hoffers := h i g hi bus d f hhas fn hfn
    rw [offers_of_present hdecodes hi (hdirect g (List.mem_of_getElem? hi)) hhas hfn] at hoffers
    by_contra hmissed
    rw [if_neg hmissed] at hoffers
    obtain ⟨driver, hdriver⟩ := Option.ne_none_iff_exists'.mp hdriver
    simp [hdriver] at hoffers
  · intro h i g hi bus d f hhas fn hfn
    rw [offers_of_present hdecodes hi (hdirect g (List.mem_of_getElem? hi)) hhas hfn]
    by_cases hdriver : pci.find fn.ids = none
    · rw [hdriver]
      exact ite_self _
    · rw [if_pos (h i g hi bus d f hhas fn hfn hdriver)]

/-! ## A network card -/

def rtl8139_driver : PCIDeviceDriver := ⟨"rtl8139", fun _ => true⟩

def rtl8139_bus : PCIBusDriver := ⟨[((0x10ec, 0x8139), rtl8139_driver)], []⟩

def rtl8139 : PciFunction where
  config_space := ⟨0x10ec, 0x8139, Vector.replicate 6 io_bar⟩
  present := by decide

/-- A group with the buses 0 and 1. -/
def two_buses : ECMGroup := ⟨0xb0000000, 0, 1⟩

theorem two_buses_direct : two_buses.Direct where
  ordered := by decide
  aligned := by decide
  addressable := .inr (by unfold Addressable; decide)

/-- A machine with the card as device 3 of one bus. -/
def one_card (slot : Nat) : PciMachine where
  function := fun _ bus d f => if bus = slot ∧ d = 3 ∧ f = 0 then some rtl8139 else none
  function_zero := by
    intro _ bus d f hne
    by_cases h : bus = slot ∧ d = 3 ∧ f = 0
    · simp [h]
    · simp [h] at hne

def one_card_config (slot : Nat) (p : Nat) : ExtendedConfigSpace :=
  if p = two_buses.address slot 3 0 then rtl8139.config_space
  else ⟨PCI_INVALID_VENDOR, 0xffff, Vector.replicate 6 io_bar⟩

theorem one_card_decodes {slot : Nat} :
    Decodes (one_card_config slot) [two_buses] (one_card slot) := by
  intro i g hi bus d f hhas
  have hg : g = two_buses := by
    have hmem := List.mem_of_getElem? hi
    simpa using hmem
  subst hg
  obtain ⟨_, _, hd, hf⟩ := hhas
  by_cases h : bus = slot ∧ d = 3 ∧ f = 0
  · obtain ⟨rfl, rfl, rfl⟩ := h
    simp [one_card, one_card_config]
  · have hne : two_buses.address bus d f ≠ two_buses.address slot 3 0 := by
      have hstart : two_buses.bus_start.toNat = 0 := rfl
      simp only [ECMGroup.address, hstart]
      omega
    simp [one_card, one_card_config, h, hne]

/-- The card on the first of the two buses is offered to its driver. -/
theorem card_on_first_bus_offered :
    EnumerationComplete rtl8139_bus (one_card_config 0) [two_buses] (one_card 0) ∧
    (rtl8139_bus.Enumerate (one_card_config 0) [two_buses]).active_drivers_.map (·.name) =
      ["rtl8139"] := by
  constructor
  · apply (enumeration_complete_iff _ _ _ _ one_card_decodes ?_).mpr
    · intro i g hi bus d f _ fn hfn _
      have hg : g = two_buses := by simpa using List.mem_of_getElem? hi
      have hbus : bus = 0 := by
        by_contra hne
        simp [one_card, hne] at hfn
      subst hg hbus
      decide
    · intro g hg _
      obtain rfl := List.mem_singleton.mp hg
      exact two_buses_direct
  · decide +kernel

/-- On the last bus it is not. -/
theorem card_on_last_bus_missed :
    (rtl8139_bus.Enumerate (one_card_config 1) [two_buses]).active_drivers_.map (·.name) = [] ∧
    ¬ EnumerationComplete rtl8139_bus (one_card_config 1) [two_buses] (one_card 1) := by
  constructor
  · decide +kernel
  · intro h
    have hhas : two_buses.Has 1 3 0 := by decide
    have hoffers := h 0 two_buses rfl 1 3 0 hhas rtl8139 rfl
    rw [offers_of_present one_card_decodes rfl (fun _ => two_buses_direct) hhas rfl,
      if_neg (by decide)] at hoffers
    exact absurd (congrArg List.length hoffers) (by decide +kernel)

end Modern05
