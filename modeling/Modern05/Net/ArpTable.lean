import Modern05.Net.Arp
import Mathlib.Tactic.IntervalCases

/-! # What the ARP table knows

    `put` and `find` of `ArpDriver` on the two maps, without the steps of the lock.

    The map from hardware addresses is ordered by `memcmp` and finds what was put. The map from
    IP addresses is ordered by a comparison that is never true, so that all addresses are the
    same key, although the numbers that it should compare are those of the addresses.

    * `IPv4Address.to_u32_eq`: the number of an address is right.
    * `find_mac_puts`: a lookup by hardware address gives the last one that was put for it, by
      the order that `memcmp` is (`EthernetAddress.isStrictTotalOrder`).
    * `find_puts`: a lookup by IP address gives the last one that was put at all.
    * `find_eq_last_put_iff`: when this is the one that was put for the address.
-/

namespace Modern05

open OrderedMap Memory

/-! ## Byte order -/

def swap_endian_u16 (v : UInt16) : UInt16 :=
  ((v >>> 0) &&& 0xff) <<< 8 ||| ((v >>> 8) &&& 0xff) <<< 0

def swap_endian_u32 (v : UInt32) : UInt32 :=
  ((v >>> 0) &&& 0xff) <<< 24 ||| ((v >>> 8) &&& 0xff) <<< 16 |||
    ((v >>> 16) &&& 0xff) <<< 8 ||| ((v >>> 24) &&& 0xff) <<< 0

/-- Numbers without a common bit, one of them below the other. -/
theorem or_eq_add (i : Nat) {x y : Nat} (hx : x % 2 ^ i = 0) (hy : y < 2 ^ i) :
    x ||| y = x + y := by
  obtain ⟨k, rfl⟩ := Nat.dvd_of_mod_eq_zero hx
  exact (Nat.two_pow_add_eq_or_of_lt hy k).symm

theorem and_byte (x : Nat) : x &&& 255 = x % 256 := Nat.and_two_pow_sub_one_eq_mod x 8

theorem toNat_swap_endian_u16 (v : UInt16) :
    (swap_endian_u16 v).toNat = 256 * (v.toNat % 256) + v.toNat / 256 := by
  have hv := v.toNat_lt
  have hlow : (((v >>> 0) &&& 0xff) <<< 8).toNat = 256 * (v.toNat % 256) := by
    simp [and_byte, Nat.shiftLeft_eq]
    omega
  have hhigh : (((v >>> 8) &&& 0xff) <<< 0).toNat = v.toNat / 256 := by
    simp [and_byte, Nat.shiftRight_eq_div_pow]
    omega
  rw [swap_endian_u16, UInt16.toNat_or, hlow, hhigh]
  exact or_eq_add 8 (by omega) (by omega)

theorem toNat_swap_endian_u32 (v : UInt32) :
    (swap_endian_u32 v).toNat = 2 ^ 24 * (v.toNat % 256) + 2 ^ 16 * (v.toNat / 2 ^ 8 % 256) +
      2 ^ 8 * (v.toNat / 2 ^ 16 % 256) + v.toNat / 2 ^ 24 := by
  have hv := v.toNat_lt
  have h₀ : (((v >>> 0) &&& 0xff) <<< 24).toNat = 2 ^ 24 * (v.toNat % 256) := by
    simp [and_byte, Nat.shiftLeft_eq]
    omega
  have h₁ : (((v >>> 8) &&& 0xff) <<< 16).toNat = 2 ^ 16 * (v.toNat / 2 ^ 8 % 256) := by
    simp [and_byte, Nat.shiftRight_eq_div_pow, Nat.shiftLeft_eq]
    omega
  have h₂ : (((v >>> 16) &&& 0xff) <<< 8).toNat = 2 ^ 8 * (v.toNat / 2 ^ 16 % 256) := by
    simp [and_byte, Nat.shiftRight_eq_div_pow, Nat.shiftLeft_eq]
    omega
  have h₃ : (((v >>> 24) &&& 0xff) <<< 0).toNat = v.toNat / 2 ^ 24 := by
    simp [and_byte, Nat.shiftRight_eq_div_pow]
    omega
  have h₀₁ : 2 ^ 24 * (v.toNat % 256) ||| 2 ^ 16 * (v.toNat / 2 ^ 8 % 256) =
      2 ^ 24 * (v.toNat % 256) + 2 ^ 16 * (v.toNat / 2 ^ 8 % 256) :=
    or_eq_add 24 (by omega) (by omega)
  rw [swap_endian_u32, UInt32.toNat_or, UInt32.toNat_or, UInt32.toNat_or, h₀, h₁, h₂, h₃, h₀₁,
    Nat.or_assoc, or_eq_add 8 (x := 2 ^ 8 * _) (by omega) (by omega)]
  exact (or_eq_add 16 (by omega) (by omega)).trans (by omega)

/-- `*(u32*)b` -/
def IPv4Address.load_u32 (a : IPv4Address) : UInt32 :=
  .ofNat (a[0].toNat + 2 ^ 8 * a[1].toNat + 2 ^ 16 * a[2].toNat + 2 ^ 24 * a[3].toNat)

/-- The number of an address is the one that `be2cpu` gives. -/
theorem IPv4Address.to_u32_eq (a : IPv4Address) :
    a.to_u32 = (swap_endian_u32 a.load_u32).toNat := by
  have h₀ := a[0].toNat_lt
  have h₁ := a[1].toNat_lt
  have h₂ := a[2].toNat_lt
  have h₃ := a[3].toNat_lt
  have hload : a.load_u32.toNat =
      a[0].toNat + 2 ^ 8 * a[1].toNat + 2 ^ 16 * a[2].toNat + 2 ^ 24 * a[3].toNat := by
    rw [IPv4Address.load_u32, UInt32.toNat_ofNat']
    exact Nat.mod_eq_of_lt (by omega)
  have hlist : a.toList = [a[0], a[1], a[2], a[3]] := by
    apply List.ext_getElem
    · simp
    · intro i hi hi'
      have hi : i < 4 := by simpa using hi
      interval_cases i <;> simp
  -- the bytes of the loaded word, from the lowest on
  have hb₀ : a.load_u32.toNat % 256 = a[0].toNat := by omega
  have hb₁ : a.load_u32.toNat / 2 ^ 8 % 256 = a[1].toNat := by omega
  have hb₂ : a.load_u32.toNat / 2 ^ 16 % 256 = a[2].toNat := by omega
  have hb₃ : a.load_u32.toNat / 2 ^ 24 = a[3].toNat := by omega
  rw [IPv4Address.to_u32, hlist, toNat_swap_endian_u32, hb₀, hb₁, hb₂, hb₃]
  simp only [List.foldl_cons, List.foldl_nil]
  omega

/-! ## The two orders -/

/-- `operator==` -/
def EthernetAddress.equal (a b : EthernetAddress) : Bool := memcmp a.toList b.toList == 0

theorem EthernetAddress.comparesTo (a b : EthernetAddress) :
    ComparesTo (memcmp a.toList b.toList) a.toList b.toList :=
  comparesTo_memcmp (by rw [Vector.length_toList, Vector.length_toList])

theorem EthernetAddress.lt_iff (a b : EthernetAddress) :
    a.lt b = true ↔ a.toList < b.toList := by
  rw [EthernetAddress.lt, decide_eq_true_iff, (a.comparesTo b).neg]

theorem EthernetAddress.equal_iff (a b : EthernetAddress) : a.equal b = true ↔ a = b := by
  rw [EthernetAddress.equal, beq_iff_eq, (a.comparesTo b).zero, Vector.toList_inj]

/-- Of two addresses that differ one is less than the other. -/
theorem EthernetAddress.lt_or_eq_or_gt (a b : EthernetAddress) :
    a.lt b = true ∨ a = b ∨ b.lt a = true := by
  have hcompares := a.comparesTo b
  rw [a.lt_iff b, b.lt_iff a, ← hcompares.neg, ← hcompares.pos, ← Vector.toList_inj,
    ← hcompares.zero]
  omega

theorem EthernetAddress.lt_irrefl (a : EthernetAddress) : a.lt a = false := by
  rw [Bool.eq_false_iff, Ne, a.lt_iff a]
  exact List.lt_irrefl _

theorem EthernetAddress.lt_trans {a b c : EthernetAddress} (hab : a.lt b = true)
    (hbc : b.lt c = true) : a.lt c = true := by
  rw [EthernetAddress.lt_iff] at *
  exact List.lt_trans hab hbc

theorem EthernetAddress.isStrictTotalOrder :
    IsStrictTotalOrder EthernetAddress (fun a b => a.lt b = true) where
  trichotomous a b hab hba := ((a.lt_or_eq_or_gt b).resolve_left hab).resolve_right hba
  irrefl a h := absurd (a.lt_irrefl.symm.trans h) Bool.noConfusion
  trans _ _ _ := EthernetAddress.lt_trans

theorem same_mac_iff (a b : EthernetAddress) : same EthernetAddress.lt a b = true ↔ a = b := by
  simp only [same, Bool.and_eq_true, Bool.not_eq_true']
  constructor
  · intro ⟨hab, hba⟩
    rw [← Bool.not_eq_true] at hab hba
    exact ((a.lt_or_eq_or_gt b).resolve_left hab).resolve_right hba
  · intro h
    rw [h]
    exact ⟨b.lt_irrefl, b.lt_irrefl⟩

theorem sameTrans_mac : SameTrans EthernetAddress.lt := .of_eq same_mac_iff

/-- No address is less than another one. -/
theorem same_ip (a b : IPv4Address) : same IPv4Address.lt a b = true := by
  simp [same, IPv4Address.lt]

theorem sameTrans_ip : SameTrans IPv4Address.lt := fun a _ c _ _ => same_ip a c

/-! ## The table -/

namespace ArpDriver

/-- As the constructor leaves it. -/
def empty : ArpDriver := ⟨false, [], []⟩

def put (a : ArpDriver) (eth : EthernetAddress) (ip : IPv4Address) : ArpDriver :=
  { a with
    eth2ip := a.eth2ip.assign EthernetAddress.lt eth ip
    ip2eth := a.ip2eth.assign IPv4Address.lt ip eth }

def find (a : ArpDriver) (ip : IPv4Address) : Option EthernetAddress :=
  a.ip2eth.find IPv4Address.lt ip

def find_mac (a : ArpDriver) (mac : EthernetAddress) : Option IPv4Address :=
  a.eth2ip.find EthernetAddress.lt mac

variable {a : ArpDriver}

/-- The steps of a call of `put` while nobody has the lock. -/
theorem exec_put (h : a.lock_ = false) (eth : EthernetAddress) (ip : IPv4Address) :
    (ArpCall.put eth ip).steps.foldlM ArpStep.exec a = some (a.put eth ip) := by
  simp [ArpCall.steps, ArpStep.exec, put, h]

/-- After a sequence of calls of `put`. -/
def puts (ps : List (EthernetAddress × IPv4Address)) : ArpDriver :=
  ps.foldl (fun a p => a.put p.1 p.2) empty

/-- The steps of the whole sequence. -/
theorem exec_puts (ps : List (EthernetAddress × IPv4Address)) :
    (ps.flatMap fun p => (ArpCall.put p.1 p.2).steps).foldlM ArpStep.exec empty =
      some (puts ps) := by
  -- from any state in which the lock is free, which `put` keeps
  have hrun : ∀ a : ArpDriver, a.lock_ = false →
      (ps.flatMap fun p => (ArpCall.put p.1 p.2).steps).foldlM ArpStep.exec a =
        some (ps.foldl (fun a p => a.put p.1 p.2) a) := by
    induction ps with
    | nil => exact fun _ _ => rfl
    | cons p ps ih =>
      intro a ha
      rw [List.flatMap_cons, List.foldlM_append, exec_put ha]
      exact ih (a.put p.1 p.2) ha
  exact hrun empty rfl

/-- The calls change each map on its own. -/
theorem puts_maps (ps : List (EthernetAddress × IPv4Address)) :
    (puts ps).eth2ip = ps.foldl (fun m p => assign EthernetAddress.lt m p.1 p.2) [] ∧
    (puts ps).ip2eth =
      (ps.map Prod.swap).foldl (fun m p => assign IPv4Address.lt m p.1 p.2) [] := by
  have hrun : ∀ a : ArpDriver,
      (ps.foldl (fun a p => a.put p.1 p.2) a).eth2ip =
        ps.foldl (fun m p => assign EthernetAddress.lt m p.1 p.2) a.eth2ip ∧
      (ps.foldl (fun a p => a.put p.1 p.2) a).ip2eth =
        (ps.map Prod.swap).foldl (fun m p => assign IPv4Address.lt m p.1 p.2) a.ip2eth := by
    induction ps with
    | nil => exact fun _ => ⟨rfl, rfl⟩
    | cons p ps ih => exact fun a => ih (a.put p.1 p.2)
  exact hrun empty

/-- The IP address that was put last for a hardware address. -/
theorem find_mac_puts (ps : List (EthernetAddress × IPv4Address)) (mac : EthernetAddress) :
    (puts ps).find_mac mac = (ps.reverse.find? (fun p => p.1 == mac)).map Prod.snd := by
  have hsame : (fun p : EthernetAddress × IPv4Address => same EthernetAddress.lt p.1 mac) =
      fun p => p.1 == mac := by
    funext p
    rw [Bool.eq_iff_iff, same_mac_iff, beq_iff_eq]
  rw [find_mac, (puts_maps ps).1, find_foldl_assign sameTrans_mac, hsame]
  exact Option.or_none

/-- **Lookups by hardware address.** The loop of `memcmp` is the lexicographic comparison of
    unsigned bytes. So `operator<` is a strict total order of the addresses, and addresses that
    it does not tell apart are those that are equal for `operator==`. After any sequence of calls
    of `put`, `find` gives the IP address of the last one with the hardware address. -/
theorem lookup_by_mac :
    (∀ (a b : Nat → UInt8) (size : UInt64), size.toNat < 2 ^ 31 →
      ∃ fuel r, memcmp_loop fuel a b size = some (some r) ∧
        r = memcmp (bytes a 0 size.toNat) (bytes b 0 size.toNat) ∧
        ComparesTo r (bytes a 0 size.toNat) (bytes b 0 size.toNat)) ∧
    IsStrictTotalOrder EthernetAddress (fun x y => x.lt y = true) ∧
    (∀ x y : EthernetAddress, x.equal y = true ↔ ¬ x.lt y = true ∧ ¬ y.lt x = true) ∧
    (∀ x y : EthernetAddress, x.equal y = true ↔ x = y) ∧
    ∀ (ps : List (EthernetAddress × IPv4Address)) (mac : EthernetAddress),
      ∃ d : ArpDriver,
        (ps.flatMap fun p => (ArpCall.put p.1 p.2).steps).foldlM ArpStep.exec empty = some d ∧
        d.find_mac mac = (ps.reverse.find? (fun p => p.1 == mac)).map Prod.snd := by
  refine ⟨?_, EthernetAddress.isStrictTotalOrder, ?_, EthernetAddress.equal_iff, ?_⟩
  · intro a b size hsize
    refine ⟨size.toNat + 1, _, memcmp_loop_eq hsize, rfl, comparesTo_memcmp ?_⟩
    rw [length_bytes, length_bytes]
  · intro x y
    have hsame := same_mac_iff x y
    simp only [same, Bool.and_eq_true, Bool.not_eq_true'] at hsame
    rw [x.equal_iff y, ← hsame, Bool.not_eq_true, Bool.not_eq_true]
  · intro ps mac
    exact ⟨puts ps, exec_puts ps, find_mac_puts ps mac⟩

/-- A host that was given another IP address is found with the new one. -/
theorem lookup_of_changed_host :
    ∃ d : ArpDriver,
      ([(#v[2, 0, 0, 0, 0, 1], #v[172, 20, 0, 1]), (#v[2, 0, 0, 0, 0, 2], #v[172, 20, 0, 2]),
          (#v[2, 0, 0, 0, 0, 1], #v[172, 20, 0, 3])].flatMap
        fun p => (ArpCall.put p.1 p.2).steps).foldlM ArpStep.exec empty = some d ∧
      d.find_mac #v[2, 0, 0, 0, 0, 1] = some #v[172, 20, 0, 3] ∧
      ∃ fuel, memcmp_loop fuel (fun _ => 1) (fun _ => 1) 6 = some (some 0) := by
  obtain ⟨hmemcmp, _, _, _, hfind⟩ := lookup_by_mac
  obtain ⟨d, hputs, hd⟩ := hfind
    [(#v[2, 0, 0, 0, 0, 1], #v[172, 20, 0, 1]), (#v[2, 0, 0, 0, 0, 2], #v[172, 20, 0, 2]),
      (#v[2, 0, 0, 0, 0, 1], #v[172, 20, 0, 3])] #v[2, 0, 0, 0, 0, 1]
  obtain ⟨fuel, r, hrun, _, hcompares⟩ := hmemcmp (fun _ => 1) (fun _ => 1) 6 (by decide)
  obtain rfl : r = 0 := hcompares.zero.mpr rfl
  exact ⟨d, hputs, hd, fuel, hrun⟩

/-- The hardware address that was put last, whatever the address. -/
theorem find_puts (ps : List (EthernetAddress × IPv4Address)) (q : IPv4Address) :
    (puts ps).find q = ps.getLast?.map Prod.fst := by
  have hfirst : ∀ l : List (IPv4Address × EthernetAddress),
      l.find? (fun p => same IPv4Address.lt p.1 q) = l.head? := by
    intro l
    cases l with
    | nil => rfl
    | cons p l => exact List.find?_cons_of_pos (same_ip p.1 q)
  rw [find, (puts_maps ps).2, find_foldl_assign sameTrans_ip, hfirst, List.head?_reverse,
    List.getLast?_map]
  cases ps.getLast? with
  | none => rfl
  | some p => rfl

end ArpDriver

/-! ## What a lookup should give -/

/-- The hardware address of the last `put` for an IP address. -/
def last_put (ps : List (EthernetAddress × IPv4Address)) (q : IPv4Address) :
    Option EthernetAddress :=
  (ps.reverse.find? (fun p => p.2 == q)).map Prod.fst

/-- **Lookups by IP address.** `find` gives what was put for the address exactly when nothing was
    put at all, or what was put for it last is also what was put last for any address. -/
theorem find_eq_last_put_iff (ps : List (EthernetAddress × IPv4Address)) (q : IPv4Address) :
    (ArpDriver.puts ps).find q = last_put ps q ↔
      ∀ p, ps.getLast? = some p → last_put ps q = some p.1 := by
  rw [ArpDriver.find_puts]
  cases hlast : ps.getLast? with
  | none =>
    obtain rfl := List.getLast?_eq_none_iff.mp hlast
    simp [last_put]
  | some p =>
    rw [Option.map_some]
    constructor
    · rintro hfind p' hp'
      cases hp'
      exact hfind.symm
    · intro hput
      exact (hput p rfl).symm

/-- Two hosts: the first one is looked up, and the second one is found. -/
theorem second_host_found :
    let ps : List (EthernetAddress × IPv4Address) :=
      [(#v[2, 0, 0, 0, 0, 1], #v[172, 20, 0, 1]), (#v[2, 0, 0, 0, 0, 2], #v[172, 20, 0, 2])]
    (ArpDriver.puts ps).find #v[172, 20, 0, 1] = some #v[2, 0, 0, 0, 0, 2] ∧
      last_put ps #v[172, 20, 0, 1] = some #v[2, 0, 0, 0, 0, 1] := by
  decide

end Modern05
