import Modern05.Common.SmallVec
import Modern05.Framework.Loop
import Modern05.Framework.Memory

/-! # The stack dumper

    `Unwind` of `common/unwind.cpp`. From a frame pointer it follows the saved frame pointers as
    long as they are in one of the stacks that are registered. The memory it follows them through
    is any, since the kernel dumps a stack when something has gone wrong.

    * `valid_frame_iff`: a pointer that is accepted points to a frame in a stack, unless the end of
      the frame is behind the end of the address space.
    * `stack_dump_safe_iff`: the dump is safe exactly when the chain comes to no such pointer and to
      no frame twice.
-/

namespace Modern05

open Loop Memory

/-! ## The code -/

def MaxValidStacks : Nat := 8

structure Unwind where
  rbp : UInt64
  valid_stacks : SmallVec (UInt64 × UInt64) MaxValidStacks
  kthread_stack_range : UInt64 × UInt64

namespace Unwind

def ValidRbp (u : Unwind) (rbp : UInt64) : Bool :=
  let (start, end_) := u.kthread_stack_range
  if start ≤ rbp && rbp + 16 ≤ end_ then true
  else u.valid_stacks.toList.any (fun (start, end_) => start ≤ rbp && rbp + 16 ≤ end_)

/-- `*(u64*)a`, where the addresses of the bytes wrap. -/
def load_u64 (mem : UInt64 → UInt8) (a : UInt64) : UInt64 :=
  UInt64.ofNat (load64 (fun i => mem (UInt64.ofNat i)) a.toNat)

/-- The body of the loop of `Iterate`. -/
def iterate_round (u : Unwind) (mem : UInt64 → UInt8) (callback : UInt64 → UInt64 → Bool)
    (rbp : UInt64) : Outcome UInt64 Unit :=
  if !u.ValidRbp rbp then .done ()
  else
    let prev_rbp := load_u64 mem rbp
    let ret_addr := load_u64 mem (rbp + 8)
    if !callback prev_rbp ret_addr then .done () else .next prev_rbp

/-- Whether the call returns, after at most `fuel` rounds. -/
def Iterate (u : Unwind) (mem : UInt64 → UInt8) (callback : UInt64 → UInt64 → Bool) (fuel : Nat) :
    Option Unit :=
  run (u.iterate_round mem callback) fuel u.rbp

/-! ## Frames and stacks -/

/-- All stacks that are registered. -/
def registered_stacks (u : Unwind) : List (UInt64 × UInt64) :=
  u.kthread_stack_range :: u.valid_stacks.toList

/-- The 16 bytes that a round dereferences. -/
def frame_bytes (rbp : UInt64) : Set Nat := {a | ∃ i < 16, a = (rbp + UInt64.ofNat i).toNat}

def stack_bytes (stack : UInt64 × UInt64) : Set Nat := Set.Ico stack.1.toNat stack.2.toNat

/-- The call comes to a frame that it dereferences. -/
def Dereferences (u : Unwind) (mem : UInt64 → UInt8) (callback : UInt64 → UInt64 → Bool)
    (rbp : UInt64) : Prop :=
  Visits (u.iterate_round mem callback) u.rbp rbp ∧ u.ValidRbp rbp = true

variable {u : Unwind} {mem : UInt64 → UInt8} {callback : UInt64 → UInt64 → Bool} {rbp : UInt64}

theorem validRbp_iff : u.ValidRbp rbp = true ↔
    ∃ stack ∈ u.registered_stacks, stack.1 ≤ rbp ∧ rbp + 16 ≤ stack.2 := by
  simp [ValidRbp, registered_stacks]

/-- A frame in a stack ends before the address space does. -/
theorem no_wrap_of_subset {stack : UInt64 × UInt64} (h : frame_bytes rbp ⊆ stack_bytes stack) :
    rbp.toNat + 16 < 2 ^ 64 := by
  by_contra hwrap
  have hlt := rbp.toNat_lt
  -- the last byte of the address space is in the frame
  have hlast : (rbp + UInt64.ofNat (2 ^ 64 - 1 - rbp.toNat)).toNat = 2 ^ 64 - 1 := by
    rw [UInt64.toNat_add, UInt64.toNat_ofNat']
    omega
  have hmem : 2 ^ 64 - 1 ∈ stack_bytes stack := h ⟨_, by omega, hlast.symm⟩
  have hend := stack.2.toNat_lt
  have hbelow := hmem.2
  omega

/-- **A pointer that is accepted** points to a frame in a stack exactly when the end of the frame
    does not wrap. -/
theorem valid_frame_iff (h : u.ValidRbp rbp = true) :
    (∃ stack ∈ u.registered_stacks, frame_bytes rbp ⊆ stack_bytes stack) ↔
      rbp.toNat + 16 < 2 ^ 64 := by
  constructor
  · intro ⟨stack, _, hsubset⟩
    exact no_wrap_of_subset hsubset
  · intro hwrap
    obtain ⟨stack, hstack, hstart, hend⟩ := validRbp_iff.mp h
    have hsixteen : (16 : UInt64).toNat = 16 := rfl
    have hadd : (rbp + 16).toNat = rbp.toNat + 16 := by
      rw [UInt64.toNat_add, hsixteen]
      exact Nat.mod_eq_of_lt hwrap
    have hstart : stack.1.toNat ≤ rbp.toNat := hstart
    have hend : (rbp + 16).toNat ≤ stack.2.toNat := hend
    refine ⟨stack, hstack, fun a ha => ?_⟩
    obtain ⟨i, hi, rfl⟩ := ha
    have hbyte : (rbp + UInt64.ofNat i).toNat = rbp.toNat + i := by
      rw [UInt64.toNat_add, UInt64.toNat_ofNat']
      omega
    rw [hbyte]
    constructor
    · omega
    · omega

/-! ## The chain of frames -/

/-- The chain comes only to accepted frames a second time. -/
theorem valid_of_cyclic (h : Cyclic (u.iterate_round mem callback) rbp) :
    u.ValidRbp rbp = true := by
  obtain ⟨rbp', hstep, _⟩ := Relation.TransGen.head'_iff.mp h
  by_contra hinvalid
  have hdone : u.iterate_round mem callback rbp = .done () := by simp [iterate_round, hinvalid]
  cases hdone.symm.trans hstep

end Unwind

open Unwind

/-- **The stack dumper is safe exactly when the chain comes to no frame twice and to none at the
    very end of the address space.** Otherwise it does not terminate, or dereferences bytes outside
    of all stacks. The callback of `stack_dump` always returns true, and the chain is then that of
    the saved frame pointers. -/
theorem stack_dump_safe_iff (u : Unwind) (mem : UInt64 → UInt8)
    (callback : UInt64 → UInt64 → Bool) :
    ((∃ fuel, u.Iterate mem callback fuel = some ()) ∧
      ∀ rbp, u.Dereferences mem callback rbp →
        ∃ stack ∈ u.registered_stacks, frame_bytes rbp ⊆ stack_bytes stack) ↔
    ∀ rbp, u.Dereferences mem callback rbp →
      rbp.toNat + 16 < 2 ^ 64 ∧ ¬ Cyclic (u.iterate_round mem callback) rbp := by
  have hterm : (∃ fuel, u.Iterate mem callback fuel = some ()) ↔
      Terminates (u.iterate_round mem callback) u.rbp :=
    ⟨fun ⟨fuel, h⟩ => ⟨fuel, (), h⟩, fun ⟨fuel, (), h⟩ => ⟨fuel, h⟩⟩
  have hfinite : Finite UInt64 := .of_injective UInt64.toFin fun _ _ => UInt64.toFin_inj.mp
  rw [hterm, terminates_iff_acyclic]
  constructor
  · intro ⟨hacyclic, hinside⟩ rbp hrbp
    exact ⟨(valid_frame_iff hrbp.2).mp (hinside rbp hrbp), hacyclic rbp hrbp.1⟩
  · intro h
    constructor
    · intro rbp hvisits hcyclic
      exact (h rbp ⟨hvisits, valid_of_cyclic hcyclic⟩).2 hcyclic
    · intro rbp hrbp
      exact (valid_frame_iff hrbp.2).mpr (h rbp hrbp).1

/-- A dump from a frame pointer, with one stack from 0x1000 to 0x2000. -/
def dump_from (rbp : UInt64) : Unwind := ⟨rbp, .zeroed (0, 0), (0x1000, 0x2000)⟩

/-- What `stack_dump` passes. -/
def print_frame (_rbp _ret_addr : UInt64) : Bool := true

/-- The frame at 0x1000 has saved 0x1010, and the one there has saved 0. -/
def two_frames (a : UInt64) : UInt8 :=
  if a = 0x1000 then 0x10 else if a = 0x1001 then 0x10 else 0

/-- The frame at 0x1000 has saved its own address. -/
def own_frame (a : UInt64) : UInt8 := if a = 0x1001 then 0x10 else 0

theorem two_frames_dumped :
    (∃ fuel, (dump_from 0x1000).Iterate two_frames print_frame fuel = some ()) ∧
    ∀ rbp, (dump_from 0x1000).Dereferences two_frames print_frame rbp →
      ∃ stack ∈ (dump_from 0x1000).registered_stacks, frame_bytes rbp ⊆ stack_bytes stack := by
  have hfirst : (dump_from 0x1000).iterate_round two_frames print_frame 0x1000 = .next 0x1010 := by
    decide +kernel
  have hsecond : (dump_from 0x1000).iterate_round two_frames print_frame 0x1010 = .next 0 := by
    decide +kernel
  have hlast : (dump_from 0x1000).iterate_round two_frames print_frame 0 = .done () := by
    decide +kernel
  have hterminates : Terminates ((dump_from 0x1000).iterate_round two_frames print_frame) 0x1000 :=
    terminates_iff.mpr ⟨0, (), .head hfirst (.head hsecond .refl), hlast⟩
  apply (stack_dump_safe_iff (dump_from 0x1000) two_frames print_frame).mpr
  intro rbp ⟨hvisits, _⟩
  constructor
  · have hvisits : Visits _ 0x1000 rbp := hvisits
    rw [visits_iff_of_next hfirst, visits_iff_of_next hsecond] at hvisits
    rcases hvisits with rfl | rfl | hvisits
    · decide
    · decide
    · rw [eq_of_visits_done hlast hvisits]
      decide
  · exact hterminates.not_cyclic hvisits

/-- A frame that has saved its own address is dumped for ever, and a frame pointer at the end of the
    address space is accepted. -/
theorem own_frame_dumped_forever :
    (∀ fuel, (dump_from 0x1000).Iterate own_frame print_frame fuel = none) ∧
    (dump_from 0xfffffffffffffff0).Dereferences own_frame print_frame 0xfffffffffffffff0 ∧
    ¬ ∃ stack ∈ (dump_from 0xfffffffffffffff0).registered_stacks,
      frame_bytes 0xfffffffffffffff0 ⊆ stack_bytes stack := by
  have hown : (dump_from 0x1000).iterate_round own_frame print_frame 0x1000 = .next 0x1000 := by
    decide +kernel
  have hvalid : (dump_from 0xfffffffffffffff0).ValidRbp 0xfffffffffffffff0 = true := by
    decide +kernel
  refine ⟨fun fuel => run_of_cyclic (.single hown) fuel, ⟨.refl, hvalid⟩, ?_⟩
  rw [valid_frame_iff hvalid]
  decide

end Modern05
