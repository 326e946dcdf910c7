import Modern05.Framework.LTS
import Mathlib.Data.List.Nodup

/-! # Rotation over a growing set

    The members `1, …, count` take turns: after the member `c` comes `c + 1`, after the
    last one the first. Members are added at the end at any time.

    * `Rotation.fair`: between two turns of a member no other member has two turns, and
      every other member that was there at the first of the two has one.
-/

open LTS

namespace Rotation

structure State where
  current : Nat
  count : Nat

inductive Event where
  /-- A member is added. -/
  | grow
  /-- A member has its turn. -/
  | turn (member : Nat)

/-- The member whose turn is next. -/
def State.next (s : State) : Nat := if s.current < s.count then s.current + 1 else 1

def rotation : System State Event where
  init := fun s => 1 ≤ s.current ∧ s.current ≤ s.count
  step := fun s e s' =>
    match e with
    | .grow => s' = { s with count := s.count + 1 }
    | .turn member => member = s.next ∧ s' = { s with current := member }

/-- The member that has its turn in an event. -/
def Event.member : Event → Option Nat
  | .grow => none
  | .turn member => some member

/-- The turns of a run. -/
def turns (es : List Event) : List Nat := es.filterMap Event.member

/-! ### The turns since a turn of `p`

    Either the members behind `p` have had theirs up to the current one, or all that were
    behind `p` when the last of them had its turn, and then those from the first on. -/

def Behind (p : Nat) (s : State) (ts : List Nat) : Prop :=
  p ≤ s.current ∧ s.current ≤ s.count ∧ ts = List.range' (p + 1) (s.current - p)

def Wrapped (p first_count : Nat) (s : State) (ts : List Nat) : Prop :=
  ∃ last, first_count ≤ last ∧ p ≤ last ∧ 1 ≤ s.current ∧ s.current < p ∧ p ≤ s.count ∧
    ts = List.range' (p + 1) (last - p) ++ List.range' 1 s.current

section

variable {p first_count : Nat} {s s' : State} {ts : List Nat}

theorem Behind.turn (h : Behind p s ts) (hp : 1 ≤ p) (hcount : first_count ≤ s.count)
    (hne : s.next ≠ p) :
    Behind p { s with current := s.next } (ts ++ [s.next]) ∨
      Wrapped p first_count { s with current := s.next } (ts ++ [s.next]) := by
  obtain ⟨hle, hlt, rfl⟩ := h
  by_cases hlast : s.current < s.count
  · have hnext : s.next = s.current + 1 := by simp [State.next, hlast]
    left
    refine ⟨by simp only [hnext]; omega, by simp only [hnext]; omega, ?_⟩
    simp only [hnext]
    rw [show s.current + 1 - p = s.current - p + 1 by omega, List.range'_1_concat]
    congr 2
    omega
  · have hnext : s.next = 1 := by simp [State.next, hlast]
    right
    rw [hnext] at hne
    refine ⟨s.current, by omega, hle, ?_⟩
    simp only [hnext]
    exact ⟨Nat.le_refl _, by omega, by omega, rfl⟩

theorem Wrapped.turn (h : Wrapped p first_count s ts) (hne : s.next ≠ p) :
    Wrapped p first_count { s with current := s.next } (ts ++ [s.next]) := by
  obtain ⟨last, hfirst, hle, hpos, hlt, hcount, rfl⟩ := h
  have hnext : s.next = s.current + 1 := by
    have hlast : s.current < s.count := by omega
    simp [State.next, hlast]
  rw [hnext] at hne ⊢
  have hlt' : s.current + 1 < p := by omega
  refine ⟨last, hfirst, hle, Nat.succ_pos _, hlt', hcount, ?_⟩
  rw [List.append_assoc, List.range'_1_concat, Nat.add_comm 1]

/-- The turns of a run that starts with a turn of `p` and has no other. -/
theorem turns_since (hp : 1 ≤ p) (hcount : p ≤ first_count) {es : List Event}
    (h : Steps rotation ⟨p, first_count⟩ es s) (hnot : p ∉ turns es) :
    first_count ≤ s.count ∧
      (Behind p s (turns es) ∨ Wrapped p first_count s (turns es)) := by
  induction h with
  | refl => exact ⟨Nat.le_refl _, .inl ⟨Nat.le_refl _, hcount, by simp [turns]⟩⟩
  | @tail es s s' e hrun hstep ih =>
    have hsplit : turns (es ++ [e]) = turns es ++ turns [e] := List.filterMap_append
    rw [hsplit, List.mem_append, not_or] at hnot
    obtain ⟨hgrown, hphase⟩ := ih hnot.1
    rw [hsplit]
    cases e with
    | grow =>
      obtain rfl : s' = { s with count := s.count + 1 } := hstep
      have hnone : turns [.grow] = [] := rfl
      rw [hnone, List.append_nil]
      refine ⟨Nat.le_succ_of_le hgrown, ?_⟩
      rcases hphase with ⟨hle, hlt, hts⟩ | ⟨last, hfirst, hle, hpos, hlt, hc, hts⟩
      · exact .inl ⟨hle, Nat.le_succ_of_le hlt, hts⟩
      · exact .inr ⟨last, hfirst, hle, hpos, hlt, Nat.le_succ_of_le hc, hts⟩
    | turn member =>
      obtain ⟨rfl, rfl⟩ : member = s.next ∧ s' = { s with current := member } := hstep
      have hone : turns [.turn s.next] = [s.next] := rfl
      rw [hone] at hnot ⊢
      have hne : s.next ≠ p := by
        intro heq
        simp [heq] at hnot
      refine ⟨hgrown, ?_⟩
      rcases hphase with hbehind | hwrapped
      · exact hbehind.turn hp hgrown hne
      · exact .inr (hwrapped.turn hne)

/-- When `p` is next, everyone else who was there has had one turn. -/
theorem turns_before_next (hgrown : first_count ≤ s.count)
    (h : Behind p s ts ∨ Wrapped p first_count s ts) (hnext : s.next = p) :
    ts.Nodup ∧ ∀ q, 1 ≤ q → q ≤ first_count → q ≠ p → q ∈ ts := by
  rcases h with ⟨hle, hlt, rfl⟩ | ⟨last, hfirst, hle, hpos, hlt, hcount, rfl⟩
  · have hwrap : s.current = s.count ∧ p = 1 := by
      unfold State.next at hnext
      split at hnext <;> omega
    refine ⟨List.nodup_range', fun q hq hqle hne => ?_⟩
    rw [List.mem_range'_1]
    omega
  · have hlast : s.current + 1 = p := by
      unfold State.next at hnext
      split at hnext <;> omega
    refine ⟨?_, fun q hq hqle hne => ?_⟩
    · rw [List.nodup_append]
      refine ⟨List.nodup_range', List.nodup_range', fun a ha b hb => ?_⟩
      rw [List.mem_range'_1] at ha hb
      omega
    · rw [List.mem_append, List.mem_range'_1, List.mem_range'_1]
      omega

/-- **Fairness**: between two turns of `p` no other member has two turns, and every other
    member that was there at the first of them has one. -/
theorem fair (hp : 1 ≤ p) (hcount : p ≤ first_count) {es : List Event}
    (hrun : Steps rotation ⟨p, first_count⟩ es s) (hnot : p ∉ turns es)
    (hnext : rotation.step s (.turn p) s') (q : Nat) (hq : q ≠ p) :
    (turns es).count q ≤ 1 ∧ (1 ≤ q → q ≤ first_count → (turns es).count q = 1) := by
  obtain ⟨hgrown, hphase⟩ := turns_since hp hcount hrun hnot
  obtain ⟨hnodup, hmem⟩ := turns_before_next hgrown hphase hnext.1.symm
  refine ⟨List.nodup_iff_count_le_one.mp hnodup q, fun hpos hle => ?_⟩
  exact List.count_eq_one_of_mem hnodup (hmem q hpos hle hq)

end

end Rotation
