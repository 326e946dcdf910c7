import Mathlib.Data.Fintype.Card
import Mathlib.Logic.Relation
import Mathlib.Order.WellFounded

/-! # Loops

    A loop that need not terminate, given by its body: from a state a round either goes on with
    another state or ends the loop with a result.

    * `run`: the result of a number of rounds, if they are enough.
    * `Visits`: the states the loop comes to, and `run_eq_some_iff`: the result is that of the
      state it ends in.
    * `invariant_of_visits`: what every round keeps holds in every state the loop comes to.
    * `terminates_iff_acyclic`: over finitely many states a loop terminates exactly when it never
      comes to a state twice. `terminates_of_decreasing` is the usual rule with a measure.
-/

namespace Loop

universe u v

variable {State : Type u} {Result : Type v}

/-- What a round does. -/
inductive Outcome (State : Type u) (Result : Type v) where
  | next (s : State)
  | done (r : Result)
  deriving DecidableEq, Repr

/-- The result, if at most `fuel` rounds are enough. -/
def run (body : State → Outcome State Result) : Nat → State → Option Result
  | 0, _ => none
  | fuel + 1, s =>
    match body s with
    | .next s' => run body fuel s'
    | .done r => some r

/-- A round goes on from one state to the other. -/
def Step (body : State → Outcome State Result) (s s' : State) : Prop := body s = .next s'

/-- The loop from one state comes to the other. -/
def Visits (body : State → Outcome State Result) : State → State → Prop :=
  Relation.ReflTransGen (Step body)

/-- The loop comes to the state again. -/
def Cyclic (body : State → Outcome State Result) (s : State) : Prop :=
  Relation.TransGen (Step body) s s

def Terminates (body : State → Outcome State Result) (s : State) : Prop :=
  ∃ fuel r, run body fuel s = some r

variable {body : State → Outcome State Result} {s s' t : State} {r : Result}

/-! ### Rounds -/

theorem run_of_next {fuel : Nat} (h : body s = .next s') :
    run body (fuel + 1) s = run body fuel s' := by
  simp only [run, h]

theorem run_of_done {fuel : Nat} (h : body s = .done r) : run body (fuel + 1) s = some r := by
  simp only [run, h]

/-- **The result** is that of the state the loop ends in. -/
theorem run_eq_some_iff :
    (∃ fuel, run body fuel s = some r) ↔ ∃ t, Visits body s t ∧ body t = .done r := by
  constructor
  · rintro ⟨fuel, h⟩
    induction fuel generalizing s with
    | zero => cases h
    | succ fuel ih =>
      cases hs : body s with
      | next s' =>
        rw [run_of_next hs] at h
        obtain ⟨t, hvisits, hdone⟩ := ih h
        exact ⟨t, .head hs hvisits, hdone⟩
      | done r' =>
        rw [run_of_done hs] at h
        cases h
        exact ⟨s, .refl, hs⟩
  · rintro ⟨t, hvisits, hdone⟩
    induction hvisits using Relation.ReflTransGen.head_induction_on with
    | refl => exact ⟨1, run_of_done hdone⟩
    | head hstep _ ih =>
      obtain ⟨fuel, h⟩ := ih
      exact ⟨fuel + 1, (run_of_next hstep).trans h⟩

theorem terminates_iff : Terminates body s ↔ ∃ t r, Visits body s t ∧ body t = .done r := by
  constructor
  · rintro ⟨fuel, r, h⟩
    obtain ⟨t, ht⟩ := run_eq_some_iff.mp ⟨fuel, h⟩
    exact ⟨t, r, ht⟩
  · rintro ⟨t, r, ht⟩
    obtain ⟨fuel, h⟩ := run_eq_some_iff.mpr ⟨t, ht⟩
    exact ⟨fuel, r, h⟩

theorem Terminates.of_step (hstep : Step body s s') (h : Terminates body s') :
    Terminates body s := by
  obtain ⟨t, r, hvisits, hdone⟩ := terminates_iff.mp h
  exact terminates_iff.mpr ⟨t, r, .head hstep hvisits, hdone⟩

/-- After the state the loop ends in it comes to no other. -/
theorem eq_of_visits_done (hdone : body t = .done r) (h : Visits body t s) : s = t := by
  induction h using Relation.ReflTransGen.head_induction_on with
  | refl => rfl
  | head hstep _ _ =>
    cases hdone.symm.trans hstep

/-- **Invariance rule**: what holds at the start and is kept by a round that goes on holds in every
    state the loop comes to. -/
theorem invariant_of_visits (inv : State → Prop) (hs : inv s)
    (hround : ∀ t t', inv t → body t = .next t' → inv t') (h : Visits body s t) : inv t := by
  induction h with
  | refl => exact hs
  | tail _ hstep ih => exact hround _ _ ih hstep

/-- The states a loop comes to after a round. -/
theorem visits_iff_of_next (h : body s = .next s') :
    Visits body s t ↔ t = s ∨ Visits body s' t := by
  constructor
  · intro hvisits
    rcases Relation.ReflTransGen.cases_head hvisits with heq | ⟨s'', hstep, hrest⟩
    · exact .inl heq.symm
    · cases h.symm.trans hstep
      exact .inr hrest
  · intro hvisits
    rcases hvisits with heq | hrest
    · rw [heq]
      exact .refl
    · exact .head h hrest

/-- Of two states the loop comes to, one is visited from the other. -/
theorem visits_or_visits (h : Visits body s t) (h' : Visits body s s') :
    Visits body t s' ∨ Visits body s' t := by
  refine Relation.ReflTransGen.total_of_right_unique ?_ h h'
  intro a b c hb hc
  exact Outcome.next.inj (hb.symm.trans hc)

/-- A loop has one result. -/
theorem result_unique {t' : State} {r' : Result} (h : Visits body s t) (hdone : body t = .done r)
    (h' : Visits body s t') (hdone' : body t' = .done r') : r = r' := by
  have heq : t' = t := by
    rcases visits_or_visits h h' with hvisits | hvisits
    · exact eq_of_visits_done hdone hvisits
    · exact (eq_of_visits_done hdone' hvisits).symm
  rw [heq, hdone] at hdone'
  exact Outcome.done.inj hdone'

theorem run_unique {fuel fuel' : Nat} {r' : Result} (h : run body fuel s = some r)
    (h' : run body fuel' s = some r') : r = r' := by
  obtain ⟨t, hvisits, hdone⟩ := run_eq_some_iff.mp ⟨fuel, h⟩
  obtain ⟨t', hvisits', hdone'⟩ := run_eq_some_iff.mp ⟨fuel', h'⟩
  exact result_unique hvisits hdone hvisits' hdone'

/-! ### Termination -/

/-- A loop that comes to a state twice does not end. -/
theorem run_of_cyclic (h : Cyclic body s) (fuel : Nat) : run body fuel s = none := by
  induction fuel generalizing s with
  | zero => rfl
  | succ fuel ih =>
    -- the next state is on the same cycle
    obtain ⟨s', hstep, hback⟩ := Relation.TransGen.head'_iff.mp h
    rw [run_of_next hstep]
    exact ih (Relation.TransGen.tail' hback hstep)

theorem Terminates.not_cyclic (h : Terminates body s) (hvisits : Visits body s t) :
    ¬ Cyclic body t := by
  intro hcyclic
  obtain ⟨u, r, hu, hdone⟩ := terminates_iff.mp h
  have hvisits_u : Visits body t u := by
    rcases visits_or_visits hvisits hu with htu | hut
    · exact htu
    · rw [eq_of_visits_done hdone hut]
      exact .refl
  obtain ⟨fuel, hrun⟩ := run_eq_some_iff.mpr ⟨u, hvisits_u, hdone⟩
  rw [run_of_cyclic hcyclic fuel] at hrun
  cases hrun

/-- **Well-founded loops terminate.** -/
theorem terminates_of_wellFounded {lt : State → State → Prop} (hwf : WellFounded lt)
    (hstep : ∀ t t', Visits body s t → body t = .next t' → lt t' t) : Terminates body s := by
  have hall : ∀ t, Visits body s t → Terminates body t := by
    intro t
    induction t using hwf.induction with
    | _ t ih =>
      intro hvisits
      cases ht : body t with
      | next t' => exact .of_step ht (ih t' (hstep t t' hvisits ht) (.tail hvisits ht))
      | done r => exact ⟨1, r, run_of_done ht⟩
  exact hall s .refl

/-- A loop whose measure decreases in every round terminates. -/
theorem terminates_of_decreasing (measure : State → Nat)
    (h : ∀ t t', Visits body s t → body t = .next t' → measure t' < measure t) :
    Terminates body s :=
  terminates_of_wellFounded (InvImage.wf measure Nat.lt_wfRel.wf) h

/-- **Over finitely many states** a loop terminates exactly when it comes to no state twice. -/
theorem terminates_iff_acyclic [Finite State] :
    Terminates body s ↔ ∀ t, Visits body s t → ¬ Cyclic body t := by
  constructor
  · exact fun h t hvisits => h.not_cyclic hvisits
  · intro hacyclic
    -- the order in which the states come is well-founded on those that are visited
    let later (t' t : State) : Prop := Visits body s t ∧ Relation.TransGen (Step body) t t'
    have htrans : IsTrans State later :=
      ⟨fun _ _ _ hab hbc => ⟨hbc.1, hbc.2.trans hab.2⟩⟩
    have hirrefl : Std.Irrefl later := ⟨fun t h => hacyclic t h.1 h.2⟩
    have hwf : WellFounded later := Finite.wellFounded_of_trans_of_irrefl later
    exact terminates_of_wellFounded hwf fun t t' hvisits ht => ⟨hvisits, .single ht⟩

end Loop
