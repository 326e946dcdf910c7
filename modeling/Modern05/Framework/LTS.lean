import Mathlib.Logic.Basic
import Mathlib.Data.List.Forall2

/-! # Labelled transition systems

    A small framework for the state machines of the kernel: a system is an
    initial predicate and a labelled step relation, `Reachable` is the set of
    states some run from an initial state ends in.

    * `invariant_of_step`: a predicate that holds initially and is preserved
      by every step holds in every reachable state.
    * `Steps`: a run between two states, with the labels of its steps.
    * `System.restrict`: the system whose steps are those of the original that
      also meet a guard. The runs of the restricted system are the runs of the
      original in which every step meets the guard.
    * `Steps.simulate`: every run of a system that an abstract one simulates is
      matched by a run of the abstract one.
-/

namespace LTS

universe u v

variable {State : Type u} {Label : Type v}

/-- A labelled transition system. -/
structure System (State : Type u) (Label : Type v) where
  /-- The initial states. -/
  init : State → Prop
  /-- One step from a state, under a label, to a state. -/
  step : State → Label → State → Prop

/-- The states reached by some run from an initial state. -/
inductive Reachable (sys : System State Label) : State → Prop where
  | init {s : State} : sys.init s → Reachable sys s
  | step {s s' : State} {l : Label} : Reachable sys s → sys.step s l s' → Reachable sys s'

/-- **Invariance rule**: what holds initially and is preserved by every step
    from a reachable state holds in every reachable state. -/
theorem invariant_of_step {sys : System State Label} {inv : State → Prop}
    (hinit : ∀ s, sys.init s → inv s)
    (hstep : ∀ s l s', Reachable sys s → inv s → sys.step s l s' → inv s') :
    ∀ s, Reachable sys s → inv s := by
  intro s hs
  induction hs with
  | init h => exact hinit _ h
  | step hs h ih => exact hstep _ _ _ hs ih h

/-! ### Runs between two states -/

/-- A run with the given labels. -/
inductive Steps (sys : System State Label) (s : State) : List Label → State → Prop where
  | refl : Steps sys s [] s
  | tail {ls : List Label} {s' s'' : State} {l : Label} :
      Steps sys s ls s' → sys.step s' l s'' → Steps sys s (ls ++ [l]) s''

/-- A run with one more step in front. -/
theorem Steps.head {sys : System State Label} {s s' s'' : State} {l : Label} {ls : List Label}
    (hstep : sys.step s l s') (h : Steps sys s' ls s'') : Steps sys s (l :: ls) s'' := by
  induction h with
  | refl => exact .tail .refl hstep
  | tail _ hlast ih => exact .tail ih hlast

theorem Reachable.steps {sys : System State Label} {s s' : State} {ls : List Label}
    (hs : Reachable sys s) (h : Steps sys s ls s') : Reachable sys s' := by
  induction h with
  | refl => exact hs
  | tail _ hstep ih => exact .step ih hstep

/-- A list of labels that an executable step function accepts is a run. -/
theorem Reachable.foldlM {sys : System State Label} {exec : State → Label → Option State}
    (hexec : ∀ s l s', exec s l = some s' → sys.step s l s') {s s' : State} {ls : List Label}
    (hs : Reachable sys s) (h : ls.foldlM exec s = some s') : Reachable sys s' := by
  induction ls generalizing s with
  | nil =>
    cases h
    exact hs
  | cons l ls ih =>
    rw [List.foldlM_cons] at h
    obtain ⟨t, ht, h⟩ := Option.bind_eq_some_iff.mp h
    exact ih (.step hs (hexec s l t ht)) h

/-- A run maps to a run when every step from a reachable state does. -/
theorem Steps.map {State' Label' : Type*} {sys : System State Label}
    {spec : System State' Label'} (abs : State → State') (f : Label → Label')
    (hstep : ∀ s l s', Reachable sys s → sys.step s l s' → spec.step (abs s) (f l) (abs s'))
    {s s' : State} {ls : List Label} (hs : Reachable sys s) (h : Steps sys s ls s') :
    Steps spec (abs s) (ls.map f) (abs s') := by
  induction h with
  | refl => exact .refl
  | tail hrun hlast ih =>
    rw [List.map_append]
    exact .tail ih (hstep _ _ _ (hs.steps hrun) hlast)

/-! ### Guarded runs -/

/-- The steps of `sys` that meet `guard`, a condition on the state before the
    step and the label. -/
def System.restrict (sys : System State Label) (guard : State → Label → Prop) :
    System State Label where
  init := sys.init
  step := fun s l s' => guard s l ∧ sys.step s l s'

/-- A run whose steps all meet the guard is a run. -/
theorem Reachable.of_restrict {sys : System State Label} {guard : State → Label → Prop}
    {s : State} (h : Reachable (sys.restrict guard) s) : Reachable sys s := by
  induction h with
  | init h => exact .init h
  | step _ h ih => exact .step ih h.2

/-! ### Simulation -/

/-- **Forward simulation**: when every step from a reachable state has an abstract step that
    matches its label, every run has an abstract run that matches its labels, one by one. -/
theorem Steps.simulate {State' : Type*} {Label' : Type*} {sys : System State Label}
    {spec : System State' Label'} (rel : State → State' → Prop) (fits : Label → Label' → Prop)
    (hstep : ∀ s l s' a, Reachable sys s → rel s a → sys.step s l s' →
      ∃ k a', spec.step a k a' ∧ fits l k ∧ rel s' a')
    {s s' : State} {a : State'} {ls : List Label} (hs : Reachable sys s) (hrel : rel s a)
    (h : Steps sys s ls s') :
    ∃ ks a', Steps spec a ks a' ∧ List.Forall₂ fits ls ks ∧ rel s' a' := by
  induction h with
  | refl => exact ⟨[], a, .refl, .nil, hrel⟩
  | tail hrun hlast ih =>
    obtain ⟨ks, a', hks, hfits, hrel'⟩ := ih
    obtain ⟨k, a'', hk, hfit, hrel''⟩ := hstep _ _ _ _ (hs.steps hrun) hrel' hlast
    exact ⟨ks ++ [k], a'', .tail hks hk, List.rel_append hfits (.cons hfit .nil), hrel''⟩

end LTS
