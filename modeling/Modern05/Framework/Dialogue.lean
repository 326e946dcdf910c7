import Mathlib.Logic.Basic

/-! # Programs that talk to their environment

    A program makes calls and goes on with the answers. It also has a store, which the environment
    may change while it answers. An environment is any function from its own state, the call and
    the store to an answer; what is proved for all environments holds whatever is answered.

    * `Ensures`: the result of a run, and the states it ends in. There is one rule for each way to
      build a program.
    * `Obeys`: the calls of a program, with their answers, are accepted by a monitor, an automaton
      that reads them one by one.
    * `Obeys.trace`: so the monitor accepts the trace of every run, in every environment.
-/

/-- Programs with calls `Req`, answered with an `Ans`, and a store `S`. -/
inductive Dialogue (Req Ans S α : Type) : Type where
  | done (a : α)
  | ask (r : Req) (k : Ans → Dialogue Req Ans S α)
  | get (k : S → Dialogue Req Ans S α)
  | put (s : S) (p : Dialogue Req Ans S α)

namespace Dialogue

variable {Req Ans S α β σ : Type}

/-! ## Sequencing -/

/-- Run `p`, then continue with `f` on its result. -/
protected def bind : Dialogue Req Ans S α → (α → Dialogue Req Ans S β) → Dialogue Req Ans S β
  | done a, f => f a
  | ask r k, f => ask r (fun ans => (k ans).bind f)
  | get k, f => get (fun s => (k s).bind f)
  | put s p, f => put s (p.bind f)

instance : Monad (Dialogue Req Ans S) where
  pure := done
  bind := Dialogue.bind

/-- Make a call. -/
def call (r : Req) : Dialogue Req Ans S Ans := ask r done

/-- The store. -/
def load : Dialogue Req Ans S S := get done

/-- Replace the store. -/
def store (s : S) : Dialogue Req Ans S Unit := put s (done ())

/-! ## Runs -/

/-- The answer to a call, the store and the state of the environment after it. -/
abbrev Environment (Req Ans S σ : Type) : Type := Req → σ → S → Ans × S × σ

/-- Where a run ends. -/
structure Outcome (Req Ans S σ α : Type) where
  result : α
  store : S
  env : σ
  trace : List (Req × Ans)

def run (env : Environment Req Ans S σ) : Dialogue Req Ans S α → σ → S → Outcome Req Ans S σ α
  | done a, e, s => ⟨a, s, e, []⟩
  | ask r k, e, s =>
    let x := env r e s
    let o := run env (k x.1) x.2.2 x.2.1
    { o with trace := (r, x.1) :: o.trace }
  | get k, e, s => run env (k s) e s
  | put s p, e, _ => run env p e s

/-- Running in sequence. -/
theorem run_bind (env : Environment Req Ans S σ) (p : Dialogue Req Ans S α)
    (f : α → Dialogue Req Ans S β) (e : σ) (s : S) :
    run env (p >>= f) e s =
      let o := run env p e s
      let o' := run env (f o.result) o.env o.store
      { o' with trace := o.trace ++ o'.trace } := by
  induction p generalizing e s with
  | done a => rfl
  | ask r k ih =>
    show run env (ask r fun ans => k ans >>= f) e s = _
    simp only [run, ih, List.cons_append]
  | get k ih => exact ih s e s
  | put s' p ih => exact ih e s'

/-! ## Results -/

section ensures

variable {env : Environment Req Ans S σ} {e : σ} {s : S}

/-- The run ends with a result and states that satisfy `Q`. -/
def Ensures (env : Environment Req Ans S σ) (p : Dialogue Req Ans S α) (e : σ) (s : S)
    (Q : α → σ → S → Prop) : Prop :=
  Q (run env p e s).result (run env p e s).env (run env p e s).store

theorem Ensures.outcome {p : Dialogue Req Ans S α} {Q : α → σ → S → Prop}
    (h : Ensures env p e s Q) :
    Q (p.run env e s).result (p.run env e s).env (p.run env e s).store :=
  h

theorem Ensures.pure {Q : α → σ → S → Prop} {a : α} (h : Q a e s) :
    Ensures env (pure a) e s Q :=
  h

theorem Ensures.bind {p : Dialogue Req Ans S α} {f : α → Dialogue Req Ans S β}
    {Q : β → σ → S → Prop}
    (h : Ensures env p e s fun a e s => Ensures env (f a) e s Q) :
    Ensures env (p >>= f) e s Q := by
  rw [Ensures, run_bind]
  exact h

theorem Ensures.call {Q : Ans → σ → S → Prop} {r : Req}
    (h : Q (env r e s).1 (env r e s).2.2 (env r e s).2.1) : Ensures env (call r) e s Q :=
  h

theorem Ensures.load {Q : S → σ → S → Prop} (h : Q s e s) : Ensures env load e s Q :=
  h

theorem Ensures.store {Q : Unit → σ → S → Prop} {s' : S} (h : Q () e s') :
    Ensures env (store s') e s Q :=
  h

/-- A program that is chosen by a condition. -/
theorem Ensures.ite {Q : α → σ → S → Prop} {c : Prop} [Decidable c]
    {p q : Dialogue Req Ans S α} (hp : c → Ensures env p e s Q) (hq : ¬ c → Ensures env q e s Q) :
    Ensures env (if c then p else q) e s Q := by
  by_cases hc : c
  · rw [if_pos hc]
    exact hp hc
  · rw [if_neg hc]
    exact hq hc

end ensures

/-! ## Monitors -/

section monitor

variable {M : Type} {mon : M → Req × Ans → Option M} {m : M}

/-- The monitor, in the state `m`, accepts every trace of the program, and then its state and the
    result satisfy `Q`. -/
def Obeys (mon : M → Req × Ans → Option M) : Dialogue Req Ans S α → M → (α → M → Prop) → Prop
  | done a, m, Q => Q a m
  | ask r k, m, Q => ∀ ans, ∃ m', mon m (r, ans) = some m' ∧ Obeys mon (k ans) m' Q
  | get k, m, Q => ∀ s, Obeys mon (k s) m Q
  | put _ p, m, Q => Obeys mon p m Q

theorem Obeys.pure {Q : α → M → Prop} {a : α} (h : Q a m) :
    Obeys mon (pure a : Dialogue Req Ans S α) m Q :=
  h

theorem Obeys.bind {p : Dialogue Req Ans S α} {f : α → Dialogue Req Ans S β} {Q : β → M → Prop}
    (h : Obeys mon p m fun a m => Obeys mon (f a) m Q) : Obeys mon (p >>= f) m Q := by
  induction p generalizing m with
  | done a => exact h
  | ask r k ih =>
    intro ans
    obtain ⟨m', hm', h⟩ := h ans
    exact ⟨m', hm', ih ans h⟩
  | get k ih => exact fun s => ih s (h s)
  | put s p ih => exact ih h

theorem Obeys.call {Q : Ans → M → Prop} {r : Req}
    (h : ∀ ans, ∃ m', mon m (r, ans) = some m' ∧ Q ans m') :
    Obeys mon (call r : Dialogue Req Ans S Ans) m Q :=
  h

theorem Obeys.load {Q : S → M → Prop} (h : ∀ s, Q s m) :
    Obeys mon (load : Dialogue Req Ans S S) m Q :=
  h

theorem Obeys.store {Q : Unit → M → Prop} {s : S} (h : Q () m) :
    Obeys mon (store s : Dialogue Req Ans S Unit) m Q :=
  h

theorem Obeys.ite {Q : α → M → Prop} {c : Prop} [Decidable c] {p q : Dialogue Req Ans S α}
    (hp : c → Obeys mon p m Q) (hq : ¬ c → Obeys mon q m Q) :
    Obeys mon (if c then p else q) m Q := by
  by_cases hc : c
  · rw [if_pos hc]
    exact hp hc
  · rw [if_neg hc]
    exact hq hc

/-- **A program that obeys a monitor does so in every environment.** By induction on the program,
    with the state of the monitor and the run's own states free. -/
theorem Obeys.trace {p : Dialogue Req Ans S α} {Q : α → M → Prop} (h : Obeys mon p m Q)
    (env : Environment Req Ans S σ) (e : σ) (s : S) :
    ∃ m', (run env p e s).trace.foldlM mon m = some m' ∧ Q (run env p e s).result m' := by
  induction p generalizing m e s with
  | done a => exact ⟨m, rfl, h⟩
  | ask r k ih =>
    obtain ⟨m', hm', h⟩ := h (env r e s).1
    obtain ⟨m'', hm'', hQ⟩ := ih _ h (env r e s).2.2 (env r e s).2.1
    refine ⟨m'', ?_, hQ⟩
    simp only [run, List.foldlM_cons, hm', Option.bind_eq_bind, Option.bind_some]
    exact hm''
  | get k ih => exact ih s (h s) e s
  | put s' p ih => exact ih h e s'

end monitor

-- programs are taken apart by the rules, not by evaluation
attribute [irreducible] Ensures Obeys

end Dialogue
