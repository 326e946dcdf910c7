import Modern05.Framework.LTS
import Mathlib.Logic.Function.Basic

/-! # Objects behind a spinlock

    Any number of threads work on one object. An operation is a list of steps on the object and
    on a result, between the acquisition and the release of a lock, and the lock is a flag that a
    thread tests and sets until it was clear. The steps of the threads come in any order.

    * `Sequential`: what operations that run one after the other return.
    * `inv_of_reachable`: the flag is set exactly while one thread is in its section, and the
      object is what the operations that have returned have made of it, up to the steps that this
      thread has done.
    * `releases`: the thread in its section can go on, and leaves it after the steps it has left.
-/

namespace Locked

open LTS

universe u

variable {Thread Op Obj Res : Type u}

/-- Where a thread is. In its section it has some steps before it. -/
inductive Phase (Op Obj Res : Type u) where
  | idle
  | waiting (op : Op)
  | inside (op : Op) (rest : List (Obj × Res → Obj × Res)) (result : Res)

def Phase.Inside : Phase Op Obj Res → Prop
  | .inside _ _ _ => True
  | _ => False

/-- An operation that has returned. -/
structure Return (Thread Op Res : Type u) where
  thread : Thread
  op : Op
  result : Res

/-- The returns stand in the log in their order. -/
structure State (Thread Op Obj Res : Type u) where
  flag : Bool
  object : Obj
  phase : Thread → Phase Op Obj Res
  log : List (Return Thread Op Res)

inductive Event (Thread Op : Type u) where
  | call (i : Thread) (op : Op)
  | test_and_set (i : Thread)
  | work (i : Thread)
  | release (i : Thread)

def Event.thread : Event Thread Op → Thread
  | .call i _ => i
  | .test_and_set i => i
  | .work i => i
  | .release i => i

def run (steps : List (Obj × Res → Obj × Res)) (x : Obj × Res) : Obj × Res :=
  steps.foldl (fun x f => f x) x

section system

variable [DecidableEq Thread]

def State.move (s : State Thread Op Obj Res) (i : Thread) (p : Phase Op Obj Res) :
    State Thread Op Obj Res :=
  { s with phase := Function.update s.phase i p }

/-- The runs from `start`. An operation `op` does the steps `body op`, and its result is `blank`
    before the first. -/
def system (body : Op → List (Obj × Res → Obj × Res)) (start : Obj) (blank : Res) :
    System (State Thread Op Obj Res) (Event Thread Op) where
  init := fun s => s.flag = false ∧ s.object = start ∧ (∀ i, s.phase i = .idle) ∧ s.log = []
  step := fun s e s' =>
    match e with
    | .call i op => s.phase i = .idle ∧ s' = s.move i (.waiting op)
    | .test_and_set i => ∃ op, s.phase i = .waiting op ∧
        -- the flag is set in any case, and the thread goes on if it was not
        s' = if s.flag then s else { s.move i (.inside op (body op) blank) with flag := true }
    | .work i => ∃ op f rest r, s.phase i = .inside op (f :: rest) r ∧
        s' = { s.move i (.inside op rest (f (s.object, r)).2) with object := (f (s.object, r)).1 }
    | .release i => ∃ op r, s.phase i = .inside op [] r ∧
        s' = { s.move i .idle with flag := false, log := s.log ++ [⟨i, op, r⟩] }

end system

variable {body : Op → List (Obj × Res → Obj × Res)} {start : Obj} {blank : Res}

/-- Operations that run one after the other have these returns and leave this object. -/
inductive Sequential (body : Op → List (Obj × Res → Obj × Res)) (start : Obj) (blank : Res) :
    List (Return Thread Op Res) → Obj → Prop where
  | nil : Sequential body start blank [] start
  | snoc {log : List (Return Thread Op Res)} {x : Obj} (i : Thread) (op : Op) :
      Sequential body start blank log x →
      Sequential body start blank (log ++ [⟨i, op, (run (body op) (x, blank)).2⟩])
        (run (body op) (x, blank)).1

/-- The thread is in its section, with the steps `rest` before it; `x` is the object as it was when
    the thread came in. -/
structure Holds (body : Op → List (Obj × Res → Obj × Res)) (blank : Res)
    (s : State Thread Op Obj Res) (x : Obj) (i : Thread) (op : Op)
    (rest : List (Obj × Res → Obj × Res)) (r : Res) : Prop where
  phase : s.phase i = .inside op rest r
  only : ∀ j, (s.phase j).Inside → j = i
  ran : ∃ before, body op = before ++ rest ∧ run before (x, blank) = (s.object, r)

/-- Nobody is in a section, or one thread is. -/
def Inv (body : Op → List (Obj × Res → Obj × Res)) (start : Obj) (blank : Res)
    (s : State Thread Op Obj Res) : Prop :=
  ∃ x, Sequential body start blank s.log x ∧
    ((s.flag = false ∧ (∀ i, ¬ (s.phase i).Inside) ∧ s.object = x) ∨
      (s.flag = true ∧ ∃ i op rest r, Holds body blank s x i op rest r))

theorem Inv.at_most_one {s : State Thread Op Obj Res} (h : Inv body start blank s) {i j : Thread}
    (hi : (s.phase i).Inside) (hj : (s.phase j).Inside) : i = j := by
  obtain ⟨x, -, ⟨-, hnone, -⟩ | ⟨-, k, op, rest, r, hholds⟩⟩ := h
  · exact absurd hi (hnone i)
  · rw [hholds.only i hi, hholds.only j hj]

/-- Who is in a section has the flag. -/
theorem Inv.holds {s : State Thread Op Obj Res} (h : Inv body start blank s) {i : Thread} {op : Op}
    {rest : List (Obj × Res → Obj × Res)} {r : Res} (hi : s.phase i = .inside op rest r) :
    ∃ x, Sequential body start blank s.log x ∧ s.flag = true ∧
      Holds body blank s x i op rest r := by
  have hinside : (s.phase i).Inside := by rw [hi]; trivial
  obtain ⟨x, hlog, ⟨-, hnone, -⟩ | ⟨hflag, k, op', rest', r', hholds⟩⟩ := h
  · exact absurd hinside (hnone i)
  · obtain rfl := hholds.only i hinside
    have hsame := hholds.phase
    rw [hi] at hsame
    cases hsame
    exact ⟨x, hlog, hflag, hholds⟩

section steps

variable [DecidableEq Thread] {s s' : State Thread Op Obj Res} {i : Thread}

/-- A thread outside of its section that stays outside. -/
theorem Inv.move (h : Inv body start blank s) {p : Phase Op Obj Res} (hp : ¬ p.Inside)
    (hi : ¬ (s.phase i).Inside) : Inv body start blank (s.move i p) := by
  have hiff : ∀ j, ((s.move i p).phase j).Inside ↔ (s.phase j).Inside := by
    intro j
    by_cases hj : j = i
    · subst hj
      simp [State.move, hp, hi]
    · simp [State.move, hj]
  obtain ⟨x, hlog, ⟨hflag, hnone, hobject⟩ | ⟨hflag, k, op, rest, r, hholds⟩⟩ := h
  · exact ⟨x, hlog, .inl ⟨hflag, fun j hj => hnone j ((hiff j).mp hj), hobject⟩⟩
  · have hk : k ≠ i := by
      rintro rfl
      exact hi (by rw [hholds.phase]; trivial)
    refine ⟨x, hlog, .inr ⟨hflag, k, op, rest, r, ?_, ?_, hholds.ran⟩⟩
    · simpa [State.move, hk] using hholds.phase
    · exact fun j hj => hholds.only j ((hiff j).mp hj)

/-- The thread that finds the flag clear is alone in its section. -/
theorem Inv.acquire (h : Inv body start blank s) (hflag : s.flag = false) (op : Op) :
    Inv body start blank { s.move i (.inside op (body op) blank) with flag := true } := by
  obtain ⟨x, hlog, ⟨-, hnone, hobject⟩ | ⟨hset, -⟩⟩ := h
  · refine ⟨x, hlog, .inr ⟨rfl, i, op, body op, blank, ?_, ?_, [], rfl, ?_⟩⟩
    · simp [State.move]
    · intro j hj
      by_contra hne
      exact hnone j (by simpa [State.move, hne] using hj)
    · rw [← hobject]
      rfl
  · simp [hflag] at hset

/-- The others stay where they are. -/
theorem Holds.only_move {x : Obj} {op : Op} {rest : List (Obj × Res → Obj × Res)} {r : Res}
    (h : Holds body blank s x i op rest r) (p : Phase Op Obj Res) {j : Thread}
    (hj : ((s.move i p).phase j).Inside) : j = i := by
  by_contra hne
  exact hne (h.only j (by simpa [State.move, hne] using hj))

theorem Inv.work (h : Inv body start blank s) {op : Op} {f : Obj × Res → Obj × Res}
    {rest : List (Obj × Res → Obj × Res)} {r : Res} (hi : s.phase i = .inside op (f :: rest) r) :
    Inv body start blank
      { s.move i (.inside op rest (f (s.object, r)).2) with object := (f (s.object, r)).1 } := by
  obtain ⟨x, hlog, hflag, hholds⟩ := h.holds hi
  obtain ⟨before, hbody, hran⟩ := hholds.ran
  refine ⟨x, hlog, .inr ⟨hflag, i, op, rest,
    (f (s.object, r)).2, ?_, ?_, before ++ [f], ?_, ?_⟩⟩
  · simp [State.move]
  · exact fun j hj => hholds.only_move _ hj
  · simp [hbody]
  · rw [run] at hran
    simp [run, hran]

/-- Who leaves has done all the steps of the operation. -/
theorem Inv.release (h : Inv body start blank s) {op : Op} {r : Res}
    (hi : s.phase i = .inside op [] r) :
    Inv body start blank { s.move i .idle with flag := false, log := s.log ++ [⟨i, op, r⟩] } := by
  obtain ⟨x, hlog, -, hholds⟩ := h.holds hi
  obtain ⟨before, hbody, hran⟩ := hholds.ran
  rw [List.append_nil] at hbody
  have hlog' := hlog.snoc i op
  rw [hbody, hran] at hlog'
  refine ⟨s.object, hlog', .inl ⟨rfl, ?_, rfl⟩⟩
  intro j hj
  obtain rfl := hholds.only_move _ hj
  simp [State.move, Phase.Inside] at hj

/-- **In every run** the flag is set exactly while one thread is in its section, and the returns
    are those of operations one after the other. -/
theorem inv_of_reachable : ∀ s : State Thread Op Obj Res,
    Reachable (system body start blank) s → Inv body start blank s := by
  apply invariant_of_step
  · intro s h
    obtain ⟨hflag, hobject, hidle, hlog⟩ := h
    refine ⟨start, ?_, .inl ⟨hflag, ?_, hobject⟩⟩
    · rw [hlog]
      exact .nil
    · intro i hi
      rw [hidle i] at hi
      exact hi
  · intro s e s' _ hinv hstep
    cases e with
    | call i op =>
      obtain ⟨hidle, rfl⟩ := hstep
      exact hinv.move (fun h => h) (by rw [hidle]; exact fun h => h)
    | test_and_set i =>
      obtain ⟨op, hwaiting, rfl⟩ := hstep
      cases hflag : s.flag with
      | true => simpa using hinv
      | false => simpa using hinv.acquire hflag op
    | work i =>
      obtain ⟨op, f, rest, r, hi, rfl⟩ := hstep
      exact hinv.work hi
    | release i =>
      obtain ⟨op, r, hi, rfl⟩ := hstep
      exact hinv.release hi

/-- **Progress.** The thread in its section leaves it, by its own steps, as many as it has before
    it and the release. -/
theorem releases (body : Op → List (Obj × Res → Obj × Res)) (start : Obj) (blank : Res) {op : Op}
    {rest : List (Obj × Res → Obj × Res)} {r : Res} (hi : s.phase i = .inside op rest r) :
    ∃ es s', es.length = rest.length + 1 ∧ (∀ e ∈ es, e.thread = i) ∧
      Steps (system body start blank) s es s' ∧ s'.flag = false := by
  -- by induction on the steps that are left, from any state
  suffices hrun : ∀ (rest : List (Obj × Res → Obj × Res)) (s₀ t : State Thread Op Obj Res) r es,
      (∀ e ∈ es, e.thread = i) → Steps (system body start blank) s₀ es t →
      t.phase i = .inside op rest r →
      ∃ es' s', es'.length = es.length + rest.length + 1 ∧ (∀ e ∈ es', e.thread = i) ∧
        Steps (system body start blank) s₀ es' s' ∧ s'.flag = false by
    simpa using hrun rest s s r [] (by simp) .refl hi
  intro rest
  induction rest with
  | nil =>
    intro s₀ t r es hown hsteps hphase
    have hlast : (system body start blank).step t (.release i)
        { t.move i .idle with flag := false, log := t.log ++ [⟨i, op, r⟩] } :=
      ⟨op, r, hphase, rfl⟩
    refine ⟨es ++ [.release i], _, by simp, ?_, hsteps.tail hlast, rfl⟩
    simpa [or_imp, forall_and, Event.thread] using hown
  | cons f rest ih =>
    intro s₀ t r es hown hsteps hphase
    have hnext : (system body start blank).step t (.work i)
        { t.move i (.inside op rest (f (t.object, r)).2) with object := (f (t.object, r)).1 } :=
      ⟨op, f, rest, r, hphase, rfl⟩
    obtain ⟨es', s', hlength, hown', hsteps', hflag⟩ := ih s₀ _ (f (t.object, r)).2
      (es ++ [.work i]) (by simpa [or_imp, forall_and, Event.thread] using hown)
      (hsteps.tail hnext) (by simp [State.move])
    refine ⟨es', s', ?_, hown', hsteps', hflag⟩
    simp at hlength ⊢
    omega

end steps

/-! ## Results -/

/-- The part of the returns that stands before one of them. -/
theorem Sequential.split {log : List (Return Thread Op Res)} {x : Obj}
    (h : Sequential body start blank log x) {before after : List (Return Thread Op Res)}
    {ret : Return Thread Op Res} (hlog : log = before ++ ret :: after) :
    ∃ y, Sequential body start blank before y ∧
      ret.result = (run (body ret.op) (y, blank)).2 := by
  induction h generalizing after with
  | nil => simp at hlog
  | snoc i op h ih =>
    rcases List.eq_nil_or_concat after with rfl | ⟨init, last, rfl⟩
    · obtain ⟨rfl, hret⟩ := List.append_inj' hlog rfl
      cases hret
      exact ⟨_, h, rfl⟩
    · have hassoc : before ++ ret :: (init ++ [last]) = before ++ ret :: init ++ [last] := by simp
      simp only [List.concat_eq_append] at hlog
      rw [hassoc] at hlog
      obtain ⟨rfl, -⟩ := List.append_inj' hlog rfl
      exact ih rfl

end Locked
