import Mathlib.Logic.Basic

/-! # Programs of single accesses

    A program is a tree of single reads and single writes of typed cells that
    ends in a result or in a failure. The same program has two meanings:

    * `Prog.run` executes it to the end, with nothing in between;
    * `Prog.next` performs its next access only, which is what an interrupt
      between two accesses can observe.

    `Prog.run_of_next` says that the two agree: performing one access and then
    running the rest is running the whole.

    `Prog.Confined` bounds what a program can do whatever it reads: the cells it
    writes, the failures it ends in and the results it returns.

    `Prog.Typed` is the same for a store that is well typed: each cell holds a value that
    is right for it. A well typed program keeps the store so, and every cell it touches
    is an allowed one.

    `Prog.reads` and `Prog.writes` are the cells that one run touches, in the order of its
    accesses.

    `Cell β` is the type of the cells that hold a `β`; the class `Cells` says how
    a store of type `S` is read and written at a cell.
-/

universe u

/-- How a store is read and written at each of its cells. -/
class Cells (Cell : Type → Type) (S : outParam (Type u)) where
  /-- The content of a cell. -/
  get : {β : Type} → Cell β → S → β
  /-- The store after a write to a cell. -/
  set : {β : Type} → Cell β → β → S → S

/-- Programs over the cells `Cell`, failing with an `ε`, returning an `α`. -/
inductive Prog (Cell : Type → Type) (ε α : Type) : Type 1 where
  | ret (a : α)
  | fail (e : ε)
  | read {β : Type} (l : Cell β) (k : β → Prog Cell ε α)
  | write {β : Type} (l : Cell β) (v : β) (k : Prog Cell ε α)

namespace Prog

variable {Cell : Type → Type} {ε α β : Type} {S : Type u}

/-! ## Sequencing -/

/-- Run `p`, then continue with `f` on its result. -/
protected def bind : Prog Cell ε α → (α → Prog Cell ε β) → Prog Cell ε β
  | ret a, f => f a
  | fail e, _ => fail e
  | read l k, f => read l (fun v => (k v).bind f)
  | write l v k, f => write l v (k.bind f)

instance : Monad (Prog Cell ε) where
  pure := ret
  bind := Prog.bind

/-- The content of a cell. -/
def load (l : Cell β) : Prog Cell ε β := read l ret

/-- Write a cell. -/
def store (l : Cell β) (v : β) : Prog Cell ε Unit := write l v (ret ())

/-- Fail with `e` unless the condition holds. -/
def check (b : Bool) (e : ε) : Prog Cell ε Unit := if b then ret () else fail e

/-! ## Running to the end -/

section run

variable [Cells Cell S]

/-- The outcome of a program from a store, and the store it stops in. A failed
    program stops where it failed: the writes it made before stay. -/
def run : Prog Cell ε α → S → Except ε α × S
  | ret a, s => (.ok a, s)
  | fail e, s => (.error e, s)
  | read l k, s => run (k (Cells.get l s)) s
  | write l v k, s => run k (Cells.set l v s)

@[simp] theorem run_pure (a : α) (s : S) :
    (pure a : Prog Cell ε α).run s = (.ok a, s) := rfl

@[simp] theorem run_ret (a : α) (s : S) : (ret a : Prog Cell ε α).run s = (.ok a, s) := rfl

@[simp] theorem run_fail (e : ε) (s : S) : (fail e : Prog Cell ε α).run s = (.error e, s) := rfl

@[simp] theorem run_load (l : Cell β) (s : S) :
    (load l : Prog Cell ε β).run s = (.ok (Cells.get l s), s) := rfl

@[simp] theorem run_store (l : Cell β) (v : β) (s : S) :
    (store l v : Prog Cell ε Unit).run s = (.ok (), Cells.set l v s) := rfl

@[simp] theorem run_check_true (e : ε) (s : S) :
    (check true e : Prog Cell ε Unit).run s = (.ok (), s) := rfl

@[simp] theorem run_check_false (e : ε) (s : S) :
    (check false e : Prog Cell ε Unit).run s = (.error e, s) := rfl

/-- Running a sequence is running its parts one after the other. -/
theorem run_bind (p : Prog Cell ε α) (f : α → Prog Cell ε β) (s : S) :
    (p >>= f).run s =
      match p.run s with
      | (.ok a, s') => (f a).run s'
      | (.error e, s') => (.error e, s') := by
  show (p.bind f).run s = _
  induction p generalizing s with
  | ret a => rfl
  | fail e => rfl
  | read l k ih => exact ih _ s
  | write l v k ih => exact ih _

theorem run_bind_ok {p : Prog Cell ε α} {f : α → Prog Cell ε β} {s s' : S} {a : α}
    (h : p.run s = (.ok a, s')) : (p >>= f).run s = (f a).run s' := by
  rw [run_bind, h]

theorem run_bind_error {p : Prog Cell ε α} {f : α → Prog Cell ε β} {s s' : S} {e : ε}
    (h : p.run s = (.error e, s')) : (p >>= f).run s = (.error e, s') := by
  rw [run_bind, h]

@[simp] theorem run_load_bind (l : Cell β) (f : β → Prog Cell ε α) (s : S) :
    (load l >>= f).run s = (f (Cells.get l s)).run s := rfl

@[simp] theorem run_store_bind (l : Cell β) (v : β) (f : Unit → Prog Cell ε α) (s : S) :
    (store l v >>= f).run s = (f ()).run (Cells.set l v s) := rfl

@[simp] theorem run_pure_bind (a : β) (f : β → Prog Cell ε α) (s : S) :
    ((pure a : Prog Cell ε β) >>= f).run s = (f a).run s := rfl

@[simp] theorem run_check_bind_true (e : ε) (f : Unit → Prog Cell ε α) (s : S) :
    (check true e >>= f).run s = (f ()).run s := rfl

@[simp] theorem run_check_bind_false (e : ε) (f : Unit → Prog Cell ε α) (s : S) :
    (check false e >>= f).run s = (.error e, s) := rfl

/-! ## One access at a time -/

/-- The next access of a program: what is left to do, and the store after it.
    A finished or failed program has none. -/
def next : Prog Cell ε α → S → Option (Prog Cell ε α × S)
  | ret _, _ => none
  | fail _, _ => none
  | read l k, s => some (k (Cells.get l s), s)
  | write l v k, s => some (k, Cells.set l v s)

/-- **Small and big steps agree**: after one access, the rest of the program
    ends as the whole would have. -/
theorem run_of_next {p p' : Prog Cell ε α} {s s' : S} (h : p.next s = some (p', s')) :
    p.run s = p'.run s' := by
  cases p with
  | ret a => simp [next] at h
  | fail e => simp [next] at h
  | read l k =>
    simp only [next, Option.some.injEq, Prod.mk.injEq] at h
    obtain ⟨rfl, rfl⟩ := h
    rfl
  | write l v k =>
    simp only [next, Option.some.injEq, Prod.mk.injEq] at h
    obtain ⟨rfl, rfl⟩ := h
    rfl

end run

/-! ## Bounds on what a program does -/

section confined

variable {W : (β : Type) → Cell β → Prop} {F : ε → Prop} {A : α → Prop} {B : β → Prop}

/-- Whatever it reads, the program writes cells in `W` only, fails with failures in `F`
    only and returns results in `A` only. -/
inductive Confined (W : (β : Type) → Cell β → Prop) (F : ε → Prop) (A : α → Prop) :
    Prog Cell ε α → Prop where
  | ret {a : α} : A a → Confined W F A (ret a)
  | fail {e : ε} : F e → Confined W F A (fail e)
  | read {γ : Type} {l : Cell γ} {k : γ → Prog Cell ε α} :
      (∀ v, Confined W F A (k v)) → Confined W F A (read l k)
  | write {γ : Type} {l : Cell γ} {v : γ} {k : Prog Cell ε α} :
      W γ l → Confined W F A k → Confined W F A (write l v k)

namespace Confined

theorem bind {p : Prog Cell ε α} {f : α → Prog Cell ε β} (hp : Confined W F A p)
    (hf : ∀ a, A a → Confined W F B (f a)) : Confined W F B (p >>= f) := by
  induction hp with
  | ret ha => exact hf _ ha
  | fail he => exact .fail he
  | read _ ih => exact .read ih
  | write hl _ ih => exact .write hl ih

theorem check {b : Bool} {e : ε} (he : F e) :
    Confined W F (fun _ => True) (Prog.check b e : Prog Cell ε Unit) := by
  cases b with
  | true => exact .ret trivial
  | false => exact .fail he

variable [Cells Cell S] {p : Prog Cell ε α} {s s' : S}

/-- A property of the store that no allowed write destroys survives the program. -/
theorem run_preserves {I : S → Prop} (hp : Confined W F A p)
    (hI : ∀ (γ : Type) (l : Cell γ) (v : γ) (s : S), W γ l → I s → I (Cells.set l v s))
    (hs : I s) : I (p.run s).2 := by
  induction hp generalizing s with
  | ret _ => exact hs
  | fail _ => exact hs
  | read _ ih => exact ih _ hs
  | write hl _ ih => exact ih (hI _ _ _ s hl hs)

theorem run_error {e : ε} (hp : Confined W F A p) (h : p.run s = (.error e, s')) : F e := by
  induction hp generalizing s with
  | ret _ => cases h
  | fail he =>
    cases h
    exact he
  | read _ ih => exact ih _ h
  | write _ _ ih => exact ih h

theorem run_ok {a : α} (hp : Confined W F A p) (h : p.run s = (.ok a, s')) : A a := by
  induction hp generalizing s with
  | ret ha =>
    cases h
    exact ha
  | fail _ => cases h
  | read _ ih => exact ih _ h
  | write _ _ ih => exact ih h

/-- What is left after one access is confined as well, and the access preserves what
    no allowed write destroys. -/
theorem of_next {p' : Prog Cell ε α} {I : S → Prop} (hp : Confined W F A p)
    (hI : ∀ (γ : Type) (l : Cell γ) (v : γ) (s : S), W γ l → I s → I (Cells.set l v s))
    (h : p.next s = some (p', s')) (hs : I s) : Confined W F A p' ∧ I s' := by
  cases hp with
  | ret _ => cases h
  | fail _ => cases h
  | read hk =>
    cases h
    exact ⟨hk _, hs⟩
  | write hl hk =>
    cases h
    exact ⟨hk, hI _ _ _ s hl hs⟩

end Confined

end confined

/-! ## Well typed stores -/

section typed

/-- The cells a program reads or writes from a store, in the order of its accesses. -/
def accesses [Cells Cell S] : Prog Cell ε α → S → List (Sigma Cell)
  | ret _, _ => []
  | fail _, _ => []
  | read l k, s => ⟨_, l⟩ :: accesses (k (Cells.get l s)) s
  | write l v k, s => ⟨_, l⟩ :: accesses k (Cells.set l v s)

variable {A : Sigma Cell → Prop} {V : (β : Type) → Cell β → β → Prop} {R : α → Prop}
  {Q : β → Prop}

/-- From a store whose cells hold values in `V`, the program touches cells in `A` only,
    writes values in `V` only and returns results in `R` only. -/
inductive Typed (A : Sigma Cell → Prop) (V : (β : Type) → Cell β → β → Prop) (R : α → Prop) :
    Prog Cell ε α → Prop where
  | ret {a : α} : R a → Typed A V R (ret a)
  | fail {e : ε} : Typed A V R (fail e)
  | read {γ : Type} {l : Cell γ} {k : γ → Prog Cell ε α} :
      A ⟨γ, l⟩ → (∀ v, V γ l v → Typed A V R (k v)) → Typed A V R (read l k)
  | write {γ : Type} {l : Cell γ} {v : γ} {k : Prog Cell ε α} :
      A ⟨γ, l⟩ → V γ l v → Typed A V R k → Typed A V R (write l v k)

/-- Every cell holds a value that is right for it. -/
def WellTyped [Cells Cell S] (V : (β : Type) → Cell β → β → Prop) (s : S) : Prop :=
  ∀ (β : Type) (l : Cell β), V β l (Cells.get l s)

namespace Typed

theorem bind {p : Prog Cell ε α} {f : α → Prog Cell ε β} (hp : Typed A V R p)
    (hf : ∀ a, R a → Typed A V Q (f a)) : Typed A V Q (p >>= f) := by
  induction hp with
  | ret ha => exact hf _ ha
  | fail => exact .fail
  | read hl _ ih => exact .read hl ih
  | write hl hv _ ih => exact .write hl hv ih

theorem check {b : Bool} {e : ε} :
    Typed A V (fun _ => True) (Prog.check b e : Prog Cell ε Unit) := by
  cases b with
  | true => exact .ret trivial
  | false => exact .fail

variable [Cells Cell S] {p : Prog Cell ε α} {s : S}

theorem accesses (hp : Typed A V R p)
    (hset : ∀ (γ : Type) (l : Cell γ) (v : γ) (s : S), V γ l v → WellTyped V s →
      WellTyped V (Cells.set l v s))
    (hs : WellTyped V s) : ∀ c ∈ p.accesses s, A c := by
  induction hp generalizing s with
  | ret _ => simp [Prog.accesses]
  | fail => simp [Prog.accesses]
  | read hl _ ih =>
    rw [Prog.accesses, List.forall_mem_cons]
    exact ⟨hl, ih _ (hs _ _) hs⟩
  | write hl hv _ ih =>
    rw [Prog.accesses, List.forall_mem_cons]
    exact ⟨hl, ih (hset _ _ _ s hv hs)⟩

theorem run (hp : Typed A V R p)
    (hset : ∀ (γ : Type) (l : Cell γ) (v : γ) (s : S), V γ l v → WellTyped V s →
      WellTyped V (Cells.set l v s))
    (hs : WellTyped V s) : WellTyped V (p.run s).2 := by
  induction hp generalizing s with
  | ret _ => exact hs
  | fail => exact hs
  | read _ _ ih => exact ih _ (hs _ _) hs
  | write _ hv _ ih => exact ih (hset _ _ _ s hv hs)

end Typed

end typed

/-! ## What a run reads and writes -/

section traces

variable [Cells Cell S]

def reads : Prog Cell ε α → S → List (Sigma Cell)
  | ret _, _ => []
  | fail _, _ => []
  | read l k, s => ⟨_, l⟩ :: reads (k (Cells.get l s)) s
  | write l v k, s => reads k (Cells.set l v s)

def writes : Prog Cell ε α → S → List (Sigma Cell)
  | ret _, _ => []
  | fail _, _ => []
  | read l k, s => writes (k (Cells.get l s)) s
  | write l v k, s => ⟨_, l⟩ :: writes k (Cells.set l v s)

/-- What a sequence reads when its first part returns. -/
theorem reads_bind_ok {p : Prog Cell ε α} {f : α → Prog Cell ε β} {s s' : S} {a : α}
    (h : p.run s = (.ok a, s')) : (p >>= f).reads s = p.reads s ++ (f a).reads s' := by
  show (p.bind f).reads s = _
  induction p generalizing s with
  | ret b =>
    cases h
    rfl
  | fail e => cases h
  | read l k ih => exact congrArg (_ :: ·) (ih _ h)
  | write l v k ih => exact ih h

theorem writes_bind_ok {p : Prog Cell ε α} {f : α → Prog Cell ε β} {s s' : S} {a : α}
    (h : p.run s = (.ok a, s')) : (p >>= f).writes s = p.writes s ++ (f a).writes s' := by
  show (p.bind f).writes s = _
  induction p generalizing s with
  | ret b =>
    cases h
    rfl
  | fail e => cases h
  | read l k ih => exact ih _ h
  | write l v k ih => exact congrArg (_ :: ·) (ih h)

/-- A sequence that returns has returned from its first part. -/
theorem of_run_bind_ok {p : Prog Cell ε α} {f : α → Prog Cell ε β} {s s'' : S} {b : β}
    (h : (p >>= f).run s = (.ok b, s'')) :
    ∃ a s', p.run s = (.ok a, s') ∧ (f a).run s' = (.ok b, s'') := by
  rw [run_bind] at h
  rcases hp : p.run s with ⟨e | a, s'⟩
  · rw [hp] at h
    cases h
  · rw [hp] at h
    exact ⟨a, s', rfl, h⟩

end traces

end Prog
