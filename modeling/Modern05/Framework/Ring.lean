import Mathlib.Data.List.Basic
import Mathlib.Data.List.Nodup

/-! # Circular doubly linked lists

    Nodes of type `ν` are threaded by two partial maps `next` and `prev`. The
    list of the nodes, in `next` order from the head, is the abstract value.

    * `Links next prev l`: consecutive nodes of `l` point at each other.
    * `Circular next prev xs`: the nodes of `xs` are linked, and the last one is
      linked to the first.
    * `Ring first next prev xs`: `first` is null for the empty list, and else
      heads the circular list of the pairwise distinct nodes `xs`.

    A circular list may be rotated (`Circular.rotate`), so both edits are done at
    the seam: `Ring.erase` unlinks a node, `Ring.concat` links one in at the end.
    The edits are stated for any `next'` and `prev'` with the right values, in
    whatever order the assignments were made.
-/

namespace Linked

variable {ν : Type} {next prev next' prev' : ν → Option ν}

/-! ## Chains of links -/

/-- Consecutive nodes are linked both ways. -/
def Links (next prev : ν → Option ν) : List ν → Prop
  | x :: y :: rest => next x = some y ∧ prev y = some x ∧ Links next prev (y :: rest)
  | _ => True

/-- A chain splits at any of its nodes, which both halves keep. -/
theorem links_append_cons (l₁ : List ν) (x : ν) (l₂ : List ν) :
    Links next prev (l₁ ++ x :: l₂) ↔
      Links next prev (l₁ ++ [x]) ∧ Links next prev (x :: l₂) := by
  induction l₁ with
  | nil => simp [Links]
  | cons a l₁ ih =>
    cases l₁ with
    | nil => simp [Links, and_assoc]
    | cons b l₁ =>
      simp only [List.cons_append, Links] at ih ⊢
      rw [ih, and_assoc, and_assoc]

/-- A chain reads `next` of every node but the last and `prev` of every node but
    the first. -/
theorem Links.congr {l : List ν} (h : Links next prev l)
    (hn : ∀ x ∈ l.dropLast, next' x = next x) (hp : ∀ x ∈ l.tail, prev' x = prev x) :
    Links next' prev' l := by
  induction l with
  | nil => trivial
  | cons a l ih =>
    cases l with
    | nil => trivial
    | cons b l =>
      obtain ⟨h1, h2, h3⟩ := h
      refine ⟨(hn a (by simp)).trans h1, (hp b (by simp)).trans h2, ih h3 ?_ ?_⟩
      · intro x hx
        exact hn x (by simp [hx])
      · intro x hx
        exact hp x (List.mem_cons_of_mem _ hx)

/-! ## Circular lists -/

/-- The nodes are linked in a circle. -/
def Circular (next prev : ν → Option ν) : List ν → Prop
  | [] => True
  | x :: xs => Links next prev (x :: xs ++ [x])

theorem Circular.congr {xs : List ν} (h : Circular next prev xs)
    (hn : ∀ x ∈ xs, next' x = next x) (hp : ∀ x ∈ xs, prev' x = prev x) :
    Circular next' prev' xs := by
  cases xs with
  | nil => trivial
  | cons x xs =>
    refine Links.congr h ?_ ?_
    · intro y hy
      rw [List.dropLast_concat] at hy
      exact hn y hy
    · intro y hy
      refine hp y ?_
      simp only [List.cons_append, List.tail_cons, List.mem_append, List.mem_singleton] at hy
      rcases hy with hy | rfl
      · exact List.mem_cons_of_mem _ hy
      · exact List.mem_cons_self

/-- A circle has no distinguished start. -/
theorem Circular.rotate {l₁ l₂ : List ν} (h : Circular next prev (l₁ ++ l₂)) :
    Circular next prev (l₂ ++ l₁) := by
  cases l₁ with
  | nil => simpa using h
  | cons x l₁ =>
    cases l₂ with
    | nil => simpa using h
    | cons y l₂ =>
      have h' : Links next prev ((x :: l₁) ++ y :: (l₂ ++ [x])) := by
        simpa [Circular] using h
      rw [links_append_cons] at h'
      have h'' : Links next prev ((y :: l₂) ++ x :: (l₁ ++ [y])) := by
        rw [links_append_cons]
        exact ⟨by simpa using h'.2, by simpa using h'.1⟩
      simpa [Circular] using h''

/-- **Unlinking** `b`: its neighbours `p` and `n` are made to point at each other
    and nothing else changes. -/
theorem Circular.unlink {b p n : ν} {ys : List ν} (h : Circular next prev (b :: ys))
    (hnd : ys.Nodup) (hp : ys.getLast? = some p) (hn : ys.head? = some n)
    (h1 : next' p = some n) (h2 : prev' n = some p)
    (h3 : ∀ x ∈ ys, x ≠ p → next' x = next x) (h4 : ∀ x ∈ ys, x ≠ n → prev' x = prev x) :
    Circular next' prev' ys := by
  obtain ⟨zs, rfl⟩ := List.getLast?_eq_some_iff.mp hp
  have hchain : Links next prev (zs ++ [p]) := by
    have h' : Links next prev ((b :: zs) ++ p :: [b]) := by simpa [Circular] using h
    rw [links_append_cons] at h'
    cases zs with
    | nil => trivial
    | cons z zs => exact h'.1.2.2
  have hp' : p ∉ zs := fun hmem => by
    rw [List.nodup_append] at hnd
    exact hnd.2.2 p hmem p List.mem_cons_self rfl
  have hchain' : Links next' prev' (zs ++ [p]) := by
    refine hchain.congr ?_ ?_
    · intro x hx
      rw [List.dropLast_concat] at hx
      exact h3 x (by simp [hx]) (fun e => hp' (e ▸ hx))
    · intro x hx
      refine h4 x (List.mem_of_mem_tail hx) ?_
      rintro rfl
      cases hz : zs ++ [p] with
      | nil => simp at hz
      | cons w ws =>
        rw [hz] at hn hx hnd
        simp only [List.head?_cons, Option.some.injEq] at hn
        subst hn
        exact (List.nodup_cons.mp hnd).1 hx
  cases hz : zs ++ [p] with
  | nil => simp at hz
  | cons w ws =>
    rw [hz] at hn
    simp only [List.head?_cons, Option.some.injEq] at hn
    subst hn
    show Links next' prev' (w :: ws ++ [w])
    rw [← hz]
    have hseam : Links next' prev' (zs ++ p :: [w]) := by
      rw [links_append_cons]
      exact ⟨hchain', h1, h2, trivial⟩
    simpa using hseam

/-- **Linking in** `b` between the last node `q` and the first node `f`. -/
theorem Circular.link {b f q : ν} {xs : List ν} (h : Circular next prev xs)
    (hnd : xs.Nodup) (hf : xs.head? = some f) (hq : xs.getLast? = some q)
    (h1 : next' q = some b) (h2 : prev' b = some q) (h3 : next' b = some f)
    (h4 : prev' f = some b) (h5 : ∀ x ∈ xs, x ≠ q → next' x = next x)
    (h6 : ∀ x ∈ xs, x ≠ f → prev' x = prev x) :
    Circular next' prev' (xs ++ [b]) := by
  cases xs with
  | nil => simp at hf
  | cons w ws =>
    simp only [List.head?_cons, Option.some.injEq] at hf
    subst hf
    obtain ⟨zs, hzs⟩ := List.getLast?_eq_some_iff.mp hq
    have hchain : Links next prev (zs ++ [q]) := by
      have h' : Links next prev (w :: ws ++ [w]) := h
      rw [hzs, List.append_assoc, List.singleton_append, links_append_cons] at h'
      exact h'.1
    have hnd' := hnd
    rw [hzs, List.nodup_append] at hnd'
    have hchain' : Links next' prev' (zs ++ [q]) := by
      refine hchain.congr ?_ ?_
      · intro x hx
        rw [List.dropLast_concat] at hx
        refine h5 x (by rw [hzs]; simp [hx]) ?_
        rintro rfl
        exact hnd'.2.2 x hx x List.mem_cons_self rfl
      · intro x hx
        rw [← hzs, List.tail_cons] at hx
        refine h6 x (List.mem_cons_of_mem _ hx) ?_
        rintro rfl
        exact (List.nodup_cons.mp hnd).1 hx
    show Links next' prev' (w :: (ws ++ [b]) ++ [w])
    have hseam : Links next' prev' (zs ++ q :: [b, w]) := by
      rw [links_append_cons]
      exact ⟨hchain', h1, h2, h3, h4, trivial⟩
    have heq : zs ++ q :: [b, w] = w :: (ws ++ [b]) ++ [w] := by
      rw [show zs ++ q :: [b, w] = (zs ++ [q]) ++ [b, w] by simp, ← hzs]
      simp
    rwa [heq] at hseam

/-- The neighbours of the node a circle is read from: the second and the last
    node, or the node itself when it is alone. -/
theorem Circular.neighbours {b : ν} {ys : List ν} (h : Circular next prev (b :: ys)) :
    next b = some (ys.head?.getD b) ∧ prev b = some (ys.getLast?.getD b) := by
  rcases List.eq_nil_or_concat ys with rfl | ⟨zs, q, rfl⟩
  · exact ⟨h.1, h.2.1⟩
  · have hlast : Links next prev ((b :: zs) ++ q :: [b]) := by simpa [Circular] using h
    rw [links_append_cons] at hlast
    refine ⟨?_, ?_⟩
    · cases zs with
      | nil => exact h.1
      | cons z zs => exact h.1
    · rw [List.concat_eq_append, List.getLast?_append]
      exact hlast.2.2.1

/-! ## Rings -/

/-- `first` heads the circular doubly linked list of the distinct nodes `xs`, or is
    null when there are none. -/
structure Ring (first : Option ν) (next prev : ν → Option ν) (xs : List ν) : Prop where
  head : first = xs.head?
  nodup : xs.Nodup
  circular : Circular next prev xs

namespace Ring

variable {first first' : Option ν} {xs : List ν} {b : ν}

theorem congr (h : Ring first next prev xs) (hn : ∀ x ∈ xs, next' x = next x)
    (hp : ∀ x ∈ xs, prev' x = prev x) : Ring first next' prev' xs :=
  ⟨h.head, h.nodup, h.circular.congr hn hp⟩

theorem eq_nil_iff (h : Ring first next prev xs) : xs = [] ↔ first = none := by
  rw [h.head, List.head?_eq_none_iff]

theorem mem_of_first (h : Ring first next prev xs) (hb : first = some b) : b ∈ xs :=
  List.mem_of_head? (h.head.symm.trans hb)

/-- Seen from any of its nodes, a ring is a circle. -/
theorem circular_from {l₁ l₂ : List ν} (h : Ring first next prev (l₁ ++ b :: l₂)) :
    Circular next prev (b :: (l₂ ++ l₁)) := by
  have := h.circular.rotate
  simpa using this

/-- `next` and `prev` of a node of the ring are nodes of the ring. -/
theorem exists_neighbours (h : Ring first next prev xs) (hb : b ∈ xs) :
    ∃ n ∈ xs, ∃ p ∈ xs, next b = some n ∧ prev b = some p := by
  obtain ⟨l₁, l₂, rfl⟩ := List.append_of_mem hb
  obtain ⟨hn, hp⟩ := h.circular_from.neighbours
  have hmem : ∀ o : Option ν, (∀ x, o = some x → x ∈ l₂ ++ l₁) →
      o.getD b ∈ l₁ ++ b :: l₂ := by
    intro o ho
    cases o with
    | none => simp
    | some x =>
      have := ho x rfl
      simp only [List.mem_append] at this
      simp only [Option.getD_some, List.mem_append, List.mem_cons]
      tauto
  exact ⟨_, hmem _ fun x hx => List.mem_of_head? hx, _,
    hmem _ fun x hx => List.mem_of_getLast? hx, hn, hp⟩

/-- **Removing a node.** Its neighbours `p` and `n` are linked to each other, and
    the head moves on when it was the node. -/
theorem erase [DecidableEq ν] {n p : ν} (h : Ring first next prev xs) (hb : b ∈ xs)
    (hn : next b = some n) (hp : prev b = some p)
    (h1 : next' p = some n) (h2 : prev' n = some p)
    (h3 : ∀ x ∈ xs, x ≠ p → next' x = next x) (h4 : ∀ x ∈ xs, x ≠ n → prev' x = prev x)
    (hfirst : first' = if first = some b then (if n = b then none else some n) else first) :
    Ring first' next' prev' (xs.erase b) := by
  obtain ⟨l₁, l₂, rfl⟩ := List.append_of_mem hb
  have hnd := h.nodup
  have hb₁ : b ∉ l₁ := fun hmem =>
    (List.nodup_append.mp hnd).2.2 b hmem b List.mem_cons_self rfl
  have hb₂ : b ∉ l₂ := (List.nodup_cons.mp (List.nodup_append.mp hnd).2.1).1
  have herase : (l₁ ++ b :: l₂).erase b = l₁ ++ l₂ := by
    rw [List.erase_append_right _ hb₁, List.erase_cons_head]
  have hcirc := h.circular_from
  obtain ⟨hn', hp'⟩ := hcirc.neighbours
  rw [hn, Option.some.injEq] at hn'
  rw [hp, Option.some.injEq] at hp'
  rw [herase]
  have hnd' : (l₁ ++ l₂).Nodup := herase ▸ hnd.erase b
  by_cases hys : l₂ ++ l₁ = []
  · -- `b` was alone: the list becomes empty.
    obtain ⟨rfl, rfl⟩ := List.append_eq_nil_iff.mp hys
    refine ⟨?_, hnd', trivial⟩
    have hfb : first = some b := h.head
    have hnb : n = b := by simpa using hn'
    simp [hfirst, hfb, hnb]
  · obtain ⟨y, hy⟩ := Option.ne_none_iff_exists'.mp (mt List.head?_eq_none_iff.mp hys)
    obtain ⟨z, hz⟩ := Option.ne_none_iff_exists'.mp (mt List.getLast?_eq_none_iff.mp hys)
    rw [hy, Option.getD_some] at hn'
    rw [hz, Option.getD_some] at hp'
    subst hn' hp'
    have hmem : ∀ x ∈ l₂ ++ l₁, x ∈ l₁ ++ b :: l₂ := by
      intro x hx
      simp only [List.mem_append] at hx
      simp only [List.mem_append, List.mem_cons]
      tauto
    have hcirc' : Circular next' prev' (l₂ ++ l₁) :=
      hcirc.unlink (List.perm_append_comm.nodup_iff.mp hnd') hz hy h1 h2
        (fun x hx => h3 x (hmem x hx)) (fun x hx => h4 x (hmem x hx))
    refine ⟨?_, hnd', hcirc'.rotate⟩
    have hnb : n ≠ b := by
      rintro rfl
      have := List.mem_of_head? hy
      simp only [List.mem_append] at this
      tauto
    rw [hfirst, h.head]
    cases l₁ with
    | nil =>
      rw [List.append_nil] at hy
      simp [hnb, hy]
    | cons x l₁ =>
      have hxb : x ≠ b := fun e => hb₁ (e ▸ List.mem_cons_self)
      simp [hxb]

theorem nodup_concat (h : Ring first next prev xs) (hb : b ∉ xs) : (xs ++ [b]).Nodup := by
  rw [List.nodup_append]
  refine ⟨h.nodup, List.nodup_singleton b, ?_⟩
  intro x hx y hy hxy
  rw [List.mem_singleton] at hy
  exact hb (hy ▸ hxy ▸ hx)

/-- **The first node**: it points at itself both ways. -/
theorem concat_empty (h : Ring none next prev xs) (h1 : next' b = some b)
    (h2 : prev' b = some b) : Ring (some b) next' prev' (xs ++ [b]) := by
  obtain rfl := h.eq_nil_iff.mpr rfl
  exact ⟨rfl, List.nodup_singleton b, h1, h2, trivial⟩

/-- **Adding a node at the end**, between the last node `q` and the head `f`. -/
theorem concat {f q : ν} (h : Ring (some f) next prev xs) (hb : b ∉ xs)
    (hq : prev f = some q) (h1 : next' q = some b) (h2 : prev' b = some q)
    (h3 : next' b = some f) (h4 : prev' f = some b)
    (h5 : ∀ x ∈ xs, x ≠ q → next' x = next x) (h6 : ∀ x ∈ xs, x ≠ f → prev' x = prev x) :
    Ring (some f) next' prev' (xs ++ [b]) := by
  have hlast : xs.getLast? = some q := by
    cases xs with
    | nil => exact absurd h.head (by simp)
    | cons y ys =>
      obtain rfl : f = y := by simpa using h.head
      rw [List.getLast?_cons, ← hq]
      exact h.circular.neighbours.2.symm
  refine ⟨?_, h.nodup_concat hb, ?_⟩
  · rw [List.head?_append, ← h.head]
    rfl
  · exact h.circular.link h.nodup h.head.symm hlast h1 h2 h3 h4 h5 h6

/-! ### Traversal -/

end Ring

/-- The nodes met when following `next` from the head. -/
inductive OnList (first : Option ν) (next : ν → Option ν) : ν → Prop where
  | head {b : ν} : first = some b → OnList first next b
  | next {b c : ν} : OnList first next b → next b = some c → OnList first next c

namespace Ring

variable {first : Option ν} {xs : List ν} {b : ν}

/-- Following a chain from a node that is met, all its nodes are met. -/
theorem onList_of_links {x : ν} {l : List ν} (hx : OnList first next x)
    (hl : Links next prev (x :: l)) : ∀ y ∈ l, OnList first next y := by
  induction l generalizing x with
  | nil => simp
  | cons z l ih =>
    have hz : OnList first next z := .next hx hl.1
    intro y hy
    rcases List.mem_cons.mp hy with e | hy
    · rw [e]
      exact hz
    · exact ih hz hl.2.2 y hy

/-- The nodes of a ring are the nodes met from its head. -/
theorem onList_iff (h : Ring first next prev xs) : OnList first next b ↔ b ∈ xs := by
  constructor
  · intro hb
    induction hb with
    | head hb => exact h.mem_of_first hb
    | next _ hn ih =>
      obtain ⟨n, hmem, _, _, hn', _⟩ := h.exists_neighbours ih
      rw [hn] at hn'
      cases hn'
      exact hmem
  · intro hb
    cases xs with
    | nil => cases hb
    | cons x xs =>
      exact onList_of_links (.head h.head) h.circular b
        (List.mem_append.mpr ((List.mem_cons.mp hb).symm.imp_right (fun e => by simp [e])))

end Ring

end Linked
