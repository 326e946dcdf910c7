import Mathlib.Data.List.Chain
import Mathlib.Data.List.Nodup

/-! # Singly linked lists with a last node

    Nodes of type `ν` are threaded by a partial map `next`. A list is given by its first and its
    last node; the link of the last node is not followed, so it may be anything.

    * `Path next head tail xs`: following `next` from `head` one comes to `tail` through the
      pairwise distinct nodes `xs`.
    * `Path.pop` and `Path.push`: taking the first node off and putting one in front.
    * `Path.head_eq_tail_iff`: the two ends are the same when there is one node.
-/

namespace Linked

variable {ν : Type} {next : ν → Option ν} {head tail : Option ν} {xs : List ν} {b : ν}

/-- The nodes from `head` to `tail`. -/
structure Path (next : ν → Option ν) (head tail : Option ν) (xs : List ν) : Prop where
  head : head = xs.head?
  last : tail = xs.getLast?
  nodup : xs.Nodup
  chain : xs.IsChain (fun x y => next x = some y)

namespace Path

/-- A link outside of the path does not matter. -/
theorem update [DecidableEq ν] (h : Path next head tail xs) (hb : b ∉ xs) (link : Option ν) :
    Path (Function.update next b link) head tail xs := by
  refine ⟨h.head, h.last, h.nodup, h.chain.imp_of_mem_imp ?_⟩
  intro x y hx _ hxy
  have hne : x ≠ b := fun e => hb (e ▸ hx)
  rw [Function.update_of_ne hne]
  exact hxy

/-- **Taking the first node off**, unless it is the last one. -/
theorem pop (h : Path next (some b) tail xs) (hne : some b ≠ tail) :
    ∃ ys, xs = b :: ys ∧ Path next (next b) tail ys := by
  obtain ⟨ys, rfl⟩ := List.head?_eq_some_iff.mp h.head.symm
  refine ⟨ys, rfl, ?_⟩
  cases ys with
  | nil => exact absurd h.last.symm hne
  | cons y ys =>
    have hchain := List.isChain_cons_cons.mp h.chain
    exact ⟨hchain.1, h.last, (List.nodup_cons.mp h.nodup).2, hchain.2⟩

/-- **Putting a node in front** of a list that has one. -/
theorem push [DecidableEq ν] (h : Path next head tail xs) (hne : xs ≠ []) (hb : b ∉ xs) :
    Path (Function.update next b head) (some b) tail (b :: xs) := by
  have hpath := h.update hb head
  obtain ⟨x, ys, rfl⟩ := List.exists_cons_of_ne_nil hne
  refine ⟨rfl, h.last, List.nodup_cons.mpr ⟨hb, h.nodup⟩, ?_⟩
  exact List.isChain_cons_cons.mpr ⟨(Function.update_self ..).trans h.head, hpath.chain⟩

theorem head_eq_tail_iff (h : Path next head tail xs) (hne : xs ≠ []) :
    head = tail ↔ xs.length = 1 := by
  obtain ⟨x, ys, rfl⟩ := List.exists_cons_of_ne_nil hne
  rw [h.head, h.last]
  cases ys with
  | nil => exact ⟨fun _ => rfl, fun _ => rfl⟩
  | cons y ys =>
    constructor
    · -- The last node is one behind the first, and the nodes are distinct.
      intro heq
      have hmem : x ∈ y :: ys := List.mem_of_getLast? heq.symm
      exact absurd hmem (List.nodup_cons.mp h.nodup).1
    · intro hlength
      rw [List.length_cons, List.length_cons] at hlength
      omega

end Path

end Linked
