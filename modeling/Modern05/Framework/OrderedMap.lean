import Mathlib.Data.List.Basic
import Mathlib.Algebra.Order.Ring.Nat

/-! # Maps that are ordered by a comparison

    A map takes any comparison `lt` on its keys. Two keys are the same for it when neither is less
    than the other, whatever equality says; for the results below this has to be transitive, as
    it is for every strict weak order.

    * `find_foldl_assign`: the last assignment to a key that is the same wins.
    * `emplace_of_none`: an insertion of a new key adds an entry at the end.
    * `foldl_emplace`: a map that is copied entry by entry is the map.
-/

/-- The entries of a map. Their order does not matter to any operation. -/
abbrev OrderedMap (K V : Type) := List (K × V)

namespace OrderedMap

variable {K V : Type} (lt : K → K → Bool)

def same (a b : K) : Bool := !lt a b && !lt b a

def find (m : OrderedMap K V) (k : K) : Option V :=
  (m.find? (fun e => same lt e.1 k)).map Prod.snd

/-- `m[k] = v` -/
def assign (m : OrderedMap K V) (k : K) (v : V) : OrderedMap K V :=
  if m.any (fun e => same lt e.1 k) then m.map (fun e => if same lt e.1 k then (e.1, v) else e)
  else m ++ [(k, v)]

/-- An entry that is there already stays. -/
def emplace (m : OrderedMap K V) (k : K) (v : V) : OrderedMap K V :=
  if m.any (fun e => same lt e.1 k) then m else m ++ [(k, v)]

/-- A strict weak order: to be incomparable is transitive. -/
def SameTrans : Prop := ∀ a b c, same lt a b = true → same lt b c = true → same lt a c = true

/-- No two entries have the same key. -/
def Distinct (m : OrderedMap K V) : Prop := m.Pairwise (fun a b => same lt a.1 b.1 = false)

variable {lt}

theorem same_comm (a b : K) : same lt a b = same lt b a := Bool.and_comm _ _

/-- Keys that are the same are the same as the same keys. -/
theorem SameTrans.congr (hlt : SameTrans lt) {a b : K} (h : same lt a b = true) (c : K) :
    same lt c a = same lt c b := by
  rw [Bool.eq_iff_iff]
  constructor
  · intro hca
    exact hlt c a b hca h
  · intro hcb
    exact hlt c b a hcb (same_comm a b ▸ h)

/-- An order that tells all keys apart. -/
theorem SameTrans.of_eq (h : ∀ a b, same lt a b = true ↔ a = b) : SameTrans lt := by
  intro a b c hab hbc
  rw [h] at *
  exact hab.trans hbc

/-! ## Lookups -/

theorem find_append (m m' : OrderedMap K V) (q : K) :
    find lt (m ++ m') q = (find lt m q).or (find lt m' q) := by
  simp [find, List.find?_append, Option.map_or]

theorem find_singleton (k : K) (v : V) (q : K) :
    find lt [(k, v)] q = if same lt k q then some v else none := by
  unfold find
  by_cases h : same lt k q = true
  · simp [h]
  · simp [h]

theorem find_eq_none_iff {m : OrderedMap K V} {q : K} :
    find lt m q = none ↔ m.any (fun e => same lt e.1 q) = false := by
  simp [find]

theorem SameTrans.find_congr (hlt : SameTrans lt) (m : OrderedMap K V) {a b : K}
    (h : same lt a b = true) : find lt m a = find lt m b := by
  simp only [find, hlt.congr h]

/-- An entry for a key is one for every key that is the same. -/
theorem SameTrans.find_of_any (hlt : SameTrans lt) {m : OrderedMap K V} {a b : K}
    (h : same lt a b = true) (hany : m.any (fun e => same lt e.1 a) = true) :
    ∃ v, find lt m b = some v := by
  rw [← hlt.find_congr m h]
  apply Option.ne_none_iff_exists'.mp
  rw [Ne, find_eq_none_iff, hany]
  exact Bool.noConfusion

/-- The values of the entries for one key are replaced. -/
theorem find_map (hlt : SameTrans lt) (m : OrderedMap K V) (k : K) (v : V) (q : K) :
    find lt (m.map (fun e => if same lt e.1 k then (e.1, v) else e)) q =
      if same lt k q then (find lt m q).map (fun _ => v) else find lt m q := by
  have hkey : ∀ e : K × V, (if same lt e.1 k then (e.1, v) else e).1 = e.1 := by
    intro e
    split <;> rfl
  have hcomp : (fun e => same lt e.1 q) ∘ (fun e : K × V => if same lt e.1 k then (e.1, v) else e) =
      fun e => same lt e.1 q := by
    funext e
    rw [Function.comp_apply, hkey]
  rw [find, List.find?_map, hcomp, find]
  cases hfound : m.find? (fun e => same lt e.1 q) with
  | none => simp
  | some e =>
    have heq : same lt e.1 q = true := by simpa using List.find?_some hfound
    -- the entry that is found is replaced exactly when the two keys are the same
    have hreplaced : same lt e.1 k = same lt k q := (same_comm e.1 k).trans (hlt.congr heq k)
    simp only [Option.map_some, hreplaced]
    split <;> rfl

theorem find_assign (hlt : SameTrans lt) (m : OrderedMap K V) (k : K) (v : V) (q : K) :
    find lt (assign lt m k v) q = if same lt k q then some v else find lt m q := by
  unfold assign
  split
  · next hany =>
    rw [find_map hlt]
    split
    · next hsame =>
      obtain ⟨w, hw⟩ := hlt.find_of_any hsame hany
      rw [hw]
      rfl
    · rfl
  · next hnone =>
    rw [find_append, find_singleton]
    split
    · next hsame =>
      have hmissing : find lt m q = none := by
        rw [← hlt.find_congr m hsame, find_eq_none_iff]
        simpa using hnone
      rw [hmissing]
      rfl
    · rw [Option.or_none]

/-- The last assignment wins among those to keys that are the same. -/
theorem find_foldl_assign (hlt : SameTrans lt) (puts : List (K × V)) (m : OrderedMap K V) (q : K) :
    find lt (puts.foldl (fun m p => assign lt m p.1 p.2) m) q =
      ((puts.reverse.find? (fun p => same lt p.1 q)).map Prod.snd).or (find lt m q) := by
  induction puts generalizing m with
  | nil => rfl
  | cons p puts ih =>
    rw [List.foldl_cons, ih, find_assign hlt, List.reverse_cons, List.find?_append, Option.map_or,
      Option.or_assoc]
    congr 1
    by_cases hsame : same lt p.1 q = true
    · simp [hsame]
    · simp [hsame]

/-! ## Entries -/

theorem emplace_of_none {m : OrderedMap K V} {k : K} (h : find lt m k = none) (v : V) :
    emplace lt m k v = m ++ [(k, v)] := by
  rw [emplace, find_eq_none_iff.mp h]
  rfl

theorem Distinct.emplace {m : OrderedMap K V} (hm : Distinct lt m) (k : K) (v : V) :
    Distinct lt (emplace lt m k v) := by
  unfold OrderedMap.emplace
  split
  · exact hm
  · next hnone =>
    refine List.pairwise_append.mpr ⟨hm, List.pairwise_singleton _ _, ?_⟩
    intro e he e' he'
    obtain rfl := List.mem_singleton.mp he'
    simp only [List.any_eq_true, not_exists, not_and] at hnone
    simpa using hnone e he

/-- A map that is copied entry by entry. -/
theorem foldl_emplace {m : OrderedMap K V} (hm : Distinct lt m) :
    m.foldl (fun r e => emplace lt r e.1 e.2) [] = m := by
  -- what is copied so far stands in front of the rest
  have hrest : ∀ done rest : OrderedMap K V, Distinct lt (done ++ rest) →
      rest.foldl (fun r e => OrderedMap.emplace lt r e.1 e.2) done = done ++ rest := by
    intro done rest
    induction rest generalizing done with
    | nil => simp
    | cons e rest ih =>
      intro hdistinct
      have hfresh : find lt done e.1 = none := by
        rw [find_eq_none_iff, List.any_eq_false]
        intro e' he'
        simpa using (List.pairwise_append.mp hdistinct).2.2 e' he' e List.mem_cons_self
      rw [List.foldl_cons, emplace_of_none hfresh]
      have hassoc : done ++ e :: rest = done ++ [(e.1, e.2)] ++ rest := by simp
      rw [hassoc] at hdistinct ⊢
      exact ih _ hdistinct
  simpa using hrest [] m hm

end OrderedMap
