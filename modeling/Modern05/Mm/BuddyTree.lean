import Mathlib.Algebra.BigOperators.Group.Finset.Basic
import Mathlib.Data.Set.Insert
import Modern05.Mm.BuddyLists

/-! # The tree invariant of the buddy allocator

    Which nodes are split, free and live is recorded in the two flags of each
    block. `TreeInv ba valid avail L` says, by conditions on a node and its two
    children only, that the flags describe a division of the region in which the
    nodes of `L` are live:

    * a node's children are valid exactly when the node is split, that is valid,
      not available and not live;
    * a node of the last row is never split;
    * no two children of one node are both available.

    The flags are arguments of their own, not read off a heap, because a block that
    is being freed is treated as live until it is back on a list, whatever its
    `available` flag says in between.

    The four elementary moves (`take`, `divide`, `unite`, `put`) keep the invariant.
    What the invariant means for the region as a whole, that the free nodes are the
    maximal nodes clear of live blocks, is `free_iff_maximal`.
-/

namespace Modern05

open HeapTree BuddyAllocator

variable {ba : BuddyAllocator} {valid avail : Nat → Bool} {L : Set Nat} {b p : Nat}

/-- The flags describe a division of the region with the live nodes `L`. -/
structure TreeInv (ba : BuddyAllocator) (valid avail : Nat → Bool) (L : Set Nat) : Prop where
  root : valid 0 = true
  node : ∀ b, valid b = true → ba.IsNode b
  live : ∀ b ∈ L, valid b = true ∧ avail b = false
  pair : ∀ b, valid (right b) = valid (left b)
  split : ∀ b, level b < ba.height →
    (valid (left b) = true ↔ valid b = true ∧ avail b = false ∧ b ∉ L)
  leaf : ∀ b, level b = ba.height → valid b = true → avail b = false → b ∈ L
  coalesced : ∀ b, valid (left b) = true → avail (left b) = true → avail (right b) = false

namespace TreeInv

/-! ## Reading the invariant -/

/-- A valid node other than the root has a split parent. -/
theorem parent_split (h : TreeInv ba valid avail L) (hb : valid b = true) (hpos : 0 < b) :
    valid (parent b) = true ∧ avail (parent b) = false ∧ parent b ∉ L := by
  have hl : level (parent b) < ba.height := (h.node b hb).parent hpos
  refine (h.split _ hl).mp ?_
  rcases eq_left_or_right hpos with e | e
  · rw [← e]
    exact hb
  · rw [← h.pair, ← e]
    exact hb

/-- The sibling of a valid node is valid. -/
theorem sibling_valid (h : TreeInv ba valid avail L) (hb : valid b = true) (hpos : 0 < b) :
    valid (sibling b) = true := by
  rcases eq_left_or_right hpos with e | e
  · rw [e, sibling_left, h.pair, ← e]
    exact hb
  · rw [e, sibling_right, ← h.pair, ← e]
    exact hb

/-- A node that is available or live has no valid children. -/
theorem left_invalid (h : TreeInv ba valid avail L) (hb : avail b = true ∨ b ∈ L) :
    valid (left b) = false := by
  by_contra hne
  rw [Bool.not_eq_false] at hne
  have hs := h.parent_split hne (left_pos b)
  rw [parent_left] at hs
  rcases hb with hb | hb
  · rw [hs.2.1] at hb
    cases hb
  · exact hs.2.2 hb

/-- Below an invalid node there is no valid node. -/
theorem left_invalid_of_invalid (h : TreeInv ba valid avail L) (hb : valid b = false) :
    valid (left b) = false := by
  by_contra hne
  rw [Bool.not_eq_false] at hne
  have hs := h.parent_split hne (left_pos b)
  rw [parent_left, hb] at hs
  cases hs.1

/-! ## Moves -/

/-- **Take** an available node: it becomes live. -/
theorem take (h : TreeInv ba valid avail L) (hv : valid b = true) (ha : avail b = true) :
    TreeInv ba valid (Function.update avail b false) (insert b L) := by
  have hupd : ∀ c, Function.update avail b false c = true → avail c = true := by
    intro c hc
    by_cases e : c = b
    · rw [e, Function.update_self] at hc
      cases hc
    · rwa [Function.update_of_ne e] at hc
  refine ⟨h.root, h.node, ?_, h.pair, ?_, ?_, ?_⟩
  · intro c hc
    by_cases e : c = b
    · rw [e, Function.update_self]
      exact ⟨hv, rfl⟩
    · rw [Function.update_of_ne e]
      exact h.live c (hc.resolve_left e)
  · intro c hl
    by_cases e : c = b
    · subst e
      rw [h.left_invalid (.inl ha)]
      simp
    · rw [h.split c hl, Function.update_of_ne e, Set.mem_insert_iff, not_or]
      tauto
  · intro c hl hvc hac
    by_cases e : c = b
    · exact .inl e
    · rw [Function.update_of_ne e] at hac
      exact .inr (h.leaf c hl hvc hac)
  · intro c hvc hac
    have := h.coalesced c hvc (hupd _ hac)
    by_contra hne
    rw [Bool.not_eq_false] at hne
    rw [hupd _ hne] at this
    cases this

/-- **Put** a live node back: it becomes available, if its sibling is not. -/
theorem put (h : TreeInv ba valid avail L) (hb : b ∈ L)
    (hs : b = 0 ∨ avail (sibling b) = false) :
    TreeInv ba valid (Function.update avail b true) (L \ {b}) := by
  obtain ⟨hv, _⟩ := h.live b hb
  refine ⟨h.root, h.node, ?_, h.pair, ?_, ?_, ?_⟩
  · intro c hc
    rw [Function.update_of_ne hc.2]
    exact h.live c hc.1
  · intro c hl
    by_cases e : c = b
    · subst e
      rw [h.left_invalid (.inr hb), Function.update_self]
      simp
    · rw [h.split c hl, Function.update_of_ne e]
      simp [e]
  · intro c hl hvc hac
    by_cases e : c = b
    · rw [e, Function.update_self] at hac
      cases hac
    · rw [Function.update_of_ne e] at hac
      exact ⟨h.leaf c hl hvc hac, e⟩
  · intro c hvc hac
    -- Only the pair of `b` and its sibling changes.
    by_cases e : left c = b
    · have hsib : sibling b = right c := by rw [← e, sibling_left]
      have hb0 : b ≠ 0 := by
        have := left_pos c
        omega
      rw [Function.update_of_ne (by rw [← e]; exact (left_ne_right c).symm), ← hsib]
      exact hs.resolve_left hb0
    · rw [Function.update_of_ne e] at hac
      by_cases e' : right c = b
      · have hsib : sibling b = left c := by rw [← e', sibling_right]
        have hb0 : b ≠ 0 := by
          have := right_pos c
          omega
        rw [← hsib, hs.resolve_left hb0] at hac
        cases hac
      · rw [Function.update_of_ne e']
        exact h.coalesced c hvc hac

/-- The `available` flag of an invalid node says nothing. -/
theorem congr_avail {avail' : Nat → Bool} (h : TreeInv ba valid avail L)
    (ha : ∀ c, valid c = true → avail' c = avail c) : TreeInv ba valid avail' L := by
  refine ⟨h.root, h.node, ?_, h.pair, ?_, ?_, ?_⟩
  · intro c hc
    rw [ha c (h.live c hc).1]
    exact h.live c hc
  · intro c hl
    rw [h.split c hl]
    constructor
    · rintro ⟨h1, h2, h3⟩
      exact ⟨h1, (ha c h1).trans h2, h3⟩
    · rintro ⟨h1, h2, h3⟩
      exact ⟨h1, (ha c h1).symm.trans h2, h3⟩
  · intro c hl hv hac
    exact h.leaf c hl hv ((ha c hv).symm.trans hac)
  · intro c hv hac
    rw [ha _ hv] at hac
    rw [ha _ ((h.pair c).trans hv)]
    exact h.coalesced c hv hac

/-- **Divide** a live node: its left child is live in its place, its right child
    is available. -/
theorem divide (h : TreeInv ba valid avail L) (hp : p ∈ L) (hl : level p < ba.height) :
    TreeInv ba (Function.update (Function.update valid (left p) true) (right p) true)
      (Function.update (Function.update avail (left p) false) (right p) true)
      (insert (left p) (L \ {p})) := by
  obtain ⟨hv, ha⟩ := h.live p hp
  have hlv : valid (left p) = false := h.left_invalid (.inr hp)
  have hrv : valid (right p) = false := (h.pair p).trans hlv
  have hlr := left_ne_right p
  have hplt : p ≠ left p := by unfold left; omega
  have hprt : p ≠ right p := by unfold right; omega
  -- A live or valid node is neither of the two children.
  have hnc : ∀ c, valid c = true → c ≠ left p ∧ c ≠ right p := by
    intro c hc
    constructor <;> rintro rfl
    · rw [hlv] at hc; cases hc
    · rw [hrv] at hc; cases hc
  -- Children of other nodes are not among them either.
  have hch : ∀ c, c ≠ p →
      left c ≠ left p ∧ left c ≠ right p ∧ right c ≠ left p ∧ right c ≠ right p := by
    intro c hc
    unfold left right
    omega
  constructor
  · have := hnc 0 h.root
    rw [Function.update_of_ne this.2, Function.update_of_ne this.1]
    exact h.root
  · intro c hc
    by_cases e1 : c = right p
    · rw [e1]
      exact isNode_right hl
    · by_cases e2 : c = left p
      · rw [e2]
        exact isNode_left hl
      · rw [Function.update_of_ne e1, Function.update_of_ne e2] at hc
        exact h.node c hc
  · intro c hc
    rcases hc with e | hc
    · rw [e, Function.update_of_ne hlr, Function.update_self, Function.update_of_ne hlr,
        Function.update_self]
      exact ⟨rfl, rfl⟩
    · have hlive := h.live c hc.1
      obtain ⟨e1, e2⟩ := hnc c hlive.1
      rw [Function.update_of_ne e2, Function.update_of_ne e1, Function.update_of_ne e2,
        Function.update_of_ne e1]
      exact hlive
  · intro c
    by_cases e : c = p
    · rw [e, Function.update_self, Function.update_of_ne hlr, Function.update_self]
    · obtain ⟨e1, e2, e3, e4⟩ := hch c e
      rw [Function.update_of_ne e2, Function.update_of_ne e1, Function.update_of_ne e4,
        Function.update_of_ne e3]
      exact h.pair c
  · intro c hlc
    by_cases e : c = p
    · subst e
      rw [Function.update_of_ne hlr, Function.update_self, Function.update_of_ne hprt,
        Function.update_of_ne hplt, Function.update_of_ne hprt, Function.update_of_ne hplt]
      simp [hv, ha, hplt]
    · obtain ⟨e1, e2, _, _⟩ := hch c e
      rw [Function.update_of_ne e2, Function.update_of_ne e1]
      by_cases el : c = left p
      · rw [el, h.left_invalid_of_invalid hlv]
        simp
      · by_cases er : c = right p
        · rw [er, h.left_invalid_of_invalid hrv, Function.update_self, Function.update_self]
          simp
        · rw [Function.update_of_ne er, Function.update_of_ne el, Function.update_of_ne er,
            Function.update_of_ne el, h.split c hlc]
          simp [e, el]
  · intro c hlc hvc hac
    by_cases el : c = left p
    · exact .inl el
    · by_cases er : c = right p
      · rw [er, Function.update_self] at hac
        cases hac
      · rw [Function.update_of_ne er, Function.update_of_ne el] at hvc hac
        refine .inr ⟨h.leaf c hlc hvc hac, ?_⟩
        rintro rfl
        omega
  · intro c hvc hac
    by_cases e : c = p
    · rw [e, Function.update_of_ne hlr, Function.update_self] at hac
      cases hac
    · obtain ⟨e1, e2, e3, e4⟩ := hch c e
      rw [Function.update_of_ne e2, Function.update_of_ne e1] at hvc hac
      rw [Function.update_of_ne e4, Function.update_of_ne e3]
      exact h.coalesced c hvc hac

/-- **Unite** a live node with its available sibling: the parent is live in its
    place. -/
theorem unite (h : TreeInv ba valid avail L) (hb : b ∈ L) (hpos : 0 < b)
    (hs : avail (sibling b) = true) :
    TreeInv ba (Function.update (Function.update valid (sibling b) false) b false) avail
      (insert (parent b) (L \ {b})) := by
  obtain ⟨hv, ha⟩ := h.live b hb
  obtain ⟨hpv, hpa, hpl⟩ := h.parent_split hv hpos
  have hsv := h.sibling_valid hv hpos
  have hne := sibling_ne hpos
  have hspos := sibling_pos hpos
  have hupd : ∀ c, c ≠ b → c ≠ sibling b →
      Function.update (Function.update valid (sibling b) false) b false c = valid c := by
    intro c e1 e2
    rw [Function.update_of_ne e1, Function.update_of_ne e2]
  have hsub : ∀ c, Function.update (Function.update valid (sibling b) false) b false c = true →
      c ≠ b ∧ c ≠ sibling b ∧ valid c = true := by
    intro c hc
    have e1 : c ≠ b := by
      rintro rfl
      rw [Function.update_self] at hc
      cases hc
    have e2 : c ≠ sibling b := by
      rintro rfl
      rw [Function.update_of_ne hne, Function.update_self] at hc
      cases hc
    rw [hupd c e1 e2] at hc
    exact ⟨e1, e2, hc⟩
  -- The children of the parent are the two nodes that go.
  have hgone : ∀ c, 0 < c → parent c = parent b →
      Function.update (Function.update valid (sibling b) false) b false c = false := by
    intro c hc hpc
    rcases eq_or_eq_sibling hpos hc hpc with rfl | rfl
    · exact Function.update_self ..
    · rw [Function.update_of_ne hne, Function.update_self]
  have hpb : parent b ≠ b := by
    have := parent_lt hpos
    omega
  have hps : parent b ≠ sibling b := by
    have := parent_lt hspos
    rw [parent_sibling hpos] at this
    omega
  constructor
  · rw [hupd 0 (by omega) (by omega)]
    exact h.root
  · intro c hc
    exact h.node c (hsub c hc).2.2
  · intro c hc
    rcases hc with rfl | hc
    · rw [hupd _ hpb hps]
      exact ⟨hpv, hpa⟩
    · have hlive := h.live c hc.1
      have e2 : c ≠ sibling b := by
        rintro rfl
        rw [hs] at hlive
        cases hlive.2
      rw [hupd c hc.2 e2]
      exact hlive
  · intro c
    by_cases e : c = parent b
    · subst e
      rw [hgone _ (left_pos _) (parent_left _), hgone _ (right_pos _) (parent_right _)]
    · have hout : ∀ d, parent d = c → d ≠ b ∧ d ≠ sibling b := by
        intro d hd
        constructor
        · rintro rfl
          exact e hd.symm
        · rintro rfl
          exact e (hd.symm.trans (parent_sibling hpos))
      have h1 := hout (left c) (parent_left c)
      have h2 := hout (right c) (parent_right c)
      rw [hupd _ h1.1 h1.2, hupd _ h2.1 h2.2]
      exact h.pair c
  · intro c hlc
    by_cases e : c = parent b
    · subst e
      rw [hgone _ (left_pos _) (parent_left _)]
      simp
    · have hout : left c ≠ b ∧ left c ≠ sibling b := by
        constructor
        · intro hd
          exact e (by rw [← hd, parent_left])
        · intro hd
          exact e (by rw [← parent_sibling hpos, ← hd, parent_left])
      rw [hupd _ hout.1 hout.2]
      by_cases e1 : c = b
      · subst e1
        rw [h.left_invalid (.inr hb), Function.update_self]
        simp
      · by_cases e2 : c = sibling b
        · subst e2
          rw [h.left_invalid (.inl hs), hs]
          simp
        · rw [hupd c e1 e2, h.split c hlc]
          simp [e, e1]
  · intro c hlc hvc hac
    obtain ⟨e1, _, hvc⟩ := hsub c hvc
    exact .inr ⟨h.leaf c hlc hvc hac, e1⟩
  · intro c hvc hac
    exact h.coalesced c (hsub _ hvc).2.2 hac

end TreeInv

/-! ## What the flags say about the region -/

/-- Node `i` neither contains, nor is contained in, nor is a live node. -/
def Clear (L : Set Nat) (i : Nat) : Prop := ∀ l ∈ L, ¬ Within l i ∧ ¬ Within i l

namespace TreeInv

/-- Every proper ancestor of a valid node is split. -/
theorem ancestor_split {i a : Nat} (h : TreeInv ba valid avail L) (hw : Within i a)
    (hv : valid i = true) (hne : i ≠ a) :
    valid a = true ∧ avail a = false ∧ a ∉ L := by
  induction hw with
  | refl _ => exact absurd rfl hne
  | @up i a hpos hw ih =>
    have hs := h.parent_split hv hpos
    by_cases e : parent i = a
    · rw [← e]
      exact hs
    · exact ih hs.1 e

/-- Below every split node there is a live one. The induction is on the number of
    rows below the node: one of its children is not available, and that child is live
    or again split. -/
theorem exists_live_within {a : Nat} (h : TreeInv ba valid avail L) (hv : valid a = true)
    (ha : avail a = false) : ∃ l ∈ L, Within l a := by
  induction hd : ba.height - level a generalizing a with
  | zero =>
    have hn := h.node a hv
    unfold IsNode at hn
    exact ⟨a, h.leaf a (by omega) hv ha, .refl a⟩
  | succ d ih =>
    by_cases hl : a ∈ L
    · exact ⟨a, hl, .refl a⟩
    · have hvl : valid (left a) = true := (h.split a (by omega)).mpr ⟨hv, ha, hl⟩
      have hvr : valid (right a) = true := (h.pair a).trans hvl
      by_cases hal : avail (left a) = true
      · obtain ⟨l, hl, hw⟩ := ih hvr (h.coalesced a hvl hal) (by rw [level_right]; omega)
        exact ⟨l, hl, hw.trans (within_right a)⟩
      · rw [Bool.not_eq_true] at hal
        obtain ⟨l, hl, hw⟩ := ih hvl hal (by rw [level_left]; omega)
        exact ⟨l, hl, hw.trans (within_left a)⟩

/-- Walking down from the root towards a node, one meets a free or live node, or
    the node itself is split. -/
theorem covered_or_split {i : Nat} (h : TreeInv ba valid avail L) (hi : ba.IsNode i) :
    (∃ a, Within i a ∧ valid a = true ∧ (avail a = true ∨ a ∈ L)) ∨
      (valid i = true ∧ avail i = false ∧ i ∉ L) := by
  induction i using Nat.strong_induction_on with
  | _ i ih =>
    -- A valid node is free, live or split.
    have hvalid : valid i = true →
        (∃ a, Within i a ∧ valid a = true ∧ (avail a = true ∨ a ∈ L)) ∨
          (valid i = true ∧ avail i = false ∧ i ∉ L) := by
      intro hv
      by_cases ha : avail i = true
      · exact .inl ⟨i, .refl i, hv, .inl ha⟩
      · by_cases hl : i ∈ L
        · exact .inl ⟨i, .refl i, hv, .inr hl⟩
        · exact .inr ⟨hv, by rwa [Bool.not_eq_true] at ha, hl⟩
    rcases Nat.eq_zero_or_pos i with rfl | hpos
    · exact hvalid h.root
    · have hlp := hi.parent hpos
      rcases ih _ (parent_lt hpos) (Nat.le_of_lt hlp) with ⟨a, hw, ha⟩ | hs
      · exact .inl ⟨a, .up hpos hw, ha⟩
      · have hvl := (h.split _ hlp).mpr hs
        apply hvalid
        rcases eq_left_or_right hpos with e | e
        · rw [e]
          exact hvl
        · rw [e, h.pair]
          exact hvl

/-- A free node is clear of live nodes. -/
theorem clear_of_free {i : Nat} (h : TreeInv ba valid avail L) (hv : valid i = true)
    (ha : avail i = true) : Clear L i := by
  intro l hl
  have hlive := h.live l hl
  have hne : l ≠ i := by
    rintro rfl
    rw [ha] at hlive
    cases hlive.2
  constructor
  · intro hw
    have := h.ancestor_split hw hlive.1 hne
    rw [ha] at this
    cases this.2.1
  · intro hw
    exact (h.ancestor_split hw hv hne.symm).2.2 hl

/-- **The free nodes are the maximal clear nodes**: those nodes of the tree that
    no live node meets and all of whose proper ancestors some live node meets. -/
theorem free_iff_maximal {i : Nat} (h : TreeInv ba valid avail L) :
    (valid i = true ∧ avail i = true) ↔
      ba.IsNode i ∧ Clear L i ∧ ∀ a, Within i a → i ≠ a → ¬ Clear L a := by
  constructor
  · rintro ⟨hv, ha⟩
    refine ⟨h.node i hv, h.clear_of_free hv ha, ?_⟩
    intro a hw hne hclear
    obtain ⟨hva, haa, _⟩ := h.ancestor_split hw hv hne
    obtain ⟨l, hl, hwl⟩ := h.exists_live_within hva haa
    exact (hclear l hl).1 hwl
  · rintro ⟨hn, hclear, hmax⟩
    rcases h.covered_or_split hn with ⟨a, hw, hva, ha⟩ | ⟨hv, ha, _⟩
    · -- The covering node is not live, and a free one is `i` itself.
      rcases ha with ha | ha
      · by_cases e : i = a
        · rw [e]
          exact ⟨hva, ha⟩
        · exact absurd (h.clear_of_free hva ha) (hmax a hw e)
      · exact absurd hw (hclear a ha).2
    · obtain ⟨l, hl, hwl⟩ := h.exists_live_within hv ha
      exact absurd hwl (hclear l hl).1

/-- **The free and the live nodes partition the region**: every node of the last row
    lies in exactly one of them. -/
theorem partition {i : Nat} (h : TreeInv ba valid avail L) (hi : level i = ba.height) :
    ∃! a, Within i a ∧ valid a = true ∧ (avail a = true ∨ a ∈ L) := by
  have hcover : ∃ a, Within i a ∧ valid a = true ∧ (avail a = true ∨ a ∈ L) := by
    rcases h.covered_or_split (Nat.le_of_eq hi) with hc | ⟨hv, ha, hl⟩
    · exact hc
    · exact absurd (h.leaf i hi hv ha) hl
  -- Of two nested covering nodes the outer one would be split.
  have houter : ∀ a b, Within a b → valid a = true → (avail b = true ∨ b ∈ L) → a = b := by
    intro a b hw hv hb
    by_contra hne
    obtain ⟨_, h1, h2⟩ := h.ancestor_split hw hv hne
    rcases hb with hb | hb
    · rw [h1] at hb
      cases hb
    · exact h2 hb
  obtain ⟨a, hwa, hva, ha⟩ := hcover
  refine ⟨a, ⟨hwa, hva, ha⟩, ?_⟩
  rintro b ⟨hwb, hvb, hb⟩
  rcases hwb.total hwa with hw | hw
  · exact houter b a hw hvb ha
  · exact (houter a b hw hva hb).symm

/-- **Conservation**: a set of nodes that holds exactly the free and the live nodes
    makes up the whole region, counted in smallest blocks. -/
theorem conservation (h : TreeInv ba valid avail L) (S : Finset Nat)
    (hS : ∀ a, a ∈ S ↔ valid a = true ∧ (avail a = true ∨ a ∈ L)) :
    ∑ a ∈ S, 2 ^ (ba.height - level a) = 2 ^ ba.height := by
  have hnode : ∀ a ∈ S, level a ≤ ba.height := fun a ha => h.node a ((hS a).mp ha).1
  have hunion : S.biUnion (rowBelow ba.height) = rowBelow ba.height 0 := by
    ext i
    rw [Finset.mem_biUnion, mem_rowBelow (by rw [level_zero]; exact Nat.zero_le _)]
    constructor
    · rintro ⟨a, ha, hi⟩
      rw [mem_rowBelow (hnode a ha)] at hi
      exact ⟨hi.1, within_root i⟩
    · rintro ⟨hi, _⟩
      obtain ⟨a, ⟨hw, hva⟩, _⟩ := h.partition hi
      have ha : a ∈ S := (hS a).mpr hva
      exact ⟨a, ha, (mem_rowBelow (hnode a ha)).mpr ⟨hi, hw⟩⟩
  have hdisj : (S : Set Nat).PairwiseDisjoint (rowBelow ba.height) := by
    intro a ha b hb hne
    apply Finset.disjoint_left.mpr
    intro i hia hib
    rw [mem_rowBelow (hnode a ha)] at hia
    rw [mem_rowBelow (hnode b hb)] at hib
    have hu := h.partition hia.1
    exact hne (hu.unique ⟨hia.2, (hS a).mp ha⟩ ⟨hib.2, (hS b).mp hb⟩)
  calc ∑ a ∈ S, 2 ^ (ba.height - level a)
      = ∑ a ∈ S, (rowBelow ba.height a).card := by
        apply Finset.sum_congr rfl
        intro a _
        rw [card_rowBelow]
    _ = (S.biUnion (rowBelow ba.height)).card := (Finset.card_biUnion hdisj).symm
    _ = 2 ^ ba.height := by
        rw [hunion, card_rowBelow, level_zero]
        rfl

end TreeInv

end Modern05
