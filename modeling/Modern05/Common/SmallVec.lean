import Modern05.Lib.Utils

/-! # Vectors in a buffer of fixed size

    `SmallVec<T, N>` of `include/common/small_vec.hpp`. The members do not compare an
    index with the size of the buffer: an access behind its end is undefined in the source
    and a failure here. A destroyed element leaves its bytes in the slot.

    `operator[]` comes in two versions. The one for a vector that is not constant
    ignores its argument and returns the slot behind the last element. And `resize` to a larger
    size builds the new elements but does not count them.

    A list is what a vector stands for. `agrees_along_iff` says for which sequences of operations
    all that can be observed of the vector agrees with the list.
-/

namespace Modern05

/-- The slots of the buffer and the number of elements. -/
structure SmallVec (α : Type) (N : Nat) where
  buf_ : Nat → α
  size_ : Nat

namespace SmallVec

variable {α : Type} {N : Nat} {v v' : SmallVec α N} {x : α}

/-- A vector with static storage starts with a zeroed buffer. -/
def zeroed (zero : α) : SmallVec α N := ⟨fun _ => zero, 0⟩

def size (v : SmallVec α N) : Nat := v.size_

def empty (v : SmallVec α N) : Bool := v.size = 0

/-- The elements from `begin()` to `end()`. -/
def toList (v : SmallVec α N) : List α := (List.range v.size_).map v.buf_

def get_buf (v : SmallVec α N) (offset : Nat) : Except Fault α :=
  if offset < N then .ok (v.buf_ offset) else .error (.out_of_bounds offset)

/-- Write the slot behind the last element and count it. -/
def append (v : SmallVec α N) (x : α) : Except Fault (SmallVec α N) :=
  if v.size_ < N then .ok ⟨Function.update v.buf_ v.size_ x, v.size_ + 1⟩
  else .error (.out_of_bounds v.size_)

/-- Construct an element in place. -/
def emplace_back (v : SmallVec α N) (x : α) : Except Fault (SmallVec α N) := v.append x

/-- Copy an element. -/
def push_back (v : SmallVec α N) (obj : α) : Except Fault (SmallVec α N) := v.append obj

/-- `T &operator[](size_t offset)` -/
def index (v : SmallVec α N) (_offset : Nat) : Except Fault α := v.get_buf v.size_

/-- `const T &operator[](size_t offset) const` -/
def index_const (v : SmallVec α N) (offset : Nat) : Except Fault α := v.get_buf offset

def back (v : SmallVec α N) : Except Fault α :=
  if v.size_ ≠ 0 then v.get_buf (v.size_ - 1) else .error (.assertion "SmallVec is empty")

def pop_back (v : SmallVec α N) : Except Fault (SmallVec α N) :=
  if v.size_ ≠ 0 then .ok ⟨v.buf_, v.size_ - 1⟩ else .error (.assertion "cannot pop empty vec")

/-- Build `n` default elements in the slots from `i` on. -/
def construct_from [Inhabited α] (v : SmallVec α N) (i : Nat) : Nat → Except Fault (SmallVec α N)
  | 0 => .ok v
  | n + 1 =>
    if i < N then construct_from ⟨Function.update v.buf_ i default, v.size_⟩ (i + 1) n
    else .error (.out_of_bounds i)

def resize [Inhabited α] (v : SmallVec α N) (new_size : Nat) : Except Fault (SmallVec α N) :=
  if new_size < v.size_ then .ok ⟨v.buf_, new_size⟩
  else if new_size > v.size_ then
    -- `size_` stays as it is
    v.construct_from v.size_ (new_size - v.size_)
  else .ok v

/-- The slots from the size on are as they were at first. -/
def UnusedAre (zero : α) (v : SmallVec α N) : Prop := ∀ i, v.size_ ≤ i → v.buf_ i = zero

theorem unusedAre_append {zero : α} (hv : v.UnusedAre zero) (h : v.append x = .ok v') :
    v'.UnusedAre zero := by
  unfold append at h
  split at h
  · cases h
    intro i hi
    have hi : v.size_ + 1 ≤ i := hi
    show Function.update v.buf_ v.size_ x i = zero
    rw [Function.update_of_ne (by omega)]
    exact hv i (by omega)
  · cases h

/-- Whatever the index, the element read is an unused slot. -/
theorem index_of_unused {zero : α} (hv : v.UnusedAre zero) {i : Nat} (h : v.index i = .ok x) :
    x = zero := by
  unfold index get_buf at h
  split at h
  · cases h
    exact hv v.size_ (Nat.le_refl _)
  · cases h

theorem length_toList (v : SmallVec α N) : v.toList.length = v.size_ := by
  simp [toList]

theorem empty_iff_toList_nil (v : SmallVec α N) : v.empty = true ↔ v.toList = [] := by
  rw [← List.length_eq_zero_iff, length_toList]
  exact decide_eq_true_iff

/-- An element is added at the end while the buffer has room. -/
theorem append_of_lt (x : α) (hlt : v.size_ < N) :
    ∃ v', v.append x = .ok v' ∧ v'.toList = v.toList ++ [x] := by
  refine ⟨⟨Function.update v.buf_ v.size_ x, v.size_ + 1⟩, if_pos hlt, ?_⟩
  have hold : (List.range v.size_).map (Function.update v.buf_ v.size_ x) = v.toList := by
    refine List.map_congr_left fun i hi => ?_
    exact Function.update_of_ne (Nat.ne_of_lt (List.mem_range.mp hi)) _ _
  simp [toList, List.range_succ, List.map_append, hold]

/-! ## Reading the elements -/

theorem getElem_toList {i : Nat} (hi : i < v.toList.length) : v.toList[i] = v.buf_ i := by
  simp [toList]

theorem toList_eq {buf_ : Nat → α} (hsame : ∀ i < v.size_, buf_ i = v.buf_ i) :
    toList (⟨buf_, v.size_⟩ : SmallVec α N) = v.toList :=
  List.map_congr_left fun i hi => hsame i (List.mem_range.mp hi)

theorem index_const_of_lt (hN : v.size_ ≤ N) {i : Nat} (hi : i < v.toList.length) :
    v.index_const i = .ok v.toList[i] := by
  rw [getElem_toList hi]
  rw [length_toList] at hi
  exact if_pos (by omega)

theorem back_of_getLast? (hN : v.size_ ≤ N) (hx : v.toList.getLast? = some x) :
    v.back = .ok x := by
  have hlen := v.length_toList
  have hpos : v.size_ ≠ 0 := by
    intro hzero
    rw [hzero, List.length_eq_zero_iff] at hlen
    rw [hlen] at hx
    cases hx
  have hget : v.toList[v.toList.length - 1]? = some x := by rw [← hx, List.getLast?_eq_getElem?]
  obtain ⟨hlt, hget⟩ := List.getElem?_eq_some_iff.mp hget
  rw [getElem_toList, hlen] at hget
  rw [back, if_pos hpos, get_buf, if_pos (by omega), hget]

/-- The element at any index is the slot behind the last element. -/
theorem index_ok_iff {i : Nat} : v.index i = .ok x ↔ v.size_ < N ∧ v.buf_ v.size_ = x := by
  unfold index get_buf
  split <;> simp_all

theorem toList_shrink (v : SmallVec α N) {n : Nat} (hn : n ≤ v.size_) :
    toList (⟨v.buf_, n⟩ : SmallVec α N) = v.toList.take n := by
  rw [toList, toList, ← List.map_take, List.take_range, Nat.min_eq_left hn]

/-- All that can be observed of a vector agrees with a list. -/
structure Agrees (v : SmallVec α N) (l : List α) : Prop where
  size : v.size = l.length
  empty : v.empty = l.isEmpty
  back : ∀ x, l.getLast? = some x → v.back = .ok x
  iteration : v.toList = l
  index_const : ∀ i (hi : i < l.length), v.index_const i = .ok l[i]
  index : ∀ i (hi : i < l.length), v.index i = .ok l[i]

/-- There is a slot behind the last element, and each element is equal to what it holds. -/
def AllLikeNext (v : SmallVec α N) (l : List α) : Prop :=
  l.length < N ∧ ∀ x ∈ l, v.buf_ l.length = x

theorem agrees_iff {l : List α} (hN : l.length ≤ N) :
    v.Agrees l ↔ v.toList = l ∧ (l ≠ [] → v.AllLikeNext l) := by
  constructor
  · intro h
    refine ⟨h.iteration, fun hne => ⟨?_, fun x hx => ?_⟩⟩
    · have hfirst := h.index 0 (List.length_pos_iff.mpr hne)
      rw [← h.size]
      exact (index_ok_iff.mp hfirst).1
    · obtain ⟨i, hi, rfl⟩ := List.mem_iff_getElem.mp hx
      rw [← h.size]
      exact (index_ok_iff.mp (h.index i hi)).2
  · rintro ⟨rfl, hnext⟩
    rw [v.length_toList] at hN
    refine ⟨v.length_toList.symm, ?_, fun x => v.back_of_getLast? hN, rfl,
      fun i hi => v.index_const_of_lt hN hi, fun i hi => ?_⟩
    · rw [Bool.eq_iff_iff, v.empty_iff_toList_nil, List.isEmpty_iff]
    · obtain ⟨hlt, hall⟩ := hnext (List.length_pos_iff.mp (by omega))
      have hslot := hall _ (List.getElem_mem hi)
      rw [v.length_toList] at hlt hslot
      exact index_ok_iff.mpr ⟨hlt, hslot⟩

end SmallVec

/-! ## Sequences of operations -/

inductive VecOp (α : Type) where
  | emplace_back (x : α)
  | push_back (obj : α)
  | pop_back
  | resize (new_size : Nat)
  deriving DecidableEq, Repr

section operations

variable {α : Type} [Inhabited α] {N : Nat} {v v' : SmallVec α N} {l l' : List α} {op : VecOp α}

def SmallVec.apply (v : SmallVec α N) : VecOp α → Except Fault (SmallVec α N)
  | .emplace_back x => v.emplace_back x
  | .push_back obj => v.push_back obj
  | .pop_back => v.pop_back
  | .resize new_size => v.resize new_size

def SmallVec.run (v : SmallVec α N) (ops : List (VecOp α)) : Except Fault (SmallVec α N) :=
  ops.foldlM SmallVec.apply v

/-- The operation on a list. There is nothing to pop from the empty list. -/
def VecOp.apply (l : List α) : VecOp α → Option (List α)
  | .emplace_back x => some (l ++ [x])
  | .push_back obj => some (l ++ [obj])
  | .pop_back => if l = [] then none else some l.dropLast
  | .resize new_size => some (l.take new_size ++ List.replicate (new_size - l.length) default)

/-- The operation, if it leaves at most `N` elements. -/
def VecOp.apply_within (N : Nat) (l : List α) (op : VecOp α) : Option (List α) :=
  (op.apply l).filter (fun l' => l'.length ≤ N)

/-- The list after a sequence of operations on the empty list that never has more than `N`
    elements. -/
def VecOp.list (N : Nat) (ops : List (VecOp α)) : Option (List α) :=
  ops.foldlM (VecOp.apply_within N) []

/-- The operation makes the list longer by default elements. -/
def VecOp.Enlarges (l : List α) : VecOp α → Prop
  | .resize new_size => l.length < new_size
  | _ => False

/-- The new elements go behind those that are counted. -/
theorem SmallVec.construct_from_spec (v : SmallVec α N) {i n : Nat} (hfits : i + n ≤ N) :
    ∃ v', v.construct_from i n = .ok v' ∧ v'.size_ = v.size_ ∧ ∀ j < i, v'.buf_ j = v.buf_ j := by
  induction n generalizing v i with
  | zero => exact ⟨v, rfl, rfl, fun _ _ => rfl⟩
  | succ n ih =>
    obtain ⟨v', hrun, hsize, hsame⟩ :=
      ih ⟨Function.update v.buf_ i default, v.size_⟩ (i := i + 1) (by omega)
    refine ⟨v', ?_, hsize, fun j hj => ?_⟩
    · rw [construct_from, if_pos (by omega), hrun]
    · rw [hsame j (by omega)]
      exact Function.update_of_ne (by omega) _ _

/-- Resizing to a larger size returns, and the elements are those from before. -/
theorem SmallVec.resize_larger {new_size : Nat} (hlt : v.size_ < new_size) (hN : new_size ≤ N) :
    ∃ v', v.resize new_size = .ok v' ∧ v'.toList = v.toList := by
  obtain ⟨v', hrun, hsize, hsame⟩ :=
    v.construct_from_spec (i := v.size_) (n := new_size - v.size_) (by omega)
  refine ⟨v', ?_, ?_⟩
  · rw [resize, if_neg (by omega), if_pos hlt, hrun]
  · obtain ⟨buf_, size_⟩ := v'
    cases hsize
    exact toList_eq hsame

/-- **One operation** that does not make the list longer by default elements. -/
theorem SmallVec.apply_of_not_enlarges (h : v.toList = l)
    (hop : op.apply_within N l = some l') (hsmall : ¬ op.Enlarges l) :
    ∃ v', v.apply op = .ok v' ∧ v'.toList = l' := by
  obtain ⟨happly, hN⟩ := Option.filter_eq_some_iff.mp hop
  have hlen : l.length = v.size_ := by rw [← h, length_toList]
  have happend : ∀ x, l' = l ++ [x] → ∃ v', v.append x = .ok v' ∧ v'.toList = l' := by
    rintro x rfl
    rw [List.length_append, List.length_singleton, decide_eq_true_eq] at hN
    rw [← h]
    exact append_of_lt x (by omega)
  cases op with
  | emplace_back x => exact happend x (Option.some.inj happly).symm
  | push_back x => exact happend x (Option.some.inj happly).symm
  | pop_back =>
    rw [VecOp.apply] at happly
    split at happly
    · cases happly
    · next hne =>
      cases happly
      have hpos : v.size_ ≠ 0 := by
        rw [← hlen]
        exact fun hzero => hne (List.length_eq_zero_iff.mp hzero)
      refine ⟨⟨v.buf_, v.size_ - 1⟩, if_pos hpos, ?_⟩
      rw [toList_shrink v (Nat.sub_le _ _), h, List.dropLast_eq_take, hlen]
  | resize n =>
    -- nothing is appended, and the vector is cut or stays as it is
    have hle : n ≤ v.size_ := by
      have hnot : ¬ l.length < n := hsmall
      omega
    have hnone : n - l.length = 0 := by omega
    rw [VecOp.apply, hnone, List.replicate_zero, List.append_nil] at happly
    cases happly
    by_cases hlt : n < v.size_
    · refine ⟨⟨v.buf_, n⟩, if_pos hlt, ?_⟩
      rw [toList_shrink v hle, h]
    · refine ⟨v, ?_, ?_⟩
      · rw [apply, resize, if_neg hlt, if_neg (by omega)]
      · rw [h, List.take_of_length_le (by omega)]

/-- An operation that does so is lost: the list has more elements than the vector. -/
theorem SmallVec.apply_enlarges (h : v.toList = l) (hlarge : op.Enlarges l)
    (hop : op.apply_within N l = some l') (hrun : v.apply op = .ok v') : v'.toList ≠ l' := by
  intro h'
  cases op with
  | resize n =>
    have hlt : l.length < n := hlarge
    have hlen : l.length = v.size_ := by rw [← h, length_toList]
    obtain ⟨happly, hN⟩ := Option.filter_eq_some_iff.mp hop
    have hlen' : l'.length = n := by
      rw [← Option.some.inj happly, List.length_append, List.length_replicate, List.length_take]
      omega
    rw [decide_eq_true_eq, hlen'] at hN
    obtain ⟨v'', hresize, hsame⟩ := resize_larger (v := v) (by omega) hN
    cases hrun.symm.trans hresize
    rw [h', h] at hsame
    rw [hsame] at hlen'
    omega
  | _ => exact hlarge

/-- The list has at most `N` elements. -/
theorem VecOp.length_le_of_list {ops : List (VecOp α)} (h : VecOp.list N ops = some l) :
    l.length ≤ N := by
  induction ops using List.reverseRecOn with
  | nil =>
    cases h
    exact Nat.zero_le N
  | append_singleton ops op _ =>
    rw [VecOp.list, List.foldlM_append] at h
    obtain ⟨l₀, _, h⟩ := Option.bind_eq_some_iff.mp h
    rw [List.foldlM_cons] at h
    obtain ⟨l₁, hop, h⟩ := Option.bind_eq_some_iff.mp h
    cases h
    simpa using (Option.filter_eq_some_iff.mp hop).2

/-! ## Along a sequence -/

theorem VecOp.list_concat (N : Nat) (ops : List (VecOp α)) (op : VecOp α) :
    VecOp.list N (ops ++ [op]) = (VecOp.list N ops).bind (fun l => op.apply_within N l) := by
  simp [VecOp.list]

theorem SmallVec.run_concat (v : SmallVec α N) (ops : List (VecOp α)) (op : VecOp α) :
    v.run (ops ++ [op]) = v.run ops >>= fun v' => v'.apply op := by
  simp [SmallVec.run]

theorem VecOp.list_prefix {pre post : List (VecOp α)}
    (h : (VecOp.list N (pre ++ post)).isSome) : (VecOp.list N pre).isSome := by
  obtain ⟨l, hl⟩ := Option.isSome_iff_exists.mp h
  rw [VecOp.list, List.foldlM_append] at hl
  obtain ⟨l', hl', _⟩ := Option.bind_eq_some_iff.mp hl
  exact Option.isSome_iff_exists.mpr ⟨l', hl'⟩

/-- No operation of the sequence makes the list longer by default elements. -/
def VecOp.NeverEnlarges (N : Nat) (ops : List (VecOp α)) : Prop :=
  ∀ pre op post l, ops = pre ++ op :: post → VecOp.list N pre = some l → ¬ op.Enlarges l

/-- **The elements of a sequence** that never makes the list longer by default elements. -/
theorem SmallVec.run_of_neverEnlarges {v₀ : SmallVec α N} (hstart : v₀.size_ = 0)
    {ops : List (VecOp α)} (hsmall : VecOp.NeverEnlarges N ops) {l : List α}
    (hl : VecOp.list N ops = some l) : ∃ v, v₀.run ops = .ok v ∧ v.toList = l := by
  induction ops using List.reverseRecOn generalizing l with
  | nil =>
    cases hl
    exact ⟨v₀, rfl, List.length_eq_zero_iff.mp (by rw [length_toList, hstart])⟩
  | append_singleton ops op ih =>
    rw [VecOp.list_concat] at hl
    obtain ⟨l₀, hl₀, hop⟩ := Option.bind_eq_some_iff.mp hl
    have hsmall₀ : VecOp.NeverEnlarges N ops := by
      rintro pre op' post l' rfl hl'
      exact hsmall pre op' (post ++ [op]) l' (by simp) hl'
    obtain ⟨v, hrun, hv⟩ := ih hsmall₀ hl₀
    obtain ⟨v', happly, hv'⟩ :=
      SmallVec.apply_of_not_enlarges hv hop (hsmall ops op [] l₀ rfl hl₀)
    refine ⟨v', ?_, hv'⟩
    rw [run_concat, hrun]
    exact happly

/-- **The vector is the list all along a sequence of operations** exactly when no `resize` enlarges
    it and, whenever it is not empty, the slot behind its last element is in the buffer and holds
    what each of the elements is. -/
theorem agrees_along_iff (v₀ : SmallVec α N) (hstart : v₀.size_ = 0) (ops : List (VecOp α))
    (hops : (VecOp.list N ops).isSome) :
    (∀ pre, pre <+: ops →
      ∃ v l, v₀.run pre = .ok v ∧ VecOp.list N pre = some l ∧ v.Agrees l) ↔
    VecOp.NeverEnlarges N ops ∧
      ∀ pre v l, pre <+: ops → v₀.run pre = .ok v → VecOp.list N pre = some l → l ≠ [] →
        v.AllLikeNext l := by
  constructor
  · intro hagrees
    refine ⟨?_, fun pre v l hpre hrun hl hne => ?_⟩
    · rintro pre op post l hsplit hl henlarges
      -- before the operation the vector is the list, and after it the two sizes differ
      obtain ⟨v, l₀, hrun, hl₀, hv⟩ := hagrees pre ⟨op :: post, hsplit.symm⟩
      cases hl.symm.trans hl₀
      obtain ⟨v', l', hrun', hl', hv'⟩ := hagrees (pre ++ [op]) ⟨post, by simp [hsplit]⟩
      rw [VecOp.list_concat, hl] at hl'
      rw [SmallVec.run_concat, hrun] at hrun'
      exact SmallVec.apply_enlarges hv.iteration henlarges hl' hrun' hv'.iteration
    · obtain ⟨v', l', hrun', hl', hv⟩ := hagrees pre hpre
      cases hrun.symm.trans hrun'
      cases hl.symm.trans hl'
      exact ((SmallVec.agrees_iff (VecOp.length_le_of_list hl)).mp hv).2 hne
  · rintro ⟨hsmall, hnext⟩ pre hpre
    obtain ⟨post, rfl⟩ := hpre
    obtain ⟨l, hl⟩ := Option.isSome_iff_exists.mp (VecOp.list_prefix hops)
    have hsmall' : VecOp.NeverEnlarges N pre := by
      rintro pre' op post' l' rfl hl'
      exact hsmall pre' op (post' ++ post) l' (by simp) hl'
    obtain ⟨v, hrun, hv⟩ := SmallVec.run_of_neverEnlarges hstart hsmall' hl
    refine ⟨v, l, hrun, hl, (SmallVec.agrees_iff (VecOp.length_le_of_list hl)).mpr ⟨hv, ?_⟩⟩
    exact hnext pre v l ⟨post, rfl⟩ hrun hl

end operations

/-- Two equal elements in a buffer that held the same before. -/
theorem two_zeros_agree : ∃ v, (SmallVec.zeroed 0 : SmallVec Nat 4).run
    [.push_back 0, .emplace_back 0] = .ok v ∧ v.Agrees [0, 0] := by
  have hagrees := (agrees_along_iff (SmallVec.zeroed 0 : SmallVec Nat 4) rfl
    [.push_back 0, .emplace_back 0] (by decide)).mpr ⟨?_, ?_⟩
  · obtain ⟨v, l, hrun, hl, hv⟩ := hagrees _ (List.prefix_refl _)
    cases hl
    exact ⟨v, hrun, hv⟩
  · rintro pre op post l hsplit - hlarge
    have hmem : op ∈ [VecOp.push_back 0, .emplace_back 0] := by simp [hsplit]
    rcases List.mem_pair.mp hmem with rfl | rfl
    · exact hlarge
    · exact hlarge
  · intro pre v l hpre hrun hl hne
    have hcases : pre = [] ∨ pre = [.push_back 0] ∨ pre = [.push_back 0, .emplace_back 0] := by
      simpa using (List.mem_inits _ _).mpr hpre
    rcases hcases with rfl | rfl | rfl
    · cases hl
      exact absurd rfl hne
    · cases hrun
      cases hl
      exact ⟨by decide, by decide⟩
    · cases hrun
      cases hl
      exact ⟨by decide, by decide⟩

/-- Two elements that differ, and a vector that is resized: the first element cannot be read but
    through a constant vector, and the new elements are not there. -/
theorem elements_lost :
    (∃ v, (SmallVec.zeroed 0 : SmallVec Nat 4).run [.push_back 1, .push_back 2] = .ok v ∧
      VecOp.list 4 [.push_back 1, .push_back 2] = some [1, 2] ∧
      v.index_const 0 = .ok 1 ∧ v.index 0 = .ok 0) ∧
    ∃ v, (SmallVec.zeroed 0 : SmallVec Nat 4).run [.resize 2] = .ok v ∧
      VecOp.list 4 [.resize 2] = some [0, 0] ∧ v.size = 0 :=
  ⟨⟨_, rfl, rfl, rfl, rfl⟩, _, rfl, rfl, rfl⟩

end Modern05
