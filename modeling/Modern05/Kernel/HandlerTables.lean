import Mathlib.Order.CompletePartialOrder
import Mathlib.Order.Interval.Set.Disjoint
import Modern05.Common.SmallVec
import Modern05.Kernel.Interrupts

/-! # The slots of small vectors

    Which slots of its buffer the operations of a `SmallVec` write or destroy, whether the buffer
    has them or not. No member compares an index with the capacity.

    * `slots` and `next_size` are what one operation does, given the size before it.
    * `touched_lt_iff`: a vector that is in its buffer leaves it with an element too many or with a
      `resize` to more than the capacity, and with nothing else.
    * `run_out_of_bounds_iff` connects this with the model of the vector, which stops there.

    The tables of `InterruptProcessor` are such vectors, one behind the other: behind the last slot
    of a table are its size and the first slot of the next table.
-/

namespace Modern05

/-! ## One operation -/

namespace VecOp

variable {α : Type} {N size_ : Nat} {op : VecOp α} {ops : List (VecOp α)}

/-- The slots in which an element is built, assigned or destroyed. -/
def slots (size_ : Nat) : VecOp α → List Nat
  | .emplace_back _ => [size_]
  | .push_back _ => [size_]
  | .pop_back => if size_ = 0 then [] else [size_ - 1]
  | .resize new_size =>
    if new_size < size_ then List.range' new_size (size_ - new_size)
    else List.range' size_ (new_size - size_)

/-- The size after the operation. An empty vector is not popped. -/
def next_size (size_ : Nat) : VecOp α → Option Nat
  | .emplace_back _ => some (size_ + 1)
  | .push_back _ => some (size_ + 1)
  | .pop_back => if size_ = 0 then none else some (size_ - 1)
  | .resize new_size => some (if new_size < size_ then new_size else size_)

/-- The capacity is enough for the operation. -/
def Within (N size_ : Nat) : VecOp α → Prop
  | .emplace_back _ => size_ < N
  | .push_back _ => size_ < N
  | .pop_back => True
  | .resize new_size => new_size ≤ N

theorem slots_lt_iff (hsize : size_ ≤ N) (op : VecOp α) :
    (∀ s ∈ op.slots size_, s < N) ↔ op.Within N size_ := by
  cases op with
  | emplace_back x => simp [slots, Within]
  | push_back x => simp [slots, Within]
  | pop_back =>
    simp only [slots, Within, iff_true]
    split
    · simp
    · simp only [List.mem_singleton, forall_eq]
      omega
  | resize n =>
    simp only [slots, Within]
    split
    · -- the slots that are destroyed are those of elements
      refine ⟨fun _ => by omega, fun _ s hs => ?_⟩
      have := (List.mem_range'_1.mp hs).2
      omega
    · constructor
      · intro h
        by_contra hlarge
        exact absurd (h N (List.mem_range'_1.mpr (by omega))) (Nat.lt_irrefl N)
      · intro hn s hs
        have := (List.mem_range'_1.mp hs).2
        omega

theorem next_size_le {size_' : Nat} (hsize : size_ ≤ N) (hop : op.Within N size_)
    (hnext : op.next_size size_ = some size_') : size_' ≤ N := by
  cases op with
  | emplace_back x =>
    cases hnext
    exact hop
  | push_back x =>
    cases hnext
    exact hop
  | pop_back =>
    simp only [next_size] at hnext
    split at hnext
    · cases hnext
    · cases hnext
      omega
  | resize n =>
    simp only [next_size, Option.some.injEq] at hnext
    split at hnext <;> omega

/-! ## Sequences -/

/-- All slots that a sequence of operations touches, up to the one that stops. -/
def touched : Nat → List (VecOp α) → List Nat
  | _, [] => []
  | size_, op :: ops =>
    op.slots size_ ++
      match op.next_size size_ with
      | some size_ => touched size_ ops
      | none => []

/-- The capacity is enough for each operation of a sequence. -/
def AllWithin (N : Nat) : Nat → List (VecOp α) → Prop
  | _, [] => True
  | size_, op :: ops => op.Within N size_ ∧
      ∀ size_', op.next_size size_ = some size_' → AllWithin N size_' ops

/-- **The slots of a sequence.** The vector is in its buffer before each operation that is
    reached. -/
theorem touched_lt_iff (hsize : size_ ≤ N) :
    (∀ s ∈ touched size_ ops, s < N) ↔ AllWithin N size_ ops := by
  induction ops generalizing size_ with
  | nil => simp [touched, AllWithin]
  | cons op ops ih =>
    rw [touched, List.forall_mem_append, slots_lt_iff hsize, AllWithin]
    apply and_congr_right
    intro hop
    cases hnext : op.next_size size_ with
    | none => simp
    | some size_' =>
      simp only [Option.some.injEq, forall_eq']
      exact ih (next_size_le hsize hop hnext)

/-- Elements are added one after the other. -/
theorem touched_emplace_back (l : List α) (size_ : Nat) :
    touched size_ (l.map .emplace_back) = List.range' size_ l.length := by
  induction l generalizing size_ with
  | nil => rfl
  | cons x l ih =>
    rw [List.map_cons, touched]
    simp only [slots, next_size]
    rw [ih, List.length_cons, List.range'_succ, List.singleton_append]

end VecOp

/-! ## The model of the vector -/

namespace SmallVec

variable {α : Type} [Inhabited α] {N : Nat} {v : SmallVec α N}

/-- Building elements stops at the first slot that the buffer does not have. -/
theorem construct_from_full {i n : Nat} (hi : i ≤ N) (hlarge : N < i + n) :
    v.construct_from i n = .error (.out_of_bounds N) := by
  induction n generalizing v i with
  | zero => omega
  | succ n ih =>
    rw [construct_from]
    split
    · exact ih (by omega) (by omega)
    · rw [show i = N by omega]

/-- **What an operation does to the size**, or where it leaves the buffer. -/
theorem apply_cases (hsize : v.size_ ≤ N) (op : VecOp α) :
    (op.Within N v.size_ ∧
      ((∃ v', v.apply op = .ok v' ∧ op.next_size v.size_ = some v'.size_) ∨
        op.next_size v.size_ = none ∧ v.apply op = .error (.assertion "cannot pop empty vec"))) ∨
    ¬ op.Within N v.size_ ∧ v.apply op = .error (.out_of_bounds N) := by
  have happend : ∀ x, (v.size_ < N ∧ ∃ v', v.append x = .ok v' ∧ v'.size_ = v.size_ + 1) ∨
      ¬ v.size_ < N ∧ v.append x = .error (.out_of_bounds N) := by
    intro x
    unfold append
    split
    · exact .inl ⟨‹_›, _, rfl, rfl⟩
    · rw [show v.size_ = N by omega]
      exact .inr ⟨Nat.lt_irrefl N, rfl⟩
  cases op with
  | emplace_back x =>
    rcases happend x with ⟨hlt, v', hv', hnext⟩ | hfull
    · exact .inl ⟨hlt, .inl ⟨v', hv', by rw [VecOp.next_size, hnext]⟩⟩
    · exact .inr hfull
  | push_back x =>
    rcases happend x with ⟨hlt, v', hv', hnext⟩ | hfull
    · exact .inl ⟨hlt, .inl ⟨v', hv', by rw [VecOp.next_size, hnext]⟩⟩
    · exact .inr hfull
  | pop_back =>
    left
    refine ⟨trivial, ?_⟩
    simp only [apply, pop_back, VecOp.next_size]
    by_cases hzero : v.size_ = 0
    · simp [hzero]
    · simp [hzero]
  | resize n =>
    simp only [apply, resize, VecOp.next_size, VecOp.Within]
    rcases Nat.lt_trichotomy n v.size_ with hlt | rfl | hgt
    · rw [if_pos hlt, if_pos hlt]
      exact .inl ⟨by omega, .inl ⟨_, rfl, rfl⟩⟩
    · rw [if_neg (Nat.lt_irrefl _), if_neg (Nat.lt_irrefl _), if_neg (Nat.lt_irrefl _)]
      exact .inl ⟨hsize, .inl ⟨v, rfl, rfl⟩⟩
    · have hnot : ¬ n < v.size_ := by omega
      rw [if_neg hnot, if_neg hnot, if_pos hgt]
      rcases Nat.lt_or_ge N n with hlarge | hfits
      · exact .inr ⟨by omega, construct_from_full hsize (by omega)⟩
      · obtain ⟨v', hv', hsame, _⟩ :=
          v.construct_from_spec (i := v.size_) (n := n - v.size_) (by omega)
        exact .inl ⟨hfits, .inl ⟨v', hv', by rw [hsame]⟩⟩

/-- The model leaves the buffer exactly where the capacity is not enough. -/
theorem run_out_of_bounds_iff (hsize : v.size_ ≤ N) (ops : List (VecOp α)) :
    (∃ i, v.run ops = .error (.out_of_bounds i)) ↔ ¬ VecOp.AllWithin N v.size_ ops := by
  induction ops generalizing v with
  | nil =>
    simp only [VecOp.AllWithin, not_true_eq_false, iff_false]
    rintro ⟨i, h⟩
    cases h
  | cons op ops ih =>
    have hrun : v.run (op :: ops) = v.apply op >>= fun v' => v'.run ops := by simp [run]
    rw [hrun, VecOp.AllWithin]
    rcases apply_cases hsize op with
      ⟨hop, ⟨v', hv', hnext⟩ | ⟨hnext, hv'⟩⟩ | ⟨hop, hv'⟩
    · rw [hv', hnext]
      simp only [hop, Option.some.injEq, forall_eq', true_and]
      exact ih (VecOp.next_size_le hsize hop hnext)
    · rw [hv', hnext]
      simp only [hop, reduceCtorEq, false_implies, implies_true, and_self, not_true_eq_false,
        iff_false]
      rintro ⟨i, h⟩
      cases h
    · rw [hv']
      simp only [hop, false_and, not_false_eq_true, iff_true]
      exact ⟨N, rfl⟩

end SmallVec

/-! ## The tables of handlers -/

/-- `sizeof(std::function)` -/
def sizeof_InterruptHandler : Nat := 32

/-- The slots and the size. -/
def sizeof_Interrupt : Nat := sizeof_InterruptHandler * MaxHandlersPerInterrupt + 8

/-- The bytes of a slot of a table, counted from the start of `interrupts_`. -/
def handler_bytes (id slot : Nat) : Set Nat :=
  Set.Ico (sizeof_Interrupt * id + sizeof_InterruptHandler * slot)
    (sizeof_Interrupt * id + sizeof_InterruptHandler * slot + sizeof_InterruptHandler)

/-- The bytes of the buffer of a table. -/
def handler_table (id : Nat) : Set Nat :=
  Set.Ico (sizeof_Interrupt * id)
    (sizeof_Interrupt * id + sizeof_InterruptHandler * MaxHandlersPerInterrupt)

theorem handler_bytes_subset_iff (id slot : Nat) :
    handler_bytes id slot ⊆ handler_table id ↔ slot < MaxHandlersPerInterrupt := by
  unfold handler_bytes handler_table sizeof_InterruptHandler MaxHandlersPerInterrupt
  rw [Set.Ico_subset_Ico_iff (by omega)]
  omega

namespace InterruptProcessor

variable {H : Type}

/-- There is no room behind the last slot. -/
theorem Register_of_full {p : InterruptProcessor H} {id : Nat} (handler : H)
    (hid : id < MaxInterrupts) (hfull : ¬ (p.handlers id).length < MaxHandlersPerInterrupt) :
    p.Register id handler = .error (.out_of_bounds (p.handlers id).length) := by
  rw [handlers, SmallVec.length_toList] at hfull ⊢
  rw [Register, if_pos hid, SmallVec.emplace_back, SmallVec.append, if_neg hfull]
  rfl

/-- Handlers for one vector are registered until its table is full. -/
theorem Register_all_iff {id : Nat} (hid : id < MaxInterrupts) (l : List H)
    (p : InterruptProcessor H) (hp : (p.handlers id).length ≤ MaxHandlersPerInterrupt) :
    (∃ p', l.foldlM (fun p handler => p.Register id handler) p = .ok p') ↔
      (p.handlers id).length + l.length ≤ MaxHandlersPerInterrupt := by
  induction l generalizing p with
  | nil => exact ⟨fun _ => hp, fun _ => ⟨p, rfl⟩⟩
  | cons handler l ih =>
    rw [List.foldlM_cons, List.length_cons]
    by_cases hroom : (p.handlers id).length < MaxHandlersPerInterrupt
    · obtain ⟨p₁, hp₁, hhandlers⟩ := Register_of_lt handler hid hroom
      have hlength : (p₁.handlers id).length = (p.handlers id).length + 1 := by
        simp [hhandlers]
      rw [hp₁]
      refine (ih p₁ (by omega)).trans ?_
      omega
    · rw [Register_of_full handler hid hroom]
      constructor
      · rintro ⟨p', h⟩
        cases h
      · omega

end InterruptProcessor

/-- **A vector stays in its buffer exactly when the capacity is enough for each operation**; nothing
    stops the others. So a table of handlers is left by the registration number 17. -/
theorem slots_in_buffer_iff (α H : Type) [Inhabited α] (N : Nat) (v : SmallVec α N)
    (hzero : v.size_ = 0) (ops : List (VecOp α)) (raw : Nat → Nat → H) (id : Nat)
    (hid : id < MaxInterrupts) (l : List H) :
    (((∀ s ∈ VecOp.touched 0 ops, s < N) ↔ VecOp.AllWithin N 0 ops) ∧
      ((∃ i, v.run ops = .error (.out_of_bounds i)) ↔ ¬ VecOp.AllWithin N 0 ops)) ∧
    ((∀ s ∈ VecOp.touched 0 (l.map .emplace_back), handler_bytes id s ⊆ handler_table id) ↔
      l.length ≤ 16) ∧
    ((∃ p, l.foldlM (fun p handler => p.Register id handler) (InterruptProcessor.new raw) =
      .ok p) ↔ l.length ≤ 16) := by
  constructor
  · have hrun := v.run_out_of_bounds_iff (hzero ▸ Nat.zero_le N) ops
    rw [hzero] at hrun
    exact ⟨VecOp.touched_lt_iff (Nat.zero_le N), hrun⟩
  · have hempty : ((InterruptProcessor.new raw).handlers id).length = 0 := rfl
    constructor
    · simp only [handler_bytes_subset_iff, VecOp.touched_emplace_back, List.mem_range'_1,
        Nat.zero_le, true_and, Nat.zero_add]
      exact ⟨fun h => Nat.le_of_not_lt fun hlt => Nat.lt_irrefl 16 (h 16 hlt),
        fun h s hs => Nat.lt_of_lt_of_le hs h⟩
    · rw [InterruptProcessor.Register_all_iff hid l _ (by rw [hempty]; exact Nat.zero_le _),
        hempty, Nat.zero_add]
      rfl

/-- A vector of two elements is filled and emptied; and two handlers for vector 32. -/
theorem two_handlers_in_table :
    (∀ s ∈ VecOp.touched 0 [.emplace_back 1, .push_back 2, .resize (α := Nat) 0], s < 2) ∧
    (∀ s ∈ VecOp.touched 0 (["first", "second"].map .emplace_back),
      handler_bytes 32 s ⊆ handler_table 32) ∧
    ∃ p, ["first", "second"].foldlM (fun p handler => p.Register 32 handler)
      (InterruptProcessor.new (fun _ _ => "")) = .ok p := by
  obtain ⟨⟨hbuffer, -⟩, hslots, hregister⟩ := slots_in_buffer_iff Nat String 2 (.zeroed 0) rfl
    [.emplace_back 1, .push_back 2, .resize 0] (fun _ _ => "") 32 (by decide) ["first", "second"]
  refine ⟨hbuffer.mpr ?_, hslots.mpr (by decide), hregister.mpr (by decide)⟩
  simp [VecOp.AllWithin, VecOp.Within, VecOp.next_size]

/-- The handler number 17 for vector 32: it goes to slot 16, which the buffer does not have, and
    lies over the first handler for vector 33. -/
theorem seventeenth_handler_in_next_table :
    16 ∈ VecOp.touched 0 ((List.replicate 17 "handler").map .emplace_back) ∧
    ¬ handler_bytes 32 16 ⊆ handler_table 32 ∧
    ¬ Disjoint (handler_bytes 32 16) (handler_bytes 33 0) := by
  refine ⟨?_, ?_, ?_⟩
  · rw [VecOp.touched_emplace_back, List.length_replicate, List.mem_range'_1]
    omega
  · rw [handler_bytes_subset_iff]
    decide
  · rw [Set.not_disjoint_iff]
    exact ⟨sizeof_Interrupt * 33, ⟨by decide, by decide⟩, ⟨by decide, by decide⟩⟩

end Modern05
