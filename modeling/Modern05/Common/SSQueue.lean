import Modern05.Framework.LTS
import Mathlib.Algebra.Order.Ring.Nat
import Mathlib.Logic.Equiv.Basic

/-! # The queue between two threads

    `SSQueue<T>` in `include/common/kssq.hpp`: a ring of pointers that one producer and one
    consumer share without a lock. An item is passed by swapping a pointer of the caller
    with one of the ring, so that no pointer is ever lost.

    A call has three steps, between which the other side may run: it reads the two indices,
    it swaps the slot and it publishes its index. A call that finds the queue full or empty
    returns false in its first step. Between its calls each side may write to what its own
    pointer points to.

    * `DistinctPointers.exchange`: a swap permutes the pointers.
    * `QueueInv`: how many items have been passed, and where each one is that has been
      accepted and not yet taken.
-/

namespace Modern05

open LTS

/-! ## State -/

structure SSQueue (Ptr : Type) where
  rx_queue_ : Nat → Ptr
  size : Nat
  rx_start_ : Nat
  rx_end_ : Nat

namespace SSQueue

variable {Ptr : Type} (q : SSQueue Ptr)

/-- The index behind the last item, in `enq`. -/
def next : Nat := (q.rx_end_ + 1) % q.size

/-- The queue is empty, in `deq`. -/
def empty : Prop := q.rx_start_ = q.rx_end_

/-- The queue is full, in `enq`. -/
def full : Prop := q.next = q.rx_start_

instance : Decidable q.empty := inferInstanceAs (Decidable (_ = _))
instance : Decidable q.full := inferInstanceAs (Decidable (_ = _))

end SSQueue

/-- Where the producer is in a call of `enq`. The item is the one it was called with. -/
inductive EnqPc (α : Type) where
  | idle
  | swap (next : Nat) (item : α)
  | publish (next : Nat) (item : α)
  deriving DecidableEq

/-- Where the consumer is in a call of `deq`. -/
inductive DeqPc where
  | idle
  | swap
  | publish
  deriving DecidableEq

/-- The queue, what the pointers point to, the pointers of the two sides and where they
    are, and the items of the calls that returned true. -/
structure QueueState (Ptr α : Type) where
  queue : SSQueue Ptr
  mem : Ptr → α
  producer : Ptr
  consumer : Ptr
  enq_pc : EnqPc α
  deq_pc : DeqPc
  enqueued : List α
  dequeued : List α

/-! ## Steps -/

inductive QueueEvent (α : Type) where
  /-- The producer writes the next item. -/
  | refill (item : α)
  | enq_read
  | enq_swap
  | enq_publish
  | deq_read
  | deq_swap
  | deq_publish
  /-- The consumer writes to what it has taken. -/
  | reuse (item : α)

/-- The steps of the producer. -/
def QueueEvent.of_producer {α : Type} : QueueEvent α → Bool
  | .refill _ => true
  | .enq_read => true
  | .enq_swap => true
  | .enq_publish => true
  | _ => false

variable {Ptr α : Type}

/-- A call that returns false in this step. -/
def QueueState.returns_false (s : QueueState Ptr α) : QueueEvent α → Prop
  | .enq_read => s.queue.full
  | .deq_read => s.queue.empty
  | _ => False

section

variable [DecidableEq Ptr]

def QueueState.exec (s : QueueState Ptr α) : QueueEvent α → Option (QueueState Ptr α)
  | .refill item =>
    match s.enq_pc with
    | .idle => some { s with mem := Function.update s.mem s.producer item }
    | _ => none
  | .enq_read =>
    match s.enq_pc with
    | .idle =>
      if s.queue.full then some s
      else some { s with enq_pc := .swap s.queue.next (s.mem s.producer) }
    | _ => none
  | .enq_swap =>
    match s.enq_pc with
    | .swap next item =>
      let slot := s.queue.rx_queue_ s.queue.rx_end_
      let rx_queue_ := Function.update s.queue.rx_queue_ s.queue.rx_end_ s.producer
      some { s with
        queue := { s.queue with rx_queue_ := rx_queue_ }
        producer := slot
        enq_pc := .publish next item }
    | _ => none
  | .enq_publish =>
    match s.enq_pc with
    | .publish next item =>
      some { s with
        queue := { s.queue with rx_end_ := next }
        enq_pc := .idle
        enqueued := s.enqueued ++ [item] }
    | _ => none
  | .deq_read =>
    match s.deq_pc with
    | .idle => if s.queue.empty then some s else some { s with deq_pc := .swap }
    | _ => none
  | .deq_swap =>
    match s.deq_pc with
    | .swap =>
      let slot := s.queue.rx_queue_ s.queue.rx_start_
      let rx_queue_ := Function.update s.queue.rx_queue_ s.queue.rx_start_ s.consumer
      some { s with
        queue := { s.queue with rx_queue_ := rx_queue_ }
        consumer := slot
        deq_pc := .publish }
    | _ => none
  | .deq_publish =>
    match s.deq_pc with
    | .publish =>
      some { s with
        queue := { s.queue with rx_start_ := (s.queue.rx_start_ + 1) % s.queue.size }
        deq_pc := .idle
        dequeued := s.dequeued ++ [s.mem s.consumer] }
    | _ => none
  | .reuse item =>
    match s.deq_pc with
    | .idle => some { s with mem := Function.update s.mem s.consumer item }
    | _ => none

end

/-! ## Pointers -/

/-- The places that hold a pointer. -/
inductive QueuePlace where
  | slot (i : Nat)
  | producer
  | consumer
  deriving DecidableEq

/-- The places of a queue with `n` slots and its two users. -/
def QueuePlace.valid (n : Nat) : QueuePlace → Prop
  | .slot i => i < n
  | .producer => True
  | .consumer => True

def QueueState.pointer (s : QueueState Ptr α) : QueuePlace → Ptr
  | .slot i => s.queue.rx_queue_ i
  | .producer => s.producer
  | .consumer => s.consumer

/-- The `n + 2` pointers are pairwise distinct. -/
def DistinctPointers (n : Nat) (s : QueueState Ptr α) : Prop :=
  ∀ p q, p.valid n → q.valid n → s.pointer p = s.pointer q → p = q

/-- A queue of `n` slots with nothing in it. -/
def queue_system (Ptr α : Type) [DecidableEq Ptr] (n : Nat) :
    System (QueueState Ptr α) (QueueEvent α) where
  init := fun s => s.queue.size = n ∧ s.queue.rx_start_ = 0 ∧ s.queue.rx_end_ = 0 ∧
    s.enq_pc = .idle ∧ s.deq_pc = .idle ∧ s.enqueued = [] ∧ s.dequeued = [] ∧ DistinctPointers n s
  step := fun s e s' => s.exec e = some s'

/-- Exchanging the pointers of two places keeps them distinct. -/
theorem DistinctPointers.exchange {n : Nat} {s s' : QueueState Ptr α}
    (h : DistinctPointers n s) {a b : QueuePlace} (ha : a.valid n) (hb : b.valid n)
    (hs' : ∀ p, s'.pointer p = s.pointer (Equiv.swap a b p)) :
    DistinctPointers n s' := by
  have hvalid : ∀ p : QueuePlace, p.valid n → (Equiv.swap a b p).valid n := by
    intro p hp
    by_cases hpa : p = a
    · rwa [hpa, Equiv.swap_apply_left]
    · by_cases hpb : p = b
      · rwa [hpb, Equiv.swap_apply_right]
      · rwa [Equiv.swap_apply_of_ne_of_ne hpa hpb]
  intro p q hp hq heq
  rw [hs', hs'] at heq
  exact (Equiv.swap a b).injective (h _ _ (hvalid p hp) (hvalid q hq) heq)

/-! ## The invariant -/

/-- Where the item number `j` is: in its slot, or already with the consumer. -/
def QueueState.holder (s : QueueState Ptr α) (j : Nat) : QueuePlace :=
  if s.deq_pc = .publish ∧ j = s.dequeued.length then .consumer else .slot (j % s.queue.size)

/-- What has been accepted and not yet taken is where it belongs. -/
def Items (s : QueueState Ptr α) : Prop :=
  ∀ j, s.dequeued.length ≤ j → j < s.enqueued.length →
    s.enqueued[j]? = some (s.mem (s.pointer (s.holder j)))

structure QueueInv (n : Nat) (s : QueueState Ptr α) : Prop where
  size : s.queue.size = n
  start_eq : s.queue.rx_start_ = s.dequeued.length % n
  end_eq : s.queue.rx_end_ = s.enqueued.length % n
  le : s.dequeued.length ≤ s.enqueued.length
  room : s.enqueued.length < s.dequeued.length + n
  taken : s.dequeued = s.enqueued.take s.dequeued.length
  distinct : DistinctPointers n s
  items : Items s
  enq_swap : ∀ next item, s.enq_pc = .swap next item →
    next = (s.enqueued.length + 1) % n ∧ s.enqueued.length + 1 < s.dequeued.length + n ∧
      s.mem s.producer = item
  enq_publish : ∀ next item, s.enq_pc = .publish next item →
    next = (s.enqueued.length + 1) % n ∧ s.enqueued.length + 1 < s.dequeued.length + n ∧
      s.mem (s.queue.rx_queue_ (s.enqueued.length % n)) = item
  deq_swap : s.deq_pc ≠ .idle → s.dequeued.length < s.enqueued.length

/-- Indices are different in a window of `n` numbers. -/
theorem eq_of_mod_eq {n h i j : Nat} (hi : h ≤ i) (hi' : i < h + n) (hj : h ≤ j)
    (hj' : j < h + n) (heq : i % n = j % n) : i = j := by
  have hle : ∀ a b, h ≤ a → b < h + n → a ≤ b → a % n = b % n → a = b := by
    intro a b ha hb hab hmod
    have hzero : (b - a) % n = 0 := Nat.sub_mod_eq_zero_of_mod_eq hmod.symm
    rw [Nat.mod_eq_of_lt (by omega)] at hzero
    omega
  rcases Nat.le_total i j with hij | hij
  · exact hle i j hi hj' hij heq
  · exact (hle j i hj hi' hij heq.symm).symm

section

variable {n : Nat} {s s' : QueueState Ptr α}

theorem holder_valid (hn : 0 < n) (hs : QueueInv n s) (j : Nat) : (s.holder j).valid n := by
  unfold QueueState.holder
  split
  · trivial
  · rw [hs.size]
    exact Nat.mod_lt _ hn

theorem holder_ne_producer (j : Nat) : s.holder j ≠ .producer := by
  unfold QueueState.holder
  split <;> simp

/-- The slots that are not in use hold no item. -/
theorem holder_ne_slot (hs : QueueInv n s) {i j : Nat} (hj : s.dequeued.length ≤ j)
    (hj' : j < s.enqueued.length) (hi : s.enqueued.length ≤ i)
    (hi' : i < s.dequeued.length + n) : s.holder j ≠ .slot (i % n) := by
  unfold QueueState.holder
  split
  · simp
  · rw [hs.size]
    intro heq
    have hmod : j % n = i % n := QueuePlace.slot.inj heq
    have hji := eq_of_mod_eq hj (by omega) (by omega) hi' hmod
    omega

theorem queue_next (hs : QueueInv n s) : s.queue.next = (s.enqueued.length + 1) % n := by
  rw [SSQueue.next, hs.size, hs.end_eq, Nat.mod_add_mod]

theorem room_of_not_full (hs : QueueInv n s) (hfull : ¬s.queue.full) :
    s.enqueued.length + 1 < s.dequeued.length + n := by
  have hroom := hs.room
  by_contra hge
  apply hfull
  rw [SSQueue.full, queue_next hs, hs.start_eq,
    show s.enqueued.length + 1 = s.dequeued.length + n by omega, Nat.add_mod_right]

theorem lt_of_not_empty (hs : QueueInv n s) (hempty : ¬s.queue.empty) :
    s.dequeued.length < s.enqueued.length := by
  have hle := hs.le
  by_contra hge
  apply hempty
  rw [SSQueue.empty, hs.start_eq, hs.end_eq,
    show s.dequeued.length = s.enqueued.length by omega]

/-! ## Steps keep the invariant -/

theorem QueueInv.refill [DecidableEq Ptr] (hn : 0 < n) (hs : QueueInv n s)
    (hpc : s.enq_pc = .idle) (item : α) :
    QueueInv n { s with mem := Function.update s.mem s.producer item } := by
  refine ⟨hs.size, hs.start_eq, hs.end_eq, hs.le, hs.room, hs.taken, hs.distinct, ?_, ?_, ?_,
    hs.deq_swap⟩
  · intro j hj hj'
    have hne : s.pointer (s.holder j) ≠ s.producer := fun heq =>
      holder_ne_producer j (hs.distinct _ .producer (holder_valid hn hs j) trivial heq)
    show s.enqueued[j]? = some (Function.update s.mem s.producer item (s.pointer (s.holder j)))
    rw [Function.update_of_ne hne]
    exact hs.items j hj hj'
  · intro next item hswap
    simp [hpc] at hswap
  · intro next item hpublish
    simp [hpc] at hpublish

theorem QueueInv.reuse [DecidableEq Ptr] (hn : 0 < n) (hs : QueueInv n s)
    (hpc : s.deq_pc = .idle) (item : α) :
    QueueInv n { s with mem := Function.update s.mem s.consumer item } := by
  have hslot : ∀ p : QueuePlace, p.valid n → p ≠ .consumer →
      Function.update s.mem s.consumer item (s.pointer p) = s.mem (s.pointer p) := by
    intro p hp hne
    exact Function.update_of_ne (fun heq => hne (hs.distinct p .consumer hp trivial heq)) _ _
  refine ⟨hs.size, hs.start_eq, hs.end_eq, hs.le, hs.room, hs.taken, hs.distinct, ?_, ?_, ?_,
    hs.deq_swap⟩
  · intro j hj hj'
    have hne : s.holder j ≠ .consumer := by simp [QueueState.holder, hpc]
    show s.enqueued[j]? = some (Function.update s.mem s.consumer item (s.pointer (s.holder j)))
    rw [hslot _ (holder_valid hn hs j) hne]
    exact hs.items j hj hj'
  · intro next item' hswap
    obtain ⟨hnext, hroom, hitem⟩ := hs.enq_swap next item' hswap
    exact ⟨hnext, hroom, (hslot .producer trivial (by simp)).trans hitem⟩
  · intro next item' hpublish
    obtain ⟨hnext, hroom, hitem⟩ := hs.enq_publish next item' hpublish
    exact ⟨hnext, hroom,
      (hslot (.slot _) (Nat.mod_lt _ hn) (by simp)).trans hitem⟩

theorem QueueInv.enq_read (hs : QueueInv n s) (hfull : ¬s.queue.full) :
    QueueInv n { s with enq_pc := .swap s.queue.next (s.mem s.producer) } := by
  have hnext := queue_next hs
  have hroom := room_of_not_full hs hfull
  refine ⟨hs.size, hs.start_eq, hs.end_eq, hs.le, hs.room, hs.taken, hs.distinct, hs.items, ?_,
    ?_, hs.deq_swap⟩
  · intro next item hswap
    cases hswap
    exact ⟨hnext, hroom, rfl⟩
  · intro next item hpublish
    cases hpublish

theorem QueueInv.enq_swap_step (hn : 0 < n) (hs : QueueInv n s) {next : Nat} {item : α}
    (hpc : s.enq_pc = .swap next item) {rx_queue_ : Nat → Ptr}
    (hslots : rx_queue_ = Function.update s.queue.rx_queue_ s.queue.rx_end_ s.producer) :
    QueueInv n { s with
      queue := { s.queue with rx_queue_ := rx_queue_ }
      producer := s.queue.rx_queue_ s.queue.rx_end_
      enq_pc := .publish next item } := by
  obtain ⟨hnext, hroom, hitem⟩ := hs.enq_swap next item hpc
  have hend := hs.end_eq
  have hpointer : ∀ p, QueueState.pointer { s with
      queue := { s.queue with rx_queue_ := rx_queue_ }
      producer := s.queue.rx_queue_ s.queue.rx_end_
      enq_pc := .publish next item } p =
        s.pointer (Equiv.swap (.slot (s.enqueued.length % n)) .producer p) := by
    intro p
    cases p with
    | slot i =>
      by_cases hi : i = s.enqueued.length % n
      · simp [QueueState.pointer, hslots, hend, hi]
      · rw [Equiv.swap_apply_of_ne_of_ne (by simpa using hi) (by simp)]
        simp [QueueState.pointer, hslots, hend, hi]
    | producer => simp [QueueState.pointer, hend]
    | consumer =>
      rw [Equiv.swap_apply_of_ne_of_ne (by simp) (by simp)]
      rfl
  refine ⟨hs.size, hs.start_eq, hs.end_eq, hs.le, hs.room, hs.taken,
    hs.distinct.exchange (b := .producer) (Nat.mod_lt _ hn) trivial hpointer, ?_, ?_, ?_,
    hs.deq_swap⟩
  · intro j hj hj'
    have hne := holder_ne_slot hs hj hj' (Nat.le_refl _) (by omega)
    refine (hs.items j hj hj').trans (congrArg (fun p => some (s.mem p)) ?_)
    refine Eq.trans ?_ (hpointer (s.holder j)).symm
    rw [Equiv.swap_apply_of_ne_of_ne hne (holder_ne_producer j)]
  · intro next' item' hswap
    cases hswap
  · intro next' item' hpublish
    cases hpublish
    refine ⟨hnext, hroom, ?_⟩
    simp [hslots, hend, hitem]

theorem QueueInv.enq_publish_step (hs : QueueInv n s) {next : Nat} {item : α}
    (hpc : s.enq_pc = .publish next item) :
    QueueInv n { s with
      queue := { s.queue with rx_end_ := next }
      enq_pc := .idle
      enqueued := s.enqueued ++ [item] } := by
  obtain ⟨hnext, hroom, hitem⟩ := hs.enq_publish next item hpc
  have hle := hs.le
  have hlength : (s.enqueued ++ [item]).length = s.enqueued.length + 1 := by simp
  refine ⟨hs.size, hs.start_eq, ?_, ?_, ?_, ?_, hs.distinct, ?_, ?_, ?_, ?_⟩
  · show next = (s.enqueued ++ [item]).length % n
    rw [hlength, hnext]
  · show s.dequeued.length ≤ (s.enqueued ++ [item]).length
    omega
  · show (s.enqueued ++ [item]).length < s.dequeued.length + n
    omega
  · show s.dequeued = (s.enqueued ++ [item]).take s.dequeued.length
    rw [List.take_append_of_le_length hle]
    exact hs.taken
  · intro j hj hj'
    have hj' : j < (s.enqueued ++ [item]).length := hj'
    show (s.enqueued ++ [item])[j]? = some (s.mem (s.pointer (s.holder j)))
    by_cases hlast : j < s.enqueued.length
    · rw [List.getElem?_append_left hlast]
      exact hs.items j hj hlast
    · -- the new item is in the slot that was swapped
      obtain rfl : j = s.enqueued.length := by omega
      have hslot : s.holder s.enqueued.length = .slot (s.enqueued.length % n) := by
        rw [QueueState.holder, if_neg, hs.size]
        rintro ⟨hpublish, heq⟩
        have hlt := hs.deq_swap (by rw [hpublish]; simp)
        omega
      rw [hslot]
      simp [QueueState.pointer, hitem]
  · intro next' item' hswap
    cases hswap
  · intro next' item' hpublish
    cases hpublish
  · intro hbusy
    have hlt := hs.deq_swap hbusy
    show s.dequeued.length < (s.enqueued ++ [item]).length
    omega

theorem QueueInv.deq_read (hs : QueueInv n s) (hpc : s.deq_pc = .idle) (hempty : ¬s.queue.empty) :
    QueueInv n { s with deq_pc := .swap } := by
  have hlt := lt_of_not_empty hs hempty
  refine ⟨hs.size, hs.start_eq, hs.end_eq, hs.le, hs.room, hs.taken, hs.distinct, ?_,
    hs.enq_swap, hs.enq_publish, fun _ => hlt⟩
  intro j hj hj'
  have hitem := hs.items j hj hj'
  simpa [QueueState.holder, hpc, QueueState.pointer] using hitem

theorem QueueInv.deq_swap_step (hn : 0 < n) (hs : QueueInv n s) (hpc : s.deq_pc = .swap)
    {rx_queue_ : Nat → Ptr}
    (hslots : rx_queue_ = Function.update s.queue.rx_queue_ s.queue.rx_start_ s.consumer) :
    QueueInv n { s with
      queue := { s.queue with rx_queue_ := rx_queue_ }
      consumer := s.queue.rx_queue_ s.queue.rx_start_
      deq_pc := .publish } := by
  have hlt := hs.deq_swap (by rw [hpc]; simp)
  have hroom := hs.room
  have hstart := hs.start_eq
  have hpointer : ∀ p, QueueState.pointer { s with
      queue := { s.queue with rx_queue_ := rx_queue_ }
      consumer := s.queue.rx_queue_ s.queue.rx_start_
      deq_pc := .publish } p =
        s.pointer (Equiv.swap (.slot (s.dequeued.length % n)) .consumer p) := by
    intro p
    cases p with
    | slot i =>
      by_cases hi : i = s.dequeued.length % n
      · simp [QueueState.pointer, hslots, hstart, hi]
      · rw [Equiv.swap_apply_of_ne_of_ne (by simpa using hi) (by simp)]
        simp [QueueState.pointer, hslots, hstart, hi]
    | producer =>
      rw [Equiv.swap_apply_of_ne_of_ne (by simp) (by simp)]
      rfl
    | consumer => simp [QueueState.pointer, hstart]
  -- the other slots in use are not touched
  have hother : ∀ j, s.dequeued.length < j → j < s.dequeued.length + n →
      j % n ≠ s.dequeued.length % n := by
    intro j hj hj' heq
    have := eq_of_mod_eq (by omega) hj' (Nat.le_refl _) (by omega) heq
    omega
  refine ⟨hs.size, hs.start_eq, hs.end_eq, hs.le, hs.room, hs.taken,
    hs.distinct.exchange (b := .consumer) (Nat.mod_lt _ hn) trivial hpointer, ?_, ?_, ?_,
    fun _ => hlt⟩
  · intro j hj hj'
    have hj : s.dequeued.length ≤ j := hj
    have hj' : j < s.enqueued.length := hj'
    have hitem := hs.items j hj hj'
    have hold : s.holder j = .slot (j % n) := by simp [QueueState.holder, hpc, hs.size]
    rw [hold] at hitem
    refine hitem.trans (congrArg (fun p => some (s.mem p)) ?_)
    refine Eq.trans ?_ (hpointer _).symm
    by_cases hfirst : j = s.dequeued.length
    · simp [QueueState.holder, hfirst]
    · have hne := hother j (by omega) (by omega)
      simp only [QueueState.holder, hfirst, and_false, if_false, hs.size]
      rw [Equiv.swap_apply_of_ne_of_ne (by simpa using hne) (by simp)]
  · intro next item hswap
    exact hs.enq_swap next item hswap
  · intro next item hpublish
    obtain ⟨hnext, hspace, hitem⟩ := hs.enq_publish next item hpublish
    refine ⟨hnext, hspace, ?_⟩
    have hne := hother s.enqueued.length hlt hroom
    simp [hslots, hstart, hne, hitem]

theorem QueueInv.deq_publish_step (hs : QueueInv n s) (hpc : s.deq_pc = .publish) :
    QueueInv n { s with
      queue := { s.queue with rx_start_ := (s.queue.rx_start_ + 1) % s.queue.size }
      deq_pc := .idle
      dequeued := s.dequeued ++ [s.mem s.consumer] } := by
  have hlt := hs.deq_swap (by rw [hpc]; simp)
  have hroom := hs.room
  have hlength : (s.dequeued ++ [s.mem s.consumer]).length = s.dequeued.length + 1 := by simp
  have hfirst : s.enqueued[s.dequeued.length]? = some (s.mem s.consumer) := by
    have hitem := hs.items s.dequeued.length (Nat.le_refl _) hlt
    simpa [QueueState.holder, hpc, QueueState.pointer] using hitem
  refine ⟨hs.size, ?_, hs.end_eq, ?_, ?_, ?_, hs.distinct, ?_, ?_, ?_, fun hbusy => ?_⟩
  · show (s.queue.rx_start_ + 1) % s.queue.size = (s.dequeued ++ [s.mem s.consumer]).length % n
    rw [hlength, hs.size, hs.start_eq, Nat.mod_add_mod]
  · show (s.dequeued ++ [s.mem s.consumer]).length ≤ s.enqueued.length
    omega
  · show s.enqueued.length < (s.dequeued ++ [s.mem s.consumer]).length + n
    omega
  · show s.dequeued ++ [s.mem s.consumer] =
      s.enqueued.take (s.dequeued ++ [s.mem s.consumer]).length
    rw [hlength, List.take_add_one, hfirst, ← hs.taken]
    rfl
  · intro j hj hj'
    have hj : (s.dequeued ++ [s.mem s.consumer]).length ≤ j := hj
    have hitem := hs.items j (by omega) hj'
    have hne : j ≠ s.dequeued.length := by omega
    simpa [QueueState.holder, hpc, hne, QueueState.pointer] using hitem
  · intro next item hswap
    obtain ⟨hnext, hspace, hitem⟩ := hs.enq_swap next item hswap
    refine ⟨hnext, ?_, hitem⟩
    show s.enqueued.length + 1 < (s.dequeued ++ [s.mem s.consumer]).length + n
    omega
  · intro next item hpublish
    obtain ⟨hnext, hspace, hitem⟩ := hs.enq_publish next item hpublish
    refine ⟨hnext, ?_, hitem⟩
    show s.enqueued.length + 1 < (s.dequeued ++ [s.mem s.consumer]).length + n
    omega
  · exact absurd rfl hbusy

/-- **Every step keeps the invariant.** -/
theorem QueueInv.step [DecidableEq Ptr] (hn : 0 < n) (hs : QueueInv n s) {e : QueueEvent α}
    (h : s.exec e = some s') : QueueInv n s' := by
  cases e with
  | refill item =>
    dsimp only [QueueState.exec] at h
    split at h
    · next hpc =>
      cases h
      exact hs.refill hn hpc item
    · cases h
  | enq_read =>
    dsimp only [QueueState.exec] at h
    split at h
    · split at h
      · cases h
        exact hs
      · next hfull =>
        cases h
        exact hs.enq_read hfull
    · cases h
  | enq_swap =>
    dsimp only [QueueState.exec] at h
    split at h
    · next hpc =>
      cases h
      exact hs.enq_swap_step hn hpc rfl
    · cases h
  | enq_publish =>
    dsimp only [QueueState.exec] at h
    split at h
    · next hpc =>
      cases h
      exact hs.enq_publish_step hpc
    · cases h
  | deq_read =>
    dsimp only [QueueState.exec] at h
    split at h
    · next hpc =>
      split at h
      · cases h
        exact hs
      · next hempty =>
        cases h
        exact hs.deq_read hpc hempty
    · cases h
  | deq_swap =>
    dsimp only [QueueState.exec] at h
    split at h
    · next hpc =>
      cases h
      exact hs.deq_swap_step hn hpc rfl
    · cases h
  | deq_publish =>
    dsimp only [QueueState.exec] at h
    split at h
    · next hpc =>
      cases h
      exact hs.deq_publish_step hpc
    · cases h
  | reuse item =>
    dsimp only [QueueState.exec] at h
    split at h
    · next hpc =>
      cases h
      exact hs.reuse hn hpc item
    · cases h

theorem queueInv_init (hn : 0 < n) [DecidableEq Ptr] (h : (queue_system Ptr α n).init s) :
    QueueInv n s := by
  obtain ⟨hsize, hstart, hend, henq, hdeq, henqueued, hdequeued, hdistinct⟩ := h
  refine ⟨hsize, ?_, ?_, ?_, ?_, ?_, hdistinct, ?_, ?_, ?_, ?_⟩
  · simp [hstart, hdequeued]
  · simp [hend, henqueued]
  · simp [henqueued, hdequeued]
  · simpa [henqueued, hdequeued] using hn
  · simp [henqueued, hdequeued]
  · intro j _ hj
    simp [henqueued] at hj
  · intro next item hswap
    simp [henq] at hswap
  · intro next item hpublish
    simp [henq] at hpublish
  · intro hbusy
    exact absurd hdeq hbusy

theorem queueInv_of_reachable [DecidableEq Ptr] (hn : 0 < n) :
    ∀ s, Reachable (queue_system Ptr α n) s → QueueInv n s :=
  invariant_of_step (fun _ h => queueInv_init hn h) (fun _ _ _ _ hs h => hs.step hn h)

/-- The consumer does not notice a step of the producer. -/
theorem QueueInv.producer_frame [DecidableEq Ptr] (hs : QueueInv n s) {e : QueueEvent α}
    (he : e.of_producer = true) (h : s.exec e = some s') :
    s'.consumer = s.consumer ∧ s'.mem s.consumer = s.mem s.consumer ∧
      s'.dequeued = s.dequeued ∧ s'.deq_pc = s.deq_pc := by
  cases e with
  | refill item =>
    dsimp only [QueueState.exec] at h
    split at h
    · cases h
      have hne : s.consumer ≠ s.producer := fun heq =>
        absurd (hs.distinct .consumer .producer trivial trivial heq) (by simp)
      exact ⟨rfl, Function.update_of_ne hne item s.mem, rfl, rfl⟩
    · cases h
  | enq_read =>
    dsimp only [QueueState.exec] at h
    split at h
    · split at h
      · cases h
        exact ⟨rfl, rfl, rfl, rfl⟩
      · cases h
        exact ⟨rfl, rfl, rfl, rfl⟩
    · cases h
  | enq_swap | enq_publish =>
    dsimp only [QueueState.exec] at h
    split at h
    · cases h
      exact ⟨rfl, rfl, rfl, rfl⟩
    · cases h
  | deq_read | deq_swap | deq_publish | reuse => cases he

theorem exec_of_returns_false [DecidableEq Ptr] {e : QueueEvent α} (hfalse : s.returns_false e)
    (h : s.exec e = some s') : s' = s := by
  cases e with
  | enq_read =>
    have hfull : s.queue.full := hfalse
    dsimp only [QueueState.exec] at h
    split at h
    · rw [if_pos hfull] at h
      exact (Option.some.inj h).symm
    · cases h
  | deq_read =>
    have hempty : s.queue.empty := hfalse
    dsimp only [QueueState.exec] at h
    split at h
    · rw [if_pos hempty] at h
      exact (Option.some.inj h).symm
    · cases h
  | refill | enq_swap | enq_publish | deq_swap | deq_publish | reuse => cases hfalse

/-- **The queue delivers every accepted item once, in order and unmodified**, holds at most
    `n - 1` items, keeps its pointers distinct, and a call that returns false changes
    nothing. -/
theorem ssqueue_delivers (Ptr α : Type) [DecidableEq Ptr] (n : Nat) (hn : 2 ≤ n)
    (s : QueueState Ptr α) (hs : Reachable (queue_system Ptr α n) s) :
    s.dequeued <+: s.enqueued ∧ s.enqueued.length - s.dequeued.length ≤ n - 1 ∧
      DistinctPointers n s ∧
      ∀ e s', (queue_system Ptr α n).step s e s' → s.returns_false e → s' = s := by
  have hinv := queueInv_of_reachable (by omega) s hs
  refine ⟨?_, ?_, hinv.distinct, fun e s' hstep hfalse => exec_of_returns_false hfalse hstep⟩
  · rw [hinv.taken]
    exact List.take_prefix _ _
  · have hroom := hinv.room
    omega

/-- Packets that are numbered by their places. -/
theorem distinctPointers_numbered {α : Type} {n : Nat} {s : QueueState Nat α}
    (hslots : s.queue.rx_queue_ = id) (hproducer : s.producer = n)
    (hconsumer : s.consumer = n + 1) : DistinctPointers n s := by
  have hslot : ∀ i, QueuePlace.valid n (.slot i) → s.pointer (.slot i) = i ∧ i < n := by
    intro i hi
    refine ⟨?_, hi⟩
    rw [QueueState.pointer, hslots]
    rfl
  have hproducer : s.pointer .producer = n := hproducer
  have hconsumer : s.pointer .consumer = n + 1 := hconsumer
  intro p q hp hq heq
  cases p with
  | slot i =>
    obtain ⟨hi, hlt⟩ := hslot i hp
    cases q with
    | slot j =>
      rw [hi, (hslot j hq).1] at heq
      rw [heq]
    | producer => omega
    | consumer => omega
  | producer =>
    cases q with
    | slot j =>
      have hj := hslot j hq
      omega
    | producer => rfl
    | consumer => omega
  | consumer =>
    cases q with
    | slot j =>
      have hj := hslot j hq
      omega
    | producer => omega
    | consumer => rfl

/-- A queue with two slots. -/
def two_slots : QueueState Nat Nat := ⟨⟨id, 2, 0, 0⟩, fun _ => 0, 2, 3, .idle, .idle, [], []⟩

/-- Two items are passed through a queue with two slots, and the second call of `enq` meets a
    full queue at first. -/
theorem two_slots_deliver : ∃ s : QueueState Nat Nat, Reachable (queue_system Nat Nat 2) s ∧
    s.enqueued = [7, 8] ∧ s.dequeued = [7] ∧ s.dequeued <+: s.enqueued ∧
    DistinctPointers 2 s := by
  have hdistinct : DistinctPointers 2 two_slots := distinctPointers_numbered rfl rfl rfl
  have hstart : Reachable (queue_system Nat Nat 2) two_slots :=
    .init ⟨rfl, rfl, rfl, rfl, rfl, rfl, rfl, hdistinct⟩
  have hrun : (([.refill 7, .enq_read, .enq_swap, .enq_publish, .deq_read, .refill 8, .enq_read,
      .deq_swap, .deq_publish, .enq_read, .enq_swap, .enq_publish].foldlM
        QueueState.exec two_slots).map (fun s => (s.enqueued, s.dequeued))) =
      some ([7, 8], [7]) := by decide +kernel
  obtain ⟨s, hs, hlogs⟩ := Option.map_eq_some_iff.mp hrun
  obtain ⟨henqueued, hdequeued⟩ := Prod.mk.inj hlogs
  have hs := hstart.foldlM (fun _ _ _ he => he) hs
  obtain ⟨hdelivered, -, hdist, -⟩ := ssqueue_delivers Nat Nat 2 (Nat.le_refl _) s hs
  exact ⟨s, hs, henqueued, hdequeued, hdelivered, hdist⟩

end

end Modern05
