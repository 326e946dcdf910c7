import Mathlib.Data.List.Range
import Modern05.Framework.LTS
import Modern05.Framework.Path
import Modern05.Lib.Utils

/-! # The allocator of blocks of one size

    The template `FixedBlockAllocator` in `include/mm/fixed_block_allocator.h`. The free blocks
    are on a list that is threaded through the blocks themselves; its last block, `tail`, is
    never handed out. A block that is in use belongs to its owner, who may write its link.

    A block is its index in `buffer`, a pointer is `none` for null. Of a block only the link is
    modelled.

    * `OwnedBlocks`: the free list and the blocks in use are all blocks, without repetition.
    * `OwnedBlocks.create_cases`: a call hands out the first free block, or none if there is only
      the last one.
    * `blocks_have_one_owner`: what holds after every sequence of calls.
-/

namespace Modern05

open Linked LTS

/-! ## The allocator -/

structure FixedBlockAllocator where
  max_size : Nat
  head : Option Nat
  tail : Option Nat
  /-- The link of each block of the buffer. -/
  next_ptr : Nat → Option Nat

namespace FixedBlockAllocator

/-- The loop of the constructor, with the links and `last`. -/
def link_blocks (links : Nat → Option Nat) (max_size : Nat) : (Nat → Option Nat) × Nat :=
  (List.range' 1 (max_size - 1)).foldl
    (fun s i => (Function.update s.1 s.2 (some i), i)) (links, 0)

/-- The constructor, on a buffer with any links. -/
def init (links : Nat → Option Nat) (max_size : Nat) : Except Fault FixedBlockAllocator :=
  if max_size = 0 then .error (.panic "FixedBlockAllocator max_size must > 0")
  else
    .ok {
      max_size
      head := some 0
      tail := some (max_size - 1)
      next_ptr := Function.update (link_blocks links max_size).1 (max_size - 1) none }

/-- The block that is handed out, or null, and the allocator afterwards. -/
def allocate (a : FixedBlockAllocator) : Except Fault (Option Nat × FixedBlockAllocator) :=
  -- head == tail for empty list
  if a.head = a.tail then .ok (none, a)
  else
    match a.head with
    | none => .error .null_deref
    | some old_head =>
      let new_head := a.next_ptr old_head
      .ok (some old_head,
        { a with next_ptr := Function.update a.next_ptr old_head none, head := new_head })

/-- The same, and the constructor of `T` then leaves `link` in the block. -/
def create (link : Option Nat) (a : FixedBlockAllocator) :
    Except Fault (Option Nat × FixedBlockAllocator) :=
  match a.allocate with
  | .error e => .error e
  | .ok (none, a) => .ok (none, a)
  | .ok (some ret, a) =>
    .ok (some ret, { a with next_ptr := Function.update a.next_ptr ret link })

def free (p : Option Nat) (a : FixedBlockAllocator) : Except Fault FixedBlockAllocator :=
  match p with
  | none => .error .null_deref
  | some new_head =>
    .ok { a with next_ptr := Function.update a.next_ptr new_head a.head, head := some new_head }

/-- `allocate` leaves null in the block. -/
theorem create_none (a : FixedBlockAllocator) : a.create none = a.allocate := by
  unfold create allocate
  by_cases heq : a.head = a.tail
  · rw [if_pos heq]
  · rw [if_neg heq]
    cases a.head with
    | none => rfl
    | some old_head => simp only [Function.update_idem]

end FixedBlockAllocator

/-! ## Owners -/

/-- The allocator, and the blocks in use. -/
structure BlockState where
  allocator : FixedBlockAllocator
  outstanding : List Nat

inductive BlockCall where
  | allocate
  | create (link : Option Nat)
  | free (p : Nat)
  /-- The owner of a block writes its link. -/
  | write (p : Nat) (link : Option Nat)

namespace BlockCall

/-- Only blocks in use are freed and written. -/
def Valid (s : BlockState) : BlockCall → Prop
  | allocate | create _ => True
  | free p | write p _ => p ∈ s.outstanding

def exec (s : BlockState) : BlockCall → Except Fault BlockState
  | allocate => do
    let r ← s.allocator.allocate
    return ⟨r.2, r.1.toList ++ s.outstanding⟩
  | create link => do
    let r ← s.allocator.create link
    return ⟨r.2, r.1.toList ++ s.outstanding⟩
  | free p => do
    let a ← s.allocator.free (some p)
    return ⟨a, s.outstanding.erase p⟩
  | write p link =>
    .ok { s with
      allocator.next_ptr := Function.update s.allocator.next_ptr p link }

end BlockCall

/-- All sequences of calls after the constructor, for `n` blocks. -/
def block_system (n : Nat) : System BlockState BlockCall where
  init := fun s =>
    (∃ links, FixedBlockAllocator.init links n = .ok s.allocator) ∧ s.outstanding = []
  step := fun s c s' => c.Valid s ∧ c.exec s = .ok s'

/-! ## The invariant -/

/-- The free list and the blocks in use are all blocks, each of them once. -/
structure OwnedBlocks (n : Nat) (s : BlockState) (free : List Nat) : Prop where
  path : Path s.allocator.next_ptr s.allocator.head s.allocator.tail free
  tail : s.allocator.tail = some (n - 1)
  perm : (free ++ s.outstanding).Perm (List.range n)

namespace OwnedBlocks

open FixedBlockAllocator

variable {n : Nat} {s : BlockState} {free : List Nat}

theorem ne_nil (h : OwnedBlocks n s free) : free ≠ [] := by
  intro hnil
  have hlast := h.path.last
  rw [h.tail, hnil] at hlast
  cases hlast

theorem nodup (h : OwnedBlocks n s free) : (free ++ s.outstanding).Nodup :=
  h.perm.nodup_iff.mpr List.nodup_range

theorem notMem_free (h : OwnedBlocks n s free) {p : Nat} (hp : p ∈ s.outstanding) : p ∉ free :=
  fun hfree => (List.nodup_append.mp h.nodup).2.2 p hfree p hp rfl

theorem mem_free_iff (h : OwnedBlocks n s free) (b : Nat) :
    b ∈ free ↔ b < n ∧ b ∉ s.outstanding := by
  rw [← List.mem_range, ← h.perm.mem_iff, List.mem_append]
  constructor
  · intro hfree
    exact ⟨.inl hfree, fun hout => h.notMem_free hout hfree⟩
  · intro ⟨hmem, hout⟩
    exact hmem.resolve_right hout

/-- The last block of the list is not in use. -/
theorem ne_tail (h : OwnedBlocks n s free) {p : Nat} (hp : p ∈ s.outstanding) :
    some p ≠ s.allocator.tail := by
  intro htail
  exact h.notMem_free hp (List.mem_of_getLast? (h.path.last.symm.trans htail.symm))

theorem length (h : OwnedBlocks n s free) : free.length + s.outstanding.length = n := by
  rw [← List.length_append, h.perm.length_eq, List.length_range]

/-- Only the last block is left when all others are in use. -/
theorem head_eq_tail_iff (h : OwnedBlocks n s free) :
    s.allocator.head = s.allocator.tail ↔ s.outstanding.length = n - 1 := by
  have hlength := h.length
  have hpos := List.length_pos_iff.mpr h.ne_nil
  rw [h.path.head_eq_tail_iff h.ne_nil]
  omega

/-- The first block of the list changes hands, and its link becomes anything. -/
theorem take {b : Nat} (h : OwnedBlocks n s free) (hhead : s.allocator.head = some b)
    (hne : s.allocator.head ≠ s.allocator.tail) (link : Option Nat) :
    ∃ free', OwnedBlocks n
      ⟨{ s.allocator with
          next_ptr := Function.update s.allocator.next_ptr b link
          head := s.allocator.next_ptr b }, b :: s.outstanding⟩ free' := by
  have hpath := h.path
  rw [hhead] at hpath hne
  -- The block leaves the list before its link is overwritten.
  obtain ⟨free', rfl, hrest⟩ := hpath.pop hne
  have hb : b ∉ free' := (List.nodup_cons.mp h.path.nodup).1
  exact ⟨free', hrest.update hb link, h.tail, List.perm_middle.trans h.perm⟩

/-- **A call of `create`** returns null, or hands out the first free block. -/
theorem create_cases (h : OwnedBlocks n s free) (link : Option Nat) :
    (s.allocator.head = s.allocator.tail ∧
      s.allocator.create link = .ok (none, s.allocator)) ∨
    ∃ b, s.allocator.head = some b ∧ s.allocator.head ≠ s.allocator.tail ∧
      s.allocator.create link = .ok (some b, { s.allocator with
        next_ptr := Function.update s.allocator.next_ptr b link
        head := s.allocator.next_ptr b }) := by
  unfold create allocate
  by_cases heq : s.allocator.head = s.allocator.tail
  · left
    rw [if_pos heq]
    exact ⟨heq, rfl⟩
  · -- The list is not empty, so that `head` is not null.
    obtain ⟨b, ys, hfree⟩ := List.exists_cons_of_ne_nil h.ne_nil
    have hhead : s.allocator.head = some b := by
      rw [h.path.head, hfree]
      rfl
    right
    refine ⟨b, hhead, heq, ?_⟩
    rw [if_neg heq, hhead]
    simp only [Function.update_idem]

/-- No block is handed out when all but the last are in use. -/
theorem create_returns (h : OwnedBlocks n s free) (link : Option Nat) :
    ∃ r a, s.allocator.create link = .ok (r, a) ∧
      (r = none ↔ s.outstanding.length = n - 1) := by
  rw [← h.head_eq_tail_iff]
  rcases h.create_cases link with ⟨heq, hnone⟩ | ⟨b, _, hne, hsome⟩
  · exact ⟨none, _, hnone, fun _ => heq, fun _ => rfl⟩
  · exact ⟨some b, _, hsome, nofun, fun heq => absurd heq hne⟩

theorem exec_create (h : OwnedBlocks n s free) (link : Option Nat) :
    ∃ s' free', (BlockCall.create link).exec s = .ok s' ∧ OwnedBlocks n s' free' := by
  rw [BlockCall.exec]
  rcases h.create_cases link with ⟨_, hnone⟩ | ⟨b, hhead, hne, hsome⟩
  · rw [hnone]
    exact ⟨s, free, rfl, h⟩
  · obtain ⟨free', howned⟩ := h.take hhead hne link
    rw [hsome]
    exact ⟨_, free', rfl, howned⟩

/-- A block that is freed goes in front of the list. -/
theorem give_back {p : Nat} (h : OwnedBlocks n s free) (hp : p ∈ s.outstanding) :
    OwnedBlocks n
      ⟨{ s.allocator with
          next_ptr := Function.update s.allocator.next_ptr p s.allocator.head
          head := some p }, s.outstanding.erase p⟩ (p :: free) := by
  refine ⟨h.path.push h.ne_nil (h.notMem_free hp), h.tail, ?_⟩
  have hback : (free ++ p :: s.outstanding.erase p).Perm (free ++ s.outstanding) :=
    (List.perm_cons_erase hp).symm.append_left free
  exact List.perm_middle.symm.trans (hback.trans h.perm)

/-- The owner of a block may write its link. -/
theorem write {p : Nat} (h : OwnedBlocks n s free) (hp : p ∈ s.outstanding) (link : Option Nat) :
    OwnedBlocks n
      { s with allocator.next_ptr := Function.update s.allocator.next_ptr p link } free :=
  ⟨h.path.update (h.notMem_free hp) link, h.tail, h.perm⟩

/-- **A step**: every call returns and keeps the invariant. -/
theorem exec (h : OwnedBlocks n s free) {c : BlockCall} (hc : c.Valid s) :
    ∃ s' free', c.exec s = .ok s' ∧ OwnedBlocks n s' free' := by
  cases c with
  | allocate =>
    have hcreate := h.exec_create none
    rw [BlockCall.exec, create_none] at hcreate
    exact hcreate
  | create link => exact h.exec_create link
  | free p => exact ⟨_, p :: free, rfl, h.give_back hc⟩
  | write p link => exact ⟨_, free, rfl, h.write hc link⟩

end OwnedBlocks

/-! ## The constructor -/

/-- After `k` rounds the first `k` links are set, and `last` is block `k`. -/
theorem link_blocks_spec (links : Nat → Option Nat) (k : Nat) :
    (FixedBlockAllocator.link_blocks links (k + 1)).2 = k ∧
      ∀ x < k, (FixedBlockAllocator.link_blocks links (k + 1)).1 x = some (x + 1) := by
  unfold FixedBlockAllocator.link_blocks
  rw [Nat.add_sub_cancel]
  induction k with
  | zero => exact ⟨rfl, fun x hx => absurd hx (Nat.not_lt_zero x)⟩
  | succ k ih =>
    rw [List.range'_1_concat, List.foldl_concat]
    refine ⟨Nat.add_comm 1 k, ?_⟩
    intro x hx
    show Function.update _ _ _ x = _
    rw [ih.1]
    by_cases e : x = k
    · rw [e, Function.update_self, Nat.add_comm]
    · rw [Function.update_of_ne e]
      exact ih.2 x (by omega)

/-- The constructor links all blocks in their order. -/
theorem ownedBlocks_init {n : Nat} (hn : 1 ≤ n) {links : Nat → Option Nat} {a : FixedBlockAllocator}
    (h : FixedBlockAllocator.init links n = .ok a) : OwnedBlocks n ⟨a, []⟩ (List.range n) := by
  obtain ⟨k, rfl⟩ := Nat.exists_eq_add_of_le' hn
  unfold FixedBlockAllocator.init at h
  rw [if_neg (Nat.succ_ne_zero k), Nat.add_sub_cancel] at h
  obtain rfl := Except.ok.inj h
  refine ⟨⟨?_, ?_, List.nodup_range, ?_⟩, rfl, ?_⟩
  · rw [List.head?_range]
    rfl
  · rw [List.getLast?_range]
    rfl
  · apply (List.isChain_range_succ _ k).mpr
    intro x hx
    exact (Function.update_of_ne (Nat.ne_of_lt hx) ..).trans ((link_blocks_spec links k).2 x hx)
  · rw [List.append_nil]

theorem ownedBlocks_of_reachable {n : Nat} (hn : 1 ≤ n) :
    ∀ s, Reachable (block_system n) s → ∃ free, OwnedBlocks n s free := by
  apply invariant_of_step
  · intro s hinit
    obtain ⟨⟨links, hinit⟩, hout⟩ := hinit
    obtain ⟨a, outstanding⟩ := s
    obtain rfl : outstanding = [] := hout
    exact ⟨_, ownedBlocks_init hn hinit⟩
  · intro s c s' _ ⟨free, h⟩ hstep
    obtain ⟨hvalid, hexec⟩ := hstep
    obtain ⟨t, free', ht, howned⟩ := h.exec hvalid
    rw [ht] at hexec
    cases hexec
    exact ⟨free', howned⟩

/-! ## The result -/

/-- **Every block has one owner.** The constructor returns, and so does every call. After any
    sequence of calls the list from `head` to `tail` has every block that is not in use, and only
    once; no block is in use twice, and the last one never. A call hands out no block exactly
    when all but the last are in use. -/
theorem blocks_have_one_owner (n : Nat) (hn : 1 ≤ n) :
    (∀ links, ∃ a, FixedBlockAllocator.init links n = .ok a) ∧
    ∀ s, Reachable (block_system n) s →
      (∃ free, Path s.allocator.next_ptr s.allocator.head s.allocator.tail free ∧
        ∀ b, b ∈ free ↔ b < n ∧ b ∉ s.outstanding) ∧
      s.outstanding.Nodup ∧
      (∀ b ∈ s.outstanding, b < n ∧ some b ≠ s.allocator.tail) ∧
      (∀ c : BlockCall, c.Valid s → ∃ s', c.exec s = .ok s') ∧
      (∃ r a, s.allocator.allocate = .ok (r, a) ∧ (r = none ↔ s.outstanding.length = n - 1)) ∧
      ∀ link, ∃ r a, s.allocator.create link = .ok (r, a) ∧
        (r = none ↔ s.outstanding.length = n - 1) := by
  refine ⟨fun links => ⟨_, if_neg (Nat.ne_of_gt hn)⟩, ?_⟩
  intro s hs
  obtain ⟨free, h⟩ := ownedBlocks_of_reachable hn s hs
  refine ⟨⟨free, h.path, h.mem_free_iff⟩, (List.nodup_append.mp h.nodup).2.1, ?_, ?_, ?_, ?_⟩
  · intro b hb
    refine ⟨?_, h.ne_tail hb⟩
    exact List.mem_range.mp (h.perm.mem_iff.mp (List.mem_append_right free hb))
  · intro c hc
    obtain ⟨s', _, hexec, _⟩ := h.exec hc
    exact ⟨s', hexec⟩
  · rw [← FixedBlockAllocator.create_none]
    exact h.create_returns none
  · exact h.create_returns

/-- Of two blocks the first is handed out, and then none is. -/
theorem second_of_two_blocks_kept :
    ∃ a s, FixedBlockAllocator.init (fun _ => none) 2 = .ok a ∧
      BlockCall.allocate.exec ⟨a, []⟩ = .ok s ∧ s.outstanding = [0] ∧
      ∃ b, s.allocator.allocate = .ok (none, b) := by
  have howner := blocks_have_one_owner 2 (by decide)
  obtain ⟨a, ha⟩ := howner.1 (fun _ => none)
  have hstart : Reachable (block_system 2) ⟨a, []⟩ := .init ⟨⟨_, ha⟩, rfl⟩
  obtain ⟨s, hs⟩ := (howner.2 _ hstart).2.2.2.1 .allocate trivial
  have hnext : Reachable (block_system 2) s :=
    .step (l := .allocate) hstart ⟨trivial, hs⟩
  have hfirst : s.outstanding = [0] := by
    cases ha
    cases hs
    rfl
  obtain ⟨r, b, hb, hnone⟩ := (howner.2 _ hnext).2.2.2.2.1
  rw [hfirst] at hnone
  obtain rfl := hnone.mpr rfl
  exact ⟨a, s, ha, hs, hfirst, b, hb⟩

end Modern05
