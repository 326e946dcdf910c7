import Mathlib.Order.Bounds.Defs
import Modern05.Framework.HeapTree
import Modern05.Framework.Ring
import Modern05.Mm.BuddyAllocator

/-! # Geometry and free lists of the buddy allocator

    * `BuddyAllocator.Fits`: the tree of the region fits in the arrays. The
      accessors of the source are then the moves of `HeapTree` (`tree_geometry`).
    * `FreeLists ba h free`: bucket `k` of `h` heads the ring of the nodes `free k`,
      all of them nodes of the row that bucket `k` serves.
    * `FreeLists.run_remove` and `FreeLists.run_add`: the two list edits run without a
      fault, and what they leave behind.
-/

namespace Modern05

open HeapTree Linked

/-! ## The tree of the region -/

namespace BuddyAllocator

variable (ba : BuddyAllocator)

/-- The row of the smallest blocks. -/
def height : Nat := ba.root_log2size - Log2MinSize

/-- The root is at least one smallest block, its bucket exists, and the array of
    blocks has room for the whole tree. -/
structure Fits : Prop where
  min_le : Log2MinSize ≤ ba.root_log2size
  le_max : ba.root_log2size ≤ Log2MaxSize
  room : 2 ^ (ba.height + 1) ≤ ba.max_blocks

/-- `b` is a node of the tree of the region. -/
def IsNode (b : Nat) : Prop := level b ≤ ba.height

variable {ba} {b : Nat}

theorem bucket_index_of_ge {k : Nat} (h1 : Log2MinSize ≤ k) (h2 : k < 2 ^ 64) :
    bucket_index k = k - Log2MinSize := u64_sub_of_le h1 h2

theorem isNode_iff : ba.IsNode b ↔ b + 1 < 2 ^ (ba.height + 1) := by
  unfold IsNode
  rw [← level_lt_iff, Nat.lt_succ_iff]

theorem isNode_root : ba.IsNode 0 := by
  unfold IsNode
  rw [level_zero]
  exact Nat.zero_le _

theorem IsNode.parent (h : ba.IsNode b) (hb : 0 < b) : level (parent b) < ba.height := by
  have := level_parent hb
  unfold IsNode at h
  omega

theorem IsNode.sibling (h : ba.IsNode b) (hb : 0 < b) : ba.IsNode (sibling b) := by
  unfold IsNode at *
  rwa [level_sibling hb]

theorem isNode_left (h : level b < ba.height) : ba.IsNode (left b) := by
  unfold IsNode
  rw [level_left]
  omega

theorem isNode_right (h : level b < ba.height) : ba.IsNode (right b) := by
  unfold IsNode
  rw [level_right]
  omega

namespace Fits

variable (hf : ba.Fits)

include hf

theorem isNode_lt (h : ba.IsNode b) : b < ba.max_blocks := by
  have := isNode_iff.mp h
  have := hf.room
  omega

theorem height_lt : ba.height < bucket_count := by
  have := hf.le_max
  unfold height bucket_count
  omega

theorem root_eq : ba.root_log2size = ba.height + Log2MinSize := by
  have := hf.min_le
  unfold height
  omega

/-- The region in bytes. -/
theorem pow_root : 2 ^ ba.root_log2size = 2 ^ ba.height * 65536 := by
  rw [hf.root_eq, Nat.pow_add]
  rfl

theorem root_lt : ba.root_log2size < 2 ^ 64 := by
  have := hf.le_max
  unfold Log2MaxSize at this
  omega

theorem block_log2size_eq (h : ba.IsNode b) :
    ba.block_log2size b = ba.root_log2size - level b := by
  unfold block_log2size
  rw [log2_eq]
  refine u64_sub_of_le ?_ hf.root_lt
  have := hf.root_eq
  unfold IsNode level at h
  omega

/-- The bucket a node belongs to is numbered by its distance to the last row. -/
theorem bucket_index_block (h : ba.IsNode b) :
    bucket_index (ba.block_log2size b) = ba.height - level b := by
  have h1 := hf.root_eq
  have h2 := hf.root_lt
  unfold IsNode at h
  rw [hf.block_log2size_eq h, bucket_index_of_ge (by omega) (by omega)]
  omega

theorem bucket_index_eq {k : Nat} (h1 : Log2MinSize ≤ k) (h2 : k ≤ ba.root_log2size) :
    bucket_index k = k - Log2MinSize := by
  have := hf.root_lt
  exact bucket_index_of_ge h1 (by omega)

theorem get_left_eq (h : level b < ba.height) : ba.get_left b = some (left b) := by
  have := hf.isNode_lt (isNode_left h)
  unfold get_left
  unfold left at *
  rw [if_neg (by omega)]

theorem get_right_eq (h : level b < ba.height) : ba.get_right b = some (right b) := by
  have := hf.isNode_lt (isNode_right h)
  unfold get_right
  unfold right at *
  rw [if_neg (by omega)]

/-- There are fewer than `2 ^ 17` nodes. -/
theorem isNode_bound (hb : ba.IsNode b) : b + 1 < 2 ^ 17 := by
  have h1 := isNode_iff.mp hb
  have h2 : 2 ^ (ba.height + 1) ≤ 2 ^ 17 := Nat.pow_le_pow_right (by omega) hf.height_lt
  omega

/-- The address of a node as a number. It wraps when the region lies too high. -/
theorem toNat_phy_addr (hb : ba.IsNode b) :
    (ba.get_block_phy_addr b).toNat = (ba.phy_start.toNat + b * 65536) % 2 ^ 64 := by
  have hlt := hf.isNode_bound hb
  have hsize : (UInt64.ofNat BlockSize).toNat = 65536 := rfl
  unfold get_block_phy_addr
  rw [UInt64.toNat_add, UInt64.toNat_mul, hsize, UInt64.toNat_ofNat']
  omega

/-- The address of a node is where it belongs, or wrapped once. -/
theorem phy_addr_cases (hb : ba.IsNode b) :
    (ba.get_block_phy_addr b).toNat = ba.phy_start.toNat + b * 65536 ∨
      (ba.get_block_phy_addr b).toNat + 2 ^ 64 = ba.phy_start.toNat + b * 65536 := by
  have hlt := hf.isNode_bound hb
  have hP := ba.phy_start.toNat_lt
  rw [hf.toNat_phy_addr hb]
  omega

/-- The number of a node is recovered from its address. -/
theorem block_at_phy_addr (hb : ba.IsNode b) :
    (ba.get_block_phy_addr b - ba.phy_start) % UInt64.ofNat BlockSize = 0 ∧
      ba.block_at (ba.get_block_phy_addr b) = b := by
  have hlt := hf.isNode_bound hb
  have hsub : ba.get_block_phy_addr b - ba.phy_start =
      UInt64.ofNat b * UInt64.ofNat BlockSize := by
    unfold get_block_phy_addr
    grind
  have hnat : (UInt64.ofNat b * UInt64.ofNat BlockSize).toNat = b * 65536 := by
    rw [UInt64.toNat_mul, UInt64.toNat_ofNat', UInt64.toNat_ofNat']
    unfold BlockSize PAGE_SIZE
    omega
  have hsize : (UInt64.ofNat BlockSize).toNat = 65536 := rfl
  constructor
  · rw [hsub]
    apply UInt64.toNat.inj
    rw [UInt64.toNat_mod, hnat, hsize]
    show b * 65536 % 65536 = 0
    omega
  · unfold block_at
    rw [hsub, UInt64.toNat_div, hnat, hsize]
    omega

end Fits

theorem get_parent_eq (h : 0 < b) : get_parent b = some (HeapTree.parent b) := by
  unfold get_parent
  rw [if_neg (by omega)]
  rfl

theorem get_buddy_eq (h : 0 < b) : get_buddy b = some (HeapTree.sibling b) := by
  unfold get_buddy HeapTree.sibling
  rw [if_neg (by omega)]
  split <;> rfl

/-- The children of an interior node, as the accessors see them. -/
theorem Fits.children (hf : ba.Fits) (h : level b < ba.height) :
    ba.get_left b = some (left b) ∧ ba.get_right b = some (right b) ∧
      ba.block_log2size (left b) + 1 = ba.block_log2size b ∧
      ba.block_log2size (right b) + 1 = ba.block_log2size b ∧
      get_parent (left b) = some b ∧ get_parent (right b) = some b ∧
      get_buddy (left b) = some (right b) ∧ get_buddy (right b) = some (left b) := by
  have hsize := hf.block_log2size_eq (b := b) (Nat.le_of_lt h)
  have hleft := hf.block_log2size_eq (isNode_left h)
  have hright := hf.block_log2size_eq (isNode_right h)
  have hroot := hf.root_eq
  rw [level_left] at hleft
  rw [level_right] at hright
  refine ⟨hf.get_left_eq h, hf.get_right_eq h, by omega, by omega, ?_⟩
  rw [get_parent_eq (left_pos b), get_parent_eq (right_pos b), get_buddy_eq (left_pos b),
    get_buddy_eq (right_pos b), parent_left, parent_right, sibling_left, sibling_right]
  exact ⟨rfl, rfl, rfl, rfl⟩

/-- The buddy of a node other than the root is another node with the same parent, and
    the node is the buddy of its buddy. -/
theorem IsNode.buddy (h : ba.IsNode b) (hb : 0 < b) :
    ∃ c, 0 < c ∧ ba.IsNode c ∧ get_buddy b = some c ∧ get_buddy c = some b ∧ c ≠ b ∧
      get_parent c = get_parent b := by
  refine ⟨HeapTree.sibling b, sibling_pos hb, h.sibling hb, get_buddy_eq hb, ?_,
    sibling_ne hb, ?_⟩
  · have hback : HeapTree.sibling (HeapTree.sibling b) = b := by
      rcases eq_left_or_right hb with e | e
      · rw [e, sibling_left, sibling_right]
      · rw [e, sibling_right, sibling_left]
    rw [get_buddy_eq (sibling_pos hb), hback]
  · rw [get_parent_eq (sibling_pos hb), get_parent_eq hb, parent_sibling hb]

/-- **Geometry of the tree.** The two loops compute the logarithm rounded down and rounded
    up. In a region of 64 KiB to 2 GiB every interior block has two children one size
    smaller, the way up inverts both ways down, and `get_buddy` is an involution of the
    blocks other than the root that exchanges the children of each parent. -/
theorem tree_geometry (ba : BuddyAllocator) (hmin : 16 ≤ ba.root_log2size)
    (hmax : ba.root_log2size ≤ 31) (hblocks : ba.max_blocks = MaxBlocks) :
    (∀ n : UInt64, n ≠ 0 →
      2 ^ log2 n.toNat ≤ n.toNat ∧ n.toNat < 2 ^ (log2 n.toNat + 1) ∧
        IsLeast {e | n.toNat ≤ 2 ^ e} (log2_ceil n.toNat)) ∧
      (∀ i, i + 1 < 2 ^ (ba.root_log2size - 16) →
        ∃ l r, ba.get_left i = some l ∧ ba.get_right i = some r ∧
          ba.block_log2size l + 1 = ba.block_log2size i ∧
          ba.block_log2size r + 1 = ba.block_log2size i ∧
          get_parent l = some i ∧ get_parent r = some i ∧
          get_buddy l = some r ∧ get_buddy r = some l) ∧
      ∀ b, 0 < b → b + 1 < 2 ^ (ba.root_log2size - 16 + 1) →
        ∃ c, 0 < c ∧ c + 1 < 2 ^ (ba.root_log2size - 16 + 1) ∧
          get_buddy b = some c ∧ get_buddy c = some b ∧ c ≠ b ∧
          get_parent c = get_parent b := by
  have hf : ba.Fits := by
    refine ⟨hmin, Nat.le_succ_of_le hmax, ?_⟩
    rw [hblocks]
    show 2 ^ (ba.root_log2size - 16 + 1) ≤ 2 ^ 16
    exact Nat.pow_le_pow_right (by omega) (by omega)
  refine ⟨?_, ?_, ?_⟩
  · intro n hn
    have hn : n.toNat ≠ 0 := fun e => hn (UInt64.toNat.inj e)
    rw [log2_eq]
    exact ⟨Nat.log2_self_le hn, Nat.lt_log2_self, le_two_pow_log2_ceil _,
      fun e he => log2_ceil_le hn he⟩
  · intro i hi
    exact ⟨left i, right i, hf.children (level_lt_iff.mpr hi)⟩
  · intro b hpos hb
    obtain ⟨c, hc, hnode, hbuddy⟩ := IsNode.buddy (isNode_iff.mpr hb) hpos
    exact ⟨c, hc, isNode_iff.mp hnode, hbuddy⟩

/-- The geometry of a region of 128 KiB, which has one interior block. -/
theorem tree_geometry_128K :
    ∃ l r, (⟨0x4000000, 17, MaxBlocks⟩ : BuddyAllocator).get_left 0 = some l ∧
      (⟨0x4000000, 17, MaxBlocks⟩ : BuddyAllocator).get_right 0 = some r ∧
      get_buddy l = some r := by
  have hgeometry := tree_geometry ⟨0x4000000, 17, MaxBlocks⟩ (by decide) (by decide) rfl
  obtain ⟨l, r, hl, hr, _, _, _, _, hbuddy, _⟩ := hgeometry.2.1 0 (by decide)
  exact ⟨l, r, hl, hr, hbuddy⟩

/-! ## Accesses in bounds

    Reading a field of a block below `max_blocks`, or of a bucket of the array,
    gives its content; writing it updates that one field. -/

section accesses

variable {β γ : Type} {h : BuddyHeap} {k : Nat}

theorem run_load {l : BuddyCell β} (hl : l.index < l.bound ba.max_blocks)
    (f : β → BuddyProg γ) : (ba.load l >>= f).run h = (f (l.get h)).run h := by
  unfold load
  rw [if_pos hl]
  rfl

theorem run_store {l : BuddyCell β} {v : β} (hl : l.index < l.bound ba.max_blocks)
    (f : Unit → BuddyProg γ) : (ba.store l v >>= f).run h = (f ()).run (l.set v h) := by
  unfold store
  rw [if_pos hl]
  rfl

theorem run_store_end {l : BuddyCell β} {v : β} (hl : l.index < l.bound ba.max_blocks) :
    (ba.store l v).run h = (.ok (), l.set v h) := by
  unfold store
  rw [if_pos hl]
  rfl

theorem load_available_of_ge (hb : ¬ b < ba.max_blocks) :
    ba.load (.available b) = .fail (.out_of_bounds b) := if_neg hb

theorem load_available_blocks_of_ge (hk : ¬ k < bucket_count) :
    ba.load (.available_blocks k) = .fail (.out_of_bounds k) := if_neg hk

@[simp] theorem run_load_valid (hb : b < ba.max_blocks) (f : Bool → BuddyProg γ) :
    (ba.load (.valid b) >>= f).run h = (f (h.valid b)).run h :=
  run_load (l := .valid b) hb f

@[simp] theorem run_load_available (hb : b < ba.max_blocks) (f : Bool → BuddyProg γ) :
    (ba.load (.available b) >>= f).run h = (f (h.available b)).run h :=
  run_load (l := .available b) hb f

@[simp] theorem run_load_prev (hb : b < ba.max_blocks) (f : Option Nat → BuddyProg γ) :
    (ba.load (.prev b) >>= f).run h = (f (h.prev b)).run h :=
  run_load (l := .prev b) hb f

@[simp] theorem run_load_next (hb : b < ba.max_blocks) (f : Option Nat → BuddyProg γ) :
    (ba.load (.next b) >>= f).run h = (f (h.next b)).run h :=
  run_load (l := .next b) hb f

@[simp] theorem run_load_allocated_blocks (hk : k < bucket_count) (f : UInt64 → BuddyProg γ) :
    (ba.load (.allocated_blocks k) >>= f).run h = (f (h.allocated_blocks k)).run h :=
  run_load (l := .allocated_blocks k) hk f

@[simp] theorem run_load_available_blocks (hk : k < bucket_count) (f : UInt64 → BuddyProg γ) :
    (ba.load (.available_blocks k) >>= f).run h = (f (h.available_blocks k)).run h :=
  run_load (l := .available_blocks k) hk f

@[simp] theorem run_load_first_block (hk : k < bucket_count) (f : Option Nat → BuddyProg γ) :
    (ba.load (.first_block k) >>= f).run h = (f (h.first_block k)).run h :=
  run_load (l := .first_block k) hk f

@[simp] theorem run_store_valid (hb : b < ba.max_blocks) (v : Bool)
    (f : Unit → BuddyProg γ) : (ba.store (.valid b) v >>= f).run h =
      (f ()).run { h with valid := Function.update h.valid b v } :=
  run_store (l := .valid b) hb f

@[simp] theorem run_store_available (hb : b < ba.max_blocks) (v : Bool)
    (f : Unit → BuddyProg γ) : (ba.store (.available b) v >>= f).run h =
      (f ()).run { h with available := Function.update h.available b v } :=
  run_store (l := .available b) hb f

@[simp] theorem run_store_prev (hb : b < ba.max_blocks) (v : Option Nat)
    (f : Unit → BuddyProg γ) : (ba.store (.prev b) v >>= f).run h =
      (f ()).run { h with prev := Function.update h.prev b v } :=
  run_store (l := .prev b) hb f

@[simp] theorem run_store_next (hb : b < ba.max_blocks) (v : Option Nat)
    (f : Unit → BuddyProg γ) : (ba.store (.next b) v >>= f).run h =
      (f ()).run { h with next := Function.update h.next b v } :=
  run_store (l := .next b) hb f

@[simp] theorem run_store_allocated_blocks (hk : k < bucket_count) (v : UInt64)
    (f : Unit → BuddyProg γ) : (ba.store (.allocated_blocks k) v >>= f).run h =
      (f ()).run { h with allocated_blocks := Function.update h.allocated_blocks k v } :=
  run_store (l := .allocated_blocks k) hk f

@[simp] theorem run_store_available_blocks (hk : k < bucket_count) (v : UInt64)
    (f : Unit → BuddyProg γ) : (ba.store (.available_blocks k) v >>= f).run h =
      (f ()).run { h with available_blocks := Function.update h.available_blocks k v } :=
  run_store (l := .available_blocks k) hk f

@[simp] theorem run_store_first_block (hk : k < bucket_count) (v : Option Nat)
    (f : Unit → BuddyProg γ) : (ba.store (.first_block k) v >>= f).run h =
      (f ()).run { h with first_block := Function.update h.first_block k v } :=
  run_store (l := .first_block k) hk f

@[simp] theorem run_store_prev_end (hb : b < ba.max_blocks) (v : Option Nat) :
    (ba.store (.prev b) v).run h =
      (.ok (), { h with prev := Function.update h.prev b v }) :=
  run_store_end (l := .prev b) hb

@[simp] theorem run_store_allocated_blocks_end (hk : k < bucket_count) (v : UInt64) :
    (ba.store (.allocated_blocks k) v).run h =
      (.ok (), { h with allocated_blocks := Function.update h.allocated_blocks k v }) :=
  run_store_end (l := .allocated_blocks k) hk

@[simp] theorem run_store_available_blocks_end (hk : k < bucket_count) (v : UInt64) :
    (ba.store (.available_blocks k) v).run h =
      (.ok (), { h with available_blocks := Function.update h.available_blocks k v }) :=
  run_store_end (l := .available_blocks k) hk

end accesses

end BuddyAllocator

/-! ## The list edits, as heaps -/

namespace BuddyHeap

/-- The heap after `b` is taken off the list of bucket `k`; `p` and `n` are its
    neighbours. -/
def unlink (h : BuddyHeap) (k b n p : Nat) : BuddyHeap :=
  { h with
    first_block := Function.update h.first_block k
      (if h.first_block k = some b then (if n = b then none else some n) else h.first_block k)
    next := Function.update h.next p (some n)
    prev := Function.update h.prev n (some p)
    available_blocks := Function.update h.available_blocks k (h.available_blocks k - 1) }

/-- The heap after `b` became the only block on the list of bucket `k`. -/
def link_first (h : BuddyHeap) (k b : Nat) : BuddyHeap :=
  { h with
    first_block := Function.update h.first_block k (some b)
    next := Function.update h.next b (some b)
    prev := Function.update h.prev b (some b)
    available_blocks := Function.update h.available_blocks k (h.available_blocks k + 1) }

/-- The heap after `b` was put at the end of the list of bucket `k`, between the
    last block `q` and the head `f`. -/
def link_last (h : BuddyHeap) (k b f q : Nat) : BuddyHeap :=
  { h with
    next := Function.update (Function.update h.next q (some b)) b (some f)
    prev := Function.update (Function.update h.prev f (some b)) b (some q)
    available_blocks := Function.update h.available_blocks k (h.available_blocks k + 1) }

end BuddyHeap

namespace BuddyAllocator

variable {ba : BuddyAllocator} {h : BuddyHeap} {b k : Nat}

theorem run_remove {n p : Nat} (hidx : bucket_index (ba.block_log2size b) = k)
    (hk : k < bucket_count) (hb : b < ba.max_blocks) (hn : h.next b = some n)
    (hp : h.prev b = some p) (hnb : n < ba.max_blocks) (hpb : p < ba.max_blocks) :
    (ba.remove_from_available_list b).run h = (.ok (), h.unlink k b n p) := by
  have hunlink : (ba.unlink_block k b).run h = (.ok (), { h with
      first_block := Function.update h.first_block k
        (if h.first_block k = some b then (if n = b then none else some n) else h.first_block k)
      next := Function.update h.next p (some n)
      prev := Function.update h.prev n (some p) }) := by
    unfold unlink_block
    by_cases hfirst : h.first_block k = some b
    · by_cases hnext : n = b
      · simp [hk, hb, hfirst, hn, hp, hpb, hnext]
      · simp [hk, hb, hfirst, hn, hp, hnb, hpb, hnext]
    · simp [hk, hb, hfirst, hn, hp, hnb, hpb]
  unfold remove_from_available_list
  rw [hidx, Prog.run_bind_ok hunlink]
  simp [hk, BuddyHeap.unlink]

theorem run_add_first (hidx : bucket_index (ba.block_log2size b) = k)
    (hk : k < bucket_count) (hb : b < ba.max_blocks) (hfirst : h.first_block k = none) :
    (ba.add_to_available_list b).run h = (.ok (), h.link_first k b) := by
  unfold add_to_available_list
  rw [hidx]
  simp [hk, hb, hfirst, BuddyHeap.link_first]

theorem run_add_last {f q : Nat} (hidx : bucket_index (ba.block_log2size b) = k)
    (hk : k < bucket_count) (hb : b < ba.max_blocks) (hfirst : h.first_block k = some f)
    (hq : h.prev f = some q) (hfb : f < ba.max_blocks) (hqb : q < ba.max_blocks) :
    (ba.add_to_available_list b).run h = (.ok (), h.link_last k b f q) := by
  unfold add_to_available_list
  rw [hidx]
  simp [hk, hb, hfirst, hq, hfb, hqb, deref, BuddyHeap.link_last]

end BuddyAllocator

/-! ## The free lists -/

/-- Bucket `k` heads the ring of the nodes `free k`, nodes of the row it serves. -/
structure FreeLists (ba : BuddyAllocator) (h : BuddyHeap) (free : Nat → List Nat) : Prop where
  ring : ∀ k, Ring (h.first_block k) h.next h.prev (free k)
  row : ∀ k, ∀ b ∈ free k, ba.IsNode b ∧ ba.height - level b = k

/-- `h'` is `h` up to the links of the blocks `ns`, the head of the list of bucket `k`
    and its counter of available blocks. -/
structure Relinked (h h' : BuddyHeap) (k : Nat) (ns : List Nat) : Prop where
  valid : h'.valid = h.valid
  available : h'.available = h.available
  log2size : h'.log2size = h.log2size
  allocated_blocks : h'.allocated_blocks = h.allocated_blocks
  available_blocks : ∀ j, j ≠ k → h'.available_blocks j = h.available_blocks j
  first_block : ∀ j, j ≠ k → h'.first_block j = h.first_block j
  next : ∀ x, x ∉ ns → h'.next x = h.next x
  prev : ∀ x, x ∉ ns → h'.prev x = h.prev x

namespace FreeLists

variable {ba : BuddyAllocator} {h h' : BuddyHeap} {free : Nat → List Nat} {b k : Nat}

/-- A node is on no list but that of its own row. -/
theorem eq_of_mem {j : Nat} (hl : FreeLists ba h free) (hj : b ∈ free j) (hk : b ∈ free k) :
    j = k :=
  (hl.row j b hj).2.symm.trans (hl.row k b hk).2

/-- Relinking one list leaves the others as they are. -/
theorem relink {ns xs : List Nat} (hl : FreeLists ba h free) (hr : Relinked h h' k ns)
    (hns : ∀ x ∈ ns, ba.height - level x = k)
    (hring : Ring (h'.first_block k) h'.next h'.prev xs)
    (hxs : ∀ x ∈ xs, ba.IsNode x ∧ ba.height - level x = k) :
    FreeLists ba h' (Function.update free k xs) := by
  constructor
  · intro j
    by_cases hj : j = k
    · subst hj
      rwa [Function.update_self]
    · rw [Function.update_of_ne hj, hr.first_block j hj]
      have hout : ∀ x ∈ free j, x ∉ ns := fun x hx hmem =>
        hj ((hl.row j x hx).2.symm.trans (hns x hmem))
      exact (hl.ring j).congr (fun x hx => hr.next x (hout x hx))
        (fun x hx => hr.prev x (hout x hx))
  · intro j x hx
    by_cases hj : j = k
    · subst hj
      rw [Function.update_self] at hx
      exact hxs x hx
    · rw [Function.update_of_ne hj] at hx
      exact hl.row j x hx

/-- The counter of available blocks and the length of each list move together if
    they do in the bucket that is relinked. -/
theorem drift_update {ns xs : List Nat} (hr : Relinked h h' k ns)
    (hk : h'.available_blocks k - UInt64.ofNat xs.length =
      h.available_blocks k - UInt64.ofNat (free k).length) (j : Nat) :
    h'.available_blocks j - UInt64.ofNat (Function.update free k xs j).length =
      h.available_blocks j - UInt64.ofNat (free j).length := by
  by_cases hj : j = k
  · subst hj
    rwa [Function.update_self]
  · rw [Function.update_of_ne hj, hr.available_blocks j hj]

/-- What is on its list after `b` was taken off. -/
theorem mem_erase_iff (hl : FreeLists ba h free) (hb : b ∈ free k) (c : Nat) :
    c ∈ Function.update free k ((free k).erase b) (ba.height - level c) ↔
      c ∈ free (ba.height - level c) ∧ c ≠ b := by
  by_cases hc : ba.height - level c = k
  · rw [hc, Function.update_self, (hl.ring k).nodup.mem_erase_iff]
    exact And.comm
  · rw [Function.update_of_ne hc]
    have hne : c ≠ b := fun e => hc (e ▸ (hl.row k b hb).2)
    simp [hne]

/-- What is on its list after `b` was put on it. -/
theorem mem_concat_iff (hrow : ba.height - level b = k) (c : Nat) :
    c ∈ Function.update free k (free k ++ [b]) (ba.height - level c) ↔
      c ∈ free (ba.height - level c) ∨ c = b := by
  by_cases hc : ba.height - level c = k
  · rw [hc, Function.update_self]
    simp
  · rw [Function.update_of_ne hc]
    have hne : c ≠ b := fun e => hc (e ▸ hrow)
    simp [hne]

/-- **Taking a block off its list** runs without a fault and removes it from the
    list. -/
theorem run_remove (hf : ba.Fits) (hl : FreeLists ba h free) (hb : b ∈ free k) :
    ∃ h', (ba.remove_from_available_list b).run h = (.ok (), h') ∧
      Relinked h h' k (free k) ∧
      (∀ j, h'.available_blocks j -
          UInt64.ofNat (Function.update free k ((free k).erase b) j).length =
        h.available_blocks j - UInt64.ofNat (free j).length) ∧
      FreeLists ba h' (Function.update free k ((free k).erase b)) := by
  obtain ⟨n, hn, p, hp, hnext, hprev⟩ := (hl.ring k).exists_neighbours hb
  obtain ⟨hnode, hrow⟩ := hl.row k b hb
  have hlt : ∀ x ∈ free k, x < ba.max_blocks := fun x hx => hf.isNode_lt (hl.row k x hx).1
  have hk : k < bucket_count := by
    have := hf.height_lt
    omega
  have hidx := (hf.bucket_index_block hnode).trans hrow
  have hrel : Relinked h (h.unlink k b n p) k (free k) := by
    refine ⟨rfl, rfl, rfl, rfl, ?_, ?_, ?_, ?_⟩
    · intro j hj
      exact Function.update_of_ne hj _ _
    · intro j hj
      exact Function.update_of_ne hj _ _
    · intro x hx
      exact Function.update_of_ne (fun e => hx (by rw [e]; exact hp)) _ _
    · intro x hx
      exact Function.update_of_ne (fun e => hx (by rw [e]; exact hn)) _ _
  have hcount : (h.unlink k b n p).available_blocks k - UInt64.ofNat ((free k).erase b).length =
      h.available_blocks k - UInt64.ofNat (free k).length := by
    have hlen : (free k).length = ((free k).erase b).length + 1 := by
      have := List.length_pos_of_mem hb
      rw [List.length_erase_of_mem hb]
      omega
    show Function.update h.available_blocks k (h.available_blocks k - 1) k - _ = _
    rw [Function.update_self, hlen, UInt64.ofNat_add]
    show h.available_blocks k - 1 - _ = h.available_blocks k - (_ + 1)
    grind
  refine ⟨h.unlink k b n p,
    BuddyAllocator.run_remove hidx hk (hlt b hb) hnext hprev (hlt n hn) (hlt p hp), hrel,
    drift_update hrel hcount, ?_⟩
  refine hl.relink hrel (fun x hx => (hl.row k x hx).2) ?_ ?_
  · refine (hl.ring k).erase hb hnext hprev ?_ ?_ ?_ ?_ ?_
    · exact Function.update_self ..
    · exact Function.update_self ..
    · intro x _ hx
      exact Function.update_of_ne hx _ _
    · intro x _ hx
      exact Function.update_of_ne hx _ _
    · exact Function.update_self ..
  · intro x hx
    exact hl.row k x (List.mem_of_mem_erase hx)

/-- **Putting a block on its list** runs without a fault and adds it at the end. -/
theorem run_add (hf : ba.Fits) (hl : FreeLists ba h free) (hnode : ba.IsNode b)
    (hrow : ba.height - level b = k) (hb : b ∉ free k) :
    ∃ h', (ba.add_to_available_list b).run h = (.ok (), h') ∧
      Relinked h h' k (b :: free k) ∧
      (∀ j, h'.available_blocks j -
          UInt64.ofNat (Function.update free k (free k ++ [b]) j).length =
        h.available_blocks j - UInt64.ofNat (free j).length) ∧
      FreeLists ba h' (Function.update free k (free k ++ [b])) := by
  have hlt : ∀ x ∈ free k, x < ba.max_blocks := fun x hx => hf.isNode_lt (hl.row k x hx).1
  have hk : k < bucket_count := by
    have := hf.height_lt
    omega
  have hidx := (hf.bucket_index_block hnode).trans hrow
  have hrows : ∀ x ∈ free k ++ [b], ba.IsNode x ∧ ba.height - level x = k := by
    intro x hx
    rcases List.mem_append.mp hx with hx | hx
    · exact hl.row k x hx
    · rw [List.mem_singleton] at hx
      subst hx
      exact ⟨hnode, hrow⟩
  have hrows' : ∀ x ∈ b :: free k, ba.height - level x = k := fun x hx =>
    (hrows x (by simpa [or_comm] using hx)).2
  have hring := hl.ring k
  have hcount : Function.update h.available_blocks k (h.available_blocks k + 1) k -
      UInt64.ofNat (free k ++ [b]).length =
        h.available_blocks k - UInt64.ofNat (free k).length := by
    rw [Function.update_self, List.length_append, List.length_singleton, UInt64.ofNat_add]
    show h.available_blocks k + 1 - (_ + 1) = h.available_blocks k - _
    grind
  cases hfirst : h.first_block k with
  | none =>
    rw [hfirst] at hring
    have hrel : Relinked h (h.link_first k b) k (b :: free k) := by
      refine ⟨rfl, rfl, rfl, rfl, ?_, ?_, ?_, ?_⟩
      · intro j hj
        exact Function.update_of_ne hj _ _
      · intro j hj
        exact Function.update_of_ne hj _ _
      · intro x hx
        exact Function.update_of_ne (fun e => hx (by simp [e])) _ _
      · intro x hx
        exact Function.update_of_ne (fun e => hx (by simp [e])) _ _
    refine ⟨_, BuddyAllocator.run_add_first hidx hk (hf.isNode_lt hnode) hfirst, hrel,
      drift_update hrel hcount, hl.relink hrel hrows' ?_ hrows⟩
    show Ring (Function.update h.first_block k (some b) k) _ _ _
    rw [Function.update_self]
    exact hring.concat_empty (Function.update_self ..) (Function.update_self ..)
  | some f =>
    rw [hfirst] at hring
    have hmem : f ∈ free k := hring.mem_of_first rfl
    obtain ⟨_, _, q, hq, _, hprev⟩ := hring.exists_neighbours hmem
    have hne : ∀ x ∈ free k, x ≠ b := fun x hx e => hb (e ▸ hx)
    have hrel : Relinked h (h.link_last k b f q) k (b :: free k) := by
      refine ⟨rfl, rfl, rfl, rfl, ?_, fun _ _ => rfl, ?_, ?_⟩
      · intro j hj
        exact Function.update_of_ne hj _ _
      · intro x hx
        rw [List.mem_cons, not_or] at hx
        show Function.update (Function.update h.next q (some b)) b (some f) x = _
        have hxq : x ≠ q := fun e => hx.2 (e ▸ hq)
        rw [Function.update_of_ne hx.1, Function.update_of_ne hxq]
      · intro x hx
        rw [List.mem_cons, not_or] at hx
        show Function.update (Function.update h.prev f (some b)) b (some q) x = _
        have hxf : x ≠ f := fun e => hx.2 (e ▸ hmem)
        rw [Function.update_of_ne hx.1, Function.update_of_ne hxf]
    refine ⟨_, BuddyAllocator.run_add_last hidx hk (hf.isNode_lt hnode) hfirst hprev
      (hlt f hmem) (hlt q hq), hrel, drift_update hrel hcount, hl.relink hrel hrows' ?_ hrows⟩
    show Ring (h.first_block k) (Function.update (Function.update h.next q (some b)) b (some f))
      (Function.update (Function.update h.prev f (some b)) b (some q)) _
    rw [hfirst]
    refine hring.concat hb hprev ?_ ?_ ?_ ?_ ?_ ?_
    · rw [Function.update_of_ne (hne q hq), Function.update_self]
    · exact Function.update_self ..
    · exact Function.update_self ..
    · rw [Function.update_of_ne (hne f hmem), Function.update_self]
    · intro x hx hxq
      rw [Function.update_of_ne (hne x hx), Function.update_of_ne hxq]
    · intro x hx hxf
      rw [Function.update_of_ne (hne x hx), Function.update_of_ne hxf]

end FreeLists

end Modern05
