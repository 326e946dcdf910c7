import Modern05.Framework.Prog
import Modern05.Lib.Utils

/-! # The buddy allocator

    The model of `BuddyAllocator` in `mm/page_alloc.cpp`. The tree is kept in one
    array of blocks, numbered as a heap; the free blocks of each size are on a
    circular doubly linked list headed by the bucket of that size.

    The member functions are programs of single reads and writes of the fields of
    `Block` and `Bucket`. A `Block *` is `none` for null and else the offset of the
    block from `blocks`. The fields that only the constructor writes (`phy_start`,
    `root_log2size`, `max_blocks`) are parameters of the programs.

    A panic and a failed assertion stop the kernel. Dereferencing null and
    accessing an array outside its bounds are undefined in the source; here they
    are failures of their own, which the theorems show not to happen.
-/

namespace Modern05

/-! ## Data -/

/-- 64 KiB. -/
def BlockSize : Nat := 16 * PAGE_SIZE

def MaxBlocks : Nat := 4 * 1024 * 1024 * 1024 / BlockSize

/-- The number of elements of the array `buckets`. -/
def bucket_count : Nat := Log2MaxSize - Log2MinSize + 1

/-- The members that stay as the constructor sets them. -/
structure BuddyAllocator where
  phy_start : UInt64
  root_log2size : Nat
  max_blocks : Nat
  deriving DecidableEq, Repr

/-- What changes: the fields of `blocks[i]` (the structure `Block`) and of
    `buckets[k]` (the structure `Bucket`), each field as a map from the index. -/
structure BuddyHeap where
  valid : Nat → Bool
  available : Nat → Bool
  prev : Nat → Option Nat
  next : Nat → Option Nat
  log2size : Nat → Nat
  allocated_blocks : Nat → UInt64
  available_blocks : Nat → UInt64
  /-- Null represents the empty list. -/
  first_block : Nat → Option Nat

/-! ## Cells -/

/-- The fields a program can read or write at once. -/
inductive BuddyCell : Type → Type where
  | valid (block : Nat) : BuddyCell Bool
  | available (block : Nat) : BuddyCell Bool
  | prev (block : Nat) : BuddyCell (Option Nat)
  | next (block : Nat) : BuddyCell (Option Nat)
  | log2size (bucket : Nat) : BuddyCell Nat
  | allocated_blocks (bucket : Nat) : BuddyCell UInt64
  | available_blocks (bucket : Nat) : BuddyCell UInt64
  | first_block (bucket : Nat) : BuddyCell (Option Nat)

namespace BuddyCell

def get {β : Type} : BuddyCell β → BuddyHeap → β
  | valid b, h => h.valid b
  | available b, h => h.available b
  | prev b, h => h.prev b
  | next b, h => h.next b
  | log2size k, h => h.log2size k
  | allocated_blocks k, h => h.allocated_blocks k
  | available_blocks k, h => h.available_blocks k
  | first_block k, h => h.first_block k

def set {β : Type} : BuddyCell β → β → BuddyHeap → BuddyHeap
  | valid b, v, h => { h with valid := Function.update h.valid b v }
  | available b, v, h => { h with available := Function.update h.available b v }
  | prev b, v, h => { h with prev := Function.update h.prev b v }
  | next b, v, h => { h with next := Function.update h.next b v }
  | log2size k, v, h => { h with log2size := Function.update h.log2size k v }
  | allocated_blocks k, v, h =>
      { h with allocated_blocks := Function.update h.allocated_blocks k v }
  | available_blocks k, v, h =>
      { h with available_blocks := Function.update h.available_blocks k v }
  | first_block k, v, h => { h with first_block := Function.update h.first_block k v }

instance : Cells BuddyCell BuddyHeap where
  get := get
  set := set

/-- The index of the array element a cell is in. -/
def index {β : Type} : BuddyCell β → Nat
  | valid b | available b | prev b | next b => b
  | log2size k | allocated_blocks k | available_blocks k | first_block k => k

/-- The number of elements of that array. -/
def bound {β : Type} (max_blocks : Nat) : BuddyCell β → Nat
  | valid _ | available _ | prev _ | next _ => max_blocks
  | log2size _ | allocated_blocks _ | available_blocks _ | first_block _ => bucket_count

end BuddyCell

/-- Programs of the allocator. -/
abbrev BuddyProg := Prog BuddyCell Fault

/-- The block a pointer points at. -/
def deref : Option Nat → BuddyProg Nat
  | some block => pure block
  | none => .fail .null_deref

namespace BuddyAllocator

variable (ba : BuddyAllocator)

/-- The constructor, on the default-initialised array `preallocated_blocks`: every
    block is invalid and available, the root is valid and alone on its list. -/
def init : BuddyHeap where
  valid := fun b => b = 0
  available := fun _ => true
  prev := fun b => if b = 0 then some 0 else none
  next := fun b => if b = 0 then some 0 else none
  log2size := fun k => Log2MinSize + k
  allocated_blocks := fun _ => 0
  available_blocks := fun _ => 0
  first_block := fun k => if k = ba.root_log2size - Log2MinSize then some 0 else none

/-- Read a field of a block or bucket. -/
def load {β : Type} (l : BuddyCell β) : BuddyProg β :=
  if l.index < l.bound ba.max_blocks then .load l else .fail (.out_of_bounds l.index)

/-- Write a field of a block or bucket. -/
def store {β : Type} (l : BuddyCell β) (v : β) : BuddyProg Unit :=
  if l.index < l.bound ba.max_blocks then .store l v else .fail (.out_of_bounds l.index)

/-! ## Moving in the tree -/

def get_left (block : Nat) : Option Nat :=
  if 2 * block + 1 ≥ ba.max_blocks then none else some (2 * block + 1)

def get_right (block : Nat) : Option Nat :=
  if 2 * block + 2 ≥ ba.max_blocks then none else some (2 * block + 2)

def get_parent (block : Nat) : Option Nat :=
  if block = 0 then none else some ((block - 1) / 2)

theorem get_parent_lt {block parent : Nat} (h : get_parent block = some parent) :
    parent < block := by
  unfold get_parent at h
  split at h
  · cases h
  · simp only [Option.some.injEq] at h
    omega

def get_buddy (block : Nat) : Option Nat :=
  if block = 0 then none
  else if block % 2 = 0 then some (block - 1) else some (block + 1)

def block_log2size (block : Nat) : Nat :=
  let depth := log2 (block + 1)
  u64_sub ba.root_log2size depth

/-- The index in `buckets` of the bucket of a size. -/
def bucket_index (log2size : Nat) : Nat := u64_sub log2size Log2MinSize

def get_block_phy_addr (block : Nat) : UInt64 :=
  ba.phy_start + UInt64.ofNat block * UInt64.ofNat BlockSize

/-! ## Free lists -/

/-- The part of `remove_from_available_list` that moves the head of the list and links
    the neighbours of the block to each other. -/
def unlink_block (bucket block : Nat) : BuddyProg Unit := do
  -- need to change list head from bucket
  let first ← ba.load (.first_block bucket)
  if first = some block then
    let next ← ba.load (.next block)
    if next = some block then
      ba.store (.first_block bucket) none
    else
      let next ← ba.load (.next block)
      ba.store (.first_block bucket) next
  let next ← ba.load (.next block)
  let prev ← ba.load (.prev block)
  match prev with
  | some p => ba.store (.next p) next
  | none => pure ()
  match next with
  | some n => ba.store (.prev n) prev
  | none => pure ()

def remove_from_available_list (block : Nat) : BuddyProg Unit := do
  let bucket := bucket_index (ba.block_log2size block)
  ba.unlink_block bucket block
  let count ← ba.load (.available_blocks bucket)
  ba.store (.available_blocks bucket) (count - 1)

def add_to_available_list (block : Nat) : BuddyProg Unit := do
  let bucket := bucket_index (ba.block_log2size block)
  -- `first` is a reference to the field of the bucket: each use reads it again
  let first ← ba.load (.first_block bucket)
  if first = none then
    ba.store (.next block) (some block)
    ba.store (.prev block) (some block)
    ba.store (.first_block bucket) (some block)
  else
    let first ← ba.load (.first_block bucket)
    let f ← deref first
    let last ← ba.load (.prev f)
    let first ← ba.load (.first_block bucket)
    let f ← deref first
    ba.store (.prev f) (some block)
    let l ← deref last
    ba.store (.next l) (some block)
    let first ← ba.load (.first_block bucket)
    ba.store (.next block) first
    ba.store (.prev block) last
  let count ← ba.load (.available_blocks bucket)
  ba.store (.available_blocks bucket) (count + 1)

/-! ## Allocation -/

def alloc_block_size (log2size : Nat) : BuddyProg (Option Nat) :=
  if log2size > ba.root_log2size then
    pure none
  else do
    let first ← ba.load (.first_block (bucket_index log2size))
    match first with
    | none =>
      -- split a larger block
      let parent_block ← alloc_block_size (log2size + 1)
      match parent_block with
      | none => pure none
      | some parent_block =>
        let left ← deref (ba.get_left parent_block)
        -- return left node as allocated node
        ba.store (.available left) false
        ba.store (.valid left) true
        let right ← deref (ba.get_right parent_block)
        ba.store (.available right) true
        ba.store (.valid right) true
        ba.add_to_available_list right
        pure (some left)
    | some first =>
      ba.store (.available first) false
      ba.remove_from_available_list first
      pure (some first)
termination_by ba.root_log2size + 1 - log2size

/-- `allocate_pages` up to the translation of the block to an address: the block
    that was taken, or null. -/
def allocate_block (log2size : Nat) : BuddyProg (Option Nat) := do
  if log2size < Log2MinSize then
    .fail (.panic "Failed to allocate pages, log2size < Log2MinSize")
  let block ← ba.alloc_block_size log2size
  match block with
  | none => pure none
  | some block =>
    let count ← ba.load (.allocated_blocks (bucket_index log2size))
    ba.store (.allocated_blocks (bucket_index log2size)) (count + 1)
    pure (some block)

/-- The address `allocate_pages` returns for the block it took: 0 for none. -/
def address_of : Option Nat → UInt64
  | none => 0
  | some block => ba.get_block_phy_addr block

def allocate_pages (log2size : Nat) : BuddyProg UInt64 := do
  let block ← ba.allocate_block log2size
  pure (ba.address_of block)

/-! ## Release -/

def try_merge_with_buddy (block : Nat) : BuddyProg Nat :=
  match hp : get_parent block with
  | none => pure block
  | some parent =>
    have := get_parent_lt hp
    match get_buddy block with
    | none => pure block
    | some buddy => do
      let buddy_available ← ba.load (.available buddy)
      if !buddy_available then
        pure block
      else
        ba.remove_from_available_list buddy
        ba.store (.valid buddy) false
        let parent_available ← ba.load (.available parent)
        .check (!parent_available)
          (.assertion "inconsistent data structure, parent should not be available")
        let parent_valid ← ba.load (.valid parent)
        .check parent_valid
          (.assertion "inconsistent data structure, parent should be valid")
        ba.store (.available parent) true
        ba.store (.valid block) false
        try_merge_with_buddy parent
termination_by block

/-- The block whose address `addr` is, by its number. -/
def block_at (addr : UInt64) : Nat := ((addr - ba.phy_start) / UInt64.ofNat BlockSize).toNat

def free_pages (addr : UInt64) : BuddyProg Unit := do
  .check ((addr - ba.phy_start) % UInt64.ofNat BlockSize == 0)
    (.assertion "Failed to free pages, addr is not aligned")
  let block := ba.block_at addr
  let block_available ← ba.load (.available block)
  .check (!block_available) (.assertion "Cannot free available pages")
  let merged_block ← ba.try_merge_with_buddy block
  ba.store (.available merged_block) true
  ba.add_to_available_list merged_block
  let bucket := bucket_index (ba.block_log2size block)
  let count ← ba.load (.allocated_blocks bucket)
  ba.store (.allocated_blocks bucket) (count - 1)

/-! ## Usage -/

end BuddyAllocator

/-- The figures `print_bucket_usage` prints for a bucket, and the count of available
    blocks it returns besides. -/
structure BucketUsage where
  log2size : Nat
  bucket_size : UInt64
  used_blocks : UInt64
  used_size : UInt64
  free_blocks : UInt64
  free_size : UInt64
  avail : UInt64
  deriving DecidableEq, Repr

/-- The figures `print_usage` prints: the lines of the buckets and the totals. -/
structure Usage where
  buckets : List BucketUsage
  used : UInt64
  free : UInt64
  percent : UInt64
  allocated_blocks : UInt64
  avail_blocks : UInt64
  deriving DecidableEq, Repr

namespace BuddyAllocator

variable (ba : BuddyAllocator)

/-- The loop of `print_bucket_usage` over the list of a bucket, at `block` with `free`
    blocks counted. The loop of the source has no bound: running out of `fuel` stands
    for running forever. -/
def count_free (bucket : Nat) : Nat → Nat → UInt64 → BuddyProg UInt64
  | 0, _, _ => .fail .endless_loop
  | fuel + 1, block, free => do
    let available ← ba.load (.available block)
    let free := if available then free + 1 else free
    let next ← ba.load (.next block)
    let first ← ba.load (.first_block bucket)
    if next = first then
      pure free
    else
      let block ← deref next
      count_free bucket fuel block free

/-- The number of available blocks on the list that starts at `first`. -/
def count_list (bucket : Nat) : Option Nat → BuddyProg UInt64
  | some block => ba.count_free bucket ba.max_blocks block 0
  | none => pure 0

def print_bucket_usage (bucket : Nat) : BuddyProg BucketUsage := do
  let log2size ← ba.load (.log2size bucket)
  let bucket_size := UInt64.ofNat (2 ^ log2size)
  let first ← ba.load (.first_block bucket)
  let free ← ba.count_list bucket first
  let used ← ba.load (.allocated_blocks bucket)
  let avail ← ba.load (.available_blocks bucket)
  pure ⟨log2size, bucket_size, used, used * bucket_size, free, free * bucket_size, avail⟩

/-- The loop of `print_usage` over the sizes from `i` up to the root. -/
def bucket_usages (i : Nat) : BuddyProg (List BucketUsage) :=
  if i ≤ ba.root_log2size then do
    let usage ← ba.print_bucket_usage (bucket_index i)
    let rest ← bucket_usages (i + 1)
    pure (usage :: rest)
  else
    pure []
termination_by ba.root_log2size + 1 - i

/-- The totals of `print_usage`. -/
def usage_totals (buckets : List BucketUsage) : Usage :=
  let total := UInt64.ofNat (2 ^ ba.root_log2size)
  let total_free := (buckets.map (·.free_size)).sum
  let total_available_blocks := (buckets.map (·.avail)).sum
  let total_allocated_blocks := (buckets.map (·.used_blocks)).sum
  ⟨buckets, total - total_free, total_free, (total - total_free) * 100 / total,
    total_allocated_blocks, total_available_blocks⟩

def print_usage : BuddyProg Usage := do
  let buckets ← ba.bucket_usages Log2MinSize
  pure (ba.usage_totals buckets)

end BuddyAllocator

end Modern05
