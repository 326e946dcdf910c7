import Modern05.Framework.PageTable
import Modern05.Mm.PageAlloc
import Modern05.Mm.PageAllocatorInit

/-! # Processes and their memory

    `create_process` and the constructor of `Process` in `process.cpp`, `map_user_addr`,
    and `sys_anon_allocate` in `syscall.cpp`, over the physical memory of the machine.
    The page tables are in that memory, where the kernel writes them through the
    identity map, and so is everything a process writes.

    The fields of a `Process` object that these functions use are kept in a record, and
    the bytes the constructors and later code leave in the objects are left open: each
    event comes with what it writes there. The tables of the allocator are part of the
    kernel image and not of this memory.

    A call that does not return, because an address is not mapped, has no next state. Nor has
    a call of `create_process` that gets no block for the page tables: they are then at the start
    of the kernel window, and clearing their 2 MiB clears the code of the kernel with them.
-/

namespace Modern05

open BuddyAllocator LTS Memory PageTable

/-! ## Constants -/

def MAX_PROCESS : Nat := 1024
def USER_STACK_SIZE : Nat := 1024 * 1024
def USER_IMAGE_START : Nat := 1024 * 1024
def USER_IMAGE_SIZE : Nat := 8 * 1024 * 1024
def USER_BRK_START : Nat := 16 * 1024 * 1024
def USER_BRK_SIZE : Nat := 16 * 1024 * 1024
def USER_STACK_START : Nat := 33 * 1024 * 1024
def PROCESS_MAX_USER_PAGES : Nat := 512 * 512

/-- The kernel stack of 64 KiB, the saved context and the other fields. -/
def sizeof_Process : Nat := 65920

/-- Two pointers; `make_kup` adds a third. -/
def sizeof_Syscall : Nat := 16

/-- The upper three tables and the last-level tables. -/
def sizeof_PageTabletSructures : Nat := 3 * PAGE_SIZE + 8 * PROCESS_MAX_USER_PAGES

/-- The user half of the address space ends here. -/
def USER_END : Nat := 2 ^ 47

/-! ## State -/

/-- What is fixed once the kernel has started: where the allocator works, the top table
    of the kernel window and where the kernel image is. -/
structure Platform where
  region : MappedRegion
  kernel_pdpt_phy_addr : Nat
  kernel_physical_start : Nat

/-- A machine that gives 2 GiB to the allocator. -/
def platform_2G : Platform :=
  ⟨⟨⟨0x4000000, 31, by decide, by decide⟩, by decide, by decide, by decide⟩, 0, 0⟩

/-- The machine of every kernel that starts, wherever its image and its tables are. -/
def boot_platform (kernel_pdpt_phy_addr kernel_physical_start : Nat) : Platform :=
  ⟨⟨boot_region, by decide, by decide, by decide⟩, kernel_pdpt_phy_addr, kernel_physical_start⟩

structure Process where
  id : Nat
  start_phy : UInt64
  pts_paddr : UInt64
  user_image_phy_addr : UInt64
  user_stack_phy_addr : UInt64
  brk_start : UInt64
  brk_end : UInt64
  deriving DecidableEq, Repr

structure Kernel where
  buddy : BuddyState
  mem : Bytes
  processes : Nat → Option Process
  next_pid : Nat

/-! ## Page tables of a process -/

/-- The address of `pts->pt[vpage]`. -/
def pt_addr (pts vpage : Nat) : Nat := pts + 3 * PAGE_SIZE + 8 * vpage

def map_user_addr (mem : Bytes) (pts vaddr paddr n_pages : Nat) : Bytes :=
  fill_entries mem (pt_addr pts (vaddr / 2 ^ 12)) (fun i => paddr / 2 ^ 12 + i) n_pages

/-- The part of the constructor that builds the upper tables. -/
def init_tables (P : Platform) (mem : Bytes) (pts : Nat) : Bytes :=
  let mem := clear mem pts sizeof_PageTabletSructures
  -- reuse kernel space map
  let kernel_entry := pts + 8 * 256
  let mem := assign mem kernel_entry (set_bit 0)
  let mem := assign mem kernel_entry (set_bit 1)
  let mem := assign mem kernel_entry (set_frame (P.kernel_pdpt_phy_addr / 2 ^ 12))
  -- create a new user space map
  let mem := set_user_entry mem pts ((pts + PAGE_SIZE) / 2 ^ 12)
  -- only the first pdpt is used
  let mem := set_user_entry mem (pts + PAGE_SIZE) ((pts + 2 * PAGE_SIZE) / 2 ^ 12)
  fill_entries mem (pts + 2 * PAGE_SIZE) (fun i => pt_addr pts (i * PAGES_PER_TABLE) / 2 ^ 12)
    PAGES_PER_TABLE

/-! ## Access to memory -/

/-- The kernel reaches the physical range through the identity map. -/
def identity_mapped (a n : Nat) : Bool :=
  IDENTITY_MAP_PHY_START ≤ a && a + n ≤ IDENTITY_MAP_PHY_END

/-- Leave the bytes `contents` in an object of the kernel. -/
def write_object (mem : Bytes) (a n : Nat) (contents : Nat → UInt8) : Bytes :=
  overwrite mem a n (fun i => contents (a + i))

/-- The physical address of a virtual one while the process runs: its own tables map the
    user half, and the kernel window is the image of the kernel followed by the identity
    map. -/
def translate (P : Platform) (mem : Bytes) (p : Process) (vaddr : Nat) : Option Nat :=
  if vaddr < USER_END then
    (walk mem 4 (p.pts_paddr.toNat / 4096) (vaddr / 4096)).map (fun f => f * 4096 + vaddr % 4096)
  else if KERNEL_START ≤ vaddr ∧ vaddr < KERNEL_START + IDENTITY_MAP_PHY_END then
    let offset := vaddr - KERNEL_START
    if offset < IDENTITY_MAP_PHY_START then some (P.kernel_physical_start + offset)
    else some offset
  else
    none

/-- The physical address behind an offset in the kernel window. -/
def window_addr (P : Platform) (o : Nat) : Nat :=
  if o < IDENTITY_MAP_PHY_START then P.kernel_physical_start + o else o

/-- Store a 64-bit word at a virtual address. All bytes are translated before the first
    one is written. -/
def store_word (P : Platform) (mem : Bytes) (p : Process) (vaddr w : Nat) : Option Bytes :=
  (List.range 8).foldlM (fun mem' i => do
    let a ← translate P mem p ((vaddr + i) % 2 ^ 64)
    pure (overwrite mem' a 1 (fun _ => byte w i))) mem

/-! ## Operations -/

/-- The sizes `create_process` asks for, in this order: the `Process` object, its
    `Syscall` object, the page tables, the image and the stack. -/
def process_log2size : Nat :=
  let log2size := log2 sizeof_Process + 1
  if log2size < Log2MinSize then Log2MinSize else log2size
def syscall_log2size : Nat := kmalloc_log2size (sizeof_Syscall + 8)
def pts_log2size : Nat := log2 sizeof_PageTabletSructures + 1
def image_log2size : Nat := log2 USER_IMAGE_SIZE
def stack_log2size : Nat := log2 USER_STACK_SIZE

/-- The memory after the constructor of `Process`. -/
def construct_process (P : Platform) (mem : Bytes) (contents : Nat → UInt8)
    (object syscall pts image stack : Nat) : Bytes :=
  let mem := write_object mem syscall (sizeof_Syscall + 8) contents
  let mem := init_tables P mem pts
  -- 1MiB ~ 9MiB are for exec image
  let mem := map_user_addr mem pts USER_IMAGE_START image (USER_IMAGE_SIZE / PAGE_SIZE)
  -- 32MiB ~ 33MiB are for user stack
  let mem := map_user_addr mem pts USER_STACK_START stack (USER_STACK_SIZE / PAGE_SIZE)
  write_object mem object sizeof_Process contents

/-- The allocator does not touch the memory the constructor writes, so that all
    allocations can come first. None of them is checked. -/
def create_process (P : Platform) (k : Kernel) (contents : Nat → UInt8) : Option Kernel := do
  let ba := P.region.allocator
  let pid := k.next_pid
  -- without a block for the object or the system calls there is none for the tables either
  let (object, buddy) ← physical_page_alloc ba k.buddy process_log2size
  let (syscall, buddy) ← physical_page_alloc ba buddy syscall_log2size
  let (pts, buddy) ← physical_page_alloc ba buddy pts_log2size
  -- without a block for one of these the memory from address 0 on is mapped
  let (image, buddy) ← try_page_alloc ba buddy image_log2size
  let (stack, buddy) ← try_page_alloc ba buddy stack_log2size
  let object_addr := (object.addr ba).toNat
  let syscall_addr := (syscall.addr ba).toNat
  let pts_addr := (pts.addr ba).toNat
  -- the constructors write through the identity map
  guard (identity_mapped object_addr sizeof_Process &&
    identity_mapped syscall_addr (sizeof_Syscall + 8) &&
    identity_mapped pts_addr sizeof_PageTabletSructures)
  let mem := construct_process P k.mem contents object_addr syscall_addr pts_addr
    (buf_phy ba image).toNat (buf_phy ba stack).toNat
  guard (pid < MAX_PROCESS)
  -- "Process already created"
  guard (k.processes pid = none)
  let process : Process :=
    ⟨pid, object.addr ba, pts.addr ba, buf_phy ba image, buf_phy ba stack,
      UInt64.ofNat USER_BRK_START, UInt64.ofNat (USER_BRK_START + USER_BRK_SIZE)⟩
  pure ⟨buddy, mem, Function.update k.processes pid (some process), pid + 1⟩

/-- The size of a request in whole pages, in 64-bit arithmetic. -/
def aligned_size (size : UInt64) : UInt64 :=
  (size + UInt64.ofNat (PAGE_SIZE - 1)) / UInt64.ofNat PAGE_SIZE * UInt64.ofNat PAGE_SIZE

/-- The result and the state after the call by the process `pid` with `size` in `rdi` and
    `ptr` in `rsi`. -/
def sys_anon_allocate (P : Platform) (k : Kernel) (pid : Nat) (size ptr : UInt64)
    (contents : Nat → UInt8) : Option (Int × Kernel) := do
  let ba := P.region.allocator
  let p ← k.processes pid
  let aligned_size := aligned_size size
  -- the result of `kmalloc` is not checked
  let (buf, buddy) ← try_kmalloc ba k.buddy aligned_size.toNat
  let brk_start := p.brk_start
  let p := { p with brk_start := p.brk_start + aligned_size }
  let mem := write_object k.mem p.start_phy.toNat sizeof_Process contents
  let processes := Function.update k.processes pid (some p)
  if p.brk_start > p.brk_end then
    -- user brk overflow
    pure (-1, ⟨buddy, mem, processes, k.next_pid⟩)
  else
    let n_pages := aligned_size.toNat / PAGE_SIZE
    guard (n_pages = 0 ∨
      identity_mapped (pt_addr p.pts_paddr.toNat (brk_start.toNat / 2 ^ 12)) (8 * n_pages))
    let mem := map_user_addr mem p.pts_paddr.toNat brk_start.toNat (buf_phy ba buf).toNat n_pages
    let mem ← store_word P mem p ptr.toNat brk_start.toNat
    pure (0, ⟨buddy, mem, processes, k.next_pid⟩)

/-- A process stores a byte at a user address. -/
def user_store (P : Platform) (k : Kernel) (pid vaddr : Nat) (value : UInt8) :
    Option Kernel := do
  let p ← k.processes pid
  guard (vaddr < USER_END)
  let a ← translate P k.mem p vaddr
  pure { k with mem := overwrite k.mem a 1 (fun _ => value) }

/-! ## Runs -/

inductive KernelEvent where
  | create_process (contents : Nat → UInt8)
  | sys_anon_allocate (pid : Nat) (size ptr : UInt64) (contents : Nat → UInt8)
  | user_store (pid vaddr : Nat) (value : UInt8)

def Kernel.exec (P : Platform) (k : Kernel) : KernelEvent → Option Kernel
  | .create_process contents => create_process P k contents
  | .sys_anon_allocate pid size ptr contents =>
    (sys_anon_allocate P k pid size ptr contents).map Prod.snd
  | .user_store pid vaddr value => user_store P k pid vaddr value

/-- From a kernel that has started, with any blocks in use elsewhere and any contents of
    memory, but no processes yet. -/
def process_system (P : Platform) : System Kernel KernelEvent where
  init := fun k => Reachable (buddy_system P.region.allocator) k.buddy ∧
    k.processes = (fun _ => none) ∧ k.next_pid = 1
  step := fun k e k' => k.exec P e = some k'

end Modern05
