import Modern05.Kernel.ProcessOps
import Modern05.Mm.PageAllocatorInit

/-! # Isolation of processes

    No physical page is mapped by two processes, and none lies in a block that holds a
    `Process` object or page tables. This rests on two things the code does not ensure:
    that the allocator hands out blocks which share no byte, and that the pointer a
    process passes to `sys_anon_allocate` is its own.

    * `process_isolation`: isolation holds in every run whose allocations are spaced and
      whose result pointers lie in the user half.
    * `two_processes_share_image`: two processes that are created one after the other
      share most of their images.
    * `boot_images_overlap`: in the memory a kernel starts with no two images are apart.

    The invariant names the holder of every block: each mapping of a process is into a
    block it holds for user memory, and its tables are in a block it holds for tables.
-/

namespace Modern05

open BuddyAllocator LTS Memory PageTable

/-! ## The property -/

/-- The bytes of a physical page. -/
def page_bytes (f : Nat) : Set Nat := Set.Ico (f * 4096) (f * 4096 + 4096)

/-- The user page table of the process maps the physical page `f`. -/
def Maps (mem : Bytes) (p : Process) (f : Nat) : Prop :=
  ∃ vpage < 2 ^ 35, walk mem 4 (p.pts_paddr.toNat / 4096) vpage = some f

structure Isolated (P : Platform) (k : Kernel) : Prop where
  /-- No page is mapped by two processes. -/
  pages : ∀ pid p pid' q, pid ≠ pid' → k.processes pid = some p →
    k.processes pid' = some q → ∀ f, Maps k.mem p f → ¬ Maps k.mem q f
  /-- No page lies in a block that holds a `Process` object or page tables. -/
  objects : ∀ pid p pid' q, k.processes pid = some p → k.processes pid' = some q →
    ∀ f, Maps k.mem p f → ∀ l ∈ k.buddy.live,
      l.addr P.region.allocator = q.start_phy ∨ l.addr P.region.allocator = q.pts_paddr →
      Disjoint (page_bytes f) (l.bytes P.region.allocator)

/-! ## The condition -/

/-- The allocations of a call are all spaced and succeed, and a result pointer lies in the user
    half. -/
def KernelEvent.confined (P : Platform) (k : Kernel) : KernelEvent → Prop
  | .create_process _ => AllSpaced P.region.allocator k.buddy
      [process_log2size, syscall_log2size, pts_log2size, image_log2size, stack_log2size] ∧
        (NewBlocks.alloc P.region.allocator k.buddy).isSome
  | .sys_anon_allocate _ size ptr _ =>
      AllSpaced P.region.allocator k.buddy [kmalloc_log2size (aligned_size size).toNat] ∧
        (kmalloc P.region.allocator k.buddy (aligned_size size).toNat).isSome ∧
        ptr.toNat + 8 ≤ USER_END
  | .user_store _ _ _ => True

/-! ## The invariant -/

/-- What a process holds a block for. -/
inductive Use where
  | object
  | syscall
  | tables
  | user
  deriving DecidableEq, Repr

/-- The blocks of the processes, by process and use. -/
abbrev Blocks := List ((Nat × Use) × Live)

/-- The page lies in a block that the process holds for user memory. -/
def UserPage (ba : BuddyAllocator) (owned : Blocks) (pid f : Nat) : Prop :=
  ∃ l, ((pid, Use.user), l) ∈ owned ∧ page_bytes f ⊆ l.bytes ba

/-- What holds of a process when the live blocks have `held` bytes. -/
structure ProcessInv (ba : BuddyAllocator) (mem : Bytes) (held : Nat) (owned : Blocks)
    (pid : Nat) (p : Process) : Prop where
  object : ∃ l, ((pid, Use.object), l) ∈ owned ∧ l.addr ba = p.start_phy ∧
    l.log2size = process_log2size
  tables : ∃ l, ((pid, Use.tables), l) ∈ owned ∧ l.addr ba = p.pts_paddr ∧
    l.log2size = pts_log2size
  upper : UserTables mem p.pts_paddr.toNat
  pages : MapsInto mem p.pts_paddr.toNat (UserPage ba owned pid)
  brk_aligned : p.brk_start.toNat % 4096 = 0
  /-- The break moves by at most what was allocated. -/
  brk_le : p.brk_start.toNat ≤ USER_BRK_START + held
  brk_end : p.brk_end = UInt64.ofNat (USER_BRK_START + USER_BRK_SIZE)

/-- The bytes of the live blocks. -/
def held_bytes (s : BuddyState) : Nat := (s.live.map (fun l => 2 ^ l.log2size)).sum

/-- Every process that exists is in order. -/
def AllProcesses (ba : BuddyAllocator) (mem : Bytes) (held : Nat) (owned : Blocks)
    (processes : Nat → Option Process) : Prop :=
  ∀ pid p, processes pid = some p → ProcessInv ba mem held owned pid p

structure KernelInv (P : Platform) (k : Kernel) (owned : Blocks) : Prop where
  holdings : Holdings P.region.toRegion k.buddy owned
  all : AllProcesses P.region.allocator k.mem (held_bytes k.buddy) owned k.processes

section holders

variable {R : Region} {s : BuddyState} {owned : Blocks} {pid pid' : Nat} {use use' : Use}
  {l l' : Live}

/-- Blocks of two processes share no byte. -/
theorem Holdings.disjoint_pid (h : Holdings R s owned) (ho : ((pid, use), l) ∈ owned)
    (ho' : ((pid', use'), l') ∈ owned) (hne : pid ≠ pid') :
    Disjoint (l.bytes R.allocator) (l'.bytes R.allocator) := by
  have hdisj := h.disjoint ho ho' (fun e => hne (congrArg (fun o => o.1.1) e))
  exact hdisj

/-- Blocks held for two uses share no byte. -/
theorem Holdings.disjoint_use (h : Holdings R s owned) (ho : ((pid, use), l) ∈ owned)
    (ho' : ((pid', use'), l') ∈ owned) (hne : use ≠ use') :
    Disjoint (l.bytes R.allocator) (l'.bytes R.allocator) := by
  have hdisj := h.disjoint ho ho' (fun e => hne (congrArg (fun o => o.1.2) e))
  exact hdisj

end holders

section invariant

variable {P : Platform} {k : Kernel} {ba : BuddyAllocator} {mem mem' : Bytes} {held held' : Nat}
  {owned owned' : Blocks} {pid : Nat} {p : Process} {S : Set Nat}

/-- The tables of a process lie in the block it holds for them. -/
theorem table_bytes_subset {l : Live} (haddr : l.addr ba = p.pts_paddr)
    (hsize : l.log2size = pts_log2size) : table_bytes p.pts_paddr.toNat ⊆ l.bytes ba := by
  unfold table_bytes Live.bytes
  rw [haddr, hsize, pts_log2size_eq, sizeof_PageTabletSructures_eq]
  exact Set.Ico_subset_Ico_right (by omega)

/-- **Frame**: a process stays in order when nothing in its block for tables changes,
    whatever else is written or allocated. -/
theorem ProcessInv.frame (h : ProcessInv ba mem held owned pid p)
    (hm : ChangesOnly S mem mem')
    (hS : ∀ l, ((pid, Use.tables), l) ∈ owned → Disjoint S (l.bytes ba))
    (howned : owned ⊆ owned') (hheld : held ≤ held') :
    ProcessInv ba mem' held' owned' pid p := by
  obtain ⟨l, hl, haddr, hsize⟩ := h.tables
  have hdisj : Disjoint S (table_bytes p.pts_paddr.toNat) :=
    (hS l hl).mono_right (table_bytes_subset haddr hsize)
  obtain ⟨l', hl', hobject⟩ := h.object
  refine ⟨⟨l', howned hl', hobject⟩, ⟨l, howned hl, haddr, hsize⟩, ?_, ?_, h.brk_aligned, ?_,
    h.brk_end⟩
  · exact h.upper.congr hm (hdisj.mono_right upper_subset_tables)
  · refine (h.pages.congr hm hdisj).mono ?_
    intro f hf
    obtain ⟨l, hl, hpage⟩ := hf
    exact ⟨l, howned hl, hpage⟩
  · have := h.brk_le
    omega

/-- The tables of a process are aligned to pages. -/
theorem KernelInv.pts_aligned (h : KernelInv P k owned) (hp : k.processes pid = some p) :
    p.pts_paddr.toNat % 4096 = 0 := by
  obtain ⟨l, hl, haddr, _⟩ := (h.all pid p hp).tables
  have haligned := (addr_bounds h.holdings.reachable (h.holdings.live _ hl)).1
  rw [haddr] at haligned
  exact haligned

/-- A page that a process maps lies in a block it holds for user memory. -/
theorem KernelInv.userPage (h : KernelInv P k owned) (hp : k.processes pid = some p) {f : Nat}
    (hf : Maps k.mem p f) : UserPage P.region.allocator owned pid f := by
  have hinv := h.all pid p hp
  obtain ⟨vpage, hv, hwalk⟩ := hf
  exact hinv.pages.of_walk (h.pts_aligned hp) hinv.upper hv hwalk

/-- **The invariant gives isolation.** -/
theorem KernelInv.isolated (h : KernelInv P k owned) : Isolated P k := by
  refine ⟨?_, ?_⟩
  · intro pid p pid' q hne hp hq f hf hf'
    obtain ⟨l, hl, hpage⟩ := h.userPage hp hf
    obtain ⟨l', hl', hpage'⟩ := h.userPage hq hf'
    have hdisj := h.holdings.disjoint_pid hl hl' hne
    -- The first byte of the page would be in both blocks.
    have hbyte : f * 4096 ∈ page_bytes f := ⟨Nat.le_refl _, by omega⟩
    exact Set.disjoint_left.mp hdisj (hpage hbyte) (hpage' hbyte)
  · intro pid p pid' q hp hq f hf l hl haddr
    obtain ⟨l₁, hl₁, hpage⟩ := h.userPage hp hf
    obtain ⟨free, hsound⟩ := stateInv_of_reachable P.region.fits k.buddy h.holdings.reachable
    have hq := h.all pid' q hq
    -- The live block with that address is the one that `q` holds.
    have hheld : ∃ use, use ≠ Use.user ∧ ((pid', use), l) ∈ owned := by
      rcases haddr with e | e
      · obtain ⟨l₂, hl₂, haddr₂, _⟩ := hq.object
        have hsame : l = l₂ :=
          hsound.addr_inj P.region.fits hl (h.holdings.live _ hl₂) (e.trans haddr₂.symm)
        rw [hsame]
        exact ⟨Use.object, by decide, hl₂⟩
      · obtain ⟨l₂, hl₂, haddr₂, _⟩ := hq.tables
        have hsame : l = l₂ :=
          hsound.addr_inj P.region.fits hl (h.holdings.live _ hl₂) (e.trans haddr₂.symm)
        rw [hsame]
        exact ⟨Use.tables, by decide, hl₂⟩
    obtain ⟨use, huse, hmem⟩ := hheld
    exact (h.holdings.disjoint_use hl₁ hmem huse.symm).mono_left hpage

end invariant

/-! ## Creation -/

section create

variable {P : Platform} {k k' : Kernel} {owned : Blocks} {contents : Nat → UInt8}

/-- The pages of a block that is aligned to pages lie in it. -/
theorem userPage_of_block {ba : BuddyAllocator} {pid : Nat} {l : Live} {i : Nat}
    (hl : ((pid, Use.user), l) ∈ owned) (haligned : (l.addr ba).toNat % 4096 = 0)
    (hi : 4096 * (i + 1) ≤ 2 ^ l.log2size) :
    UserPage ba owned pid ((l.addr ba).toNat / 2 ^ 12 + i) := by
  refine ⟨l, hl, ?_⟩
  unfold page_bytes Live.bytes
  exact Set.Ico_subset_Ico (by omega) (by omega)

/-- The blocks of the processes once the new one has its own. -/
def NewBlocks.add (b : NewBlocks) (pid : Nat) (owned : Blocks) : Blocks :=
  ((pid, .user), b.stack) :: ((pid, .user), b.image) :: ((pid, .tables), b.pts) ::
    ((pid, .syscall), b.syscall) :: ((pid, .object), b.object) :: owned

theorem held_bytes_alloc {R : Region} {s s' : BuddyState} {n : Nat} {l : Live}
    (hs : Reachable (buddy_system R.allocator) s) (hn : Log2MinSize ≤ n)
    (h : physical_page_alloc R.allocator s n = some (l, s')) :
    held_bytes s' = 2 ^ n + held_bytes s ∧ held_bytes s ≤ held_bytes s' ∧ l.log2size = n := by
  obtain ⟨_, _, _, hsize, hlive, _⟩ := physical_page_alloc_spec hs hn h
  have hsum : held_bytes s' = 2 ^ n + held_bytes s := by
    unfold held_bytes
    rw [hlive, List.map_cons, List.sum_cons, hsize]
  exact ⟨hsum, hsum ▸ Nat.le_add_left _ _, hsize⟩

/-- Spaced allocations add the new blocks to the holdings. -/
theorem holdings_add {b : NewBlocks} {R : Region} {s s' : BuddyState}
    (h : Holdings R s owned) (hb : NewBlocks.alloc R.allocator s = some (b, s')) (pid : Nat)
    (hspaced : AllSpaced R.allocator s
      [process_log2size, syscall_log2size, pts_log2size, image_log2size, stack_log2size]) :
    Holdings R s' (b.add pid owned) ∧ b.Sizes ∧ held_bytes s ≤ held_bytes s' := by
  obtain ⟨z₁, z₂, z₃, z₄, z₅⟩ := min_le_log2sizes
  obtain ⟨s₁, s₂, s₃, s₄, a₁, a₂, a₃, a₄, a₅⟩ := NewBlocks.alloc_steps hb
  obtain ⟨p₁, hspaced⟩ := hspaced
  obtain ⟨p₂, hspaced⟩ := hspaced _ _ a₁
  obtain ⟨p₃, hspaced⟩ := hspaced _ _ a₂
  obtain ⟨p₄, hspaced⟩ := hspaced _ _ a₃
  obtain ⟨p₅, _⟩ := hspaced _ _ a₄
  have h₁ := h.alloc (pid, Use.object) z₁ p₁ a₁
  have h₂ := h₁.alloc (pid, Use.syscall) z₂ p₂ a₂
  have h₃ := h₂.alloc (pid, Use.tables) z₃ p₃ a₃
  have h₄ := h₃.alloc (pid, Use.user) z₄ p₄ a₄
  have h₅ := h₄.alloc (pid, Use.user) z₅ p₅ a₅
  obtain ⟨_, e₁, l₁⟩ := held_bytes_alloc h.reachable z₁ a₁
  obtain ⟨_, e₂, l₂⟩ := held_bytes_alloc h₁.reachable z₂ a₂
  obtain ⟨_, e₃, l₃⟩ := held_bytes_alloc h₂.reachable z₃ a₃
  obtain ⟨_, e₄, l₄⟩ := held_bytes_alloc h₃.reachable z₄ a₄
  obtain ⟨_, e₅, l₅⟩ := held_bytes_alloc h₄.reachable z₅ a₅
  exact ⟨h₅, ⟨l₁, l₂, l₃, l₄, l₅⟩, by omega⟩

/-- **Creation keeps the invariant.** -/
theorem kernelInv_create (hinv : KernelInv P k owned)
    (hconfined : (KernelEvent.create_process contents).confined P k)
    (h : create_process P k contents = some k') : ∃ owned', KernelInv P k' owned' := by
  obtain ⟨⟨b, s⟩, hb⟩ := Option.isSome_iff_exists.mp hconfined.2
  obtain ⟨rfl, hfree, hmem, hprocesses, _⟩ := create_process_cases h hb
  obtain ⟨hold, hsize, hheld⟩ := holdings_add hinv.holdings hb k.next_pid hconfined.1
  let ba := P.region.allocator
  let pid := k.next_pid
  let owned' := b.add pid owned
  have hobject : ((pid, Use.object), b.object) ∈ owned' := by simp [owned', NewBlocks.add]
  have hsyscall : ((pid, Use.syscall), b.syscall) ∈ owned' := by simp [owned', NewBlocks.add]
  have hpts : ((pid, Use.tables), b.pts) ∈ owned' := by simp [owned', NewBlocks.add]
  have himage : ((pid, Use.user), b.image) ∈ owned' := by simp [owned', NewBlocks.add]
  have hstack : ((pid, Use.user), b.stack) ∈ owned' := by simp [owned', NewBlocks.add]
  have hsub : owned ⊆ owned' := by
    intro o ho
    simp [owned', NewBlocks.add, ho]
  have lpts : b.pts ∈ k'.buddy.live := hold.live _ hpts
  have limage : b.image ∈ k'.buddy.live := hold.live _ himage
  have lstack : b.stack ∈ k'.buddy.live := hold.live _ hstack
  obtain ⟨apts, _, upts⟩ := addr_bounds hold.reachable lpts
  obtain ⟨aimage, _, uimage⟩ := addr_bounds hold.reachable limage
  obtain ⟨astack, _, ustack⟩ := addr_bounds hold.reachable lstack
  have hOsub : Set.Ico (b.object.addr ba).toNat ((b.object.addr ba).toNat + sizeof_Process) ⊆
      b.object.bytes ba := by
    apply object_subset
    rw [hsize.object]
    exact sizeof_le.1
  have hYsub : Set.Ico (b.syscall.addr ba).toNat
      ((b.syscall.addr ba).toNat + (sizeof_Syscall + 8)) ⊆ b.syscall.bytes ba := by
    apply object_subset
    rw [hsize.syscall]
    exact sizeof_le.2
  have hTsub : table_bytes (b.process ba pid).pts_paddr.toNat ⊆ b.pts.bytes ba :=
    table_bytes_subset rfl hsize.pts
  have hOT : Disjoint (b.object.bytes ba) (b.pts.bytes ba) :=
    hold.disjoint_use hobject hpts (by decide)
  have hmax : ∀ {n : Nat}, n ≤ 2 ^ 34 → n ≤ 2 ^ 40 := fun hn => Nat.le_trans hn (by decide)
  have hspec : Constructed k.mem (b.memory P k.mem contents) _ _ (b.pts.addr ba).toNat _
      (UserPage ba owned' pid) :=
    construct_process_spec apts (hmax upts) (hmax uimage) (hmax ustack) (hOT.mono hOsub hTsub)
      (fun i hi => userPage_of_block himage aimage
        (by rw [hsize.image, user_log2sizes.1]; omega))
      (fun i hi => userPage_of_block hstack astack
        (by rw [hsize.stack, user_log2sizes.2]; omega))
  refine ⟨owned', hold, ?_⟩
  rw [hmem, hprocesses]
  intro pid' q hq
  by_cases e : pid' = pid
  · subst e
    rw [Function.update_self] at hq
    cases hq
    refine ⟨⟨b.object, hobject, rfl, hsize.object⟩, ⟨b.pts, hpts, rfl, hsize.pts⟩,
      hspec.upper, hspec.maps, ?_, ?_, rfl⟩
    · show (UInt64.ofNat USER_BRK_START).toNat % 4096 = 0
      decide
    · exact Nat.le_add_right _ _
  · rw [Function.update_of_ne e] at hq
    refine (hinv.all pid' q hq).frame hspec.only ?_ hsub hheld
    -- The new blocks share no byte with the tables of another process.
    intro l hl
    have hne : pid ≠ pid' := fun h => e h.symm
    have hO := (hold.disjoint_pid hobject (hsub hl) hne).mono_left hOsub
    have hY := (hold.disjoint_pid hsyscall (hsub hl) hne).mono_left hYsub
    have hT := (hold.disjoint_pid hpts (hsub hl) hne).mono_left hTsub
    exact (hO.union_left hY).union_left hT

end create

/-! ## Writes of user memory -/

section user

variable {P : Platform} {k k' : Kernel} {owned : Blocks} {pid : Nat} {p : Process}
  {mem mem' : Bytes} {held : Nat} {processes : Nat → Option Process}

/-- The bytes of the blocks that a process holds for user memory. -/
def user_bytes (ba : BuddyAllocator) (owned : Blocks) (pid : Nat) : Set Nat :=
  {x | ∃ l, ((pid, Use.user), l) ∈ owned ∧ x ∈ l.bytes ba}

/-- User memory shares no byte with the blocks for tables. -/
theorem Holdings.user_bytes_disjoint {R : Region} {s : BuddyState} (h : Holdings R s owned)
    {pid' : Nat} {l : Live} (hl : ((pid', Use.tables), l) ∈ owned) :
    Disjoint (user_bytes R.allocator owned pid) (l.bytes R.allocator) := by
  rw [Set.disjoint_left]
  intro x hx hxl
  obtain ⟨l', hl', hxl'⟩ := hx
  exact Set.disjoint_left.mp (h.disjoint_use hl' hl (by decide)) hxl' hxl

/-- All processes stay in order when only user memory is written. -/
theorem AllProcesses.write_user {R : Region} {s : BuddyState} (hold : Holdings R s owned)
    (h : AllProcesses R.allocator mem held owned processes)
    (hm : ChangesOnly (user_bytes R.allocator owned pid) mem mem') :
    AllProcesses R.allocator mem' held owned processes :=
  fun pid' q hq => (h pid' q hq).frame hm (fun _ hl => hold.user_bytes_disjoint hl)
    (List.Subset.refl _) (Nat.le_refl _)

/-- A user address of a process that is in order translates into its user memory. -/
theorem translate_user (hinv : ProcessInv P.region.allocator mem held owned pid p)
    (haligned : p.pts_paddr.toNat % 4096 = 0) {vaddr a : Nat} (hv : vaddr < USER_END)
    (h : translate P mem p vaddr = some a) : a ∈ user_bytes P.region.allocator owned pid := by
  unfold translate at h
  rw [if_pos hv] at h
  obtain ⟨f, hwalk, rfl⟩ := Option.map_eq_some_iff.mp h
  have hvpage : vaddr / 4096 < 2 ^ 35 := by
    unfold USER_END at hv
    omega
  obtain ⟨l, hl, hpage⟩ := hinv.pages.of_walk haligned hinv.upper hvpage hwalk
  exact ⟨l, hl, hpage ⟨by omega, by omega⟩⟩

/-- **A word stored at a user address changes user memory of the process only.** -/
theorem changesOnly_store_word (hinv : ProcessInv P.region.allocator mem held owned pid p)
    (haligned : p.pts_paddr.toNat % 4096 = 0) {vaddr w : Nat} (hv : vaddr + 8 ≤ USER_END)
    (h : store_word P mem p vaddr w = some mem') :
    ChangesOnly (user_bytes P.region.allocator owned pid) mem mem' := by
  refine changesOnly_store_word_of (fun i hi a ha => ?_) h
  have hmod : (vaddr + i) % 2 ^ 64 = vaddr + i := by
    unfold USER_END at hv
    omega
  rw [hmod] at ha
  exact translate_user hinv haligned (by omega) ha

/-- **A store of a process keeps the invariant.** -/
theorem kernelInv_store (hinv : KernelInv P k owned) {vaddr : Nat} {value : UInt8}
    (h : user_store P k pid vaddr value = some k') : KernelInv P k' owned := by
  obtain ⟨p, hp, h⟩ := Option.bind_eq_some_iff.mp h
  obtain ⟨_, hguard, h⟩ := Option.bind_eq_some_iff.mp h
  obtain ⟨a, ha, h⟩ := Option.bind_eq_some_iff.mp h
  cases h
  have hv : vaddr < USER_END := of_guard hguard
  have hmem := translate_user (hinv.all pid p hp) (hinv.pts_aligned hp) hv ha
  have hchange : ChangesOnly (user_bytes P.region.allocator owned pid) k.mem
      (overwrite k.mem a 1 (fun _ => value)) := .overwrite_byte _ hmem
  exact ⟨hinv.holdings, hinv.all.write_user hinv.holdings hchange⟩

end user

/-! ## Anonymous memory -/

section anonymous

variable {P : Platform} {k k' : Kernel} {owned : Blocks} {pid : Nat} {p : Process}
  {size ptr : UInt64} {contents : Nat → UInt8} {result : Int}

/-- The break does not wrap: it has moved by at most the bytes of the live blocks, which
    fit into the region. -/
theorem toNat_move_brk {held n : Nat} (hbrk : p.brk_start.toNat ≤ USER_BRK_START + held)
    {a : UInt64} (ha : a.toNat ≤ n) (hheld : n + held ≤ 2 ^ 32) :
    (p.brk_start + a).toNat = p.brk_start.toNat + a.toNat := by
  unfold USER_BRK_START at hbrk
  rw [UInt64.toNat_add]
  omega

/-- Moving the break of a process, which is a field of its object, leaves all processes
    in order. -/
theorem AllProcesses.move_brk {R : Region} {s : BuddyState} {mem : Bytes} {held held' : Nat}
    {owned' : Blocks} {processes : Nat → Option Process} {a : UInt64}
    (h : AllProcesses R.allocator mem held owned processes) (hold : Holdings R s owned)
    (hp : processes pid = some p) (hsub : owned ⊆ owned') (hheld : held ≤ held')
    (haligned : (p.brk_start + a).toNat % 4096 = 0)
    (hle : (p.brk_start + a).toNat ≤ USER_BRK_START + held') :
    AllProcesses R.allocator (write_object mem p.start_phy.toNat sizeof_Process contents) held'
      owned' (Function.update processes pid (some (p.move_brk a))) := by
  obtain ⟨l, hl, haddr, hsize⟩ := (h pid p hp).object
  have hobject : Set.Ico p.start_phy.toNat (p.start_phy.toNat + sizeof_Process) ⊆
      l.bytes R.allocator := by
    rw [← haddr]
    apply object_subset
    rw [hsize]
    exact sizeof_le.1
  have hchange : ChangesOnly (l.bytes R.allocator) mem
      (write_object mem p.start_phy.toNat sizeof_Process contents) := .overwrite _ hobject
  have hframe : ∀ pid' q, processes pid' = some q → ProcessInv R.allocator
      (write_object mem p.start_phy.toNat sizeof_Process contents) held' owned' pid' q :=
    fun pid' q hq => (h pid' q hq).frame hchange
      (fun l' hl' => hold.disjoint_use hl hl' (by decide)) hsub hheld
  intro pid' q hq
  by_cases e : pid' = pid
  · subst e
    rw [Function.update_self] at hq
    cases hq
    have hinv := hframe pid' p hp
    exact ⟨hinv.object, hinv.tables, hinv.upper, hinv.pages, haligned, hle, hinv.brk_end⟩
  · rw [Function.update_of_ne e] at hq
    exact hframe pid' q hq

/-- Mapping pages of its own blocks into a process leaves all processes in order. -/
theorem AllProcesses.map_pages {R : Region} {s : BuddyState} {mem : Bytes} {held : Nat}
    {processes : Nat → Option Process} {vaddr paddr n : Nat}
    (h : AllProcesses R.allocator mem held owned processes) (hold : Holdings R s owned)
    (hp : processes pid = some p) (hv : vaddr / 2 ^ 12 + n ≤ PROCESS_MAX_USER_PAGES)
    (hbound : paddr / 2 ^ 12 + n ≤ 2 ^ 40)
    (hnew : ∀ i < n, UserPage R.allocator owned pid (paddr / 2 ^ 12 + i)) :
    AllProcesses R.allocator (map_user_addr mem p.pts_paddr.toNat vaddr paddr n) held owned
      processes := by
  have hinv := h pid p hp
  obtain ⟨l, hl, haddr, hsize⟩ := hinv.tables
  have hchange : ChangesOnly (l.bytes R.allocator) mem
      (map_user_addr mem p.pts_paddr.toNat vaddr paddr n) :=
    (changesOnly_map_user_addr mem _ vaddr paddr n).mono
      (Set.Subset.trans (map_user_addr_subset hv) (table_bytes_subset haddr hsize))
  intro pid' q hq
  by_cases e : pid' = pid
  · subst e
    rw [hp] at hq
    cases hq
    exact ⟨hinv.object, hinv.tables, hinv.upper.map_user_addr,
      hinv.pages.map_user_addr hbound hnew, hinv.brk_aligned, hinv.brk_le, hinv.brk_end⟩
  · exact (h pid' q hq).frame hchange (fun l' hl' => hold.disjoint_pid hl hl' (fun h => e h.symm))
      (List.Subset.refl _) (Nat.le_refl _)

/-- **Anonymous memory keeps the invariant.** -/
theorem kernelInv_anon (hinv : KernelInv P k owned)
    (hconfined : (KernelEvent.sys_anon_allocate pid size ptr contents).confined P k)
    (h : sys_anon_allocate P k pid size ptr contents = some (result, k')) :
    ∃ owned', KernelInv P k' owned' := by
  obtain ⟨⟨hspaced, _⟩, hsome, hptr⟩ := hconfined
  obtain ⟨p, result_buf, hp, htry, hprocesses, hmem⟩ := sys_anon_allocate_cases h
  let a := aligned_size size
  have hmin := min_le_kmalloc_log2size a.toNat
  -- the allocation has succeeded
  obtain ⟨buf, rfl, hbuf⟩ : ∃ buf, result_buf = some buf ∧
      kmalloc P.region.allocator k.buddy a.toNat = some (buf, k'.buddy) :=
    kmalloc_of_try hinv.holdings.reachable hsome htry
  let owned' : Blocks := ((pid, Use.user), buf) :: owned
  have hfit := le_two_pow_kmalloc_log2size a.toNat
  have hold : Holdings P.region.toRegion k'.buddy owned' :=
    hinv.holdings.alloc (pid, Use.user) hmin hspaced hbuf
  obtain ⟨hheld, hle, hsize⟩ := held_bytes_alloc hinv.holdings.reachable hmin hbuf
  have hsub : owned ⊆ owned' := List.subset_cons_self _ _
  have hpinv := hinv.all pid p hp
  -- The break moves without wrapping, and stays aligned.
  have hroom : 2 ^ kmalloc_log2size a.toNat + held_bytes k.buddy ≤ 2 ^ 32 := by
    rw [← hheld]
    have hbytes : held_bytes k'.buddy ≤ 2 ^ P.region.root_log2size := live_bytes_le hold.reachable
    have hhigh := P.region.high
    have hIM : IDENTITY_MAP_PHY_END = 2 ^ 32 := rfl
    omega
  have hbrk : (p.brk_start + a).toNat = p.brk_start.toNat + a.toNat :=
    toNat_move_brk hpinv.brk_le hfit hroom
  have hmod : a.toNat % 4096 = 0 := aligned_size_mod size
  have hbrk_aligned := hpinv.brk_aligned
  have hbrk_le := hpinv.brk_le
  have hmoved : AllProcesses P.region.allocator
      (write_object k.mem p.start_phy.toNat sizeof_Process contents) (held_bytes k'.buddy) owned'
      (Function.update k.processes pid (some (p.move_brk a))) :=
    hinv.all.move_brk hinv.holdings hp hsub hle (by omega) (by omega)
  have hp' : k'.processes pid = some (p.move_brk a) := by
    rw [hprocesses, Function.update_self]
  rw [← hprocesses] at hmoved
  refine ⟨owned', hold, ?_⟩
  rcases hmem with ⟨_, _, hmem⟩ | ⟨_, hend, _, hstore⟩
  · rw [hmem]
    exact hmoved
  · have hbuf' : ((pid, Use.user), buf) ∈ owned' := List.mem_cons_self
    have lbuf : buf ∈ k'.buddy.live := hold.live _ hbuf'
    obtain ⟨abuf, _, ubuf⟩ := addr_bounds hold.reachable lbuf
    -- The break stays below 32 MiB, so that the new entries are in the tables.
    have hlimit : p.brk_start.toNat + a.toNat ≤ 2 ^ 25 := by
      rw [hpinv.brk_end, UInt64.le_iff_toNat_le, hbrk] at hend
      exact hend
    have hpages : a.toNat / PAGE_SIZE = a.toNat / 4096 := rfl
    have hmapped := hmoved.map_pages hold hp'
      (by unfold PROCESS_MAX_USER_PAGES; omega :
        p.brk_start.toNat / 2 ^ 12 + a.toNat / PAGE_SIZE ≤ PROCESS_MAX_USER_PAGES)
      (by omega : (buf.addr P.region.allocator).toNat / 2 ^ 12 + a.toNat / PAGE_SIZE ≤ 2 ^ 40)
      (fun i hi => userPage_of_block hbuf' abuf (by rw [hsize]; omega))
    have haligned : p.pts_paddr.toNat % 4096 = 0 := hinv.pts_aligned hp
    exact hmapped.write_user hold
      (changesOnly_store_word (hmapped pid _ hp') haligned hptr hstore)

end anonymous

/-! ## Runs -/

/-- The runs whose calls are confined. -/
def confined_system (P : Platform) : System Kernel KernelEvent :=
  (process_system P).restrict (fun k e => e.confined P k)

section runs

variable {P : Platform} {k : Kernel}

/-- **The invariant of the runs.** -/
theorem kernelInv_of_reachable :
    ∀ k, Reachable (confined_system P) k → ∃ owned, KernelInv P k owned := by
  apply invariant_of_step
  · intro k hinit
    obtain ⟨hbuddy, hprocesses, _⟩ := hinit
    have hnone : ∀ o ∈ ([] : Blocks), o.2 ∈ k.buddy.live := by simp
    refine ⟨[], ⟨hbuddy, hnone, .nil⟩, ?_⟩
    intro pid p hp
    rw [hprocesses] at hp
    cases hp
  · intro k e k' _ hinv hstep
    obtain ⟨owned, hinv⟩ := hinv
    obtain ⟨hconfined, hstep⟩ := hstep
    have hstep : k.exec P e = some k' := hstep
    cases e with
    | create_process contents => exact kernelInv_create hinv hconfined hstep
    | sys_anon_allocate pid size ptr contents =>
      obtain ⟨⟨result, k₁⟩, hcall, rfl⟩ := Option.map_eq_some_iff.mp hstep
      exact kernelInv_anon hinv hconfined hcall
    | user_store pid vaddr value => exact ⟨owned, kernelInv_store hinv hstep⟩

/-- One more process, if the live blocks are spaced with its own. -/
theorem reachable_create {b : NewBlocks} {s : BuddyState} (hk : Reachable (confined_system P) k)
    (hb : NewBlocks.alloc P.region.allocator k.buddy = some (b, s))
    (hmapped : b.mapped P.region.allocator = true) (hlive : s.live.Pairwise Spaced)
    (hpid : k.next_pid < MAX_PROCESS) (hfree : k.processes k.next_pid = none)
    (contents : Nat → UInt8) :
    Reachable (confined_system P) ⟨s, b.memory P k.mem contents,
      Function.update k.processes k.next_pid
        (some (b.process P.region.allocator k.next_pid)), k.next_pid + 1⟩ := by
  obtain ⟨owned, hinv⟩ := kernelInv_of_reachable k hk
  have hconfined : (KernelEvent.create_process contents).confined P k :=
    ⟨allSpaced_of_pairwise hinv.holdings.reachable hb hlive,
      Option.isSome_iff_exists.mpr ⟨_, hb⟩⟩
  exact hk.step ⟨hconfined, create_process_of_alloc hb hmapped hpid hfree⟩

end runs

/-- **Isolation of processes**: in every run whose calls are confined, no physical page
    is mapped by two processes, and none lies in a block that holds a `Process` object or
    page tables. -/
theorem process_isolation (P : Platform) (k : Kernel) (hk : Reachable (confined_system P) k) :
    Isolated P k := by
  obtain ⟨owned, h⟩ := kernelInv_of_reachable k hk
  exact h.isolated

/-- Calls that split both halves of the 2 GiB down to a smallest block: of every size
    below, the first half has one free block and then the second half. -/
def split_halves : List Call :=
  [.allocate_pages 30, .allocate_pages 16] ++ (List.range' 16 14).map .allocate_pages ++
    [.free_pages 0x4010000, .allocate_pages 16] ++
    [49152, 24576, 12288, 6144, 3072, 1536, 768, 384, 192, 96, 48, 24, 12, 6].map
      (fun b => .free_pages (0x4000000 + 0x10000 * b))

/-- Two processes of a confined run, one in each half of the memory. -/
theorem two_processes_isolated : ∃ k, Reachable (confined_system platform_2G) k ∧
    (k.processes 1).isSome ∧ (k.processes 2).isSome ∧ Isolated platform_2G k := by
  have hrun : (do
      let s ← after platform_2G.region.allocator split_halves
      let (b₁, s₁) ← NewBlocks.alloc platform_2G.region.allocator s
      let (b₂, s₂) ← NewBlocks.alloc platform_2G.region.allocator s₁
      pure (b₁.mapped platform_2G.region.allocator ∧ s₁.live.Pairwise Spaced ∧
        b₂.mapped platform_2G.region.allocator ∧ s₂.live.Pairwise Spaced : Bool)) =
          some true := by decide +kernel
  obtain ⟨s, hs, hrun⟩ := Option.bind_eq_some_iff.mp hrun
  obtain ⟨⟨b₁, s₁⟩, hb₁, hrun⟩ := Option.bind_eq_some_iff.mp hrun
  obtain ⟨⟨b₂, s₂⟩, hb₂, hrun⟩ := Option.bind_eq_some_iff.mp hrun
  obtain ⟨hmapped₁, hlive₁, hmapped₂, hlive₂⟩ := of_decide_eq_true (Option.some.inj hrun)
  have hk₀ : Reachable (confined_system platform_2G) ⟨s, fun _ => 0, fun _ => none, 1⟩ :=
    .init ⟨reachable_after hs, rfl, rfl⟩
  have hk₁ := reachable_create hk₀ hb₁ hmapped₁ hlive₁ (by decide : 1 < MAX_PROCESS) rfl
    (fun _ => 0)
  have hk₂ := reachable_create hk₁ hb₂ hmapped₂ hlive₂ (by decide : 2 < MAX_PROCESS) rfl
    (fun _ => 0)
  exact ⟨_, hk₂, rfl, rfl, process_isolation _ _ hk₂⟩

/-! ## The first two processes -/

/-- The kernel after `mm_init`, before it creates a process. -/
def booted (heap : BuddyHeap) (mem : Bytes) : Kernel := ⟨⟨heap, []⟩, mem, fun _ => none, 1⟩

/-- The blocks of the first process. -/
def first_blocks : NewBlocks := ⟨⟨8191, 17⟩, ⟨16385, 16⟩, ⟨256, 22⟩, ⟨128, 23⟩, ⟨1024, 20⟩⟩

/-- The blocks of the second process. -/
def second_blocks : NewBlocks := ⟨⟨8193, 17⟩, ⟨16386, 16⟩, ⟨259, 22⟩, ⟨130, 23⟩, ⟨1025, 20⟩⟩

section booted

variable {P : Platform} {k : Kernel} {b : NewBlocks} {s : BuddyState} {contents : Nat → UInt8}
  {efi_info : EFIServicesInfo} {range : BuddyRange} {heap : BuddyHeap} {mem : Bytes}

/-- In the memory of a kernel that has started any two images share bytes: the nodes of
    their size are numbered from 127 to 254, and an image takes the addresses of 128. -/
theorem boot_images_overlap (hs : Reachable (buddy_system boot_region.allocator) s) {l l' : Live}
    (hl : l ∈ s.live) (hl' : l' ∈ s.live) (hsize : l.log2size = image_log2size)
    (hsize' : l'.log2size = image_log2size) :
    ¬ Disjoint (l.bytes boot_region.allocator) (l'.bytes boot_region.allocator) := by
  rw [user_log2sizes.1] at hsize hsize'
  have hnode := hasSize_of_live hs hl
  have hnode' := hasSize_of_live hs hl'
  intro hdisj
  have hspaced := spaced_of_disjoint boot_region.fits (by decide) hnode hnode' hdisj
  have hrow : ∀ l : Live, boot_region.allocator.HasSize l.block l.log2size → l.log2size = 23 →
      127 ≤ l.block ∧ l.block < 255 := by
    intro l hnode hsize
    have hlevel : HeapTree.level l.block = 7 := by
      have hsum := hnode.2
      have hroot : boot_region.allocator.root_log2size = 30 := rfl
      omega
    have hspec := HeapTree.level_spec l.block
    rw [hlevel] at hspec
    omega
  have hblock := hrow l hnode hsize
  have hblock' := hrow l' hnode' hsize'
  unfold Spaced Log2MinSize at hspaced
  rw [hsize, hsize'] at hspaced
  omega

/-- A kernel that has started is in an initial state. -/
theorem booted_init (h : mm_init efi_info = .ok (range, heap)) (pdpt start : Nat) :
    (process_system (boot_platform pdpt start)).init (booted heap mem) :=
  ⟨mm_init_reachable h, rfl, rfl⟩

/-- The allocations for the first two processes. -/
theorem booted_allocs (h : mm_init efi_info = .ok (range, heap)) :
    ∃ s₁ s₂, NewBlocks.alloc boot_region.allocator ⟨heap, []⟩ = some (first_blocks, s₁) ∧
      NewBlocks.alloc boot_region.allocator s₁ = some (second_blocks, s₂) := by
  have hboth : (do
      let s ← after boot_region.allocator test_calls
      let (b₁, s) ← NewBlocks.alloc boot_region.allocator s
      let (b₂, _) ← NewBlocks.alloc boot_region.allocator s
      pure (b₁, b₂)) = some (first_blocks, second_blocks) := by decide +kernel
  obtain ⟨s, hs, hboth⟩ := Option.bind_eq_some_iff.mp hboth
  rw [mm_init_after h] at hs
  cases hs
  obtain ⟨⟨b₁, s₁⟩, h₁, hboth⟩ := Option.bind_eq_some_iff.mp hboth
  obtain ⟨⟨b₂, s₂⟩, h₂, hboth⟩ := Option.bind_eq_some_iff.mp hboth
  cases hboth
  exact ⟨s₁, s₂, h₁, h₂⟩

theorem first_mapped : first_blocks.mapped boot_region.allocator = true := by decide

theorem second_mapped : second_blocks.mapped boot_region.allocator = true := by decide

/-- What a process on these blocks maps, whether or not other blocks overlap them. -/
theorem boot_constructed (pdpt start : Nat)
    (hpts : (b.pts.addr boot_region.allocator).toNat % 4096 = 0 ∧
      (b.pts.addr boot_region.allocator).toNat ≤ 2 ^ 40)
    (himage : (b.image.addr boot_region.allocator).toNat ≤ 2 ^ 40)
    (hstack : (b.stack.addr boot_region.allocator).toNat ≤ 2 ^ 40)
    (hobject : (b.pts.addr boot_region.allocator).toNat + sizeof_PageTabletSructures ≤
      (b.object.addr boot_region.allocator).toNat) :
    Constructed mem (b.memory (boot_platform pdpt start) mem contents)
      (b.object.addr boot_region.allocator).toNat (b.syscall.addr boot_region.allocator).toNat
      (b.pts.addr boot_region.allocator).toNat (b.image.addr boot_region.allocator).toNat
      (fun _ => True) := by
  have hdisj : Disjoint (Set.Ico (b.object.addr boot_region.allocator).toNat
      ((b.object.addr boot_region.allocator).toNat + sizeof_Process))
      (table_bytes (b.pts.addr boot_region.allocator).toNat) := by
    unfold table_bytes
    rw [Set.Ico_disjoint_Ico]
    omega
  exact construct_process_spec hpts.1 hpts.2 himage hstack hdisj (fun _ _ => trivial)
    (fun _ _ => trivial)

/-- The objects and tables of the second process lie behind the first entries of the
    tables of the first one. -/
theorem second_objects_disjoint :
    Disjoint (Set.Ico 0x24010000 (0x24010000 + sizeof_Process) ∪
      Set.Ico 0x44020000 (0x44020000 + (sizeof_Syscall + 8)) ∪ table_bytes 0x5030000)
      (Set.Ico 0x5000000 (pt_addr 0x5000000 288 + 8)) := by
  unfold table_bytes
  rw [Set.disjoint_union_left, Set.disjoint_union_left]
  refine ⟨⟨?_, ?_⟩, ?_⟩ <;> rw [Set.Ico_disjoint_Ico] <;> decide

/-- The first two processes of a kernel map the same page, the first one as page 32 of its
    image and the second one as the start of its own. -/
theorem booted_share_image {mem₁ mem₂ : Bytes} {contents' : Nat → UInt8} {pdpt start : Nat}
    (hmem₁ : first_blocks.memory (boot_platform pdpt start) mem contents = mem₁)
    (hmem₂ : second_blocks.memory (boot_platform pdpt start) mem₁ contents' = mem₂) :
    Maps mem₂ (first_blocks.process boot_region.allocator 1) 18464 ∧
      Maps mem₂ (second_blocks.process boot_region.allocator 2) 18464 := by
  have c₁ : Constructed mem mem₁ 0x23ff0000 0x44010000 0x5000000 0x4800000 (fun _ => True) :=
    hmem₁ ▸ boot_constructed pdpt start (by decide) (by decide) (by decide) (by decide)
  have c₂ : Constructed mem₁ mem₂ 0x24010000 0x44020000 0x5030000 0x4820000 (fun _ => True) :=
    hmem₂ ▸ boot_constructed pdpt start (by decide) (by decide) (by decide) (by decide)
  constructor
  · refine ⟨288, by decide, ?_⟩
    show walk mem₂ 4 (0x5000000 / 4096) 288 = some 18464
    rw [walk_user_congr (by decide) c₁.upper (by decide) c₂.only second_objects_disjoint]
    exact c₁.image 32 (by decide)
  · exact ⟨256, by decide, c₂.image 0 (by decide)⟩

/-- A kernel that has started can create two processes. -/
theorem booted_creates_two (h : mm_init efi_info = .ok (range, heap)) (pdpt start : Nat)
    (mem : Bytes) (contents contents' : Nat → UInt8) :
    ∃ k₁ k₂, create_process (boot_platform pdpt start) (booted heap mem) contents = some k₁ ∧
      create_process (boot_platform pdpt start) k₁ contents' = some k₂ := by
  obtain ⟨s₁, s₂, hs₁, hs₂⟩ := booted_allocs h
  exact ⟨_, _,
    create_process_of_alloc (k := booted heap mem) hs₁ first_mapped (by decide : 1 < MAX_PROCESS)
      rfl,
    create_process_of_alloc hs₂ second_mapped (by decide : 2 < MAX_PROCESS) rfl⟩

/-- **The first two processes of a kernel are never isolated.** -/
theorem booted_not_isolated {pdpt start : Nat} {contents' : Nat → UInt8} {k₁ k₂ : Kernel}
    (h : mm_init efi_info = .ok (range, heap))
    (h₁ : create_process (boot_platform pdpt start) (booted heap mem) contents = some k₁)
    (h₂ : create_process (boot_platform pdpt start) k₁ contents' = some k₂) :
    ¬ Isolated (boot_platform pdpt start) k₂ := by
  obtain ⟨s₁, s₂, hs₁, hs₂⟩ := booted_allocs h
  obtain ⟨rfl, _, hmem₁, hprocesses₁, hpid₁⟩ := create_process_cases h₁ hs₁
  obtain ⟨_, _, hmem₂, hprocesses₂, _⟩ := create_process_cases h₂ hs₂
  have hpid₁ : k₁.next_pid = 2 := hpid₁
  rw [hpid₁, hprocesses₁] at hprocesses₂
  obtain ⟨hmaps₁, hmaps₂⟩ := booted_share_image hmem₁.symm hmem₂.symm
  intro hiso
  refine hiso.pages 1 _ 2 _ (by decide) ?_ ?_ 18464 hmaps₁ hmaps₂
  · rw [hprocesses₂, Function.update_of_ne (by decide)]
    exact Function.update_self _ _ _
  · rw [hprocesses₂]
    exact Function.update_self _ _ _

end booted

/-- **Two processes share their images**: when a kernel that has started creates two
    processes, both map the page at `0x4820000`. -/
theorem two_processes_share_image : ∃ P k, Reachable (process_system P) k ∧ ¬ Isolated P k := by
  obtain ⟨heap, h⟩ := mm_init_ok
    (by decide +kernel : (mm_init machine_4G).map Prod.fst = .ok ⟨0x4000000, 30⟩)
  let zeros : Nat → UInt8 := fun _ => 0
  obtain ⟨k₁, k₂, h₁, h₂⟩ := booted_creates_two h 0 0 zeros zeros zeros
  have hstep₁ : (process_system (boot_platform 0 0)).step (booted heap zeros)
      (.create_process zeros) k₁ := h₁
  have hstep₂ : (process_system (boot_platform 0 0)).step k₁ (.create_process zeros) k₂ := h₂
  have hreach : Reachable (process_system (boot_platform 0 0)) k₂ :=
    ((Reachable.init (booted_init h 0 0)).step hstep₁).step hstep₂
  exact ⟨boot_platform 0 0, k₂, hreach, booted_not_isolated h h₁ h₂⟩

end Modern05
