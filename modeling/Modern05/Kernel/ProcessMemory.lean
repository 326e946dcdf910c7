import Modern05.Kernel.AnonMemory

/-! # Creating a process when memory runs out

    `create_process` and the constructor of `Process` make five allocations and check none. An
    allocation that fails returns zero, which is the start of the kernel window.

    * `tables_block_eq_none_iff`: when one of the first three fails, there is no block for the page
      tables. They are cleared at the start of the kernel window, and the kernel goes no further.
    * When the image or the stack fails, the process is created all the same, and what it sees there
      is the start of physical memory.
    * `creation_safe_iff` says when a process is created in blocks of its own.
-/

namespace Modern05

open BuddyAllocator LTS Memory PageTable HeapTree

/-! ## The allocator -/

section allocator

variable {R : Region} {s s' : BuddyState} {n : Nat} {l l' : Live} {b : NewBlocks}

/-- Where there is room for a block there is room for a smaller one. -/
theorem HasRoom.mono {ba : BuddyAllocator} {n' : Nat} (h : HasRoom ba s n') (hle : n ≤ n') :
    HasRoom ba s n := by
  obtain ⟨j, hj, hroot, hsome⟩ := h
  exact ⟨j, Nat.le_trans hle hj, hroot, hsome⟩

/-- Where there is room with more live blocks there is room with fewer. -/
theorem HasRoom.of_blocks_subset (hs : Reachable (buddy_system R.allocator) s)
    (hs' : Reachable (buddy_system R.allocator) s') (hsub : s.blocks ⊆ s'.blocks)
    (hn : Log2MinSize ≤ n) (h : HasRoom R.allocator s' n) : HasRoom R.allocator s n := by
  obtain ⟨free, hinv, _⟩ := stateInv_of_reachable R.fits s hs
  obtain ⟨free', hinv', _⟩ := stateInv_of_reachable R.fits s' hs'
  obtain ⟨j, hj, hroot, hsome⟩ := h
  have hmin := Nat.le_trans hn hj
  obtain ⟨c, hc⟩ := Option.ne_none_iff_exists'.mp hsome
  obtain ⟨hmem, hlevel⟩ := hinv'.inv.head_free R.fits hmin hroot hc
  obtain ⟨hvalid, havail⟩ := hinv'.inv.mem_free hmem
  -- the free node is clear of the live blocks, then and before
  have hclear : Clear s.blocks c := fun l hl =>
    hinv'.inv.tree.clear_of_free hvalid havail l (hsub hl)
  by_contra hnone
  refine not_clear_of_empty R.fits hinv hmin (fun i hi hle => ?_)
    ⟨c, ⟨hinv'.inv.tree.node c hvalid, hlevel⟩, hclear⟩
  by_contra hne
  exact hnone ⟨i, Nat.le_trans hj hi, hle, hne⟩

/-- An allocation that succeeds adds a live block. -/
theorem blocks_subset_of_alloc (hs : Reachable (buddy_system R.allocator) s)
    (hn : Log2MinSize ≤ n) (h : physical_page_alloc R.allocator s n = some (l, s')) :
    Reachable (buddy_system R.allocator) s' ∧ s.blocks ⊆ s'.blocks := by
  obtain ⟨_, _, _, _, hlive, hs'⟩ := physical_page_alloc_spec hs hn h
  refine ⟨hs', ?_⟩
  rintro x ⟨l', hl', rfl⟩
  exact ⟨l', hlive ▸ List.mem_cons_of_mem _ hl', rfl⟩

/-- A call returns, with a block or without one. -/
theorem try_page_alloc_returns (hs : Reachable (buddy_system R.allocator) s)
    (hn : Log2MinSize ≤ n) : ∃ buf t, try_page_alloc R.allocator s n = some (buf, t) := by
  rcases try_page_alloc_cases hs hn with ⟨_, l, t, _, ht⟩ | ⟨_, _, ht⟩
  · exact ⟨_, _, ht⟩
  · exact ⟨_, _, ht⟩

/-- A call for more than there is room for. -/
theorem try_page_alloc_of_not_hasRoom (hs : Reachable (buddy_system R.allocator) s)
    (hn : Log2MinSize ≤ n) (hroom : ¬ HasRoom R.allocator s n) :
    try_page_alloc R.allocator s n = some (none, s) := by
  rcases try_page_alloc_cases hs hn with ⟨hroom', _⟩ | ⟨_, _, ht⟩
  · exact absurd hroom' hroom
  · exact ht

/-! ## The page tables -/

/-- What the constructor gets for the page tables, whatever the calls before returned. -/
def tables_block (ba : BuddyAllocator) (s : BuddyState) : Option (Option Live) := do
  let (_, s) ← try_page_alloc ba s process_log2size
  let (_, s) ← try_page_alloc ba s syscall_log2size
  let (pts, _) ← try_page_alloc ba s pts_log2size
  pure pts

/-- **Without one of the first three blocks there are no tables**: they are the largest of them. -/
theorem tables_block_eq_none_iff (hs : Reachable (buddy_system R.allocator) s) :
    tables_block R.allocator s = some none ↔ ProcessBlocks.alloc R.allocator s = none := by
  obtain ⟨z₁, z₂, z₃, z₄, z₅⟩ := min_le_log2sizes
  have hobject : process_log2size ≤ pts_log2size := by decide +kernel
  have hsyscall : syscall_log2size ≤ pts_log2size := by decide +kernel
  unfold tables_block ProcessBlocks.alloc
  rcases try_page_alloc_cases hs z₁ with ⟨_, l₁, s₁, a₁, t₁⟩ | ⟨hroom₁, a₁, t₁⟩
  · obtain ⟨hs₁, _⟩ := blocks_subset_of_alloc hs z₁ a₁
    rcases try_page_alloc_cases hs₁ z₂ with ⟨_, l₂, s₂, a₂, t₂⟩ | ⟨hroom₂, a₂, t₂⟩
    · obtain ⟨hs₂, _⟩ := blocks_subset_of_alloc hs₁ z₂ a₂
      rcases try_page_alloc_cases hs₂ z₃ with ⟨_, l₃, s₃, a₃, t₃⟩ | ⟨_, a₃, t₃⟩
      · -- with the tables, the other two calls return in any case
        obtain ⟨hs₃, _⟩ := blocks_subset_of_alloc hs₂ z₃ a₃
        obtain ⟨o₄, s₄, t₄⟩ := try_page_alloc_returns hs₃ z₄
        obtain ⟨hs₄, _⟩ := try_page_alloc_live hs₃ z₄ t₄
        obtain ⟨o₅, s₅, t₅⟩ := try_page_alloc_returns hs₄ z₅
        simp [t₁, t₂, t₃, a₁, a₂, a₃, t₄, t₅]
      · simp [t₁, t₂, t₃, a₁, a₂, a₃]
    · have t₃ := try_page_alloc_of_not_hasRoom hs₁ z₃ (fun h => hroom₂ (h.mono hsyscall))
      simp [t₁, t₂, t₃, a₁, a₂]
  · have hnone : ¬ HasRoom R.allocator s pts_log2size := fun h => hroom₁ (h.mono hobject)
    rcases try_page_alloc_cases hs z₂ with ⟨_, l₂, s₂, a₂, t₂⟩ | ⟨_, a₂, t₂⟩
    · -- the block for the system calls leaves no room for tables that was not there
      obtain ⟨hs₂, hsub⟩ := blocks_subset_of_alloc hs z₂ a₂
      have t₃ := try_page_alloc_of_not_hasRoom hs₂ z₃
        (fun h => hnone (h.of_blocks_subset hs hs₂ hsub z₃))
      simp [t₁, t₂, t₃, a₁]
    · have t₃ := try_page_alloc_of_not_hasRoom hs z₃ hnone
      simp [t₁, t₂, t₃, a₁]

/-- Allocations that all succeed add their blocks, in their sizes, to the live ones. -/
theorem NewBlocks.alloc_spec (hs : Reachable (buddy_system R.allocator) s)
    (hb : NewBlocks.alloc R.allocator s = some (b, s')) :
    Reachable (buddy_system R.allocator) s' ∧ b.Sizes ∧
      s'.live = b.stack :: b.image :: b.pts :: b.syscall :: b.object :: s.live := by
  obtain ⟨z₁, z₂, z₃, z₄, z₅⟩ := min_le_log2sizes
  obtain ⟨s₁, s₂, s₃, s₄, a₁, a₂, a₃, a₄, a₅⟩ := NewBlocks.alloc_steps hb
  obtain ⟨_, _, _, k₁, e₁, hs₁⟩ := physical_page_alloc_spec hs z₁ a₁
  obtain ⟨_, _, _, k₂, e₂, hs₂⟩ := physical_page_alloc_spec hs₁ z₂ a₂
  obtain ⟨_, _, _, k₃, e₃, hs₃⟩ := physical_page_alloc_spec hs₂ z₃ a₃
  obtain ⟨_, _, _, k₄, e₄, hs₄⟩ := physical_page_alloc_spec hs₃ z₄ a₄
  obtain ⟨_, _, _, k₅, e₅, hs₅⟩ := physical_page_alloc_spec hs₄ z₅ a₅
  refine ⟨hs₅, ⟨k₁, k₂, k₃, k₄, k₅⟩, ?_⟩
  rw [e₅, e₄, e₃, e₂, e₁]

theorem NewBlocks.mem_live (hs : Reachable (buddy_system R.allocator) s)
    (hb : NewBlocks.alloc R.allocator s = some (b, s')) :
    ∀ l ∈ [b.object, b.syscall, b.pts, b.image, b.stack], l ∈ s'.live := by
  obtain ⟨_, _, hlive⟩ := NewBlocks.alloc_spec hs hb
  rw [hlive]
  simp

/-- Live blocks of different sizes are different blocks. -/
theorem block_ne_of_log2size (hs : Reachable (buddy_system R.allocator) s) (hl : l ∈ s.live)
    (hl' : l' ∈ s.live) (hne : l.log2size ≠ l'.log2size) : l.block ≠ l'.block := by
  obtain ⟨free, hinv⟩ := stateInv_of_reachable R.fits s hs
  obtain ⟨_, hsize⟩ := hinv.hasSize hl
  obtain ⟨_, hsize'⟩ := hinv.hasSize hl'
  intro heq
  rw [heq] at hsize
  omega

end allocator

/-! ## What a creation should do -/

/-- A process lies in four live blocks that are different and large enough. -/
structure LiesIn (ba : BuddyAllocator) (s : BuddyState) (p : Process)
    (object pts image stack : Live) : Prop where
  live : ∀ l ∈ [object, pts, image, stack], l ∈ s.live
  distinct : [object.block, pts.block, image.block, stack.block].Nodup
  object : p.start_phy = object.addr ba ∧ sizeof_Process ≤ 2 ^ object.log2size
  pts : p.pts_paddr = pts.addr ba ∧ sizeof_PageTabletSructures ≤ 2 ^ pts.log2size
  image : p.user_image_phy_addr = image.addr ba ∧ USER_IMAGE_SIZE ≤ 2 ^ image.log2size
  stack : p.user_stack_phy_addr = stack.addr ba ∧ USER_STACK_SIZE ≤ 2 ^ stack.log2size

/-- A process is created in blocks of its own, and nothing is written at address zero. -/
def Built (P : Platform) (k k' : Kernel) : Prop :=
  ∃ p object pts image stack, LiesIn P.region.allocator k'.buddy p object pts image stack ∧
    k'.processes = Function.update k.processes k.next_pid (some p) ∧
    k'.next_pid = k.next_pid + 1 ∧ p.start_phy ≠ 0 ∧ p.pts_paddr ≠ 0

/-- The creation has failed and left everything as it was. -/
def CreationFailed (k k' : Kernel) : Prop :=
  k'.processes = k.processes ∧ k'.next_pid = k.next_pid ∧ k'.buddy.live = k.buddy.live ∧
    k'.mem = k.mem

/-- The call returns, and one of the two is the case. -/
def CreationSafe (P : Platform) (k : Kernel) (contents : Nat → UInt8) : Prop :=
  ∃ k', create_process P k contents = some k' ∧
    (Built P k k' ∨ CreationFailed k k')

section safe

variable {P : Platform} {k : Kernel} {contents : Nat → UInt8} {s s' : BuddyState}
  {a : ProcessBlocks} {b : NewBlocks} {l : Live}

theorem addr_ne_zero (hs : Reachable (buddy_system P.region.allocator) s) (hl : l ∈ s.live) :
    l.addr P.region.allocator ≠ 0 := by
  have hlow := (addr_bounds hs hl).2.1
  have hpos : 0 < IDENTITY_MAP_PHY_START := by decide
  intro heq
  rw [heq] at hlow
  exact absurd hlow (Nat.not_le.mpr hpos)

/-- Blocks that were allocated one after the other are blocks for a process. -/
theorem NewBlocks.liesIn (hs : Reachable (buddy_system P.region.allocator) s)
    (hb : NewBlocks.alloc P.region.allocator s = some (b, s')) (pid : Nat) :
    LiesIn P.region.allocator s' (b.process P.region.allocator pid) b.object b.pts b.image
      b.stack := by
  obtain ⟨hs', hsizes, _⟩ := NewBlocks.alloc_spec hs hb
  have hlive := NewBlocks.mem_live hs hb
  have hmem : ∀ l ∈ [b.object, b.pts, b.image, b.stack], l ∈ s'.live := by
    intro l hl
    apply hlive
    simp only [List.mem_cons, List.not_mem_nil, or_false] at hl ⊢
    tauto
  constructor
  · exact hmem
  · -- the sizes are all different
    have hdifferent : ([b.object, b.pts, b.image, b.stack].map Live.log2size).Nodup := by
      simp only [List.map_cons, List.map_nil, hsizes.object, hsizes.pts, hsizes.image, hsizes.stack]
      decide +kernel
    rw [List.Nodup, List.pairwise_map] at hdifferent
    have hblocks := hdifferent.imp_of_mem fun hl hl' hne =>
      block_ne_of_log2size hs' (hmem _ hl) (hmem _ hl') hne
    exact List.pairwise_map.mpr hblocks
  · rw [hsizes.object]
    exact ⟨rfl, sizeof_le.1⟩
  · rw [hsizes.pts, pts_log2size_eq]
    exact ⟨rfl, by decide⟩
  · rw [hsizes.image, user_log2sizes.1]
    exact ⟨rfl, by decide⟩
  · rw [hsizes.stack, user_log2sizes.2]
    exact ⟨rfl, by decide⟩

/-- What is not at address zero was allocated. -/
theorem exists_of_buf_phy_ne_zero {ba : BuddyAllocator} {buf : Option Live}
    (h : buf_phy ba buf ≠ 0) : ∃ l, buf = some l := by
  cases buf with
  | none => exact absurd rfl h
  | some l => exact ⟨l, rfl⟩

/-- **A process in blocks of its own had all its allocations succeed.** -/
theorem alloc_of_built (hs : Reachable (buddy_system P.region.allocator) s)
    (halloc : ProcessBlocks.alloc P.region.allocator s = some (a, s')) {p : Process} {pid : Nat}
    {object pts image stack : Live}
    (hlies : LiesIn P.region.allocator s' p object pts image stack)
    (hp : p = a.process P.region.allocator pid) :
    ∃ b : NewBlocks, a = b.all ∧ NewBlocks.alloc P.region.allocator s = some (b, s') := by
  obtain ⟨hs', _⟩ := ProcessBlocks.alloc_spec hs halloc
  subst hp
  have himage := addr_ne_zero hs' (hlies.live image (by simp))
  have hstack := addr_ne_zero hs' (hlies.live stack (by simp))
  rw [← hlies.image.1] at himage
  rw [← hlies.stack.1] at hstack
  obtain ⟨image', himage⟩ := exists_of_buf_phy_ne_zero himage
  obtain ⟨stack', hstack⟩ := exists_of_buf_phy_ne_zero hstack
  have ha : a = NewBlocks.all ⟨a.object, a.syscall, a.pts, image', stack'⟩ := by
    cases a
    simp only at himage hstack
    simp [NewBlocks.all, himage, hstack]
  rw [ha] at halloc
  exact ⟨_, ha, NewBlocks.alloc_all_iff.mp halloc⟩

end safe

/-- **When a creation is safe**, in any state of the allocator: the process has a slot in the table,
    and all of its allocations succeed, in the part of memory that the kernel can reach. Without a
    block for the tables the call does not return, and without one for the image or the stack the
    process is created all the same. -/
theorem creation_safe_iff (P : Platform) (k : Kernel) (contents : Nat → UInt8)
    (hbuddy : Reachable (buddy_system P.region.allocator) k.buddy) :
    (CreationSafe P k contents ↔
      k.next_pid < MAX_PROCESS ∧ k.processes k.next_pid = none ∧
      ∃ b s, NewBlocks.alloc P.region.allocator k.buddy = some (b, s) ∧
        b.mapped P.region.allocator = true) ∧
    (tables_block P.region.allocator k.buddy = some none →
      create_process P k contents = none) := by
  constructor
  · constructor
    · intro ⟨k', hcreate, houtcome⟩
      obtain ⟨a, s, halloc, hmapped, hpid, hfree, rfl⟩ := create_process_iff.mp hcreate
      refine ⟨hpid, hfree, ?_⟩
      rcases houtcome with ⟨p, object, pts, image, stack, hlies, hprocesses, _⟩ | ⟨_, hnext, _⟩
      · have hp : p = a.process P.region.allocator k.next_pid := by
          have hslot := congrFun hprocesses k.next_pid
          simp only [Function.update_self] at hslot
          exact (Option.some.inj hslot).symm
        obtain ⟨b, rfl, hb⟩ := alloc_of_built hbuddy halloc hlies hp
        exact ⟨b, s, hb, hmapped⟩
      · -- the number of the next process has changed
        exact absurd hnext (Nat.succ_ne_self _)
    · intro ⟨hpid, hfree, b, s, hb, hmapped⟩
      have hlies := NewBlocks.liesIn hbuddy hb k.next_pid
      obtain ⟨hs, _⟩ := NewBlocks.alloc_spec hbuddy hb
      have hlive := NewBlocks.mem_live hbuddy hb
      refine ⟨_, create_process_of_alloc hb hmapped hpid hfree, .inl ?_⟩
      exact ⟨_, _, _, _, _, hlies, rfl, rfl, addr_ne_zero hs (hlive b.object (by simp)),
        addr_ne_zero hs (hlive b.pts (by simp))⟩
  · intro hnone
    rw [tables_block_eq_none_iff hbuddy] at hnone
    cases hcreate : create_process P k contents with
    | none => rfl
    | some k' =>
      obtain ⟨a, s, halloc, _⟩ := create_process_iff.mp hcreate
      cases hnone.symm.trans halloc

/-- A kernel without processes. -/
def empty_kernel (s : BuddyState) : Kernel := ⟨s, fun _ => 0, fun _ => none, 1⟩

/-- The first process of a machine with 2 GiB. -/
theorem first_creation_safe :
    CreationSafe platform_2G (empty_kernel (.start platform_2G.region.allocator)) (fun _ => 0) := by
  obtain ⟨s, hs⟩ := first_blocks_2G_alloc
  have hstart : Reachable (buddy_system platform_2G.region.allocator)
      (.start platform_2G.region.allocator) := .init rfl
  exact (creation_safe_iff platform_2G (empty_kernel _) _ hstart).1.mpr
    ⟨(by decide : 1 < MAX_PROCESS), rfl, _, s, hs, by decide⟩

/-- The calls that leave one free block of 8 MiB in the memory of a kernel that has started. -/
def all_but_8M : List Call := [29, 28, 27, 26, 25, 24, 23].map .allocate_pages

/-- The blocks of a process that is created then. The first ones are cut from the 8 MiB, so that
    there are none left for the image. -/
def blocks_without_image : ProcessBlocks :=
  ⟨⟨16319, 17⟩, ⟨32641, 16⟩, ⟨510, 22⟩, none, some ⟨2040, 20⟩⟩

/-- When the memory for the image runs out, the process is created and has the physical page 0 as
    the first page of its image. -/
theorem exhausted_creation_unsafe :
    ∃ (s : BuddyState) (k' : Kernel) (p : Process),
      Reachable (buddy_system boot_region.allocator) s ∧
      create_process (boot_platform 0 0) (empty_kernel s) (fun _ => 0) = some k' ∧
      k'.processes 1 = some p ∧ p.user_image_phy_addr = 0 ∧
      walk k'.mem 4 (p.pts_paddr.toNat / 4096) (USER_IMAGE_START / PAGE_SIZE) = some 0 ∧
      ¬ CreationSafe (boot_platform 0 0) (empty_kernel s) (fun _ => 0) := by
  have hrun : (do
      let s ← after boot_region.allocator all_but_8M
      let (a, _) ← ProcessBlocks.alloc boot_region.allocator s
      pure a) = some blocks_without_image := by decide +kernel
  obtain ⟨s, hs, hrun⟩ := Option.bind_eq_some_iff.mp hrun
  obtain ⟨⟨a, s'⟩, halloc, hrun⟩ := Option.bind_eq_some_iff.mp hrun
  cases Option.some.inj hrun
  have hcreate : create_process (boot_platform 0 0) (empty_kernel s) (fun _ => 0) =
      some ⟨s', blocks_without_image.memory (boot_platform 0 0) (fun _ => 0) (fun _ => 0), _, 2⟩ :=
    create_process_iff.mpr ⟨_, _, halloc, by decide, (by decide : 1 < MAX_PROCESS), rfl, rfl⟩
  have hslot : (Function.update (empty_kernel s).processes 1
      (some (blocks_without_image.process boot_region.allocator 1))) 1 =
      some (blocks_without_image.process boot_region.allocator 1) := Function.update_self ..
  refine ⟨s, _, _, reachable_after hs, hcreate, hslot, rfl, ?_, ?_⟩
  · -- the tables are far from the object
    have hobject : Disjoint (Set.Ico 0x43bf0000 (0x43bf0000 + sizeof_Process))
        (table_bytes 0x5fe0000) := by
      rw [table_bytes, Set.Ico_disjoint_Ico]
      decide
    have hbuilt : Constructed (fun _ => 0)
        (blocks_without_image.memory (boot_platform 0 0) (fun _ => 0) (fun _ => 0)) 0x43bf0000
        0x83810000 0x5fe0000 0 (fun _ => True) :=
      construct_process_spec (by decide) (by decide) (by decide) (by decide) hobject
        (fun _ _ => trivial) (fun _ _ => trivial)
    exact hbuilt.image 0 (by decide)
  · rintro ⟨k₂, hk₂, houtcome⟩
    cases hcreate.symm.trans hk₂
    rcases houtcome with ⟨q, _, _, image, _, hlies, hprocesses, _⟩ | ⟨_, hnext, _⟩
    · have hq : some (blocks_without_image.process boot_region.allocator 1) = some q :=
        hslot.symm.trans ((congrFun hprocesses 1).trans (Function.update_self ..))
      cases hq
      obtain ⟨hs', _⟩ := ProcessBlocks.alloc_spec (reachable_after hs) halloc
      have hlive := hlies.live image (by simp)
      exact addr_ne_zero (P := boot_platform 0 0) hs' hlive hlies.image.1.symm
    · exact absurd hnext (by decide : (2 : Nat) ≠ 1)

end Modern05
