import Modern05.Kernel.UserTables

/-! # The operations on processes

    What `create_process` and `sys_anon_allocate` do when they return, one lemma each.

    * `construct_process_spec`: the memory after the constructor of `Process`.
    * `create_process_iff`: a process is created on blocks that are allocated one after the
      other, `ProcessBlocks`, with or without those for the image and the stack.
    * `create_process_cases`, `create_process_of_alloc`: all five are there, `NewBlocks`.
    * `sys_anon_allocate_cases`: the break moves, and on success the block is mapped and
      the old break stored.
-/

namespace Modern05

open BuddyAllocator LTS Memory PageTable

variable {P : Platform} {k k' : Kernel} {contents : Nat → UInt8} {s s' : BuddyState}

/-! ## Sizes -/

theorem pts_log2size_eq : pts_log2size = 22 := by decide +kernel

theorem process_log2size_eq : process_log2size = 17 := by decide +kernel

/-- The sizes of the objects of a process. -/
theorem sizeof_le : sizeof_Process ≤ 2 ^ process_log2size ∧
    sizeof_Syscall + 8 ≤ 2 ^ syscall_log2size := by
  have hsyscall : syscall_log2size = 16 := by decide +kernel
  rw [process_log2size_eq, hsyscall]
  decide

theorem user_log2sizes : image_log2size = 23 ∧ stack_log2size = 20 := by decide +kernel

/-- An object lies in the block that was allocated for it. -/
theorem object_subset {ba : BuddyAllocator} {l : Live} {n : Nat} (h : n ≤ 2 ^ l.log2size) :
    Set.Ico (l.addr ba).toNat ((l.addr ba).toNat + n) ⊆ l.bytes ba :=
  Set.Ico_subset_Ico_right (by omega)

/-! ## The constructor -/

/-- The memory after the constructor: the new tables map pages in `G` only, the image
    from its start on, and only the objects and the tables were written. -/
structure Constructed (mem mem' : Bytes) (object syscall pts image : Nat) (G : Nat → Prop) :
    Prop where
  upper : UserTables mem' pts
  maps : MapsInto mem' pts G
  image : ∀ i < 2048, walk mem' 4 (pts / 4096) (256 + i) = some (image / 2 ^ 12 + i)
  only : ChangesOnly (Set.Ico object (object + sizeof_Process) ∪
    Set.Ico syscall (syscall + (sizeof_Syscall + 8)) ∪ table_bytes pts) mem mem'

theorem construct_process_spec {mem : Bytes} {object syscall pts image stack : Nat}
    {G : Nat → Prop} (haligned : pts % 4096 = 0) (hpts : pts ≤ 2 ^ 40)
    (himage : image ≤ 2 ^ 40) (hstack : stack ≤ 2 ^ 40)
    (hobject : Disjoint (Set.Ico object (object + sizeof_Process)) (table_bytes pts))
    (hGimage : ∀ i < 2048, G (image / 2 ^ 12 + i)) (hGstack : ∀ i < 256, G (stack / 2 ^ 12 + i)) :
    Constructed mem (construct_process P mem contents object syscall pts image stack)
      object syscall pts image G := by
  -- The memory after each of the stages, and what the stage changes.
  let m₁ := write_object mem syscall (sizeof_Syscall + 8) contents
  let m₂ := init_tables P m₁ pts
  let m₃ := map_user_addr m₂ pts USER_IMAGE_START image (USER_IMAGE_SIZE / PAGE_SIZE)
  let m₄ := map_user_addr m₃ pts USER_STACK_START stack (USER_STACK_SIZE / PAGE_SIZE)
  let m₅ := write_object m₄ object sizeof_Process contents
  have hconstruct : construct_process P mem contents object syscall pts image stack = m₅ := rfl
  have hfresh : FreshTables m₁ m₂ pts := by
    apply init_tables_spec P m₁ haligned
    rw [sizeof_PageTabletSructures_eq]
    omega
  have c₁ : ChangesOnly (Set.Ico syscall (syscall + (sizeof_Syscall + 8))) mem m₁ :=
    .overwrite _ (Set.Subset.refl _)
  have c₃ : ChangesOnly (table_bytes pts) m₂ m₃ :=
    (changesOnly_map_user_addr m₂ pts _ image _).mono (map_user_addr_subset (by decide))
  have c₄ : ChangesOnly (table_bytes pts) m₃ m₄ :=
    (changesOnly_map_user_addr m₃ pts _ stack _).mono (map_user_addr_subset (by decide))
  have c₅ : ChangesOnly (Set.Ico object (object + sizeof_Process)) m₄ m₅ :=
    .overwrite _ (Set.Subset.refl _)
  have hempty : MapsInto m₂ pts G := by
    intro vpage hv hp
    rw [hfresh.empty vpage hv] at hp
    exact absurd hp (by decide)
  have hsizes : USER_IMAGE_SIZE / PAGE_SIZE = 2048 ∧ USER_STACK_SIZE / PAGE_SIZE = 256 := by
    decide
  have hmaps : MapsInto m₄ pts G := by
    apply MapsInto.map_user_addr
    · apply hempty.map_user_addr
      · rw [hsizes.1]
        omega
      · rw [hsizes.1]
        exact hGimage
    · rw [hsizes.2]
      omega
    · rw [hsizes.2]
      exact hGstack
  have hupper : Disjoint (Set.Ico object (object + sizeof_Process)) (Set.Ico pts (pts + 12288)) :=
    hobject.mono_right upper_subset_tables
  have htables : UserTables m₅ pts :=
    hfresh.upper.map_user_addr.map_user_addr.congr c₅ hupper
  rw [hconstruct]
  refine ⟨htables, hmaps.congr c₅ hobject, ?_, ?_⟩
  · intro i hi
    have hentry : load64 m₅ (pt_addr pts (256 + i)) = user_entry (image / 2 ^ 12 + i) 0 := by
      have hpage : Set.Ico (pt_addr pts (256 + i)) (pt_addr pts (256 + i) + 8) ⊆
          table_bytes pts := by
        apply entry_subset_tables <;> unfold pt_addr PAGE_SIZE <;> omega
      rw [c₅.load64 (hobject.mono_right hpage)]
      -- The stack is mapped far above the image.
      have hstart : USER_STACK_START / 2 ^ 12 = 8448 ∧ USER_IMAGE_START / 2 ^ 12 = 256 := by
        decide
      have hother : load64 m₄ (pt_addr pts (256 + i)) = load64 m₃ (pt_addr pts (256 + i)) :=
        load64_map_user_addr_of_notMem (by rw [hstart.1]; omega)
      have hset : load64 m₃ (pt_addr pts (USER_IMAGE_START / 2 ^ 12 + i)) = _ :=
        load64_map_user_addr (by rw [hsizes.1]; exact hi)
      rw [hstart.2, hfresh.empty _ (by unfold PROCESS_MAX_USER_PAGES; omega)] at hset
      rw [hother, hset]
    have hv : 256 + i < PROCESS_MAX_USER_PAGES := by
      unfold PROCESS_MAX_USER_PAGES
      omega
    rw [walk_user haligned htables hv, hentry, if_pos (user_entry_present _ _),
      frame_user_entry (by omega)]
  · have hO : Set.Ico object (object + sizeof_Process) ⊆ Set.Ico object (object + sizeof_Process) ∪
        Set.Ico syscall (syscall + (sizeof_Syscall + 8)) ∪ table_bytes pts :=
      fun x hx => .inl (.inl hx)
    have hY : Set.Ico syscall (syscall + (sizeof_Syscall + 8)) ⊆
        Set.Ico object (object + sizeof_Process) ∪
        Set.Ico syscall (syscall + (sizeof_Syscall + 8)) ∪ table_bytes pts :=
      fun x hx => .inl (.inr hx)
    have hT : table_bytes pts ⊆ Set.Ico object (object + sizeof_Process) ∪
        Set.Ico syscall (syscall + (sizeof_Syscall + 8)) ∪ table_bytes pts :=
      fun x hx => .inr hx
    exact ((((c₁.mono hY).trans (hfresh.only.mono hT)).trans (c₃.mono hT)).trans
      (c₄.mono hT)).trans (c₅.mono hO)

/-! ## Creation -/

/-- What the allocations for a new process return. -/
structure ProcessBlocks where
  object : Live
  syscall : Live
  pts : Live
  image : Option Live
  stack : Option Live
  deriving DecidableEq, Repr

/-- The blocks are allocated one after the other. -/
def ProcessBlocks.alloc (ba : BuddyAllocator) (s : BuddyState) :
    Option (ProcessBlocks × BuddyState) := do
  let (object, s) ← physical_page_alloc ba s process_log2size
  let (syscall, s) ← physical_page_alloc ba s syscall_log2size
  let (pts, s) ← physical_page_alloc ba s pts_log2size
  let (image, s) ← try_page_alloc ba s image_log2size
  let (stack, s) ← try_page_alloc ba s stack_log2size
  pure (⟨object, syscall, pts, image, stack⟩, s)

/-- The allocations one by one. -/
theorem ProcessBlocks.alloc_steps {ba : BuddyAllocator} {a : ProcessBlocks}
    (ha : ProcessBlocks.alloc ba s = some (a, s')) : ∃ s₁ s₂ s₃ s₄,
      physical_page_alloc ba s process_log2size = some (a.object, s₁) ∧
      physical_page_alloc ba s₁ syscall_log2size = some (a.syscall, s₂) ∧
      physical_page_alloc ba s₂ pts_log2size = some (a.pts, s₃) ∧
      try_page_alloc ba s₃ image_log2size = some (a.image, s₄) ∧
      try_page_alloc ba s₄ stack_log2size = some (a.stack, s') := by
  obtain ⟨⟨object, s₁⟩, a₁, ha⟩ := Option.bind_eq_some_iff.mp ha
  obtain ⟨⟨syscall, s₂⟩, a₂, ha⟩ := Option.bind_eq_some_iff.mp ha
  obtain ⟨⟨pts, s₃⟩, a₃, ha⟩ := Option.bind_eq_some_iff.mp ha
  obtain ⟨⟨image, s₄⟩, a₄, ha⟩ := Option.bind_eq_some_iff.mp ha
  obtain ⟨⟨stack, s₅⟩, a₅, ha⟩ := Option.bind_eq_some_iff.mp ha
  cases ha
  exact ⟨s₁, s₂, s₃, s₄, a₁, a₂, a₃, a₄, a₅⟩

/-- The process on its blocks. -/
def ProcessBlocks.process (ba : BuddyAllocator) (a : ProcessBlocks) (pid : Nat) : Process :=
  ⟨pid, a.object.addr ba, a.pts.addr ba, buf_phy ba a.image, buf_phy ba a.stack,
    UInt64.ofNat USER_BRK_START, UInt64.ofNat (USER_BRK_START + USER_BRK_SIZE)⟩

/-- The memory after its creation. -/
def ProcessBlocks.memory (P : Platform) (a : ProcessBlocks) (mem : Bytes)
    (contents : Nat → UInt8) : Bytes :=
  construct_process P mem contents (a.object.addr P.region.allocator).toNat
    (a.syscall.addr P.region.allocator).toNat (a.pts.addr P.region.allocator).toNat
    (buf_phy P.region.allocator a.image).toNat (buf_phy P.region.allocator a.stack).toNat

/-- The constructors can write their objects. -/
def ProcessBlocks.mapped (ba : BuddyAllocator) (a : ProcessBlocks) : Bool :=
  identity_mapped (a.object.addr ba).toNat sizeof_Process &&
    identity_mapped (a.syscall.addr ba).toNat (sizeof_Syscall + 8) &&
    identity_mapped (a.pts.addr ba).toNat sizeof_PageTabletSructures

/-- **What `create_process` does.** -/
theorem create_process_iff : create_process P k contents = some k' ↔
    ∃ a s, ProcessBlocks.alloc P.region.allocator k.buddy = some (a, s) ∧
      a.mapped P.region.allocator = true ∧ k.next_pid < MAX_PROCESS ∧
      k.processes k.next_pid = none ∧
      k' = ⟨s, a.memory P k.mem contents, Function.update k.processes k.next_pid
        (some (a.process P.region.allocator k.next_pid)), k.next_pid + 1⟩ := by
  constructor
  · intro h
    obtain ⟨⟨object, s₁⟩, a₁, h⟩ := Option.bind_eq_some_iff.mp h
    obtain ⟨⟨syscall, s₂⟩, a₂, h⟩ := Option.bind_eq_some_iff.mp h
    obtain ⟨⟨pts, s₃⟩, a₃, h⟩ := Option.bind_eq_some_iff.mp h
    obtain ⟨⟨image, s₄⟩, a₄, h⟩ := Option.bind_eq_some_iff.mp h
    obtain ⟨⟨stack, s₅⟩, a₅, h⟩ := Option.bind_eq_some_iff.mp h
    obtain ⟨_, hmapped, h⟩ := Option.bind_eq_some_iff.mp h
    obtain ⟨_, hpid, h⟩ := Option.bind_eq_some_iff.mp h
    obtain ⟨_, hfree, h⟩ := Option.bind_eq_some_iff.mp h
    cases h
    have halloc : ProcessBlocks.alloc P.region.allocator k.buddy =
        some (⟨object, syscall, pts, image, stack⟩, s₅) := by
      simp [ProcessBlocks.alloc, a₁, a₂, a₃, a₄, a₅]
    exact ⟨_, _, halloc, of_guard hmapped, of_guard hpid, of_guard hfree, rfl⟩
  · rintro ⟨a, s, halloc, hmapped, hpid, hfree, rfl⟩
    obtain ⟨s₁, s₂, s₃, s₄, a₁, a₂, a₃, a₄, a₅⟩ := ProcessBlocks.alloc_steps halloc
    refine Option.bind_eq_some_iff.mpr ⟨_, a₁, ?_⟩
    refine Option.bind_eq_some_iff.mpr ⟨_, a₂, ?_⟩
    refine Option.bind_eq_some_iff.mpr ⟨_, a₃, ?_⟩
    refine Option.bind_eq_some_iff.mpr ⟨_, a₄, ?_⟩
    refine Option.bind_eq_some_iff.mpr ⟨_, a₅, ?_⟩
    refine Option.bind_eq_some_iff.mpr ⟨(), if_pos hmapped, ?_⟩
    refine Option.bind_eq_some_iff.mpr ⟨(), if_pos hpid, ?_⟩
    exact Option.bind_eq_some_iff.mpr ⟨(), if_pos hfree, rfl⟩

/-- The blocks of a process that is being created, when no allocation fails. -/
structure NewBlocks where
  object : Live
  syscall : Live
  pts : Live
  image : Live
  stack : Live
  deriving DecidableEq, Repr

/-- Blocks that are all there. -/
def NewBlocks.all (b : NewBlocks) : ProcessBlocks :=
  ⟨b.object, b.syscall, b.pts, some b.image, some b.stack⟩

/-- The blocks are allocated one after the other. -/
def NewBlocks.alloc (ba : BuddyAllocator) (s : BuddyState) : Option (NewBlocks × BuddyState) := do
  let (object, s) ← physical_page_alloc ba s process_log2size
  let (syscall, s) ← physical_page_alloc ba s syscall_log2size
  let (pts, s) ← physical_page_alloc ba s pts_log2size
  let (image, s) ← physical_page_alloc ba s image_log2size
  let (stack, s) ← physical_page_alloc ba s stack_log2size
  pure (⟨object, syscall, pts, image, stack⟩, s)

/-- The allocations one by one. -/
theorem NewBlocks.alloc_steps {ba : BuddyAllocator} {b : NewBlocks}
    (hb : NewBlocks.alloc ba s = some (b, s')) : ∃ s₁ s₂ s₃ s₄,
      physical_page_alloc ba s process_log2size = some (b.object, s₁) ∧
      physical_page_alloc ba s₁ syscall_log2size = some (b.syscall, s₂) ∧
      physical_page_alloc ba s₂ pts_log2size = some (b.pts, s₃) ∧
      physical_page_alloc ba s₃ image_log2size = some (b.image, s₄) ∧
      physical_page_alloc ba s₄ stack_log2size = some (b.stack, s') := by
  obtain ⟨⟨object, s₁⟩, a₁, hb⟩ := Option.bind_eq_some_iff.mp hb
  obtain ⟨⟨syscall, s₂⟩, a₂, hb⟩ := Option.bind_eq_some_iff.mp hb
  obtain ⟨⟨pts, s₃⟩, a₃, hb⟩ := Option.bind_eq_some_iff.mp hb
  obtain ⟨⟨image, s₄⟩, a₄, hb⟩ := Option.bind_eq_some_iff.mp hb
  obtain ⟨⟨stack, s₅⟩, a₅, hb⟩ := Option.bind_eq_some_iff.mp hb
  cases hb
  exact ⟨s₁, s₂, s₃, s₄, a₁, a₂, a₃, a₄, a₅⟩

/-- A block that is allocated is returned. -/
theorem try_page_alloc_eq_some_iff {ba : BuddyAllocator} {n : Nat} {l : Live} :
    try_page_alloc ba s n = some (some l, s') ↔ physical_page_alloc ba s n = some (l, s') := by
  unfold try_page_alloc physical_page_alloc
  split
  · next heq => simp [heq]
  · next heq => simp [heq]
  · next heq => simp [heq]

theorem NewBlocks.alloc_all_iff {ba : BuddyAllocator} {b : NewBlocks} :
    ProcessBlocks.alloc ba s = some (b.all, s') ↔ NewBlocks.alloc ba s = some (b, s') := by
  constructor
  · intro h
    obtain ⟨s₁, s₂, s₃, s₄, a₁, a₂, a₃, a₄, a₅⟩ := ProcessBlocks.alloc_steps h
    have a₄ := try_page_alloc_eq_some_iff.mp a₄
    have a₅ := try_page_alloc_eq_some_iff.mp a₅
    simp only [NewBlocks.all] at a₁ a₂ a₃
    simp [NewBlocks.alloc, a₁, a₂, a₃, a₄, a₅]
  · intro h
    obtain ⟨s₁, s₂, s₃, s₄, a₁, a₂, a₃, a₄, a₅⟩ := NewBlocks.alloc_steps h
    rw [← try_page_alloc_eq_some_iff] at a₄ a₅
    simp [ProcessBlocks.alloc, a₁, a₂, a₃, a₄, a₅, NewBlocks.all]

/-- The process on its blocks. -/
def NewBlocks.process (ba : BuddyAllocator) (b : NewBlocks) (pid : Nat) : Process :=
  b.all.process ba pid

/-- The memory after its creation. -/
def NewBlocks.memory (P : Platform) (b : NewBlocks) (mem : Bytes) (contents : Nat → UInt8) :
    Bytes :=
  b.all.memory P mem contents

def NewBlocks.mapped (ba : BuddyAllocator) (b : NewBlocks) : Bool := b.all.mapped ba

/-- What `create_process` does when no allocation fails. -/
theorem create_process_cases {b : NewBlocks} (h : create_process P k contents = some k')
    (hb : NewBlocks.alloc P.region.allocator k.buddy = some (b, s)) :
    s = k'.buddy ∧ k.processes k.next_pid = none ∧ k'.mem = b.memory P k.mem contents ∧
      k'.processes = Function.update k.processes k.next_pid
        (some (b.process P.region.allocator k.next_pid)) ∧ k'.next_pid = k.next_pid + 1 := by
  obtain ⟨a, s', halloc, _, _, hfree, rfl⟩ := create_process_iff.mp h
  cases (NewBlocks.alloc_all_iff.mpr hb).symm.trans halloc
  exact ⟨rfl, hfree, rfl, rfl, rfl⟩

/-- When its allocations succeed, `create_process` returns. -/
theorem create_process_of_alloc {b : NewBlocks}
    (hb : NewBlocks.alloc P.region.allocator k.buddy = some (b, s))
    (hmapped : b.mapped P.region.allocator = true) (hpid : k.next_pid < MAX_PROCESS)
    (hfree : k.processes k.next_pid = none) :
    create_process P k contents = some ⟨s, b.memory P k.mem contents,
      Function.update k.processes k.next_pid
        (some (b.process P.region.allocator k.next_pid)), k.next_pid + 1⟩ :=
  create_process_iff.mpr ⟨b.all, s, NewBlocks.alloc_all_iff.mpr hb, hmapped, hpid, hfree, rfl⟩

/-- What is known of the new blocks. -/
structure NewBlocks.Sizes (b : NewBlocks) : Prop where
  object : b.object.log2size = process_log2size
  syscall : b.syscall.log2size = syscall_log2size
  pts : b.pts.log2size = pts_log2size
  image : b.image.log2size = image_log2size
  stack : b.stack.log2size = stack_log2size

theorem min_le_log2sizes : Log2MinSize ≤ process_log2size ∧ Log2MinSize ≤ syscall_log2size ∧
    Log2MinSize ≤ pts_log2size ∧ Log2MinSize ≤ image_log2size ∧
    Log2MinSize ≤ stack_log2size := by decide +kernel

/-- The allocations were spaced if the live blocks are in the end. -/
theorem allSpaced_of_pairwise {b : NewBlocks} {R : Region}
    (hs : Reachable (buddy_system R.allocator) s)
    (hb : NewBlocks.alloc R.allocator s = some (b, s')) (hlive : s'.live.Pairwise Spaced) :
    AllSpaced R.allocator s
      [process_log2size, syscall_log2size, pts_log2size, image_log2size, stack_log2size] := by
  obtain ⟨z₁, z₂, z₃, z₄, z₅⟩ := min_le_log2sizes
  obtain ⟨s₁, s₂, s₃, s₄, a₁, a₂, a₃, a₄, a₅⟩ := NewBlocks.alloc_steps hb
  obtain ⟨_, _, _, _, e₁, hs₁⟩ := physical_page_alloc_spec hs z₁ a₁
  obtain ⟨_, _, _, _, e₂, hs₂⟩ := physical_page_alloc_spec hs₁ z₂ a₂
  obtain ⟨_, _, _, _, e₃, hs₃⟩ := physical_page_alloc_spec hs₂ z₃ a₃
  obtain ⟨_, _, _, _, e₄, hs₄⟩ := physical_page_alloc_spec hs₃ z₄ a₄
  obtain ⟨_, _, _, _, e₅, _⟩ := physical_page_alloc_spec hs₄ z₅ a₅
  -- Each state has one block more at the front of its record.
  rw [e₅, List.pairwise_cons] at hlive
  obtain ⟨l₅, hlive⟩ := hlive
  rw [e₄, List.pairwise_cons] at hlive
  obtain ⟨l₄, hlive⟩ := hlive
  rw [e₃, List.pairwise_cons] at hlive
  obtain ⟨l₃, hlive⟩ := hlive
  rw [e₂, List.pairwise_cons] at hlive
  obtain ⟨l₂, hlive⟩ := hlive
  rw [e₁, List.pairwise_cons] at hlive
  exact .cons hs z₁ a₁ hlive.1 (.cons hs₁ z₂ a₂ l₂ (.cons hs₂ z₃ a₃ l₃
    (.cons hs₃ z₄ a₄ l₄ (.cons hs₄ z₅ a₅ l₅ trivial))))

/-! ## Stores -/

section stores

variable {mem mem' : Bytes} {p : Process} {vaddr w : Nat}

/-- A store changes the bytes its addresses translate to. -/
theorem changesOnly_store_word_of {S : Set Nat}
    (hS : ∀ i < 8, ∀ a, translate P mem p ((vaddr + i) % 2 ^ 64) = some a → a ∈ S)
    (h : store_word P mem p vaddr w = some mem') : ChangesOnly S mem mem' := by
  -- One byte after the other; the translation always reads the memory from before.
  have hloop : ∀ (is : List Nat) (m m' : Bytes), (∀ i ∈ is, i < 8) →
      is.foldlM (fun (m : Bytes) i => do
        let a ← translate P mem p ((vaddr + i) % 2 ^ 64)
        pure (overwrite m a 1 (fun _ => byte w i))) m = some m' → ChangesOnly S m m' := by
    intro is
    induction is with
    | nil =>
      intro m m' _ hrun
      cases hrun
      exact .refl _ m
    | cons i is ih =>
      intro m m' his hrun
      rw [List.foldlM_cons] at hrun
      obtain ⟨m₁, hbyte, hrun⟩ := Option.bind_eq_some_iff.mp hrun
      obtain ⟨a, ha, hbyte⟩ := Option.bind_eq_some_iff.mp hbyte
      cases hbyte
      have hmem := hS i (his i List.mem_cons_self) a ha
      exact (ChangesOnly.overwrite_byte _ hmem).trans
        (ih _ m' (fun j hj => his j (List.mem_cons_of_mem _ hj)) hrun)
  exact hloop (List.range 8) mem mem' (fun i hi => List.mem_range.mp hi) h

end stores

/-! ## Anonymous memory -/

/-- The process after its break has moved. -/
def Process.move_brk (p : Process) (n : UInt64) : Process :=
  { p with brk_start := p.brk_start + n }

/-- The memory before the result is stored: the `Process` object has been written and the pages
    of the buffer are mapped. -/
def anon_mapped (P : Platform) (mem : Bytes) (p : Process) (size : UInt64) (buf : Option Live)
    (contents : Nat → UInt8) : Bytes :=
  map_user_addr (write_object mem p.start_phy.toNat sizeof_Process contents) p.pts_paddr.toNat
    p.brk_start.toNat (buf_phy P.region.allocator buf).toNat
    ((aligned_size size).toNat / PAGE_SIZE)

/-- The entries for the pages of a request are in the identity map, if there are any. -/
def EntriesMapped (p : Process) (size : UInt64) : Prop :=
  (aligned_size size).toNat / PAGE_SIZE = 0 ∨
    identity_mapped (pt_addr p.pts_paddr.toNat (p.brk_start.toNat / 2 ^ 12))
      (8 * ((aligned_size size).toNat / PAGE_SIZE)) = true

/-- **What `sys_anon_allocate` does when it returns.** -/
theorem sys_anon_allocate_cases {pid : Nat} {size ptr : UInt64} {result : Int}
    (h : sys_anon_allocate P k pid size ptr contents = some (result, k')) :
    ∃ p buf, k.processes pid = some p ∧
      try_kmalloc P.region.allocator k.buddy (aligned_size size).toNat = some (buf, k'.buddy) ∧
      k'.processes = Function.update k.processes pid (some (p.move_brk (aligned_size size))) ∧
      (result = -1 ∧ p.brk_end < p.brk_start + aligned_size size ∧
          k'.mem = write_object k.mem p.start_phy.toNat sizeof_Process contents ∨
        result = 0 ∧ p.brk_start + aligned_size size ≤ p.brk_end ∧ EntriesMapped p size ∧
          store_word P (anon_mapped P k.mem p size buf contents)
            (p.move_brk (aligned_size size)) ptr.toNat p.brk_start.toNat = some k'.mem) := by
  obtain ⟨p, hp, h⟩ := Option.bind_eq_some_iff.mp h
  obtain ⟨⟨buf, s'⟩, hbuf, h⟩ := Option.bind_eq_some_iff.mp h
  dsimp only at h
  by_cases hover : p.brk_start + aligned_size size > p.brk_end
  · rw [if_pos hover] at h
    cases h
    exact ⟨p, buf, hp, hbuf, rfl, .inl ⟨rfl, hover, rfl⟩⟩
  · rw [if_neg hover] at h
    obtain ⟨_, hentries, h⟩ := Option.bind_eq_some_iff.mp h
    obtain ⟨mem, hstore, h⟩ := Option.bind_eq_some_iff.mp h
    cases h
    have hmapped := of_guard hentries
    exact ⟨p, buf, hp, hbuf, rfl, .inr ⟨rfl, UInt64.not_lt.mp hover, hmapped, hstore⟩⟩

theorem aligned_size_mod (size : UInt64) : (aligned_size size).toNat % 4096 = 0 := by
  unfold aligned_size
  have hpage : (UInt64.ofNat PAGE_SIZE).toNat = 4096 := rfl
  rw [UInt64.toNat_mul, UInt64.toNat_div, hpage]
  have hlt := (size + UInt64.ofNat (PAGE_SIZE - 1)).toNat_lt
  omega

end Modern05
