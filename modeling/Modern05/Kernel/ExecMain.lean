import Modern05.Kernel.Entry
import Modern05.Kernel.LoadElf
import Modern05.Kernel.Schedule
import Modern05.Kernel.UserMappings

/-! # The first user program

    `exec_main` of `process.cpp`, which runs in a process that was just created: it loads the
    program that is linked into the kernel image, sets up the context that is saved in the `Process`
    object and returns to it.

    The program then runs in ring 3. What it can reach is what the page tables map with the user bit
    at every level.

    * `kernelHalfClosed_construct_process`: the half of the kernel has no user bit.
    * `NewProcess.user_translate`: the addresses that a new process can reach.
    * `user_program_starts`: from the bytes of the file to the first instruction.
-/

namespace Modern05

open Memory PageTable AddressSpace

/-! ## The half of the kernel -/

section kernel_half

variable {mem mem' : Bytes} {pts : Nat} {S : Set Nat}

/-- No entry of the top table for the upper half is for the user. -/
def KernelHalfClosed (mem : Bytes) (pts : Nat) : Prop :=
  ∀ i, 256 ≤ i → i < 512 → ¬ User (load64 mem (pts + 8 * i))

theorem KernelHalfClosed.congr (h : KernelHalfClosed mem pts) (hm : ChangesOnly S mem mem')
    (hS : Disjoint S (Set.Ico pts (pts + 12288))) : KernelHalfClosed mem' pts := by
  intro i hlow hhigh
  rw [hm.load64 (hS.mono_right (Set.Ico_subset_Ico (by omega) (by omega)))]
  exact h i hlow hhigh

/-- The entry of the kernel's own tables is present and writable, and not for the user. -/
theorem not_user_kernel_entry (f : Nat) : ¬ User (set_frame f (set_bit 1 (set_bit 0 0))) := by
  have h : set_bit 1 (set_bit 0 0) = 3 := by decide
  rw [h, User, set_frame]
  omega

theorem kernelHalfClosed_init_tables (P : Platform) (mem : Bytes) (haligned : pts % 4096 = 0) :
    KernelHalfClosed (init_tables P mem pts) pts := by
  have hw := init_tables_words P mem haligned
  intro i hlow hhigh
  by_cases hi : i = 256
  · obtain ⟨f, hentry⟩ := hw.pml4t_kernel
    rw [hi, hentry]
    exact not_user_kernel_entry f
  · rw [hw.pml4t_rest i (by omega) hhigh hi]
    decide

/-- **No address of the upper half is reached by the user.** -/
theorem KernelHalfClosed.user_translate (h : KernelHalfClosed mem pts) (haligned : pts % 4096 = 0)
    {v : Nat} (hlow : 2 ^ 47 ≤ v) (hhigh : v < 2 ^ 48) : user_translate mem pts v = none := by
  have haddr : entry_addr 3 (pts / 4096) (v / 4096) = pts + 8 * (v / 2 ^ 39) := by
    rw [entry_addr]
    omega
  rw [Modern05.user_translate, user_walk, haddr, if_neg]
  · rfl
  · intro hentry
    exact h (v / 2 ^ 39) (by omega) (by omega) hentry.2

theorem kernelHalfClosed_construct_process (P : Platform) (mem : Bytes) (contents : Nat → UInt8)
    {object syscall image stack : Nat} (haligned : pts % 4096 = 0)
    (hobject : Disjoint (Set.Ico object (object + sizeof_Process)) (table_bytes pts)) :
    KernelHalfClosed (construct_process P mem contents object syscall pts image stack) pts := by
  -- the last-level tables are behind the top table
  have hpt : ∀ vaddr n, Disjoint (Set.Ico (pt_addr pts (vaddr / 2 ^ 12))
      (pt_addr pts (vaddr / 2 ^ 12) + 8 * n)) (Set.Ico pts (pts + 12288)) := by
    intro vaddr n
    apply Disjoint.symm
    apply disjoint_of_le
    simp only [pt_addr, PAGE_SIZE]
    omega
  refine KernelHalfClosed.congr (KernelHalfClosed.congr (KernelHalfClosed.congr
    (kernelHalfClosed_init_tables P _ haligned) (changesOnly_map_user_addr _ pts _ _ _) (hpt _ _))
    (changesOnly_map_user_addr _ pts _ _ _) (hpt _ _))
    (changesOnly_write_object _ object sizeof_Process contents)
    (hobject.mono_right upper_subset_tables)

end kernel_half

/-! ## The call -/

def USER_CODE_SELECTOR : UInt64 := 4 * 8 + 3
def USER_DATA_SELECTOR : UInt64 := 5 * 8 + 3

/-- What `exec_main` makes of the context of its process. -/
def exec_main_context (c : Context) (user_stack user_stack_size start_addr : UInt64) : Context :=
  { c with
    cs := USER_CODE_SELECTOR
    ds := USER_DATA_SELECTOR
    ss := USER_DATA_SELECTOR
    es := USER_DATA_SELECTOR
    fs := 0
    gs := 0
    rsp := user_stack + user_stack_size
    rip := start_addr
    rflags := 0x200 }

/-- The words of a `Context`. -/
def context_words : Nat := 27

/-- The members of a `Process` before `context`: 80 bytes and the kernel stack. -/
def offsetof_context : Nat := 80 + 64 * 1024

/-- The words of a `Process` behind `context`. -/
def words_behind_context : Nat := 11

/-- Where the context of a process is. -/
def Process.context_addr (p : Process) : Nat := p.start_phy.toNat + offsetof_context

/-- The bytes of the context of a process. -/
def context_bytes (p : Process) : Set Nat :=
  Set.Ico p.context_addr (p.context_addr + 8 * context_words)

def saved_context (mem : Bytes) (p : Process) : Option Context :=
  Context.ofWords (load_words mem p.context_addr context_words)

/-- `exec_main` with the file at `buffer`. The object is written through the identity map, and `a`
    is the state in which `return_from_syscall` is called. There is no result when the loader does
    not return. -/
def exec_main (P : Platform) (p : Process) (buffer size : Nat) (a : AsmState) (mem : Bytes) :
    Option (Cpu × Bytes) :=
  match (user_load P p buffer size).run mem with
  | (.ok r, mem) => do
    guard (identity_mapped p.start_phy.toNat sizeof_Process)
    let c ← saved_context mem p
    let c := exec_main_context c (UInt64.ofNat USER_STACK_START)
      (UInt64.ofNat USER_STACK_SIZE) (UInt64.ofNat r.entry)
    -- the words of the members that are not assigned are written back
    let mem := store_words mem p.context_addr c.words
    -- the context is the stack that is popped, with the rest of the object behind it
    let c ← saved_context mem p
    let cpu ← return_from_syscall a c
      (load_words mem (p.context_addr + 8 * context_words) words_behind_context)
    pure (cpu, mem)
  | (.error _, _) => none

theorem sizeof_Process_eq :
    sizeof_Process = offsetof_context + 8 * context_words + 8 * words_behind_context := by decide

theorem context_subset_object (p : Process) : context_bytes p ⊆
    Set.Ico p.start_phy.toNat (p.start_phy.toNat + sizeof_Process) := by
  have hsize := sizeof_Process_eq
  unfold context_bytes Process.context_addr
  exact Set.Ico_subset_Ico (by omega) (by omega)

/-- There is a context in memory, with the page tables that its fifth word says. -/
theorem saved_context_cr3 (mem : Bytes) (p : Process) :
    ∃ c, saved_context mem p = some c ∧
      c.cr3 = UInt64.ofNat (load64 mem (p.context_addr + 32)) := ⟨_, rfl, rfl⟩

theorem saved_context_congr {p : Process} {mem mem' : Bytes}
    (h : ∀ x ∈ context_bytes p, mem' x = mem x) : saved_context mem' p = saved_context mem p :=
  congrArg Context.ofWords (load_words_congr h)

/-- The context that was written is the one that is popped. -/
theorem saved_context_store (mem : Bytes) (p : Process) (c : Context) :
    saved_context (store_words mem p.context_addr c.words) p = some c := by
  have hwords : load_words (store_words mem p.context_addr c.words) p.context_addr context_words =
      c.words := load_words_store_words mem p.context_addr c.words
  rw [saved_context, hwords]
  rfl

/-- The memory after the constructor of `p`. -/
def constructed (P : Platform) (p : Process) (syscall : Nat) (contents : Nat → UInt8)
    (mem : Bytes) : Bytes :=
  construct_process P mem contents p.start_phy.toNat syscall p.pts_paddr.toNat
    p.user_image_phy_addr.toNat p.user_stack_phy_addr.toNat

/-- The blocks of a new process are aligned, and those that the kernel writes do not overlap. The
    object is in the identity map. -/
structure NewProcess (p : Process) : Prop where
  pts_aligned : p.pts_paddr.toNat % 4096 = 0
  image_aligned : p.user_image_phy_addr.toNat % 4096 = 0
  stack_aligned : p.user_stack_phy_addr.toNat % 4096 = 0
  pts_le : p.pts_paddr.toNat ≤ 2 ^ 40
  image_le : p.user_image_phy_addr.toNat ≤ 2 ^ 40
  stack_le : p.user_stack_phy_addr.toNat ≤ 2 ^ 40
  object : Disjoint (Set.Ico p.start_phy.toNat (p.start_phy.toNat + sizeof_Process))
    (table_bytes p.pts_paddr.toNat)
  image : Disjoint (image_bytes p) (table_bytes p.pts_paddr.toNat)
  object_image : Disjoint (Set.Ico p.start_phy.toNat (p.start_phy.toNat + sizeof_Process))
    (image_bytes p)
  mapped : identity_mapped p.start_phy.toNat sizeof_Process = true

/-- The file is linked into the kernel image, which shares no memory with the blocks of the
    process. -/
structure LinkedFile (P : Platform) (p : Process) (syscall : Nat) (f mem : Bytes)
    (buffer size : Nat) : Prop where
  low : KERNEL_START ≤ buffer
  high : buffer + size ≤ KERNEL_START + IDENTITY_MAP_PHY_START
  bytes : ∀ o < size, mem (P.kernel_physical_start + (buffer - KERNEL_START + o)) = f o
  apart : Disjoint
    (Set.Ico P.kernel_physical_start (P.kernel_physical_start + IDENTITY_MAP_PHY_START))
    (Set.Ico p.start_phy.toNat (p.start_phy.toNat + sizeof_Process) ∪
      Set.Ico syscall (syscall + (sizeof_Syscall + 8)) ∪ table_bytes p.pts_paddr.toNat ∪
      image_bytes p)

section constructed

variable {P : Platform} {p : Process} {syscall : Nat} {contents : Nat → UInt8} {f mem mem' : Bytes}
  {buffer size : Nat}

theorem NewProcess.spec (h : NewProcess p) : Constructed mem (constructed P p syscall contents mem)
    p.start_phy.toNat syscall p.pts_paddr.toNat p.user_image_phy_addr.toNat (fun _ => True) :=
  construct_process_spec h.pts_aligned h.pts_le h.image_le h.stack_le h.object
    (fun _ _ => trivial) (fun _ _ => trivial)

/-- An address of the file. -/
theorem LinkedFile.translate (h : LinkedFile P p syscall f mem buffer size) (mem' : Bytes) {o : Nat}
    (ho : o < size) : translate P mem' p ((buffer + o) % 2 ^ 64) =
      some (P.kernel_physical_start + (buffer - KERNEL_START + o)) := by
  have hlow := h.low
  have hhigh := h.high
  have hwindow : KERNEL_START + IDENTITY_MAP_PHY_START < 2 ^ 64 := by decide
  have huser : USER_END ≤ KERNEL_START := by decide
  have hend : IDENTITY_MAP_PHY_START ≤ IDENTITY_MAP_PHY_END := by decide
  rw [Nat.mod_eq_of_lt (by omega), Modern05.translate, if_neg (by omega),
    if_pos ⟨by omega, by omega⟩, if_pos (by omega), Nat.sub_add_comm hlow]

/-- **A new process is ready to load the file.** -/
theorem NewProcess.readyToLoad (hp : NewProcess p)
    (h : LinkedFile P p syscall f mem buffer size) :
    ReadyToLoad P (constructed P p syscall contents mem) p f buffer size := by
  have hspec : Constructed mem (constructed P p syscall contents mem) p.start_phy.toNat syscall
    p.pts_paddr.toNat p.user_image_phy_addr.toNat (fun _ => True) := hp.spec
  refine ⟨hp.pts_aligned, hspec.upper, hp.image_aligned, hspec.image, hp.image, ?_⟩
  intro o ho
  have hlow := h.low
  have hhigh := h.high
  have hmem : P.kernel_physical_start + (buffer - KERNEL_START + o) ∈
      Set.Ico P.kernel_physical_start (P.kernel_physical_start + IDENTITY_MAP_PHY_START) :=
    ⟨by omega, by omega⟩
  have hout := Set.disjoint_left.mp h.apart hmem
  refine ⟨_, h.translate _ ho, fun himage => hout (Or.inr himage), ?_⟩
  rw [hspec.only _ fun hblocks => hout (Or.inl hblocks)]
  exact h.bytes o ho

theorem NewProcess.calls_valid (h : NewProcess p) : ∀ c ∈ constructor_calls
    p.user_image_phy_addr.toNat p.user_stack_phy_addr.toNat, c.Valid := by
  have himage := h.image_le
  have hstack := h.stack_le
  have himage_pages : USER_IMAGE_SIZE / 4096 = 2048 := by decide
  have hstack_pages : USER_STACK_SIZE / 4096 = 256 := by decide
  intro c hc
  simp only [constructor_calls, List.mem_cons, List.not_mem_nil, or_false] at hc
  rcases hc with rfl | rfl
  · have haligned := h.image_aligned
    constructor <;> simp only [PAGE_SIZE, himage_pages, USER_IMAGE_START] <;> omega
  · have haligned := h.stack_aligned
    constructor <;> simp only [PAGE_SIZE, hstack_pages, USER_STACK_START] <;> omega

/-- The addresses that a new process can reach: its image and its stack. -/
def reachable_by_user (p : Process) (v : Nat) : Option Nat :=
  if USER_IMAGE_START ≤ v ∧ v < USER_IMAGE_START + USER_IMAGE_SIZE then
    some (p.user_image_phy_addr.toNat + (v - USER_IMAGE_START))
  else if USER_STACK_START ≤ v ∧ v < USER_STACK_START + USER_STACK_SIZE then
    some (p.user_stack_phy_addr.toNat + (v - USER_STACK_START))
  else none

theorem last_mapping_constructor_calls (p : Process) (v : Nat) :
    last_mapping (constructor_calls p.user_image_phy_addr.toNat p.user_stack_phy_addr.toNat) v =
      reachable_by_user p v := by
  have hcalls : constructor_calls p.user_image_phy_addr.toNat p.user_stack_phy_addr.toNat =
      ([] ++ [⟨USER_IMAGE_START, p.user_image_phy_addr.toNat, USER_IMAGE_SIZE / PAGE_SIZE⟩]) ++
        [⟨USER_STACK_START, p.user_stack_phy_addr.toNat, USER_STACK_SIZE / PAGE_SIZE⟩] := rfl
  have himage : PAGE_SIZE * (USER_IMAGE_SIZE / PAGE_SIZE) = USER_IMAGE_SIZE := by decide
  have hstack : PAGE_SIZE * (USER_STACK_SIZE / PAGE_SIZE) = USER_STACK_SIZE := by decide
  have hbehind : USER_IMAGE_START + USER_IMAGE_SIZE ≤ USER_STACK_START := by decide
  rw [hcalls, last_mapping_concat, last_mapping_concat, reachable_by_user]
  simp only [MapCall.covers_eq, himage, hstack]
  by_cases hs : USER_STACK_START ≤ v ∧ v < USER_STACK_START + USER_STACK_SIZE
  · rw [if_pos hs, if_neg (by omega), if_pos hs]
  · rw [if_neg hs, if_neg hs]
    rfl

/-- **What a new process can reach**, as long as its tables are not written. -/
theorem NewProcess.user_translate {S : Set Nat} (h : NewProcess p)
    (hm : ChangesOnly S (constructed P p syscall contents mem) mem')
    (hS : Disjoint S (table_bytes p.pts_paddr.toNat)) {v : Nat} (hv : v < 2 ^ 48) :
    user_translate mem' p.pts_paddr.toNat v = reachable_by_user p v := by
  have hpts := h.pts_le
  have hsize := sizeof_PageTabletSructures_eq
  by_cases hhalf : v < 2 ^ 47
  · have hfollows : Follows (constructed P p syscall contents mem) p.pts_paddr.toNat
        (constructor_calls p.user_image_phy_addr.toNat p.user_stack_phy_addr.toNat) :=
      follows_construct_process P mem contents h.pts_aligned (by omega) h.object h.calls_valid
    rw [(hfollows.congr hm hS).user_translate h.pts_aligned h.calls_valid hhalf,
      last_mapping_constructor_calls]
  · have hclosed : KernelHalfClosed (constructed P p syscall contents mem) p.pts_paddr.toNat :=
      kernelHalfClosed_construct_process P mem contents h.pts_aligned h.object
    have hwindows : USER_IMAGE_START + USER_IMAGE_SIZE ≤ 2 ^ 47 ∧
        USER_STACK_START + USER_STACK_SIZE ≤ 2 ^ 47 := by decide
    rw [(hclosed.congr hm (hS.mono_right upper_subset_tables)).user_translate h.pts_aligned
      (by omega) hv, reachable_by_user, if_neg (by omega), if_neg (by omega)]

/-- The context is the one in the new object until it is assigned. -/
theorem NewProcess.saved_context (h : NewProcess p)
    (hm : ChangesOnly (image_bytes p) (constructed P p syscall contents mem) mem') :
    saved_context mem' p = Modern05.saved_context contents p := by
  refine saved_context_congr fun x hx => ?_
  have hobject := context_subset_object p hx
  have himage : x ∉ image_bytes p := Set.disjoint_left.mp h.object_image hobject
  have hoffset : p.start_phy.toNat + (x - p.start_phy.toNat) = x :=
    Nat.add_sub_cancel' hobject.1
  rw [hm x himage, constructed, construct_process, write_object, overwrite_of_mem hobject, hoffset]

end constructed

/-- **The first program starts.** In a process that was just constructed, with a file whose segments
    are in the image window, `exec_main` reaches the first instruction: in ring 3, at the entry
    point of the file, at the end of the stack, with interrupts on and on the page tables of the
    process. The user finds the bytes of the file where its segments are linked, and behind them
    what was in the memory before. Of all addresses of 48 bits, the user reaches the image and the
    stack and nothing else. The saved context of the process is the one that it has started with,
    and the call has written nothing outside the image and that context. -/
theorem user_program_starts (P : Platform) (p : Process) (syscall : Nat) (contents : Nat → UInt8)
    (f mem : Bytes) (buffer size : Nat) (a : AsmState) (hp : NewProcess p) (hfile : UserFile f size)
    (hlinked : LinkedFile P p syscall f mem buffer size)
    (hcr3 : load64 contents (p.context_addr + 32) = p.pts_paddr.toNat) :
    ∃ cpu mem', exec_main P p buffer size a (constructed P p syscall contents mem) =
        some (cpu, mem') ∧
      cpu.rip.toNat = e_entry f ∧ cpu.cs.toNat % 4 = 3 ∧ cpu.cr3 = p.pts_paddr ∧
      cpu.rsp.toNat = USER_STACK_START + USER_STACK_SIZE ∧ cpu.rflags = 0x200 ∧
      (∀ ph ∈ segments f, ∀ k < ph.p_memsz, ∃ a,
        user_translate mem' p.pts_paddr.toNat (ph.p_vaddr + k) = some a ∧
        mem' a = if k < ph.p_filesz then f (ph.p_offset + k)
          else constructed P p syscall contents mem a) ∧
      (∀ v < 2 ^ 48, user_translate mem' p.pts_paddr.toNat v = reachable_by_user p v) ∧
      (∃ c, saved_context mem' p = some c ∧ c.cpu = cpu) ∧
      ChangesOnly (image_bytes p ∪ context_bytes p) (constructed P p syscall contents mem)
        mem' := by
  have hready : ReadyToLoad P (constructed P p syscall contents mem) p f buffer size :=
    hp.readyToLoad hlinked
  -- the loader writes the image, and the context is still that of the new object
  have hload := hfile.changesOnly (p := p) (constructed P p syscall contents mem)
    (Nat.le_refl (e_phnum f))
  obtain ⟨c, hc, hcr3'⟩ := saved_context_cr3 contents p
  rw [hcr3, UInt64.ofNat_toNat] at hcr3'
  have hsaved := (hp.saved_context hload).trans hc
  let c' := exec_main_context c (UInt64.ofNat USER_STACK_START)
    (UInt64.ofNat USER_STACK_SIZE) (UInt64.ofNat (e_entry f))
  have hcontext := context_subset_object p
  have htables : Disjoint (image_bytes p ∪ context_bytes p) (table_bytes p.pts_paddr.toNat) :=
    Set.disjoint_union_left.mpr ⟨hp.image, hp.object.mono_left hcontext⟩
  have hstore := changesOnly_store_words
    (loaded_below (constructed P p syscall contents mem) p f (e_phnum f)) p.context_addr c'.words
  have honly := (hload.mono Set.subset_union_left).trans (hstore.mono Set.subset_union_right)
  have hreach := fun v hv => hp.user_translate (v := v) honly htables hv
  refine ⟨c'.cpu, store_words _ p.context_addr c'.words, ?_, ?_, ?_, hcr3', ?_, rfl, ?_, hreach,
    ⟨c', saved_context_store _ p c', rfl⟩, honly⟩
  · simp only [exec_main, hfile.run hready, hp.mapped, hsaved, saved_context_store, resume_frame]
    rfl
  · exact UInt64.toNat_ofNat_of_lt (load_le_lt f 24 8)
  · exact (by decide : USER_CODE_SELECTOR.toUInt16.toNat % 4 = 3)
  · exact (by decide : (UInt64.ofNat USER_STACK_START + UInt64.ofNat USER_STACK_SIZE).toNat =
      USER_STACK_START + USER_STACK_SIZE)
  · intro ph hph k hk
    obtain ⟨hlow, hhigh⟩ := hfile.window.inside ph hph
    have hbehind : USER_IMAGE_START + USER_IMAGE_SIZE < 2 ^ 48 := by decide
    have hview := hfile.view_loaded hready hph hk
    rw [view_of_translate (hfile.translate_segment hready hload hph hk),
      view_of_translate (hfile.translate_segment hready (.refl _ _) hph hk)] at hview
    have himage : p.user_image_phy_addr.toNat + (ph.p_vaddr - USER_IMAGE_START) + k ∈
        image_bytes p := ⟨by omega, by omega⟩
    have hout := fun hmem => Set.disjoint_left.mp hp.object_image (hcontext hmem) himage
    refine ⟨_, ?_, (hstore _ hout).trans hview⟩
    rw [hreach _ (by omega), reachable_by_user, if_pos ⟨by omega, by omega⟩, Nat.add_assoc,
      Nat.sub_add_comm hlow]

/-! The first process, with a small file in the kernel image. -/

theorem newProcess_first : NewProcess first_process_2G := by
  have hobject : first_process_2G.start_phy.toNat = 0x43ff0000 := by decide
  have hpts : first_process_2G.pts_paddr.toNat = 0x6000000 := by decide
  have himage : first_process_2G.user_image_phy_addr.toNat = 0x5000000 := by decide
  have hsize : USER_IMAGE_SIZE = 0x800000 := rfl
  have htables := sizeof_PageTabletSructures_eq
  refine ⟨by decide, by decide, by decide, by decide, by decide, by decide, ?_, ?_, ?_, by decide⟩
  · rw [table_bytes, hobject, hpts, Set.Ico_disjoint_Ico]
    omega
  · rw [image_bytes, table_bytes, himage, hpts, hsize, Set.Ico_disjoint_Ico]
    omega
  · rw [image_bytes, hobject, himage, hsize, Set.Ico_disjoint_Ico]
    omega

theorem linkedFile_small : LinkedFile platform_2G first_process_2G 0x84010000 small_file
    (overwrite (fun _ => 0) 0x1000 121 small_file) file_buffer 121 := by
  have hobject : first_process_2G.start_phy.toNat = 0x43ff0000 := by decide
  have hpts : first_process_2G.pts_paddr.toNat = 0x6000000 := by decide
  have himage : first_process_2G.user_image_phy_addr.toNat = 0x5000000 := by decide
  have hzero : platform_2G.kernel_physical_start = 0 := rfl
  have hstart : IDENTITY_MAP_PHY_START = 0x4000000 := rfl
  have hbuffer : file_buffer = KERNEL_START + 0x1000 := rfl
  refine ⟨by omega, by omega, ?_, ?_⟩
  · intro o ho
    have hin : 0x1000 + o ∈ Set.Ico 0x1000 (0x1000 + 121) := ⟨by omega, by omega⟩
    have haddr : platform_2G.kernel_physical_start + (file_buffer - KERNEL_START + o) =
        0x1000 + o := by
      omega
    rw [haddr, overwrite_of_mem hin, Nat.add_sub_cancel_left]
  · rw [image_bytes, table_bytes, hobject, hpts, himage, hzero, hstart, Set.disjoint_left]
    rintro a ⟨-, ha⟩ (((hblock | hblock) | hblock) | hblock)
    all_goals
      have hlow := hblock.1
      omega

/-- The bytes of the new object: those of its context, with the page tables of the process. -/
def first_object : Bytes :=
  store_words (fun _ => 0) first_process_2G.context_addr (initial_context
    ⟨0, 0, 0, 0, 0, 0, 0, 0, 0, 0, 0, 0, 0, 0, 0, 0, 0, 0, 0, 0, 0, 0, 0, 0, 0, 0, 0⟩
    first_process_2G).words

theorem small_program_starts : ∃ cpu mem',
    exec_main platform_2G first_process_2G file_buffer 121 ⟨fun _ => 0, fun _ => 0x10, 0, []⟩
      (constructed platform_2G first_process_2G 0x84010000 first_object
        (overwrite (fun _ => 0) 0x1000 121 small_file)) = some (cpu, mem') ∧
    cpu.rip.toNat = USER_IMAGE_START ∧ cpu.cr3 = 0x6000000 ∧
    user_translate mem' 0x6000000 USER_IMAGE_START = some 0x5000000 ∧
    user_translate mem' 0x6000000 USER_BRK_START = none := by
  have hentry : e_entry small_file = USER_IMAGE_START := by decide +kernel
  have hpts : first_process_2G.pts_paddr = 0x6000000 := by decide
  obtain ⟨cpu, mem', hrun, hrip, -, hcr3, -, -, -, hreach, -⟩ := user_program_starts platform_2G
    first_process_2G 0x84010000 first_object small_file
    (overwrite (fun _ => 0) 0x1000 121 small_file) file_buffer 121
    ⟨fun _ => 0, fun _ => 0x10, 0, []⟩ newProcess_first userFile_small linkedFile_small
    (by decide +kernel)
  refine ⟨cpu, mem', hrun, hrip.trans hentry, hcr3.trans hpts, ?_, ?_⟩
  · exact (hreach USER_IMAGE_START (by decide)).trans (by decide)
  · exact (hreach USER_BRK_START (by decide)).trans (by decide)

end Modern05
