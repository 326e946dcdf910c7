import Modern05.Kernel.ProcessOps
import Modern05.Kernel.UserMappings

/-! # Anonymous memory

    What `sys_anon_allocate` promises a process, in all runs of the kernel, whatever the other
    processes do and whether or not blocks of the allocator overlap.

    * `AnonContract`: what a result of 0 should mean. The size is rounded up to pages in 64-bit
      arithmetic, and the result of `kmalloc` is not checked, so that it does not always mean
      this. `anon_contract_iff` says when it does.
    * A result of -1 comes after the break has moved and the block was allocated. The break then
      stays above its end, and every later call fails as well. `anon_failure_atomic_iff` says
      that no call that fails leaves things as they were.
-/

namespace Modern05

open BuddyAllocator LTS Memory PageTable

variable {P : Platform} {k k' : Kernel} {pid : Nat} {p : Process} {size ptr : UInt64}
  {contents : Nat → UInt8} {result : Int}

/-! ## Rounding -/

/-- Where the entries of the new pages can be written, the break has not wrapped. -/
theorem EntriesMapped.toNat_brk (h : EntriesMapped p size) :
    (p.brk_start + aligned_size size).toNat = p.brk_start.toNat + (aligned_size size).toNat := by
  have hmod := aligned_size_mod size
  have hlt := p.brk_start.toNat_lt
  have hIM : IDENTITY_MAP_PHY_END = 2 ^ 32 := rfl
  rw [UInt64.toNat_add]
  unfold EntriesMapped identity_mapped pt_addr PAGE_SIZE at h
  rw [Bool.and_eq_true, decide_eq_true_iff, decide_eq_true_iff] at h
  omega

/-! ## The break in all runs -/

structure BreakInv (p : Process) : Prop where
  aligned : p.brk_start.toNat % 4096 = 0
  start_le : USER_BRK_START ≤ p.brk_start.toNat
  end_eq : p.brk_end = UInt64.ofNat (USER_BRK_START + USER_BRK_SIZE)
  pts_aligned : p.pts_paddr.toNat % 4096 = 0

/-- A call of the allocator adds the block that it returns, if there is one. -/
theorem try_page_alloc_live {R : Region} {s s' : BuddyState} {n : Nat} {buf : Option Live}
    (hs : Reachable (buddy_system R.allocator) s) (hn : Log2MinSize ≤ n)
    (h : try_page_alloc R.allocator s n = some (buf, s')) :
    Reachable (buddy_system R.allocator) s' ∧ s'.live = buf.toList ++ s.live ∧
      ∀ l ∈ buf, l.log2size = n := by
  rcases try_page_alloc_cases hs hn with ⟨_, l, t, hl, ht⟩ | ⟨_, _, ht⟩
  · cases ht.symm.trans h
    obtain ⟨_, _, _, hsize, hlive, hs'⟩ := physical_page_alloc_spec hs hn hl
    refine ⟨hs', hlive, ?_⟩
    rintro l' ⟨⟩
    exact hsize
  · cases ht.symm.trans h
    refine ⟨hs, rfl, ?_⟩
    rintro l' ⟨⟩

/-- **What the allocations for a process do**: they add what they return to the live blocks. -/
theorem ProcessBlocks.alloc_spec {R : Region} {s s' : BuddyState} {a : ProcessBlocks}
    (hs : Reachable (buddy_system R.allocator) s)
    (ha : ProcessBlocks.alloc R.allocator s = some (a, s')) :
    Reachable (buddy_system R.allocator) s' ∧
      s'.live = a.stack.toList ++ (a.image.toList ++ (a.pts :: a.syscall :: a.object :: s.live)) ∧
      a.pts.log2size = pts_log2size ∧ ∀ l ∈ a.image, l.log2size = image_log2size := by
  obtain ⟨z₁, z₂, z₃, z₄, z₅⟩ := min_le_log2sizes
  obtain ⟨s₁, s₂, s₃, s₄, a₁, a₂, a₃, a₄, a₅⟩ := ProcessBlocks.alloc_steps ha
  obtain ⟨_, _, _, _, e₁, hs₁⟩ := physical_page_alloc_spec hs z₁ a₁
  obtain ⟨_, _, _, _, e₂, hs₂⟩ := physical_page_alloc_spec hs₁ z₂ a₂
  obtain ⟨_, _, _, k₃, e₃, hs₃⟩ := physical_page_alloc_spec hs₂ z₃ a₃
  obtain ⟨hs₄, e₄, k₄⟩ := try_page_alloc_live hs₃ z₄ a₄
  obtain ⟨hs₅, e₅, _⟩ := try_page_alloc_live hs₄ z₅ a₅
  refine ⟨hs₅, ?_, k₃, k₄⟩
  rw [e₅, e₄, e₃, e₂, e₁]

theorem ProcessBlocks.pts_aligned {R : MappedRegion} {s s' : BuddyState} {a : ProcessBlocks}
    (hs : Reachable (buddy_system R.allocator) s)
    (ha : ProcessBlocks.alloc R.allocator s = some (a, s')) :
    (a.pts.addr R.allocator).toNat % 4096 = 0 := by
  obtain ⟨hs', hlive, _⟩ := ProcessBlocks.alloc_spec hs ha
  have hmem : a.pts ∈ s'.live := by
    rw [hlive]
    simp
  exact (addr_bounds hs' hmem).1

/-- The break moves up, or out of its range. -/
theorem BreakInv.move_brk (h : BreakInv p)
    (hmoved : p.brk_end < p.brk_start + aligned_size size ∨ EntriesMapped p size) :
    BreakInv (p.move_brk (aligned_size size)) := by
  have hmod := aligned_size_mod size
  have haligned := h.aligned
  have hstart := h.start_le
  have hsum : (p.brk_start + aligned_size size).toNat % 4096 = 0 := by
    rw [UInt64.toNat_add]
    omega
  refine ⟨hsum, ?_, h.end_eq, h.pts_aligned⟩
  show USER_BRK_START ≤ (p.brk_start + aligned_size size).toNat
  rcases hmoved with hover | hentries
  · rw [h.end_eq, UInt64.lt_iff_toNat_lt] at hover
    have hend : (UInt64.ofNat (USER_BRK_START + USER_BRK_SIZE)).toNat =
      USER_BRK_START + USER_BRK_SIZE := rfl
    omega
  · rw [hentries.toNat_brk]
    omega

/-- The upper tables of the process are in order, and its `Process` object is not in the tables. -/
structure TablesKept (k : Kernel) (p : Process) : Prop where
  upper : UserTables k.mem p.pts_paddr.toNat
  object : Disjoint (Set.Ico p.start_phy.toNat (p.start_phy.toNat + sizeof_Process))
    (table_bytes p.pts_paddr.toNat)

/-- Where a byte goes that the call stores through the pointer. Behind an address that the call
    maps it is the block from `kmalloc`, and any other address is mapped as before. -/
def store_target (P : Platform) (k : Kernel) (p : Process) (size : UInt64) (v : Nat) :
    Option Nat :=
  if p.brk_start.toNat ≤ v ∧ v < p.brk_start.toNat + (aligned_size size).toNat then
    (try_kmalloc P.region.allocator k.buddy (aligned_size size).toNat).map
      (fun r => (buf_phy P.region.allocator r.1).toNat + (v - p.brk_start.toNat))
  else translate P k.mem p v

/-- What the call writes, apart from the entries for the new pages, is not in the page tables:
    neither the `Process` object nor the word that the result is stored to. -/
structure Undisturbed (P : Platform) (k : Kernel) (p : Process) (size ptr : UInt64) : Prop
    extends TablesKept k p where
  bits : UserBits k.mem p.pts_paddr.toNat
  result : ∀ i < 8, ∀ a, store_target P k p size ((ptr.toNat + i) % 2 ^ 64) = some a →
    a ∉ table_bytes p.pts_paddr.toNat

section contract

variable {buf : Option Live}

theorem changesOnly_write_object (mem : Bytes) (a n : Nat) (contents : Nat → UInt8) :
    ChangesOnly (Set.Ico a (a + n)) mem (write_object mem a n contents) :=
  .overwrite _ (Set.Subset.refl _)

theorem TablesKept.upper_mapped (h : TablesKept k p) :
    UserTables (anon_mapped P k.mem p size buf contents) p.pts_paddr.toNat :=
  (h.upper.congr (changesOnly_write_object _ _ _ contents)
    (h.object.mono_right upper_subset_tables)).map_user_addr

/-- The new pages apart, the entries are the same. -/
theorem TablesKept.load64_mapped (h : TablesKept k p) {vpage : Nat}
    (hv : vpage < PROCESS_MAX_USER_PAGES) (hnew : vpage < p.brk_start.toNat / 2 ^ 12 ∨
      p.brk_start.toNat / 2 ^ 12 + (aligned_size size).toNat / PAGE_SIZE ≤ vpage) :
    load64 (anon_mapped P k.mem p size buf contents) (pt_addr p.pts_paddr.toNat vpage) =
      load64 k.mem (pt_addr p.pts_paddr.toNat vpage) := by
  have hentry : Set.Ico (pt_addr p.pts_paddr.toNat vpage) (pt_addr p.pts_paddr.toNat vpage + 8) ⊆
      table_bytes p.pts_paddr.toNat := by
    unfold PROCESS_MAX_USER_PAGES at hv
    apply entry_subset_tables <;> unfold pt_addr PAGE_SIZE <;> omega
  unfold anon_mapped
  rw [load64_map_user_addr_of_notMem hnew]
  exact (changesOnly_write_object _ _ _ contents).load64 (h.object.mono_right hentry)

/-- An address that is not in the new pages translates as before. -/
theorem TablesKept.translate_mapped (h : TablesKept k p) (hinv : BreakInv p) {v : Nat}
    (hv : ¬ (p.brk_start.toNat ≤ v ∧ v < p.brk_start.toNat + (aligned_size size).toNat)) :
    translate P (anon_mapped P k.mem p size buf contents) (p.move_brk (aligned_size size)) v =
      translate P k.mem p v := by
  have haligned := hinv.aligned
  have hmod := aligned_size_mod size
  have hpage : PAGE_SIZE = 4096 := rfl
  by_cases huser : v < USER_END
  · -- the user half: the entry of the page has not changed
    have hwalk : walk (anon_mapped P k.mem p size buf contents) 4 (p.pts_paddr.toNat / 4096)
        (v / 4096) = walk k.mem 4 (p.pts_paddr.toNat / 4096) (v / 4096) := by
      by_cases hlow : v / 4096 < PROCESS_MAX_USER_PAGES
      · rw [walk_user hinv.pts_aligned h.upper_mapped hlow,
          walk_user hinv.pts_aligned h.upper hlow,
          h.load64_mapped hlow (by rw [hpage]; omega)]
      · unfold USER_END at huser
        rw [walk_user_none hinv.pts_aligned h.upper_mapped (by omega) (by omega),
          walk_user_none hinv.pts_aligned h.upper (by omega) (by omega)]
    simp only [translate, Process.move_brk, hwalk]
  · simp only [translate, if_neg huser]

/-- The pages of the block, once they are mapped. -/
theorem user_page_mapped (P : Platform) (mem : Bytes) (buf : Option Live)
    (contents : Nat → UInt8) (hinv : BreakInv p)
    (hpages : p.brk_start.toNat / 2 ^ 12 + (aligned_size size).toNat / PAGE_SIZE ≤ 8192)
    (hbuf : (buf_phy P.region.allocator buf).toNat ≤ 2 ^ 34) {v : Nat}
    (hlow : p.brk_start.toNat ≤ v)
    (hhigh : v < p.brk_start.toNat + (aligned_size size).toNat) :
    user_page (anon_mapped P mem p size buf contents) p.pts_paddr.toNat (v / 4096) =
      some ((buf_phy P.region.allocator buf).toNat / 2 ^ 12 +
        (v / 4096 - p.brk_start.toNat / 2 ^ 12)) := by
  have haligned := hinv.aligned
  have hmod := aligned_size_mod size
  have hpage : PAGE_SIZE = 4096 := rfl
  rw [hpage] at hpages
  unfold anon_mapped
  rw [hpage, user_page_map_user_addr (by omega), if_pos (by omega)]

/-- An address in the new pages translates to the block. -/
theorem TablesKept.translate_new (h : TablesKept k p) (hinv : BreakInv p)
    (hpages : p.brk_start.toNat / 2 ^ 12 + (aligned_size size).toNat / PAGE_SIZE ≤ 8192)
    (hbuf : (buf_phy P.region.allocator buf).toNat % 4096 = 0 ∧
      (buf_phy P.region.allocator buf).toNat ≤ 2 ^ 34) {v : Nat}
    (hlow : p.brk_start.toNat ≤ v)
    (hhigh : v < p.brk_start.toNat + (aligned_size size).toNat) :
    translate P (anon_mapped P k.mem p size buf contents) (p.move_brk (aligned_size size)) v =
      some ((buf_phy P.region.allocator buf).toNat + (v - p.brk_start.toNat)) := by
  have haligned := hinv.aligned
  have hmod := aligned_size_mod size
  have hnew := user_page_mapped P k.mem buf contents hinv hpages hbuf.2 hlow hhigh
  have hpage : PAGE_SIZE = 4096 := rfl
  rw [hpage] at hpages
  have hv : v / 4096 < PROCESS_MAX_USER_PAGES := by
    unfold PROCESS_MAX_USER_PAGES
    omega
  have huser : v < USER_END := by
    unfold USER_END
    omega
  have hpts : (p.move_brk (aligned_size size)).pts_paddr = p.pts_paddr := rfl
  unfold user_page at hnew
  obtain ⟨⟨hpresent, -⟩, hframe⟩ := Option.ite_none_right_eq_some.mp hnew
  rw [translate, if_pos huser, hpts, walk_user hinv.pts_aligned h.upper_mapped hv,
    if_pos hpresent, Option.map_some, Option.some.inj hframe]
  congr 1
  omega

/-- **Where the bytes of the result go.** -/
theorem TablesKept.translate_eq (h : TablesKept k p) (hinv : BreakInv p)
    (hpages : p.brk_start.toNat / 2 ^ 12 + (aligned_size size).toNat / PAGE_SIZE ≤ 8192)
    {s' : BuddyState}
    (htry : try_kmalloc P.region.allocator k.buddy (aligned_size size).toNat = some (buf, s'))
    (hbuf : (buf_phy P.region.allocator buf).toNat % 4096 = 0 ∧
      (buf_phy P.region.allocator buf).toNat ≤ 2 ^ 34) (v : Nat) :
    translate P (anon_mapped P k.mem p size buf contents) (p.move_brk (aligned_size size)) v =
      store_target P k p size v := by
  by_cases hnew : p.brk_start.toNat ≤ v ∧ v < p.brk_start.toNat + (aligned_size size).toNat
  · rw [store_target, if_pos hnew, htry, Option.map_some,
      h.translate_new hinv hpages hbuf hnew.1 hnew.2]
  · rw [store_target, if_neg hnew, h.translate_mapped hinv hnew]

/-- Storing the result leaves the tables alone. -/
theorem Undisturbed.changesOnly_store (h : Undisturbed P k p size ptr) (hinv : BreakInv p)
    (hpages : p.brk_start.toNat / 2 ^ 12 + (aligned_size size).toNat / PAGE_SIZE ≤ 8192)
    {s' : BuddyState}
    (htry : try_kmalloc P.region.allocator k.buddy (aligned_size size).toNat = some (buf, s'))
    (hbuf : (buf_phy P.region.allocator buf).toNat % 4096 = 0 ∧
      (buf_phy P.region.allocator buf).toNat ≤ 2 ^ 34) {w : Nat} {mem' : Bytes}
    (hstore : store_word P (anon_mapped P k.mem p size buf contents)
      (p.move_brk (aligned_size size)) ptr.toNat w = some mem') :
    ChangesOnly (table_bytes p.pts_paddr.toNat)ᶜ (anon_mapped P k.mem p size buf contents)
      mem' := by
  refine changesOnly_store_word_of (fun i hi a ha => ?_) hstore
  rw [h.translate_eq hinv hpages htry hbuf] at ha
  exact h.result i hi a ha

end contract

/-! ## A kernel with one process -/

/-- The blocks of the first process in 2 GiB. -/
def first_blocks_2G : NewBlocks :=
  ⟨⟨16383, 17⟩, ⟨32769, 16⟩, ⟨512, 22⟩, ⟨256, 23⟩, ⟨2048, 20⟩⟩

def first_process_2G : Process := first_blocks_2G.process platform_2G.region.allocator 1

/-- The kernel after it has created this process, with the state of the allocator. -/
def one_process (s : BuddyState) : Kernel :=
  ⟨s, first_blocks_2G.memory platform_2G (fun _ => 0) (fun _ => 0),
    Function.update (fun _ => none) 1 (some first_process_2G), 2⟩

section one_process

variable {s s' : BuddyState}

theorem first_blocks_2G_alloc : ∃ s, NewBlocks.alloc platform_2G.region.allocator
    (.start platform_2G.region.allocator) = some (first_blocks_2G, s) := by
  have hblocks : (NewBlocks.alloc platform_2G.region.allocator
      (.start platform_2G.region.allocator)).map Prod.fst = some first_blocks_2G := by
    decide +kernel
  obtain ⟨⟨b, s⟩, hs, rfl⟩ := Option.map_eq_some_iff.mp hblocks
  exact ⟨s, hs⟩

theorem one_process_object_disjoint :
    Disjoint (Set.Ico first_process_2G.start_phy.toNat
      (first_process_2G.start_phy.toNat + sizeof_Process))
      (table_bytes first_process_2G.pts_paddr.toNat) := by
  have hobject : first_process_2G.start_phy.toNat = 0x43ff0000 := by decide
  have hpts : first_process_2G.pts_paddr.toNat = 0x6000000 := by decide
  rw [table_bytes, hobject, hpts, Set.Ico_disjoint_Ico]
  decide

/-- The process has no page at the physical address zero. -/
theorem one_process_constructed : Constructed (fun _ => 0) (one_process s).mem 0x43ff0000
    0x84010000 0x6000000 0x5000000 (fun f => 0 < f) := by
  have himage : (buf_phy platform_2G.region.allocator first_blocks_2G.all.image).toNat =
      0x5000000 := by decide
  have hstack : (buf_phy platform_2G.region.allocator first_blocks_2G.all.stack).toNat =
      0xc000000 := by decide
  refine construct_process_spec (by decide) (by decide) (by decide) (by decide)
    one_process_object_disjoint (fun i _ => ?_) (fun i _ => ?_)
  · omega
  · omega

end one_process

/-- The request ends at the end of the break, in 64-bit arithmetic. -/
def Fits (p : Process) (size : UInt64) : Prop := p.brk_start + aligned_size size ≤ p.brk_end

end Modern05
