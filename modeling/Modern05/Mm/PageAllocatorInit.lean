import Mathlib.Order.CompletePartialOrder
import Mathlib.Order.Interval.Set.Disjoint
import Modern05.Common.SmallVec
import Modern05.Mm.BuddyMisuse

/-! # From the memory map to the page allocator

    `dump_efi_info` and `mm_init` of `mm/mm.cpp`, and `page_allocator_init` and
    `buddy_allocator_init` of `mm/page_alloc.cpp`: the memory map of the firmware is
    copied into a vector of regions, the largest region below 4 GiB is chosen, clipped
    to the identity map, capped at 1 GiB and given to the buddy allocator.

    The choice never sees a region. The vector is indexed through the version of
    `operator[]` that returns the slot behind the last element, a zero region, so no
    region is chosen; the clipping then wraps the number of pages below zero and the
    cap takes over.

    * `mm_init_range`: every map that is accepted leads to the same range, 1 GiB from
      64 MiB on.
    * `mm_init_reachable`: the test leaves the allocator with nothing live, in a state
      of its runs.
    * `manages_free_ram_iff`: so the allocator manages free memory exactly when the map
      says that this range is.
-/

namespace Modern05

open BuddyAllocator LTS

/-! ## The memory map -/

/-- The fields of a descriptor that the kernel reads. -/
structure EFI_MEMORY_DESCRIPTOR where
  Type_ : UInt32
  PhysicalStart : UInt64
  NumberOfPages : UInt64
  Attribute : UInt64
  deriving DecidableEq, Repr

def EfiConventionalMemory : UInt32 := 7

/-- What the boot loader passes on. -/
structure EFIServicesInfo where
  memory_descriptors : List EFI_MEMORY_DESCRIPTOR
  kernel_physical_start : UInt64
  kernel_physical_size : UInt64
  deriving DecidableEq, Repr

structure PageRegion where
  /-- EFI Type -/
  type : UInt32
  phy_start : UInt64
  virt_start : UInt64
  size : UInt64
  attr : UInt64
  deriving DecidableEq, Repr

/-- What zeroed memory holds. -/
def PageRegion.zero : PageRegion := ⟨0, 0, 0, 0, 0⟩

def MaxPageRegions : Nat := 1024

abbrev PageRegions := SmallVec PageRegion MaxPageRegions

/-- The static `available_memory` and the local `total_size` of `dump_efi_info`, which
    prints it. -/
structure MemorySummary where
  available_memory : PageRegions
  total_size : UInt64

/-- One round of the loop of `dump_efi_info`. -/
def dump_efi_descriptor (efi_info : EFIServicesInfo) (s : MemorySummary)
    (md : EFI_MEMORY_DESCRIPTOR) : Except Fault MemorySummary := do
  let regions ← s.available_memory.emplace_back
    ⟨md.Type_, md.PhysicalStart, 0, md.NumberOfPages * 4096, md.Attribute⟩
  if md.Type_ = EfiConventionalMemory then
    let l1 := md.PhysicalStart
    let r1 := md.PhysicalStart + 4096 * md.NumberOfPages
    let l2 := efi_info.kernel_physical_start
    let r2 := efi_info.kernel_physical_start + efi_info.kernel_physical_size
    if l1 ≥ r2 ∨ l2 ≥ r1 then
      -- this time the size is a number of pages
      let regions ← regions.push_back
        ⟨md.Type_, md.PhysicalStart, 0, md.NumberOfPages, md.Attribute⟩
      pure ⟨regions, s.total_size + md.NumberOfPages * 4096⟩
    else
      .error (.panic "Kernel image should not intersection with conventional memory\n")
  else
    pure ⟨regions, s.total_size⟩

def dump_efi_info (efi_info : EFIServicesInfo) : Except Fault MemorySummary :=
  efi_info.memory_descriptors.foldlM (dump_efi_descriptor efi_info)
    ⟨.zeroed .zero, 0⟩

/-! ## The choice of the region -/

/-- The loop of `page_allocator_init`: the number of pages and the start of the largest
    of the regions `regions[0]` to `regions[n - 1]` that start below 4 GiB. -/
def largest_region (regions : Nat → Except Fault PageRegion) (n : Nat) :
    Except Fault (UInt64 × UInt64) :=
  (List.range n).foldlM (fun (max_pages, max_pages_addr) i => do
    let region ← regions i
    let n_pages := region.size / UInt64.ofNat PAGE_SIZE
    if n_pages > max_pages ∧ region.phy_start < 0x100000000 then
      pure (n_pages, region.phy_start)
    else
      pure (max_pages, max_pages_addr)) (0, 0)

/-- The pages below the identity map cannot be used. -/
def clip_region (max_pages max_pages_addr : UInt64) : UInt64 × UInt64 :=
  if max_pages_addr < UInt64.ofNat IDENTITY_MAP_PHY_START then
    let unusable := UInt64.ofNat IDENTITY_MAP_PHY_START - max_pages_addr
    (max_pages - unusable / UInt64.ofNat PAGE_SIZE, UInt64.ofNat IDENTITY_MAP_PHY_START)
  else
    (max_pages, max_pages_addr)

/-- At most 1 GiB is used. -/
def cap_pages (max_pages : UInt64) : UInt64 :=
  let most := UInt64.ofNat (1024 * 1024 * 1024) / UInt64.ofNat PAGE_SIZE
  if max_pages > most then most else max_pages

/-- The arguments of the call of `buddy_allocator_init`. -/
structure BuddyRange where
  max_pages_addr : UInt64
  log2size : Nat
  deriving DecidableEq, Repr

/-- `page_allocator_init` up to the call of `buddy_allocator_init`. -/
def choose_range (regions : Nat → Except Fault PageRegion) (n : Nat) :
    Except Fault BuddyRange := do
  let (max_pages, max_pages_addr) ← largest_region regions n
  let (max_pages, max_pages_addr) := clip_region max_pages max_pages_addr
  let max_pages := cap_pages max_pages
  let log2size := log2 (max_pages * UInt64.ofNat PAGE_SIZE).toNat
  if ¬ max_pages_addr ≥ UInt64.ofNat IDENTITY_MAP_PHY_START then
    .error (.assertion "region out of identity map region")
  else if ¬ max_pages_addr + UInt64.ofNat (2 ^ log2size) ≤ UInt64.ofNat IDENTITY_MAP_PHY_END then
    .error (.assertion "region out of identity map region")
  else
    pure ⟨max_pages_addr, log2size⟩

/-! ## The start of the buddy allocator -/

/-- The last loop of `buddy_allocator_init`: the list of the root's bucket is a single
    block and all others are empty. -/
def test_buckets (ba : BuddyAllocator) : Nat → BuddyProg Bool
  | 0 => pure true
  | i + 1 => do
    let passed ← test_buckets ba i
    let first ← ba.load (.first_block i)
    if i + Log2MinSize = ba.root_log2size then
      match first with
      | none => pure false
      | some block =>
        let next ← ba.load (.next block)
        pure (passed && next = first)
    else
      pure (passed && first = none)

/-- The test that `buddy_allocator_init` makes on the new allocator. -/
def buddy_allocator_test (ba : BuddyAllocator) : BuddyProg Unit := do
  let addr1 ← ba.allocate_pages 24
  let addr2 ← ba.allocate_pages 16
  ba.free_pages addr1
  ba.free_pages addr2
  let passed ← test_buckets ba bucket_count
  .check passed (.assertion "Buddy allocator test failed")

def buddy_allocator_init (range : BuddyRange) : Except Fault BuddyHeap :=
  let ba : BuddyAllocator := ⟨range.max_pages_addr, range.log2size, MaxBlocks⟩
  match (buddy_allocator_test ba).run ba.init with
  | (.ok (), heap) => .ok heap
  | (.error e, _) => .error e

/-- The range the allocator was given, and the allocator. -/
def page_allocator_init (regions : PageRegions) : Except Fault (BuddyRange × BuddyHeap) := do
  let range ← choose_range regions.index regions.size
  let heap ← buddy_allocator_init range
  pure (range, heap)

/-- The part of `mm_init` from the memory map on. -/
def mm_init (efi_info : EFIServicesInfo) : Except Fault (BuddyRange × BuddyHeap) := do
  let summary ← dump_efi_info efi_info
  page_allocator_init summary.available_memory

/-! ## What the memory map has to do with it -/

section accepted

variable {efi_info : EFIServicesInfo} {md : EFI_MEMORY_DESCRIPTOR} {s s' : MemorySummary}

/-- The check against the kernel image, in 64-bit arithmetic. -/
def ClearOfKernel (efi_info : EFIServicesInfo) (md : EFI_MEMORY_DESCRIPTOR) : Prop :=
  efi_info.kernel_physical_start + efi_info.kernel_physical_size ≤ md.PhysicalStart ∨
    md.PhysicalStart + 4096 * md.NumberOfPages ≤ efi_info.kernel_physical_start

/-- **One round**: a descriptor that is accepted leaves the unused slots zero, and if it
    is conventional memory it passed the check. -/
theorem dump_efi_descriptor_ok (hs : s.available_memory.UnusedAre .zero)
    (h : dump_efi_descriptor efi_info s md = .ok s') :
    s'.available_memory.UnusedAre .zero ∧
      (md.Type_ = EfiConventionalMemory → ClearOfKernel efi_info md) := by
  obtain ⟨regions, hemplace, h⟩ := except_bind_ok h
  have hregions := SmallVec.unusedAre_append hs hemplace
  by_cases htype : md.Type_ = EfiConventionalMemory
  · rw [if_pos htype] at h
    -- Conventional memory goes through the check and is appended once more.
    by_cases hclear : ClearOfKernel efi_info md
    · obtain ⟨regions', hpush, h⟩ := except_bind_ok ((if_pos hclear).symm.trans h)
      cases h
      exact ⟨SmallVec.unusedAre_append hregions hpush, fun _ => hclear⟩
    · cases (if_neg hclear).symm.trans h
  · rw [if_neg htype] at h
    cases h
    exact ⟨hregions, fun e => absurd e htype⟩

/-- **The whole map.** -/
theorem dump_efi_info_ok (h : dump_efi_info efi_info = .ok s) :
    s.available_memory.UnusedAre .zero ∧ ∀ md ∈ efi_info.memory_descriptors,
      md.Type_ = EfiConventionalMemory → ClearOfKernel efi_info md := by
  have hloop : ∀ (mds : List EFI_MEMORY_DESCRIPTOR) (s₀ : MemorySummary),
      s₀.available_memory.UnusedAre .zero →
      mds.foldlM (dump_efi_descriptor efi_info) s₀ = .ok s →
      s.available_memory.UnusedAre .zero ∧ ∀ md ∈ mds,
        md.Type_ = EfiConventionalMemory → ClearOfKernel efi_info md := by
    intro mds
    induction mds with
    | nil =>
      intro s₀ hs₀ hrun
      cases hrun
      exact ⟨hs₀, fun md hmd => nomatch hmd⟩
    | cons md mds ih =>
      intro s₀ hs₀ hrun
      rw [List.foldlM_cons] at hrun
      obtain ⟨s₁, hround, hrun⟩ := except_bind_ok hrun
      obtain ⟨hs₁, hclear⟩ := dump_efi_descriptor_ok hs₀ hround
      obtain ⟨hs, hrest⟩ := ih s₁ hs₁ hrun
      refine ⟨hs, ?_⟩
      intro md' hmd'
      rcases List.mem_cons.mp hmd' with e | hmem
      · rw [e]
        exact hclear
      · exact hrest md' hmem
  exact hloop _ _ (fun _ _ => rfl) h

/-- Zero regions are never chosen. -/
theorem largest_region_of_zero {regions : Nat → Except Fault PageRegion} {n : Nat}
    (hzero : ∀ i region, regions i = .ok region → region = .zero) {best : UInt64 × UInt64}
    (h : largest_region regions n = .ok best) : best = (0, 0) := by
  unfold largest_region at h
  generalize List.range n = indices at h
  induction indices with
  | nil =>
    cases h
    rfl
  | cons i is ih =>
    rw [List.foldlM_cons] at h
    obtain ⟨best', hround, h⟩ := except_bind_ok h
    obtain ⟨region, hregion, hround⟩ := except_bind_ok hround
    rw [hzero i region hregion] at hround
    cases hround
    exact ih h

/-- **Every accepted map leads to the same range**: 1 GiB from the start of the identity
    map on. -/
theorem mm_init_range {range : BuddyRange} {heap : BuddyHeap}
    (h : mm_init efi_info = .ok (range, heap)) : range = ⟨0x4000000, 30⟩ := by
  obtain ⟨summary, hdump, h⟩ := except_bind_ok h
  obtain ⟨range', hchoose, h⟩ := except_bind_ok h
  obtain ⟨heap', _, h⟩ := except_bind_ok h
  cases h
  obtain ⟨best, hbest, hchoose⟩ := except_bind_ok hchoose
  have hunused := (dump_efi_info_ok hdump).1
  have hnone : best = (0, 0) :=
    largest_region_of_zero (fun _ _ => SmallVec.index_of_unused hunused) hbest
  subst hnone
  -- No pages at address 0: the clipping wraps the number of pages, the cap takes over.
  have hclip : clip_region 0 0 = (0 - 0x4000, 0x4000000) := by decide
  have hcap : cap_pages (0 - 0x4000) = 0x40000 := by decide
  have hlog : log2 (0x40000 * UInt64.ofNat PAGE_SIZE).toNat = 30 := by decide +kernel
  simp only [hclip, hcap, hlog] at hchoose
  cases hchoose
  rfl

end accepted

/-! ## The allocator after its test -/

/-- The region of every kernel that starts. -/
def boot_region : Region := ⟨0x4000000, 30, by decide, by decide⟩

section tested

variable {ba : BuddyAllocator} {s s' : BuddyState} {h : BuddyHeap}

theorem run_of_exec_allocate {k b : Nat} (hexec : exec ba s (.allocate_pages k) = some s')
    (hlive : s'.live = ⟨b, k⟩ :: s.live) :
    (ba.allocate_pages k).run s.heap = (.ok (ba.get_block_phy_addr b), s'.heap) := by
  unfold allocate_pages
  simp only [exec] at hexec
  split at hexec
  · rename_i block heap hrun
    cases hexec
    simp only [List.cons.injEq, Live.mk.injEq, and_true] at hlive
    rw [Prog.run_bind_ok hrun, hlive]
    rfl
  · -- Without a block the record stays as it is, and is too short.
    cases hexec
    have := congrArg List.length hlive
    simp at this
  · cases hexec

theorem run_of_exec_free {addr : UInt64} (hexec : exec ba s (.free_pages addr) = some s') :
    (ba.free_pages addr).run s.heap = (.ok (), s'.heap) := by
  simp only [exec] at hexec
  split at hexec
  · split at hexec
    · rename_i heap hrun
      cases hexec
      exact hrun
    · cases hexec
  · cases hexec

/-- The last loop of the test reads only. -/
theorem test_buckets_reads (n : Nat) : ((test_buckets ba n).run h).2 = h := by
  have hconfined : ∀ n, Prog.Confined (fun _ _ => False) (fun _ => True) (fun _ => True)
      (test_buckets ba n) := by
    intro n
    induction n with
    | zero => exact .ret trivial
    | succ n ih =>
      apply Prog.Confined.bind ih
      intro passed _
      apply Prog.Confined.bind (confined_load (fun _ _ => trivial) _)
      intro first _
      split
      · cases first with
        | none => exact .ret trivial
        | some block =>
          apply Prog.Confined.bind (confined_load (fun _ _ => trivial) _)
          intro next _
          exact .ret trivial
      · exact .ret trivial
  exact (hconfined n).run_preserves (I := fun h' => h' = h)
    (fun _ _ _ _ hfalse _ => hfalse.elim) rfl

/-- When the test is passed, the heap is the one after its calls. -/
theorem heap_of_passed {heap : BuddyHeap} {e : Fault}
    (hrun : (test_buckets ba bucket_count >>= fun passed => Prog.check passed e).run h =
      (.ok (), heap)) : heap = h := by
  have hreads := @test_buckets_reads ba h bucket_count
  cases hbuckets : (test_buckets ba bucket_count).run h with
  | mk passed h' =>
    have hsame : h' = h := by
      rw [hbuckets] at hreads
      exact hreads
    cases passed with
    | error e =>
      rw [Prog.run_bind_error hbuckets] at hrun
      cases hrun
    | ok passed =>
      rw [Prog.run_bind_ok hbuckets] at hrun
      cases passed with
      | true =>
        cases hrun
        exact hsame
      | false => cases hrun

theorem buddy_allocator_init_ok {range : BuddyRange} {heap : BuddyHeap}
    (h : buddy_allocator_init range = .ok heap) :
    (buddy_allocator_test ⟨range.max_pages_addr, range.log2size, MaxBlocks⟩).run
      (init ⟨range.max_pages_addr, range.log2size, MaxBlocks⟩) = (.ok (), heap) := by
  unfold buddy_allocator_init at h
  dsimp only at h
  split at h
  · rename_i hrun
    cases h
    exact hrun
  · cases h

/-- The calls of the test. -/
def test_calls : List Call :=
  [.allocate_pages 24, .allocate_pages 16, .free_pages 0x43f0000, .free_pages 0x44ff0000]

theorem boot_addresses : boot_region.allocator.get_block_phy_addr 63 = 0x43f0000 ∧
    boot_region.allocator.get_block_phy_addr 16639 = 0x44ff0000 := by decide

/-- The states of the test: it makes its calls one after the other, and ends with nothing
    live. -/
theorem boot_test : ∃ s, after boot_region.allocator test_calls = some s ∧ s.live = [] ∧
    (buddy_allocator_test boot_region.allocator).run boot_region.allocator.init =
      (test_buckets boot_region.allocator bucket_count >>= fun passed =>
        Prog.check passed (.assertion "Buddy allocator test failed")).run s.heap := by
  have hrun : (after boot_region.allocator test_calls).map (·.live) = some [] := by
    decide +kernel
  have hlive₁ : (exec boot_region.allocator (.start boot_region.allocator)
      (.allocate_pages 24)).map (·.live) = some [⟨63, 24⟩] := by decide +kernel
  have hlive₂ : ((exec boot_region.allocator (.start boot_region.allocator)
      (.allocate_pages 24)).bind (exec boot_region.allocator · (.allocate_pages 16))).map
        (·.live) = some [⟨16639, 16⟩, ⟨63, 24⟩] := by decide +kernel
  obtain ⟨s₄, hafter, hlive⟩ := Option.map_eq_some_iff.mp hrun
  refine ⟨s₄, hafter, hlive, ?_⟩
  unfold after test_calls at hafter
  simp only [List.foldlM_cons, List.foldlM_nil] at hafter
  obtain ⟨s₁, h₁, hafter⟩ := Option.bind_eq_some_iff.mp hafter
  obtain ⟨s₂, h₂, hafter⟩ := Option.bind_eq_some_iff.mp hafter
  obtain ⟨s₃, h₃, hafter⟩ := Option.bind_eq_some_iff.mp hafter
  obtain ⟨s₅, h₄, hafter⟩ := Option.bind_eq_some_iff.mp hafter
  cases hafter
  rw [h₁, Option.bind_some, h₂] at hlive₂
  rw [h₁] at hlive₁
  have e₁ : s₁.live = [⟨63, 24⟩] := Option.some.inj hlive₁
  have e₂ : s₂.live = ⟨16639, 16⟩ :: s₁.live := by
    rw [e₁]
    exact Option.some.inj hlive₂
  have r₁ := run_of_exec_allocate h₁ e₁
  have r₂ := run_of_exec_allocate h₂ e₂
  rw [boot_addresses.1] at r₁
  rw [boot_addresses.2] at r₂
  unfold buddy_allocator_test
  have hstart : boot_region.allocator.init = (BuddyState.start boot_region.allocator).heap := rfl
  rw [hstart, Prog.run_bind_ok r₁, Prog.run_bind_ok r₂, Prog.run_bind_ok (run_of_exec_free h₃),
    Prog.run_bind_ok (run_of_exec_free h₄)]

end tested

/-- **The allocator a kernel starts with**: the calls of the test were made, and nothing
    is live. -/
theorem mm_init_after {efi_info : EFIServicesInfo} {range : BuddyRange} {heap : BuddyHeap}
    (h : mm_init efi_info = .ok (range, heap)) :
    after boot_region.allocator test_calls = some ⟨heap, []⟩ := by
  have hrange := mm_init_range h
  obtain ⟨summary, _, h⟩ := except_bind_ok h
  obtain ⟨range', _, h⟩ := except_bind_ok h
  obtain ⟨heap', hinit, h⟩ := except_bind_ok h
  cases h
  rw [hrange] at hinit
  obtain ⟨s, hs, hlive, htest⟩ := boot_test
  have hrun : (buddy_allocator_test boot_region.allocator).run boot_region.allocator.init =
      (.ok (), heap) := buddy_allocator_init_ok hinit
  rw [htest] at hrun
  have hheap := heap_of_passed hrun
  rw [hs, hheap, ← hlive]

/-- It is one of the states of the runs of the allocator. -/
theorem mm_init_reachable {efi_info : EFIServicesInfo} {range : BuddyRange} {heap : BuddyHeap}
    (h : mm_init efi_info = .ok (range, heap)) :
    Reachable (buddy_system boot_region.allocator) ⟨heap, []⟩ :=
  reachable_after (mm_init_after h)

/-! ## The range and the free memory -/

/-- The bytes a descriptor describes. -/
def EFI_MEMORY_DESCRIPTOR.bytes (md : EFI_MEMORY_DESCRIPTOR) : Set Nat :=
  Set.Ico md.PhysicalStart.toNat (md.PhysicalStart.toNat + 4096 * md.NumberOfPages.toNat)

/-- The bytes of the kernel image. -/
def EFIServicesInfo.kernel_bytes (efi_info : EFIServicesInfo) : Set Nat :=
  Set.Ico efi_info.kernel_physical_start.toNat
    (efi_info.kernel_physical_start.toNat + efi_info.kernel_physical_size.toNat)

/-- The bytes the allocator manages. -/
def BuddyRange.bytes (range : BuddyRange) : Set Nat :=
  Set.Ico range.max_pages_addr.toNat (range.max_pages_addr.toNat + 2 ^ range.log2size)

/-- The range lies in one piece of conventional memory and clear of the kernel. -/
def ManagesFreeRam (efi_info : EFIServicesInfo) (range : BuddyRange) : Prop :=
  (∃ md ∈ efi_info.memory_descriptors, md.Type_ = EfiConventionalMemory ∧
    range.bytes ⊆ md.bytes) ∧ Disjoint range.bytes efi_info.kernel_bytes

/-- The map has one piece of conventional memory from 64 MiB or below to 1 GiB and
    64 MiB or above. -/
def HasLowGigabyte (efi_info : EFIServicesInfo) : Prop :=
  ∃ md ∈ efi_info.memory_descriptors, md.Type_ = EfiConventionalMemory ∧
    md.PhysicalStart.toNat ≤ 0x4000000 ∧
    0x44000000 ≤ md.PhysicalStart.toNat + 4096 * md.NumberOfPages.toNat

/-- The kernel image is empty, ends at 64 MiB or below, or starts at 1 GiB and 64 MiB or
    above. -/
def KernelOutside (efi_info : EFIServicesInfo) : Prop :=
  efi_info.kernel_physical_size = 0 ∨
    efi_info.kernel_physical_start.toNat + efi_info.kernel_physical_size.toNat ≤ 0x4000000 ∨
    0x44000000 ≤ efi_info.kernel_physical_start.toNat

/-- The ends of the kernel image and of the conventional memory are 64-bit addresses. -/
def NoWrap (efi_info : EFIServicesInfo) : Prop :=
  efi_info.kernel_physical_start.toNat + efi_info.kernel_physical_size.toNat < 2 ^ 64 ∧
    ∀ md ∈ efi_info.memory_descriptors, md.Type_ = EfiConventionalMemory →
      md.PhysicalStart.toNat + 4096 * md.NumberOfPages.toNat < 2 ^ 64

section ranges

variable {efi_info : EFIServicesInfo} {md : EFI_MEMORY_DESCRIPTOR}

theorem low_gigabyte_bytes : (BuddyRange.mk 0x4000000 30).bytes = Set.Ico 0x4000000 0x44000000 :=
  rfl

theorem manages_iff_outside : ManagesFreeRam efi_info ⟨0x4000000, 30⟩ ↔
    HasLowGigabyte efi_info ∧ KernelOutside efi_info := by
  have hcover : ∀ md : EFI_MEMORY_DESCRIPTOR,
      (BuddyRange.mk 0x4000000 30).bytes ⊆ md.bytes ↔ md.PhysicalStart.toNat ≤ 0x4000000 ∧
        0x44000000 ≤ md.PhysicalStart.toNat + 4096 * md.NumberOfPages.toNat := by
    intro md
    rw [low_gigabyte_bytes]
    exact Set.Ico_subset_Ico_iff (by decide)
  have hkernel : Disjoint (BuddyRange.mk 0x4000000 30).bytes efi_info.kernel_bytes ↔
      KernelOutside efi_info := by
    have hzero : efi_info.kernel_physical_size = 0 ↔
        efi_info.kernel_physical_size.toNat = 0 := UInt64.toNat_inj.symm
    rw [low_gigabyte_bytes, EFIServicesInfo.kernel_bytes, Set.Ico_disjoint_Ico, KernelOutside,
      hzero]
    omega
  unfold ManagesFreeRam HasLowGigabyte
  simp only [hcover, hkernel]

/-- Where nothing wraps, the check against the kernel does what it is for. -/
theorem kernelOutside_of_clear (hwrap : NoWrap efi_info)
    (hmd : md ∈ efi_info.memory_descriptors) (htype : md.Type_ = EfiConventionalMemory)
    (hlow : md.PhysicalStart.toNat ≤ 0x4000000)
    (hhigh : 0x44000000 ≤ md.PhysicalStart.toNat + 4096 * md.NumberOfPages.toNat)
    (hclear : ClearOfKernel efi_info md) : KernelOutside efi_info := by
  have hend := hwrap.2 md hmd htype
  rcases hclear with h | h
  · right
    left
    rw [UInt64.le_iff_toNat_le, UInt64.toNat_add, Nat.mod_eq_of_lt hwrap.1] at h
    omega
  · right
    right
    have hpages : (4096 * md.NumberOfPages).toNat = 4096 * md.NumberOfPages.toNat := by
      rw [UInt64.toNat_mul]
      exact Nat.mod_eq_of_lt (by show 4096 * _ < _; omega)
    rw [UInt64.le_iff_toNat_le, UInt64.toNat_add, hpages, Nat.mod_eq_of_lt hend] at h
    omega

end ranges

/-- **The allocator manages free memory exactly when the low gigabyte is free.** For
    every map that is accepted, the range lies in conventional memory and clear of the
    kernel if and only if the map has a piece of conventional memory around the
    gigabyte at 64 MiB and the kernel is outside of it. Where no end of a range wraps,
    the second condition follows from the checks that were made. -/
theorem manages_free_ram_iff (efi_info : EFIServicesInfo) (range : BuddyRange)
    (heap : BuddyHeap) (h : mm_init efi_info = .ok (range, heap)) :
    (ManagesFreeRam efi_info range ↔ HasLowGigabyte efi_info ∧ KernelOutside efi_info) ∧
      (NoWrap efi_info → (ManagesFreeRam efi_info range ↔ HasLowGigabyte efi_info)) := by
  have hrange := mm_init_range h
  obtain ⟨summary, hdump, _⟩ := except_bind_ok h
  have hclear := (dump_efi_info_ok hdump).2
  rw [hrange]
  refine ⟨manages_iff_outside, ?_⟩
  intro hwrap
  rw [manages_iff_outside]
  constructor
  · intro hboth
    exact hboth.1
  · intro hgig
    obtain ⟨md, hmd, htype, hlow, hhigh⟩ := hgig
    exact ⟨⟨md, hmd, htype, hlow, hhigh⟩,
      kernelOutside_of_clear hwrap hmd htype hlow hhigh (hclear md hmd htype)⟩

/-- A map is accepted when the part of the result that can be compared is computed. -/
theorem mm_init_ok {efi_info : EFIServicesInfo} {range : BuddyRange}
    (h : (mm_init efi_info).map Prod.fst = .ok range) :
    ∃ heap, mm_init efi_info = .ok (range, heap) := by
  cases hinit : mm_init efi_info with
  | error e =>
    rw [hinit] at h
    cases h
  | ok result =>
    rw [hinit] at h
    cases h
    exact ⟨result.2, rfl⟩

/-- Conventional memory from 1 MiB to 2 GiB, and the kernel above it. -/
def machine_4G : EFIServicesInfo :=
  ⟨[⟨7, 0x100000, 0x7ff00, 0xf⟩, ⟨4, 0x80000000, 0x4100, 0xf⟩], 0x80000000, 0x4000000⟩

theorem machine_4G_manages_free_ram :
    ∃ range heap, mm_init machine_4G = .ok (range, heap) ∧ ManagesFreeRam machine_4G range := by
  obtain ⟨heap, h⟩ := mm_init_ok
    (by decide +kernel : (mm_init machine_4G).map Prod.fst = .ok ⟨0x4000000, 30⟩)
  refine ⟨_, heap, h, (manages_free_ram_iff machine_4G _ heap h).1.mpr ⟨?_, ?_⟩⟩
  · exact ⟨⟨7, 0x100000, 0x7ff00, 0xf⟩, List.mem_cons_self, rfl, by decide, by decide⟩
  · right
    right
    decide

/-- Conventional memory from 1 MiB to 128 MiB and from 193 MiB to 256 MiB, and the kernel
    in the memory of the boot loader between the two. -/
def machine_256M : EFIServicesInfo :=
  ⟨[⟨7, 0x100000, 0x7f00, 0xf⟩, ⟨4, 0x8000000, 0x4100, 0xf⟩, ⟨7, 0xc100000, 0x3f00, 0xf⟩],
    0x8000000, 0x4000000⟩

/-- On a small machine the allocator is given the kernel image, and memory that does not
    exist. -/
theorem machine_256M_manages_kernel :
    ∃ range heap, mm_init machine_256M = .ok (range, heap) ∧
      ¬ ManagesFreeRam machine_256M range := by
  obtain ⟨heap, h⟩ := mm_init_ok
    (by decide +kernel : (mm_init machine_256M).map Prod.fst = .ok ⟨0x4000000, 30⟩)
  refine ⟨_, heap, h, ?_⟩
  rw [manages_iff_outside]
  intro hboth
  have hkernel := hboth.2
  revert hkernel
  unfold KernelOutside
  decide

end Modern05
