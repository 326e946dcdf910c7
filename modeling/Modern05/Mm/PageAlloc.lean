import Modern05.Mm.BuddyAddresses
import Modern05.Mm.BuddyUsage

/-! # Pages for the rest of the kernel

    `physical_page_alloc`, `kernel_page_alloc` and `kmalloc` of `mm/page_alloc.cpp`, for
    the code that keeps what it allocates. The three differ in the size they ask for and
    in the address they return, the physical one or the same in the kernel window; here
    all return the block. When there is none they return zero, which is `try_kmalloc`.

    `Holdings` is what holders of blocks may rely on: their blocks are live and share no
    byte. `Holdings.alloc`: an allocation that is spaced adds a block to them.
-/

namespace Modern05

open BuddyAllocator LTS

/-- A region that `page_allocator_init` can give to the allocator: it passes the two
    assertions there, and memory comes in pages. -/
structure MappedRegion extends Region where
  aligned : phy_start.toNat % PAGE_SIZE = 0
  low : IDENTITY_MAP_PHY_START ≤ phy_start.toNat
  high : phy_start.toNat + 2 ^ root_log2size ≤ IDENTITY_MAP_PHY_END

/-- A call of the allocator that succeeds: the block and the state after it. -/
def physical_page_alloc (ba : BuddyAllocator) (s : BuddyState) (log2size : Nat) :
    Option (Live × BuddyState) :=
  match (ba.allocate_block log2size).run s.heap with
  | (.ok (some block), heap) =>
    some (⟨block, log2size⟩, ⟨heap, ⟨block, log2size⟩ :: s.live⟩)
  | _ => none

/-- The size `kmalloc` asks for. -/
def kmalloc_log2size (size : Nat) : Nat :=
  let log2size := log2_ceil size
  if log2size < Log2MinSize then Log2MinSize else log2size

def kmalloc (ba : BuddyAllocator) (s : BuddyState) (size : Nat) : Option (Live × BuddyState) :=
  physical_page_alloc ba s (kmalloc_log2size size)

/-- The call with its failure: there may be no block, and the allocator may stop the kernel. -/
def try_page_alloc (ba : BuddyAllocator) (s : BuddyState) (log2size : Nat) :
    Option (Option Live × BuddyState) :=
  match (ba.allocate_block log2size).run s.heap with
  | (.ok (some block), heap) =>
    some (some ⟨block, log2size⟩, ⟨heap, ⟨block, log2size⟩ :: s.live⟩)
  | (.ok none, heap) => some (none, ⟨heap, s.live⟩)
  | (.error _, _) => none

def try_kmalloc (ba : BuddyAllocator) (s : BuddyState) (size : Nat) :
    Option (Option Live × BuddyState) :=
  try_page_alloc ba s (kmalloc_log2size size)

/-- `kernel2phy((u64)buf)` for the result of `kmalloc`: zero when there is no block. -/
def buf_phy (ba : BuddyAllocator) : Option Live → UInt64
  | some l => l.addr ba
  | none => 0

/-- Some list of free blocks that are large enough is not empty. -/
def HasRoom (ba : BuddyAllocator) (s : BuddyState) (log2size : Nat) : Prop :=
  ∃ j, log2size ≤ j ∧ j ≤ ba.root_log2size ∧ s.heap.first_block (bucket_index j) ≠ none

theorem min_le_kmalloc_log2size (size : Nat) : Log2MinSize ≤ kmalloc_log2size size := by
  unfold kmalloc_log2size
  dsimp only
  split <;> omega

/-- There is no room in 128 KiB when both lists are empty. -/
theorem not_hasRoom_128K {s : BuddyState} (hsmall : s.heap.first_block 0 = none)
    (hlarge : s.heap.first_block 1 = none) (size : Nat) :
    ¬ HasRoom region_128K.allocator s (kmalloc_log2size size) := by
  rintro ⟨j, hj, hroot, hsome⟩
  have hj : 16 ≤ j := Nat.le_trans (min_le_kmalloc_log2size size) hj
  have hroot : j ≤ 17 := hroot
  obtain rfl | rfl : j = 16 ∨ j = 17 := by omega
  · exact hsome hsmall
  · exact hsome hlarge

/-- The block is large enough. -/
theorem le_two_pow_kmalloc_log2size (size : Nat) : size ≤ 2 ^ kmalloc_log2size size := by
  have hceil := le_two_pow_log2_ceil size
  unfold kmalloc_log2size
  dsimp only
  split
  · rename_i h
    exact Nat.le_trans hceil (Nat.pow_le_pow_right (by omega) (Nat.le_of_lt h))
  · exact hceil

/-- Every one of a sequence of allocations is spaced. -/
def AllSpaced (ba : BuddyAllocator) : BuddyState → List Nat → Prop
  | _, [] => True
  | s, k :: ks => (Call.allocate_pages k).spaced ba s ∧
      ∀ l s', physical_page_alloc ba s k = some (l, s') → AllSpaced ba s' ks

section allocations

variable {R : Region} {s s' : BuddyState} {k : Nat} {l : Live}

/-- **What an allocation that succeeds does.** -/
theorem physical_page_alloc_spec (hs : Reachable (buddy_system R.allocator) s)
    (hk : Log2MinSize ≤ k) (h : physical_page_alloc R.allocator s k = some (l, s')) :
    ∃ j c, Allocates R.allocator s k j c l.block s' ∧ l.log2size = k ∧
      s'.live = l :: s.live ∧ Reachable (buddy_system R.allocator) s' := by
  obtain ⟨free, hinv⟩ := stateInv_of_reachable R.fits s hs
  rcases allocate_outcome R.fits hinv.toSound hk with ⟨hrun, _⟩ | ⟨j, c, b, t, _, ha, _⟩
  · simp only [physical_page_alloc, hrun] at h
    cases h
  · simp only [physical_page_alloc, ha.run, Option.some.injEq, Prod.mk.injEq] at h
    obtain ⟨rfl, rfl⟩ := h
    have hstate : BuddyState.mk t.heap (⟨b, k⟩ :: s.live) = t := by
      rw [← ha.live]
    rw [hstate]
    have hstep : (buddy_system R.allocator).step s (.allocate_pages k) t := ⟨hk, ha.exec_eq⟩
    exact ⟨j, c, ha, rfl, ha.live, .step hs hstep⟩

/-- **A call succeeds exactly when there is a free block that is large enough**, and otherwise
    changes nothing. It does not stop the kernel. -/
theorem try_page_alloc_cases (hs : Reachable (buddy_system R.allocator) s)
    (hk : Log2MinSize ≤ k) :
    (HasRoom R.allocator s k ∧ ∃ l s', physical_page_alloc R.allocator s k = some (l, s') ∧
      try_page_alloc R.allocator s k = some (some l, s')) ∨
    ¬ HasRoom R.allocator s k ∧ physical_page_alloc R.allocator s k = none ∧
      try_page_alloc R.allocator s k = some (none, s) := by
  obtain ⟨free, hinv⟩ := stateInv_of_reachable R.fits s hs
  rcases allocate_outcome R.fits hinv.toSound hk with ⟨hrun, hnone⟩ | ⟨j, c, b, t, _, ha, _⟩
  · right
    refine ⟨?_, ?_, ?_⟩
    · rintro ⟨j, hle, hroot, hsome⟩
      exact hsome (hnone j hle hroot)
    · simp only [physical_page_alloc, hrun]
    · simp only [try_page_alloc, hrun]
  · left
    refine ⟨⟨j, ha.fit.le, ha.fit.le_root, ?_⟩, ⟨b, k⟩, ⟨t.heap, ⟨b, k⟩ :: s.live⟩, ?_, ?_⟩
    · rw [ha.fit.head]
      exact Option.some_ne_none c
    · simp only [physical_page_alloc, ha.run]
    · simp only [try_page_alloc, ha.run]

theorem kmalloc_of_try {size : Nat} {buf : Option Live}
    (hs : Reachable (buddy_system R.allocator) s) (hsome : (kmalloc R.allocator s size).isSome)
    (htry : try_kmalloc R.allocator s size = some (buf, s')) :
    ∃ l, buf = some l ∧ kmalloc R.allocator s size = some (l, s') := by
  rcases try_page_alloc_cases hs (min_le_kmalloc_log2size size) with
    ⟨_, l, t, hl, ht⟩ | ⟨_, hnone, _⟩
  · cases ht.symm.trans htry
    exact ⟨l, rfl, hl⟩
  · unfold kmalloc at hsome
    rw [hnone] at hsome
    cases hsome

/-- **What `kmalloc` does**: there is room, and a block that was not live is; or there is none, and
    nothing changes. -/
theorem try_kmalloc_cases {size : Nat} {buf : Option Live}
    (hs : Reachable (buddy_system R.allocator) s)
    (h : try_kmalloc R.allocator s size = some (buf, s')) :
    Reachable (buddy_system R.allocator) s' ∧
      ((HasRoom R.allocator s (kmalloc_log2size size) ∧ ∃ l, buf = some l ∧
          l.log2size = kmalloc_log2size size ∧ l ∉ s.live ∧ s'.live = l :: s.live) ∨
        ¬ HasRoom R.allocator s (kmalloc_log2size size) ∧ buf = none ∧ s' = s) := by
  have hmin := min_le_kmalloc_log2size size
  rcases try_page_alloc_cases hs hmin with ⟨hroom, l, t, hl, ht⟩ | ⟨hnoroom, _, ht⟩
  · cases ht.symm.trans h
    obtain ⟨_, _, halloc, hlog2size, hlive, hs'⟩ := physical_page_alloc_spec hs hmin hl
    have hfresh : l ∉ s.live := fun hmem => halloc.fresh ⟨l, hmem, rfl⟩
    exact ⟨hs', .inl ⟨hroom, l, rfl, hlog2size, hfresh, hlive⟩⟩
  · cases ht.symm.trans h
    exact ⟨hs, .inr ⟨hnoroom, rfl, rfl⟩⟩

/-- `kmalloc` answers in every state, with a block or without one. -/
theorem try_kmalloc_returns (hs : Reachable (buddy_system R.allocator) s) (size : Nat) :
    ∃ buf s', try_kmalloc R.allocator s size = some (buf, s') := by
  rcases try_page_alloc_cases hs (min_le_kmalloc_log2size size) with
    ⟨_, l, s', _, htry⟩ | ⟨_, _, htry⟩
  · exact ⟨some l, s', htry⟩
  · exact ⟨none, s, htry⟩

/-- **What `kfree` does**: the block with the address is not live any more. -/
theorem kfree_cases {addr : UInt64} (hs : Reachable (buddy_system R.allocator) s)
    (h : exec R.allocator s (.free_pages addr) = some s') :
    Reachable (buddy_system R.allocator) s' ∧
      ∃ l ∈ s.live, l.addr R.allocator = addr ∧ s'.live = s.live.erase l := by
  have hstep : (buddy_system R.allocator).step s (.free_pages addr) s' := ⟨valid_of_exec h, h⟩
  obtain ⟨l, hl, haddr⟩ := hstep.1
  obtain ⟨free, hinv⟩ := stateInv_of_reachable R.fits s hs
  obtain ⟨t, _, hreleases, _⟩ := free_outcome R.fits hinv.toSound hl
  have hexec := hreleases.exec_eq hl
  rw [haddr, h] at hexec
  cases hexec
  exact ⟨.step hs hstep, l, hl, haddr, hreleases.erase⟩

/-- The live blocks fit into the region. -/
theorem live_bytes_le (hs : Reachable (buddy_system R.allocator) s) :
    (s.live.map (fun l => 2 ^ l.log2size)).sum ≤ 2 ^ R.root_log2size := by
  obtain ⟨free, hinv⟩ := stateInv_of_reachable R.fits s hs
  have hsum := live_add_free_bytes R.fits hinv
  have hroot : R.allocator.root_log2size = R.root_log2size := rfl
  rw [hroot] at hsum
  omega

theorem hasSize_of_live (hs : Reachable (buddy_system R.allocator) s) (hl : l ∈ s.live) :
    R.allocator.HasSize l.block l.log2size := by
  obtain ⟨free, hinv⟩ := stateInv_of_reachable R.fits s hs
  exact hinv.hasSize hl

/-- A spaced allocation shares no byte with the live blocks. -/
theorem disjoint_of_alloc (hs : Reachable (buddy_system R.allocator) s) (hk : Log2MinSize ≤ k)
    (hspaced : (Call.allocate_pages k).spaced R.allocator s)
    (h : physical_page_alloc R.allocator s k = some (l, s')) {l' : Live} (hl' : l' ∈ s.live) :
    Disjoint (l.bytes R.allocator) (l'.bytes R.allocator) := by
  obtain ⟨j, c, ha, hsize, hlive, hs'⟩ := physical_page_alloc_spec hs hk h
  have hnum : 2 ^ (j - k) * (c + 1) - 1 = l.block := by
    have := ha.number
    omega
  have hsp := hspaced j c ha.fit l' hl'
  rw [hnum, ← hsize] at hsp
  have hmem : l ∈ s'.live := by
    rw [hlive]
    exact List.mem_cons_self
  exact disjoint_of_spaced R.fits (hasSize_of_live hs' hmem) (hasSize_of_live hs hl') hsp

/-- Whether an allocation is spaced can be read off its result. -/
theorem spaced_of_alloc (hs : Reachable (buddy_system R.allocator) s) (hk : Log2MinSize ≤ k)
    (h : physical_page_alloc R.allocator s k = some (l, s')) (hl : ∀ l' ∈ s.live, Spaced l l') :
    (Call.allocate_pages k).spaced R.allocator s := by
  obtain ⟨j, c, ha, hsize, _, _⟩ := physical_page_alloc_spec hs hk h
  intro j' c' hfit l' hl'
  obtain ⟨ej, ec⟩ := hfit.unique ha.fit
  have hnum : 2 ^ (j' - k) * (c' + 1) - 1 = l.block := by
    have := ha.number
    rw [← ej, ← ec]
    omega
  rw [hnum, ← hsize]
  exact hl l' hl'

theorem AllSpaced.cons {ks : List Nat} (hs : Reachable (buddy_system R.allocator) s)
    (hk : Log2MinSize ≤ k) (h : physical_page_alloc R.allocator s k = some (l, s'))
    (hl : ∀ l' ∈ s.live, Spaced l l') (hks : AllSpaced R.allocator s' ks) :
    AllSpaced R.allocator s (k :: ks) := by
  refine ⟨spaced_of_alloc hs hk h hl, ?_⟩
  intro l₁ s₁ h₁
  cases h.symm.trans h₁
  exact hks

end allocations

/-! ## Holding blocks -/

/-- The blocks of `owned`, each with what its holder calls it, are live and share no
    byte. -/
structure Holdings {ω : Type} (R : Region) (s : BuddyState) (owned : List (ω × Live)) : Prop where
  reachable : Reachable (buddy_system R.allocator) s
  live : ∀ o ∈ owned, o.2 ∈ s.live
  apart : owned.Pairwise (fun o o' => Disjoint (o.2.bytes R.allocator) (o'.2.bytes R.allocator))

namespace Holdings

variable {ω : Type} {R : Region} {s s' : BuddyState} {owned : List (ω × Live)} {k : Nat} {l : Live}

/-- **A spaced allocation adds a block.** -/
theorem alloc (h : Holdings R s owned) (w : ω) (hk : Log2MinSize ≤ k)
    (hspaced : (Call.allocate_pages k).spaced R.allocator s)
    (halloc : physical_page_alloc R.allocator s k = some (l, s')) :
    Holdings R s' ((w, l) :: owned) := by
  obtain ⟨_, _, _, _, hlive, hs'⟩ := physical_page_alloc_spec h.reachable hk halloc
  refine ⟨hs', ?_, ?_⟩
  · intro o ho
    rw [hlive]
    rcases List.mem_cons.mp ho with e | ho
    · rw [e]
      exact List.mem_cons_self
    · exact List.mem_cons_of_mem _ (h.live o ho)
  · rw [List.pairwise_cons]
    refine ⟨?_, h.apart⟩
    intro o ho
    exact disjoint_of_alloc h.reachable hk hspaced halloc (h.live o ho)

/-- Two different entries share no byte. -/
theorem disjoint (h : Holdings R s owned) {o o' : ω × Live} (ho : o ∈ owned) (ho' : o' ∈ owned)
    (hne : o ≠ o') : Disjoint (o.2.bytes R.allocator) (o'.2.bytes R.allocator) := by
  have hsymm : Std.Symm (fun o o' : ω × Live =>
      Disjoint (o.2.bytes R.allocator) (o'.2.bytes R.allocator)) := ⟨fun _ _ hd => hd.symm⟩
  exact h.apart.forall ho ho' hne

end Holdings

/-! ## Addresses -/

section addresses

variable {s : BuddyState} {l : Live}

/-- Blocks of a region below 4 GiB have addresses below 16 GiB, also when they are not spaced. -/
theorem addr_of_live {R : Region} (hhigh : R.phy_start.toNat + 2 ^ R.root_log2size ≤ 2 ^ 32)
    (hs : Reachable (buddy_system R.allocator) s) (hl : l ∈ s.live) :
    (l.addr R.allocator).toNat = R.phy_start.toNat + l.block * 65536 ∧
      (l.addr R.allocator).toNat ≤ 2 ^ 34 := by
  have hsize := hasSize_of_live hs hl
  have hstart : R.allocator.phy_start = R.phy_start := rfl
  have hend : R.phy_start.toNat + 2 ^ (R.root_log2size + 1) ≤ 2 ^ 64 := by
    rw [Nat.pow_succ]
    omega
  have haddr : (l.addr R.allocator).toNat = R.phy_start.toNat + l.block * 65536 :=
    toNat_phy_addr_of_le R.fits hsize.1 hend
  have hle := (block_add_size_le R.fits hsize (hsize.min_le R.fits)).1
  have hpos := Nat.two_pow_pos (l.log2size - Log2MinSize)
  have hroot : 2 ^ R.root_log2size = 2 ^ R.allocator.height * 65536 := R.fits.pow_root
  rw [haddr]
  omega

/-- The address of a block is that of a page in the identity map, far below the end of
    the address space. -/
theorem addr_bounds {R : MappedRegion} (hs : Reachable (buddy_system R.allocator) s)
    (hl : l ∈ s.live) :
    (l.addr R.allocator).toNat % PAGE_SIZE = 0 ∧
      IDENTITY_MAP_PHY_START ≤ (l.addr R.allocator).toNat ∧
      (l.addr R.allocator).toNat ≤ 2 ^ 34 := by
  obtain ⟨haddr, hle⟩ := addr_of_live R.high hs hl
  have hlow := R.low
  have haligned := R.aligned
  unfold PAGE_SIZE at haligned ⊢
  omega

end addresses

end Modern05
