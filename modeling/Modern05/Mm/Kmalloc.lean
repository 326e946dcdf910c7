import Modern05.Mm.PageAlloc

/-! # Addresses from `kmalloc`

    What callers of `kernel_page_alloc` and `kmalloc` in `mm/page_alloc.cpp` get: an address in the
    kernel window, and no block. The allocator says 0 when it has no room, but the start of the
    window is added to that as well.

    `kallocator` in `include/common/kallocator.hpp` gives the containers of the standard library
    their storage. It passes on the number of elements where `kmalloc` expects the number of bytes.
-/

namespace Modern05

open BuddyAllocator LTS

/-- `KERNEL_START + phy_addr`, where `phy_addr` is 0 when there is no block. -/
def kernel_page_alloc (ba : BuddyAllocator) (s : BuddyState) (i : Nat) :
    Option (UInt64 × BuddyState) :=
  (try_page_alloc ba s i).map (fun r => (UInt64.ofNat KERNEL_START + buf_phy ba r.1, r.2))

/-- The pointer that `kmalloc` returns. -/
def kmalloc_pointer (ba : BuddyAllocator) (s : BuddyState) (size : Nat) :
    Option (UInt64 × BuddyState) :=
  kernel_page_alloc ba s (kmalloc_log2size size)

/-! ## Sizes of blocks -/

theorem kmalloc_log2size_eq {size : Nat} (h : size ≠ 0) :
    kmalloc_log2size size = max Log2MinSize (Nat.clog 2 size) := by
  unfold kmalloc_log2size
  rw [log2_ceil_eq_clog h]
  dsimp only
  split <;> omega

theorem min_le_two_pow_kmalloc_log2size (size : Nat) : 65536 ≤ 2 ^ kmalloc_log2size size :=
  Nat.pow_le_pow_right (n := 2) (i := 16) (by decide) (min_le_kmalloc_log2size size)

/-- The block is the smallest one that is allowed and large enough. -/
theorem isLeast_kmalloc_log2size {size : Nat} (h : size ≠ 0) :
    IsLeast {p | (∃ n, p = 2 ^ n) ∧ max size 65536 ≤ p} (2 ^ kmalloc_log2size size) := by
  constructor
  · exact ⟨⟨_, rfl⟩,
      max_le (le_two_pow_kmalloc_log2size size) (min_le_two_pow_kmalloc_log2size size)⟩
  · rintro p ⟨⟨n, rfl⟩, hle⟩
    have hsize : Nat.clog 2 size ≤ n := Nat.clog_le_of_le_pow ((le_max_left _ _).trans hle)
    have hmin : 2 ^ 16 ≤ 2 ^ n := (le_max_right size 65536).trans hle
    have hmin : Log2MinSize ≤ n := (Nat.pow_le_pow_iff_right (by decide)).mp hmin
    rw [kmalloc_log2size_eq h]
    exact Nat.pow_le_pow_right (by decide) (max_le hmin hsize)

/-! ## The contract -/

/-- What `kernel_page_alloc` is documented to do, for the sizes `kmalloc` asks for. -/
def KmallocContract (ba : BuddyAllocator) (s : BuddyState) (size : Nat) (p : UInt64)
    (s' : BuddyState) : Prop :=
  (p = 0 ↔ ¬ HasRoom ba s (max 16 (Nat.clog 2 size))) ∧
  (HasRoom ba s (max 16 (Nat.clog 2 size)) → ∃ l, l ∉ s.live ∧ s'.live = l :: s.live ∧
    p = UInt64.ofNat KERNEL_START + l.addr ba ∧ size ≤ 2 ^ l.log2size ∧
    IsLeast {p | (∃ n, p = 2 ^ n) ∧ max size 65536 ≤ p} (2 ^ l.log2size))

section contract

variable {R : Region} {s s' : BuddyState} {size : Nat} {p : UInt64}

/-- **What callers of `kmalloc` get**: the address of a new block, or the start of the window. -/
theorem kmalloc_pointer_cases (hs : Reachable (buddy_system R.allocator) s) (size : Nat) :
    (HasRoom R.allocator s (kmalloc_log2size size) ∧ ∃ l s',
      kmalloc_pointer R.allocator s size =
        some (UInt64.ofNat KERNEL_START + l.addr R.allocator, s') ∧
      Reachable (buddy_system R.allocator) s' ∧ l.log2size = kmalloc_log2size size ∧
      l ∉ s.live ∧ s'.live = l :: s.live) ∨
    ¬ HasRoom R.allocator s (kmalloc_log2size size) ∧
      kmalloc_pointer R.allocator s size = some (UInt64.ofNat KERNEL_START, s) := by
  rcases try_page_alloc_cases hs (min_le_kmalloc_log2size size) with
    ⟨hroom, l, s', _, htry⟩ | ⟨hnoroom, _, htry⟩
  · obtain ⟨hs', ⟨_, l', hl', hlog2size, hfresh, hlive⟩ | ⟨_, hnone, _⟩⟩ :=
      try_kmalloc_cases hs htry
    · cases hl'
      refine .inl ⟨hroom, l, s', ?_, hs', hlog2size, hfresh, hlive⟩
      rw [kmalloc_pointer, kernel_page_alloc, htry]
      rfl
    · cases hnone
  · right
    refine ⟨hnoroom, ?_⟩
    rw [kmalloc_pointer, kernel_page_alloc, htry]
    rfl

/-- An address in the window is not null. -/
theorem kernel_address_ne_zero {addr : UInt64} (h : addr.toNat ≤ 2 ^ 34) :
    UInt64.ofNat KERNEL_START + addr ≠ 0 := by
  intro hzero
  have hnat := congrArg UInt64.toNat hzero
  rw [UInt64.toNat_add, UInt64.toNat_ofNat'] at hnat
  have hzero : (0 : UInt64).toNat = 0 := rfl
  unfold KERNEL_START at hnat
  omega

end contract

/-- **`kmalloc` keeps its contract exactly when there is room.** It returns in any case; without
    room it returns the start of the kernel window, where the kernel is, and not null. -/
theorem kmalloc_contract_iff (R : Region)
    (hhigh : R.phy_start.toNat + 2 ^ R.root_log2size ≤ IDENTITY_MAP_PHY_END) (s : BuddyState)
    (hs : Reachable (buddy_system R.allocator) s) (size : Nat) (hsize : 1 ≤ size) :
    ∃ p s', kmalloc_pointer R.allocator s size = some (p, s') ∧
      (KmallocContract R.allocator s size p s' ↔
        HasRoom R.allocator s (max 16 (Nat.clog 2 size))) ∧
      (¬ HasRoom R.allocator s (max 16 (Nat.clog 2 size)) →
        p = UInt64.ofNat KERNEL_START ∧ s' = s) := by
  have hsize : size ≠ 0 := by omega
  have hlog2size : max 16 (Nat.clog 2 size) = kmalloc_log2size size :=
    (kmalloc_log2size_eq hsize).symm
  unfold KmallocContract
  rw [hlog2size]
  rcases kmalloc_pointer_cases hs size with
    ⟨hroom, l, s', hp, hs', hl, hfresh, hlive⟩ | ⟨hnoroom, hp⟩
  · refine ⟨_, s', hp, ⟨fun _ => hroom, fun _ => ⟨?_, fun _ => ?_⟩⟩, fun hno => absurd hroom hno⟩
    · have hmem : l ∈ s'.live := by rw [hlive]; exact List.mem_cons_self
      have hne := kernel_address_ne_zero (addr_of_live hhigh hs' hmem).2
      exact ⟨fun h => absurd h hne, fun hno => absurd hroom hno⟩
    · refine ⟨l, hfresh, hlive, rfl, ?_, ?_⟩
      · rw [hl]
        exact le_two_pow_kmalloc_log2size size
      · rw [hl]
        exact isLeast_kmalloc_log2size hsize
  · refine ⟨_, s, hp, ⟨fun hcontract => ?_, fun hroom => absurd hroom hnoroom⟩, fun _ => ⟨rfl, rfl⟩⟩
    exact absurd (hcontract.1.mpr hnoroom) (by decide)

/-- A page is allocated right after the start. -/
theorem first_page_contract : ∃ p s',
    kmalloc_pointer region_128K.allocator (.start region_128K.allocator) 4096 = some (p, s') ∧
    KmallocContract region_128K.allocator (.start region_128K.allocator) 4096 p s' := by
  obtain ⟨p, s', hp, hiff, _⟩ :=
    kmalloc_contract_iff region_128K (by decide) (.start region_128K.allocator) (.init rfl) 4096
      (by decide)
  refine ⟨p, s', hp, hiff.mpr ⟨17, ?_, by decide, by decide +kernel⟩⟩
  have hclog : Nat.clog 2 4096 ≤ 12 := Nat.clog_le_of_le_pow (by decide)
  omega

/-- With all memory allocated, another page is at the start of the kernel window. -/
theorem no_memory_is_not_null : ∃ s s', Reachable (buddy_system region_128K.allocator) s ∧
    ¬ HasRoom region_128K.allocator s (max 16 (Nat.clog 2 4096)) ∧
    kmalloc_pointer region_128K.allocator s 4096 = some (0xffff800000000000, s') := by
  have hrun : (do
      let s ← after region_128K.allocator [.allocate_pages 17]
      pure (s.heap.first_block 0, s.heap.first_block 1)) = some (none, none) := by decide +kernel
  obtain ⟨s, hafter, hrun⟩ := Option.bind_eq_some_iff.mp hrun
  obtain ⟨hsmall, hlarge⟩ := Prod.mk.inj (Option.some.inj hrun)
  have hs := reachable_after hafter
  have hnoroom := not_hasRoom_128K hsmall hlarge 4096
  rcases kmalloc_pointer_cases hs 4096 with ⟨hroom, _⟩ | ⟨_, hp⟩
  · exact absurd hroom hnoroom
  · refine ⟨s, s, hs, ?_, hp⟩
    rwa [kmalloc_log2size_eq (by decide)] at hnoroom

/-! ## Storage of containers -/

/-- `kallocator<T>::allocate(n)`: the block that `kmalloc(n)` returns, for every type. -/
def kallocator_allocate (ba : BuddyAllocator) (s : BuddyState) (n : Nat) :
    Option (Option Live × BuddyState) :=
  try_kmalloc ba s n

/-- Less than two bytes of a block are there for each byte that was asked for, unless it is a
    smallest block. -/
theorem two_pow_kmalloc_log2size_lt (size : Nat) (h : 65536 < 2 ^ kmalloc_log2size size) :
    2 ^ kmalloc_log2size size < size * 2 := by
  have hlarge : Log2MinSize < kmalloc_log2size size :=
    (Nat.pow_lt_pow_iff_right (a := 2) (by decide)).mp h
  have hpred : ¬ size ≤ 2 ^ (kmalloc_log2size size - 1) := by
    intro hle
    have hne : size ≠ 0 := by
      rintro rfl
      exact absurd hlarge (by decide +kernel)
    have hclog : Nat.clog 2 size ≤ kmalloc_log2size size - 1 := Nat.clog_le_of_le_pow hle
    have heq := kmalloc_log2size_eq hne
    omega
  have hpow : 2 ^ kmalloc_log2size size = 2 ^ (kmalloc_log2size size - 1) * 2 := by
    rw [← Nat.pow_succ, Nat.succ_eq_add_one, Nat.sub_add_cancel (by omega)]
  omega

/-- Elements of more than one byte have to fit into a smallest block. -/
theorem storage_fits_iff (sizeof_T n : Nat) :
    n * sizeof_T ≤ 2 ^ kmalloc_log2size n ↔ sizeof_T = 1 ∨ n * sizeof_T ≤ 65536 := by
  constructor
  · intro h
    by_contra hnot
    obtain ⟨hone, hlarge⟩ := not_or.mp hnot
    have hzero : sizeof_T ≠ 0 := by
      rintro rfl
      omega
    have hdouble : n * 2 ≤ n * sizeof_T := Nat.mul_le_mul_left n (by omega)
    have hlt := two_pow_kmalloc_log2size_lt n (by omega)
    omega
  · rintro (rfl | hsmall)
    · rw [Nat.mul_one]
      exact le_two_pow_kmalloc_log2size n
    · exact hsmall.trans (min_le_two_pow_kmalloc_log2size n)

/-- Every element is in the block, exactly when the block is long enough for all of them. -/
theorem elements_in_block_iff (sizeof_T n a len : Nat) :
    (∀ i < n, Set.Ico (a + i * sizeof_T) (a + (i + 1) * sizeof_T) ⊆ Set.Ico a (a + len)) ↔
      n * sizeof_T ≤ len := by
  constructor
  · intro h
    rcases Nat.eq_zero_or_pos n with rfl | hn
    · omega
    rcases Nat.eq_zero_or_pos sizeof_T with rfl | hsizeof
    · omega
    -- the last byte of the last element
    obtain ⟨m, rfl⟩ : ∃ m, n = m + 1 := ⟨n - 1, by omega⟩
    have hstep : (m + 1) * sizeof_T = m * sizeof_T + sizeof_T := Nat.succ_mul m sizeof_T
    have hlast := (h m (Nat.lt_succ_self m)
      (⟨by omega, by omega⟩ : a + (m + 1) * sizeof_T - 1 ∈ Set.Ico _ _)).2
    omega
  · intro h i hi x hx
    have hle : (i + 1) * sizeof_T ≤ n * sizeof_T := Nat.mul_le_mul_right _ hi
    exact ⟨(Nat.le_add_right _ _).trans hx.1, hx.2.trans_le (by omega)⟩

/-- **The storage of a container is large enough exactly for elements of one byte, and for all
    that fits into 64 KiB.** A string always has room, and a node of a map if it has 64 KiB at
    most; other vectors run out of their block. -/
theorem container_storage_iff (R : Region) (s s' : BuddyState)
    (hs : Reachable (buddy_system R.allocator) s) (sizeof_T n : Nat) (l : Live)
    (h : kallocator_allocate R.allocator s n = some (some l, s')) :
    (n * sizeof_T ≤ 2 ^ l.log2size ↔ sizeof_T = 1 ∨ n * sizeof_T ≤ 65536) ∧
    ((∀ i < n, Set.Ico ((l.addr R.allocator).toNat + i * sizeof_T)
        ((l.addr R.allocator).toNat + (i + 1) * sizeof_T) ⊆ l.bytes R.allocator) ↔
      sizeof_T = 1 ∨ n * sizeof_T ≤ 65536) := by
  obtain ⟨_, ⟨_, l', hl', hlog2size, _⟩ | ⟨_, hnone, _⟩⟩ := try_kmalloc_cases hs h
  · cases hl'
    have hfits := storage_fits_iff sizeof_T n
    rw [← hlog2size] at hfits
    exact ⟨hfits, (elements_in_block_iff sizeof_T n _ _).trans hfits⟩
  · cases hnone

/-- 182 entries of 360 bytes, those of a list of partitions. -/
theorem entries_182_in_block : ∃ l s',
    kallocator_allocate region_128K.allocator (.start region_128K.allocator) 182 =
      some (some l, s') ∧
    182 * 360 ≤ 2 ^ l.log2size := by
  have hrun : (kallocator_allocate region_128K.allocator (.start region_128K.allocator) 182).map
      (fun r => r.1) = some (some ⟨1, 16⟩) := by decide +kernel
  obtain ⟨⟨_, s'⟩, halloc, rfl⟩ := Option.map_eq_some_iff.mp hrun
  exact ⟨_, s', halloc, (container_storage_iff region_128K _ s' (.init rfl) 360 182 _ halloc).1.mpr
    (.inr (by decide))⟩

/-- A list of partitions that has grown to 256 entries has a block for 182. -/
theorem entries_256_leave_block : ∃ l s',
    kallocator_allocate region_128K.allocator (.start region_128K.allocator) 256 =
      some (some l, s') ∧
    ¬ 256 * 360 ≤ 2 ^ l.log2size := by
  have hrun : (kallocator_allocate region_128K.allocator (.start region_128K.allocator) 256).map
      (fun r => r.1) = some (some ⟨1, 16⟩) := by decide +kernel
  obtain ⟨⟨_, s'⟩, halloc, rfl⟩ := Option.map_eq_some_iff.mp hrun
  exact ⟨_, s', halloc, by decide⟩

end Modern05
