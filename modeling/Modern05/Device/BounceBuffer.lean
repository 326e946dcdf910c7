import Modern05.Device.Ahci

/-! # The buffer between the disk and the caller

    `AHCIDevice::Read` allocates a buffer with `kmalloc`, has the device write the sectors to it and
    copies the bytes that were asked for. The buffer is as large as the bytes, while the device is
    given as many sectors as they touch. The buffer is not released.

    * `Read_cases` says what a call that returns has done.
    * `dma_in_buffer_iff` says when the regions that the device is given are in the buffer.
    * `live_of_Read`: the live blocks after the call.
    * `changesOnly_short_Read` and `output_of_short_Read`: memory after a read of up to 512 bytes.
-/

namespace Modern05

open BuddyAllocator LTS Memory

section cases

variable {P : Platform} {port : HBA_PORT} {disk : Nat → UInt8} {s s' : BuddyState}
  {mem mem' : Bytes} {output : Nat} {start size : UInt64} {e : Error} {l : Live}

/-- **A call that returns** has tried to get a buffer, and has had the device use it. -/
theorem Read_cases (h : Read P port disk s mem output start size = some (e, s', mem')) :
    ∃ buf startl starth ok mem₁,
      try_kmalloc P.region.allocator s size.toNat = some (buf, s') ∧
      read port disk mem startl starth (sector_count start size)
        (buf_phy P.region.allocator buf) = some (ok, mem₁) ∧
      e = if ok then .ErrSuccess else .ErrFailure := by
  obtain ⟨⟨buf, s₁⟩, hbuf, h₁⟩ := Option.bind_eq_some_iff.mp h
  obtain ⟨⟨ok, mem₁⟩, hread, h₂⟩ := Option.bind_eq_some_iff.mp h₁
  obtain ⟨_, -, h₃⟩ := Option.bind_eq_some_iff.mp h₂
  cases h₃
  exact ⟨buf, _, _, ok, mem₁, hbuf, hread, rfl⟩

/-- **The live blocks after a call**: the buffer is one of them if there was room for it. -/
theorem live_of_Read (hs : Reachable (buddy_system P.region.allocator) s)
    (h : Read P port disk s mem output start size = some (e, s', mem')) :
    Reachable (buddy_system P.region.allocator) s' ∧
      ((HasRoom P.region.allocator s (kmalloc_log2size size.toNat) ∧
          ∃ l, l ∉ s.live ∧ s'.live = l :: s.live) ∨
        ¬ HasRoom P.region.allocator s (kmalloc_log2size size.toNat) ∧ s' = s) := by
  obtain ⟨_, _, _, _, _, hbuf, _⟩ := Read_cases h
  obtain ⟨hs', ⟨hroom, l, _, _, hfresh, hlive⟩ | ⟨hnoroom, _, hsame⟩⟩ := try_kmalloc_cases hs hbuf
  · exact ⟨hs', .inl ⟨hroom, l, hfresh, hlive⟩⟩
  · exact ⟨hs', .inr ⟨hnoroom, hsame⟩⟩

/-- A call that succeeds is one of a port that takes the command and completes it. -/
theorem ready_of_Read
    (h : Read P port disk s mem output start size = some (.ErrSuccess, s', mem')) :
    port.Ready := by
  obtain ⟨_, _, _, ok, _, _, hread, hsuccess⟩ := Read_cases h
  cases ok with
  | false => cases hsuccess
  | true =>
    -- what stands before the result in `read`: the slot, the header, the table, the wait
    unfold read at hread
    cases hslot : find_cmdslot port with
    | none =>
      rw [hslot] at hread
      cases hread
    | some slot =>
      rw [hslot] at hread
      obtain ⟨_, hheader, hread⟩ := Option.bind_eq_some_iff.mp hread
      obtain ⟨_, htable, hread⟩ := Option.bind_eq_some_iff.mp hread
      split at hread
      · cases hread
      · rename_i hbusy
        refine ⟨⟨slot, hslot, of_guard htable⟩, of_guard hheader, Nat.lt_of_not_le hbusy, ?_⟩
        cases herror : port.error with
        | none => rfl
        | some mem₂ =>
          rw [herror] at hread
          cases hread

/-! ## Short reads -/

section short

variable {buf : Option Live}

/-- **What a read of at most 512 bytes does to memory.** It transfers two sectors at most. -/
theorem mem_of_short_Read
    (h : Read P port disk s mem output start size = some (.ErrSuccess, s', mem'))
    (hsize : size.toNat ≤ 512) (hbuf : try_kmalloc P.region.allocator s size.toNat = some (buf, s'))
    (hhigh : (buf_phy P.region.allocator buf).toNat + 1024 ≤ IDENTITY_MAP_PHY_END) :
    ∃ n, start.toNat % 512 + size.toNat ≤ n ∧ n ≤ 1024 ∧
      mem' = memcpy (overwrite mem (buf_phy P.region.allocator buf).toNat n
          (fun i => disk (512 * (start.toNat / 512 % 2 ^ 48) + i)))
        output (fun i => window_addr P ((buf_phy P.region.allocator buf).toNat +
          start.toNat % 512 + i)) size.toNat := by
  have hfew : sectors start.toNat size.toNat ≤ 2 ∧
      start.toNat % 512 + size.toNat ≤ 512 * sectors start.toNat size.toNat := by
    unfold sectors
    omega
  have hcall := Option.some.inj (h.symm.trans
    (Read_eq (ready_of_Read h) (by omega) hbuf (by omega)))
  refine ⟨512 * sectors start.toNat size.toNat, hfew.2, by omega, ?_⟩
  rw [min_transferred (by omega)] at hcall
  exact congrArg (fun r => r.2.2) hcall

theorem changesOnly_short_Read
    (h : Read P port disk s mem output start size = some (.ErrSuccess, s', mem'))
    (hsize : size.toNat ≤ 512) (hbuf : try_kmalloc P.region.allocator s size.toNat = some (buf, s'))
    (hhigh : (buf_phy P.region.allocator buf).toNat + 1024 ≤ IDENTITY_MAP_PHY_END) :
    ChangesOnly (Set.Ico (buf_phy P.region.allocator buf).toNat
      ((buf_phy P.region.allocator buf).toNat + 1024) ∪
        Set.Ico output (output + size.toNat)) mem mem' := by
  obtain ⟨n, _, hn, rfl⟩ := mem_of_short_Read h hsize hbuf hhigh
  generalize (buf_phy P.region.allocator buf).toNat = a
  have hblock : Set.Ico a (a + n) ⊆ Set.Ico a (a + 1024) := Set.Ico_subset_Ico_right (by omega)
  exact (ChangesOnly.overwrite _ (hblock.trans Set.subset_union_left)).trans
    ((ChangesOnly.memcpy _ _ _ _).mono Set.subset_union_right)

/-- The output is what the disk has, if the buffer is in the identity map and apart from it. -/
theorem output_of_short_Read
    (h : Read P port disk s mem output start size = some (.ErrSuccess, s', mem'))
    (hsize : size.toNat ≤ 512) (hbuf : try_kmalloc P.region.allocator s size.toNat = some (buf, s'))
    (hlow : IDENTITY_MAP_PHY_START ≤ (buf_phy P.region.allocator buf).toNat)
    (hhigh : (buf_phy P.region.allocator buf).toNat + 1024 ≤ IDENTITY_MAP_PHY_END)
    (hapart : Disjoint (Set.Ico output (output + size.toNat))
      (Set.Ico (buf_phy P.region.allocator buf).toNat
        ((buf_phy P.region.allocator buf).toNat + 1024))) :
    ∀ i < size.toNat, mem' (output + i) = disk (disk_address start.toNat + i) := by
  obtain ⟨n, hfits, hn, rfl⟩ := mem_of_short_Read h hsize hbuf hhigh
  generalize (buf_phy P.region.allocator buf).toNat = a at *
  have hwindow : ∀ i, window_addr P (a + start.toNat % 512 + i) = a + start.toNat % 512 + i :=
    fun i => if_neg (by omega)
  have hsource : ∀ i < size.toNat, window_addr P (a + start.toNat % 512 + i) ∉
      Set.Ico output (output + size.toNat) := by
    intro i hi hout
    rw [hwindow] at hout
    exact Set.disjoint_left.mp hapart hout ⟨by omega, by omega⟩
  intro i hi
  rw [memcpy_eq hsource, overwrite_of_mem ⟨by omega, by omega⟩, Nat.add_sub_cancel_left, hwindow,
    overwrite_of_mem ⟨by omega, by omega⟩, disk_address]
  congr 1
  omega

end short

/-! ## Sectors and bytes -/

/-- A buffer that was allocated. -/
structure BufferSpec (P : Platform) (size : Nat) (l : Live) : Prop where
  log2size : l.log2size = kmalloc_log2size size
  fits : size ≤ 2 ^ l.log2size
  le : 2 ^ l.log2size ≤ 2 ^ 32
  addr : (l.addr P.region.allocator).toNat ≤ 2 ^ 34

theorem bufferSpec (hs : Reachable (buddy_system P.region.allocator) s) {n : Nat}
    (hbuf : try_kmalloc P.region.allocator s n = some (some l, s')) : BufferSpec P n l := by
  obtain ⟨hs', ⟨_, _, hl, hlog2size, _, hlive⟩ | ⟨_, hnone, _⟩⟩ := try_kmalloc_cases hs hbuf
  · cases hl
    have hmem : l ∈ s'.live := hlive ▸ List.mem_cons_self
    obtain ⟨_, _, haddr⟩ := addr_bounds hs' hmem
    have hbytes := live_bytes_le hs'
    have hhigh := P.region.high
    have hIM : IDENTITY_MAP_PHY_END = 2 ^ 32 := rfl
    rw [hlive, List.map_cons, List.sum_cons] at hbytes
    refine ⟨hlog2size, ?_, by omega, haddr⟩
    rw [hlog2size]
    exact le_two_pow_kmalloc_log2size n
  · cases hnone

/-! ## The regions and the buffer -/

/-- Regions that follow each other from the start of the buffer. -/
theorem tiles_in_buffer_iff {ba : BuddyAllocator} {n last : Nat} (hlast : 0 < last) :
    (∀ r ∈ tiles 8192 last n (l.addr ba).toNat, Set.Ico r.1 (r.1 + r.2) ⊆ l.bytes ba) ↔
      8192 * n + last ≤ 2 ^ l.log2size := by
  rw [consecutive_subset_iff consecutive_tiles, sum_tiles, Live.bytes,
    Set.Ico_subset_Ico_iff (by omega)]
  omega

/-- The table for a count of sectors that the buffer was allocated for. It is empty when the number
    of entries has wrapped to zero, and too short when it has wrapped to something else. -/
theorem BufferSpec.programmed_iff {count : UInt32} {n : Nat} (h : BufferSpec P n l)
    (hcount : count.toNat ≤ (n + 1022) / 512) :
    (∀ r ∈ (programmed_prdt count (l.addr P.region.allocator)).map (·.region),
        Set.Ico r.1 (r.1 + r.2) ⊆ l.bytes P.region.allocator) ↔
      512 * count.toNat ≤ 2 ^ l.log2size ∨ 2 ^ 20 < count.toNat := by
  have hfits := h.fits
  have haddr := h.addr
  -- the sizes of the buffer around which the fields wrap
  have hsmall : l.log2size ≤ 28 → 2 ^ l.log2size ≤ 2 ^ 28 := Nat.pow_le_pow_right (by omega)
  have hmiddle : l.log2size ≤ 29 → 2 ^ l.log2size ≤ 2 ^ 29 := Nat.pow_le_pow_right (by omega)
  have hmiddle' : 29 ≤ l.log2size → 2 ^ 29 ≤ 2 ^ l.log2size := Nat.pow_le_pow_right (by omega)
  have hlarge : 30 ≤ l.log2size → 2 ^ 30 ≤ 2 ^ l.log2size := Nat.pow_le_pow_right (by omega)
  rcases Nat.eq_zero_or_pos count.toNat with hnone | hpos
  · have hempty : programmed_prdt count (l.addr P.region.allocator) = [] := by
      have hzero : count = 0 := UInt32.toNat_inj.mp hnone
      rw [hzero]
      rfl
    simp [hempty, hnone]
  · have hprdtl := toNat_prdtl hpos
    rcases hn : (prdtl count).toNat with _ | n
    · have hempty : programmed_prdt count (l.addr P.region.allocator) = [] := by
        rw [programmed_prdt, hn, List.take_zero]
      simp only [hempty, List.map_nil, List.not_mem_nil, false_imp_iff, implies_true, true_iff]
      omega
    · rw [programmed_prdt_of_pos hpos hn (by omega), tiles_in_buffer_iff (by omega)]
      by_cases hfew : count.toNat ≤ 2 ^ 20
      · have hall : 8192 * n + ((512 * (count.toNat - 16 * n) - 1) % 2 ^ 22 + 1) =
            512 * count.toNat := by omega
        rw [hall]
        omega
      · have hlast : (512 * (count.toNat - 16 * n) - 1) % 2 ^ 22 < 2 ^ 22 := Nat.mod_lt _ (by omega)
        omega

end cases

/-- **When the device stays in the buffer.** The regions that it is given are in the block that
    `kmalloc` has returned exactly when the sectors fit in it; or when there are more than 2^20 of
    them, because the fields of the table then wrap. The range that the regions are to describe is
    in the block exactly when the sectors fit. -/
theorem dma_in_buffer_iff (P : Platform) (s s' : BuddyState) (start size : UInt64) (l : Live)
    (hs : Reachable (buddy_system P.region.allocator) s)
    (hend : start.toNat + size.toNat < 2 ^ 64)
    (hbuf : try_kmalloc P.region.allocator s size.toNat = some (some l, s')) :
    ((∀ r ∈ (programmed_prdt (sector_count start size) (l.addr P.region.allocator)).map
          (·.region), Set.Ico r.1 (r.1 + r.2) ⊆ l.bytes P.region.allocator) ↔
      512 * sectors start.toNat size.toNat ≤ 2 ^ kmalloc_log2size size.toNat ∨
        2 ^ 20 < sectors start.toNat size.toNat) ∧
    (Set.Ico (l.addr P.region.allocator).toNat
        ((l.addr P.region.allocator).toNat + 512 * sectors start.toNat size.toNat) ⊆
          l.bytes P.region.allocator ↔
      512 * sectors start.toNat size.toNat ≤ 2 ^ kmalloc_log2size size.toNat) := by
  have hspec := bufferSpec hs hbuf
  have hfits := hspec.fits
  have hle := hspec.le
  have hsectors : sectors start.toNat size.toNat ≤ (size.toNat + 1022) / 512 := by
    unfold sectors
    omega
  have hcount := toNat_sector_count start size
  rw [Nat.mod_eq_of_lt (by omega)] at hcount
  rw [← hspec.log2size]
  constructor
  · rw [hspec.programmed_iff (by omega), hcount]
  · rcases Nat.eq_zero_or_pos (sectors start.toNat size.toNat) with hnone | hpos
    · simp [hnone]
    · rw [Live.bytes, Set.Ico_subset_Ico_iff (by omega)]
      omega

/-- A range in three sectors. -/
theorem three_sectors_in_buffer : ∃ s', try_kmalloc platform_2G.region.allocator
      (.start platform_2G.region.allocator) 1000 = some (some ⟨32767, 16⟩, s') ∧
    ∀ r ∈ (programmed_prdt (sector_count 1000 1000)
        (Live.addr platform_2G.region.allocator ⟨32767, 16⟩)).map (·.region),
      Set.Ico r.1 (r.1 + r.2) ⊆ Live.bytes platform_2G.region.allocator ⟨32767, 16⟩ := by
  obtain ⟨s', hbuf⟩ := first_buffer 1000 (by decide +kernel)
  refine ⟨s', hbuf, (dma_in_buffer_iff platform_2G _ s' 1000 1000 ⟨32767, 16⟩ (.init rfl)
    (by decide) hbuf).1.mpr (.inl ?_)⟩
  decide +kernel

/-- 64 KiB from the second byte on are in 129 sectors. The buffer has 64 KiB, and the last sector is
    written behind it. -/
theorem last_sector_behind_buffer : ∃ s', try_kmalloc platform_2G.region.allocator
      (.start platform_2G.region.allocator) 65536 = some (some ⟨32767, 16⟩, s') ∧
    ∃ r ∈ (programmed_prdt (sector_count 1 65536)
        (Live.addr platform_2G.region.allocator ⟨32767, 16⟩)).map (·.region),
      ¬ Set.Ico r.1 (r.1 + r.2) ⊆ Live.bytes platform_2G.region.allocator ⟨32767, 16⟩ := by
  obtain ⟨s', hbuf⟩ := first_buffer 65536 (by decide +kernel)
  have haddr : (Live.addr platform_2G.region.allocator ⟨32767, 16⟩).toNat = 0x83ff0000 := by decide
  refine ⟨s', hbuf, (0x84000000, 512), by decide +kernel, fun hsubset => ?_⟩
  have hin : 0x84000000 ∈ Set.Ico 0x84000000 (0x84000000 + 512) := ⟨by decide, by decide⟩
  have hout := (hsubset hin).2
  rw [haddr] at hout
  exact absurd hout (by decide)

end Modern05
