import Modern05.Mm.KernelTables

/-! # Behind the kernel window

    The kernel has four page directories for its window of 4 GiB, but the loop over `pdpt` sets
    all of its 512 entries. The entries from the fifth on refer to the pages behind the
    directories, which are the first tables of `pt`. A walk for an address in the 508 GiB behind
    the window thus takes an entry of `pt` for a directory entry, and then a word of whatever
    page that entry maps for an entry of the last level.

    `walk_behind_window` says what such a walk finds. All other addresses meet an entry of
    `pml4t` that is zero.
-/

namespace Modern05

open Memory PageTable

variable {mem : Bytes} {k t : Nat}

/-! ## Virtual addresses -/

/-- The upper 17 bits are the same. -/
def Canonical (v : Nat) : Prop := v < 2 ^ 47 ∨ 2 ^ 64 - 2 ^ 47 ≤ v ∧ v < 2 ^ 64

instance {v : Nat} : Decidable (Canonical v) :=
  inferInstanceAs (Decidable (v < 2 ^ 47 ∨ 2 ^ 64 - 2 ^ 47 ≤ v ∧ v < 2 ^ 64))

/-- The part of a virtual address that a walk looks at. -/
def page_number (v : Nat) : Nat := v / 4096 % 2 ^ 36

/-- `[KERNEL_START, KERNEL_START + 4 GiB)` -/
def kernel_window : Set Nat :=
  Set.Ico KERNEL_START (KERNEL_START + KERNEL_SPACE_PAGES * PAGE_SIZE)

/-- What the one entry of `pml4t` that is present covers. -/
def pml4t_slot : Set Nat := Set.Ico KERNEL_START (KERNEL_START + 2 ^ 39)

/-- The word that a walk for `v`, behind the window, takes for an entry of the last level. -/
def stray_entry_addr (k v : Nat) : Nat :=
  let o := v - (KERNEL_START + KERNEL_SPACE_PAGES * PAGE_SIZE)
  window_page (k / 2 ^ 12) (o / 2 ^ 21) * 4096 + 8 * (o / 4096 % 512)

theorem stray_entry_addr_add (k o : Nat) : stray_entry_addr k (KERNEL_START + 2 ^ 32 + o) =
    window_page (k / 2 ^ 12) (o / 2 ^ 21) * 4096 + 8 * (o / 4096 % 512) := by
  have hspace : KERNEL_SPACE_PAGES * PAGE_SIZE = 2 ^ 32 := rfl
  unfold stray_entry_addr
  rw [hspace, Nat.add_sub_cancel_left]

/-! ## The entries of the kernel's tables -/

/-- All of `pml4t` is zero but for the entry of the window. -/
theorem pml4t_absent (mem : Bytes) (t k : Nat) {i : Nat} (hi : i < 512) (hne : i ≠ 256) :
    ¬ Present (load64 (setup_page_table_in_kernel_space mem t k) (t + 8 * i)) := by
  obtain ⟨m₀, m₁, m₂, m₃, h, hzero⟩ := stages_kernel mem t k
  have hsize : sizeof_KernelImagePageTable 4 = 8413184 := rfl
  rw [h.changes_pt.load64_outside (by omega), h.changes_pdt.load64_outside (by omega),
    h.changes_pdpt.load64_outside (by omega), h.changes_pml4t.load64_outside (by omega),
    hzero _ (by omega) (by omega)]
  decide

/-- None of the fields that are set in `pt` says that the page is large. -/
theorem not_large_kernel_entry {f e : Nat} (he : ¬ Large e) : ¬ Large (kernel_entry f e) := by
  unfold Large kernel_entry set_frame set_bit at *
  omega

theorem not_large_set_bit_four {e : Nat} (he : ¬ Large e) : ¬ Large (set_bit 4 e) := by
  unfold Large set_bit at *
  omega

theorem pt_passes_small {k a i : Nat} {m m' : Bytes} (hzero : load64 m (a + 8 * i) = 0)
    (hm' : m' = fill_fields (fill_fields m a uncached_fields KERNEL_SPACE_PAGES) a
      (fun i => kernel_fields (k + i)) KERNEL_IMAGE_PAGES) (hi : i < KERNEL_SPACE_PAGES) :
    ¬ Large (load64 m' (a + 8 * i)) := by
  have hfirst : ¬ Large (load64 (fill_fields m a uncached_fields KERNEL_SPACE_PAGES)
      (a + 8 * i)) := by
    rw [load64_fill_fields m a uncached_fields (fields_uncached_fields i) hi,
      foldl_uncached_fields, hzero]
    exact not_large_set_bit_four (not_large_kernel_entry (by decide))
  rw [hm']
  by_cases himage : i < KERNEL_IMAGE_PAGES
  · rw [load64_fill_fields _ a (fun i => kernel_fields (k + i)) (fields_kernel_fields (k + i))
      himage, foldl_kernel_fields]
    exact not_large_kernel_entry hfirst
  · rw [(changesOnly_fill_fields _ a (fun i => kernel_fields (k + i))
      KERNEL_IMAGE_PAGES).load64_outside (b := a + 8 * i) (by omega)]
    exact hfirst

/-- An entry of `pt` would do as an entry of a directory. -/
theorem refers_pt (mem : Bytes) (hk : k / 2 ^ 12 + KERNEL_IMAGE_PAGES ≤ 2 ^ 40) {i : Nat}
    (hi : i < KERNEL_SPACE_PAGES) :
    Refers (setup_page_table_in_kernel_space mem t k) (window_pt_addr 4 t i)
      (window_page (k / 2 ^ 12) i) := by
  obtain ⟨m₀, m₁, m₂, m₃, h, -⟩ := stages_kernel mem t k
  have hsize : sizeof_KernelImagePageTable 4 = 8413184 := rfl
  have hspace : KERNEL_SPACE_PAGES = 1048576 := rfl
  have haddr : window_pt_addr 4 t 0 + 8 * i = t + 8192 + 4096 * 4 + 8 * i := rfl
  have hzero : load64 m₃ (window_pt_addr 4 t 0 + 8 * i) = 0 := by
    have hper_table : PAGES_PER_TABLE = 512 := rfl
    rw [haddr, h.changes_pdt.load64_outside (by omega), h.changes_pdpt.load64_outside (by omega),
      h.changes_pml4t.load64_outside (by omega), h.zero _ (by omega) (by omega)]
  obtain ⟨hpresent, hframe⟩ := pt_passes identity_uncached_fields hk m₃ _ h.pt hi
  exact ⟨hpresent, pt_passes_small hzero h.pt hi, hframe⟩

section

variable (haligned : t % 4096 = 0) (hbound : t + sizeof_KernelImagePageTable 4 ≤ 2 ^ 52)

include haligned hbound

theorem refers_pdpt (mem : Bytes) (k : Nat) {i : Nat} (hi : i < 512) :
    Refers (setup_page_table_in_kernel_space mem t k) (pdpt_addr t i) (t / 4096 + 2 + i) := by
  obtain ⟨m₀, m₁, m₂, m₃, h, -⟩ := stages_kernel mem t k
  exact h.refers_pdpt (by decide) haligned hbound hi

/-! ## Walks -/

/-- **A walk behind the window.** The entry of `pt` with the number of the 2 MiB region decides
    which page is read as a table. -/
theorem walk_behind_window (mem : Bytes) (hk : k / 2 ^ 12 + KERNEL_IMAGE_PAGES ≤ 2 ^ 40) {v : Nat}
    (hslot : v ∈ pml4t_slot) (hwindow : v ∉ kernel_window) :
    let kernel := setup_page_table_in_kernel_space mem t k
    walk kernel 4 (t / 4096) (page_number v) =
      if Present (load64 kernel (stray_entry_addr k v)) then
        some (frame (load64 kernel (stray_entry_addr k v)))
      else none := by
  intro kernel
  have hstart : KERNEL_START = 2 ^ 64 - 2 ^ 47 := rfl
  have hspace : KERNEL_SPACE_PAGES * PAGE_SIZE = 2 ^ 32 := rfl
  have hpages : KERNEL_SPACE_PAGES = 1048576 := rfl
  rw [pml4t_slot, Set.mem_Ico] at hslot
  rw [kernel_window, Set.mem_Ico, hspace] at hwindow
  have hbehind : KERNEL_START + 2 ^ 32 ≤ v := by omega
  -- `o` is the offset behind the window
  obtain ⟨o, rfl⟩ := Nat.exists_eq_add_of_le hbehind
  have hpage : page_number (KERNEL_START + 2 ^ 32 + o) = 2 ^ 35 + 2 ^ 20 + o / 4096 := by
    unfold page_number
    omega
  have htop : entry_addr 3 (t / 4096) (2 ^ 35 + 2 ^ 20 + o / 4096) = t + 8 * 256 := by
    unfold entry_addr
    omega
  have hsecond : entry_addr 2 (t / 4096 + 1) (2 ^ 35 + 2 ^ 20 + o / 4096) =
      pdpt_addr t (4 + o / 2 ^ 30) := by
    unfold entry_addr pdpt_addr
    omega
  have hthird : entry_addr 1 (t / 4096 + 2 + (4 + o / 2 ^ 30)) (2 ^ 35 + 2 ^ 20 + o / 4096) =
      window_pt_addr 4 t (o / 2 ^ 21) := by
    unfold entry_addr window_pt_addr
    omega
  have hlast : entry_addr 0 (window_page (k / 2 ^ 12) (o / 2 ^ 21))
      (2 ^ 35 + 2 ^ 20 + o / 4096) = stray_entry_addr k (KERNEL_START + 2 ^ 32 + o) := by
    rw [stray_entry_addr_add, entry_addr]
    omega
  have htables := window_kernel mem haligned hbound hk
  rw [hpage, walk_of_refers htop htables.pml4t,
    walk_of_refers hsecond (refers_pdpt haligned hbound mem k (by omega)),
    walk_of_refers hthird (refers_pt mem hk (by omega)), walk_one hlast]

omit hbound in
/-- No other address is mapped. -/
theorem walk_outside_slot (mem : Bytes) (k : Nat) {v : Nat} (hv : Canonical v)
    (hslot : v ∉ pml4t_slot) :
    walk (setup_page_table_in_kernel_space mem t k) 4 (t / 4096) (page_number v) = none := by
  have hstart : KERNEL_START = 2 ^ 64 - 2 ^ 47 := rfl
  rw [pml4t_slot, Set.mem_Ico, hstart] at hslot
  unfold Canonical at hv
  have htop : entry_addr 3 (t / 4096) (page_number v) = t + 8 * (v / 2 ^ 39 % 512) := by
    unfold entry_addr page_number
    omega
  exact walk_of_absent htop (pml4t_absent mem t k (by omega) (by omega))

end

/-! ## What the kernel maps -/

section

variable (hkernel : k % PAGE_SIZE = 0 ∧ k + KERNEL_IMAGE_PAGES * PAGE_SIZE ≤ 2 ^ 52)
  (htables : t % PAGE_SIZE = 0 ∧
    t + sizeof_KernelImagePageTable 4 ≤ KERNEL_IMAGE_PAGES * PAGE_SIZE)

include hkernel htables

/-- The tables are in the image, so some region behind the window has `pdpt` itself for its last
    table. -/
theorem pdpt_mapped_behind_window (mem : Bytes) :
    let v := KERNEL_START + 2 ^ 32 + (t / 4096 + 1) * 2 ^ 21
    Canonical v ∧ v ∉ kernel_window ∧
      walk (setup_page_table_in_kernel_space mem (k + t) k) 4 ((k + t) / 4096) (page_number v) =
        some ((k + t) / 4096 + 2) := by
  intro v
  obtain ⟨haligned, hbound, hk⟩ := image_in_reach hkernel htables
  obtain ⟨htpage, htbound⟩ := htables
  have hpages : KERNEL_IMAGE_PAGES = 16384 := rfl
  have hpage : PAGE_SIZE = 4096 := rfl
  rw [hpage] at htpage htbound
  have hstart : KERNEL_START = 2 ^ 64 - 2 ^ 47 := rfl
  have hspace : KERNEL_SPACE_PAGES * PAGE_SIZE = 2 ^ 32 := rfl
  have hsize : sizeof_KernelImagePageTable 4 = 8413184 := rfl
  have hv : v = KERNEL_START + 2 ^ 32 + (t / 4096 + 1) * 2 ^ 21 := rfl
  have hwindow : v ∉ kernel_window := by
    rw [kernel_window, Set.mem_Ico, hspace]
    omega
  have hslot : v ∈ pml4t_slot := by
    rw [pml4t_slot, Set.mem_Ico]
    omega
  have hentry : stray_entry_addr k v = pdpt_addr (k + t) 0 := by
    have hpage_t : window_page (k / 2 ^ 12) (t / 4096 + 1) = k / 2 ^ 12 + (t / 4096 + 1) :=
      if_pos (by omega)
    have hregion : (t / 4096 + 1) * 2 ^ 21 / 2 ^ 21 = t / 4096 + 1 := by omega
    rw [hv, stray_entry_addr_add, hregion, hpage_t, pdpt_addr]
    omega
  have hpdpt := refers_pdpt haligned hbound mem k (i := 0) (by decide)
  refine ⟨?_, hwindow, ?_⟩
  · unfold Canonical
    omega
  · rw [walk_behind_window haligned hbound mem hk hslot hwindow, hentry, if_pos hpdpt.present,
      hpdpt.frame_eq]

end

/-- **What is mapped outside of the kernel window.** Every entry of `pdpt` is present, and just the
    first four refer to a directory. An address outside of the window is not mapped exactly when it
    is not in the 512 GiB from `KERNEL_START` on, or the word that its walk takes for the last
    entry is not present. Wherever the kernel was loaded, some address is mapped. -/
theorem unmapped_outside_window_iff (mem : Bytes) (k t : Nat)
    (hkernel : k % PAGE_SIZE = 0 ∧ k + KERNEL_IMAGE_PAGES * PAGE_SIZE ≤ 2 ^ 52)
    (htables : t % PAGE_SIZE = 0 ∧
      t + sizeof_KernelImagePageTable 4 ≤ KERNEL_IMAGE_PAGES * PAGE_SIZE) :
    let kernel := setup_page_table_in_kernel_space mem (k + t) k
    (∀ i < PAGES_PER_TABLE, Present (load64 kernel (pdpt_addr (k + t) i)) ∧
      (frame (load64 kernel (pdpt_addr (k + t) i)) * PAGE_SIZE ∈
        Set.Ico (pdt_addr (k + t) 0) (window_pt_addr 4 (k + t) 0) ↔ i < 4)) ∧
    (∀ v, Canonical v → v ∉ kernel_window →
      (walk kernel 4 ((k + t) / PAGE_SIZE) (page_number v) = none ↔
        v ∉ pml4t_slot ∨ ¬ Present (load64 kernel (stray_entry_addr k v)))) ∧
    ∃ v, Canonical v ∧ v ∉ kernel_window ∧
      walk kernel 4 ((k + t) / PAGE_SIZE) (page_number v) ≠ none := by
  intro kernel
  obtain ⟨haligned, hbound, hk⟩ := image_in_reach hkernel htables
  refine ⟨fun i hi => ?_, fun v hv hwindow => ?_, ?_⟩
  · have hentry := refers_pdpt haligned hbound mem k hi
    refine ⟨hentry.present, ?_⟩
    have hpage : PAGE_SIZE = 4096 := rfl
    have hfirst : pdt_addr (k + t) 0 = k + t + 8192 := rfl
    have hend : window_pt_addr 4 (k + t) 0 = k + t + 8192 + 4096 * 4 := rfl
    rw [hentry.frame_eq, hfirst, hend, hpage, Set.mem_Ico]
    omega
  · by_cases hslot : v ∈ pml4t_slot
    · rw [show (k + t) / PAGE_SIZE = (k + t) / 4096 from rfl,
        walk_behind_window haligned hbound mem hk hslot hwindow]
      simp [kernel, hslot]
    · exact iff_of_true (walk_outside_slot haligned mem k hv hslot) (.inl hslot)
  · obtain ⟨hv, hwindow, hmapped⟩ := pdpt_mapped_behind_window hkernel htables mem
    refine ⟨_, hv, hwindow, fun hnone => ?_⟩
    cases hmapped.symm.trans hnone

/-- The kernel at 16 MiB, with its tables 2 MiB behind the start: the lowest TiB of the user half
    is not mapped. -/
theorem unmapped_user_half_at_16M :
    let kernel := setup_page_table_in_kernel_space (fun _ => 0) (0x1000000 + 0x200000) 0x1000000
    walk kernel 4 ((0x1000000 + 0x200000) / PAGE_SIZE) (page_number 0x10000000000) = none := by
  obtain ⟨-, hunmapped, -⟩ := unmapped_outside_window_iff (fun _ => 0) 0x1000000 0x200000
    (by decide) (by decide)
  refine (hunmapped 0x10000000000 (by decide) ?_).mpr (.inl ?_)
  · rw [kernel_window, Set.mem_Ico]
    decide
  · rw [pml4t_slot, Set.mem_Ico]
    decide

/-- The same kernel: the fifth entry of `pdpt` is present and refers to the first table of `pt`,
    and an address 1 GiB and 2 MiB behind the window is mapped, to the first page directory. -/
theorem mapped_behind_window_at_16M :
    let kernel := setup_page_table_in_kernel_space (fun _ => 0) 0x1200000 0x1000000
    Present (load64 kernel (pdpt_addr 0x1200000 4)) ∧
    frame (load64 kernel (pdpt_addr 0x1200000 4)) * PAGE_SIZE = window_pt_addr 4 0x1200000 0 ∧
    Canonical (KERNEL_START + 0x140200000) ∧ KERNEL_START + 0x140200000 ∉ kernel_window ∧
    walk kernel 4 (0x1200000 / PAGE_SIZE) (page_number (KERNEL_START + 0x140200000)) =
      some (pdt_addr 0x1200000 0 / PAGE_SIZE) := by
  intro kernel
  have hpdpt := refers_pdpt (t := 0x1200000) (by decide) (by decide) (fun _ => 0) 0x1000000
    (i := 4) (by decide)
  obtain ⟨hv, hwindow, hmapped⟩ := pdpt_mapped_behind_window (k := 0x1000000) (t := 0x200000)
    (by decide) (by decide) (fun _ => 0)
  refine ⟨hpdpt.present, ?_, hv, hwindow, hmapped⟩
  rw [hpdpt.frame_eq]
  decide

end Modern05
