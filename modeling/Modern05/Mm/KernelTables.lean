import Modern05.Framework.PageTable
import Modern05.Lib.Utils

/-! # The page tables of the kernel window

    Two programs build tables for the kernel window at `KERNEL_START`. The boot loader, in
    `boot_page_table.c`, has one page directory and maps 1 GiB. The kernel, in `mm/mm.cpp`,
    builds its own in its image and has four directories for the whole window. Both map the
    first 64 MiB to the kernel image and the rest to itself.

    In both programs the tables are one structure: `pml4t`, `pdpt`, the directories `pdt` and
    the last-level tables `pt`, one behind the other. `Window` says what such tables refer to,
    for any number of directories, and `walk_window` what a walk through them finds. The two
    builders are then compared with it stage by stage.

    The boot loader runs with physical addresses. The kernel writes its tables through the
    tables of the boot loader; `t` is their physical address.

    `phy2virt` and `kernel2phy` convert addresses by the offset of the window alone, as if all of
    it were the identity map.
-/

namespace Modern05

open Memory PageTable

/-! ## Layout -/

/-- `&t.pdpt[i]` -/
def pdpt_addr (t i : Nat) : Nat := t + 4096 + 8 * i

/-- `&t.pdt[i]` -/
def pdt_addr (t i : Nat) : Nat := t + 8192 + 8 * i

/-- `&t.pt[i]`, behind a number of page directories. -/
def window_pt_addr (dirs t i : Nat) : Nat := t + 8192 + 4096 * dirs + 8 * i

def sizeof_KernelImagePageTable (dirs : Nat) : Nat := 8192 + 4096 * dirs + 8 * KERNEL_SPACE_PAGES

/-! ## The builders -/

/-- `e.p = 1; e.rw = 1; e.base_addr = f;` -/
def kernel_fields (f : Nat) : List (Nat → Nat) := [set_bit 0, set_bit 1, set_frame f]

/-- The same for a page that is not cached, `e.pcd = 1`. -/
def uncached_fields (f : Nat) : List (Nat → Nat) := [set_bit 0, set_bit 1, set_frame f, set_bit 4]

/-- The boot loader, with the table that the firmware has left in `cr3`. -/
def setup_kernel_image_page_table (mem : Bytes) (t cr3 kernelPhyStart : Nat) : Bytes :=
  let mem := clear mem t (sizeof_KernelImagePageTable 1)
  let mem := store64 mem t (load64 mem cr3)
  let mem := assign_all mem (t + 8 * 256) (kernel_fields (pdpt_addr t 0 / 2 ^ 12))
  let mem := assign_all mem (pdpt_addr t 0) (kernel_fields (pdt_addr t 0 / 2 ^ 12))
  let mem := fill_fields mem (pdt_addr t 0)
    (fun i => kernel_fields (window_pt_addr 1 t (PAGES_PER_TABLE * i) / 2 ^ 12)) PAGES_PER_TABLE
  let mem := fill_fields mem (window_pt_addr 1 t 0) kernel_fields KERNEL_SPACE_PAGES
  fill_fields mem (window_pt_addr 1 t 0) (fun i => kernel_fields (kernelPhyStart / 4096 + i))
    KERNEL_IMAGE_PAGES

/-- The kernel. -/
def setup_page_table_in_kernel_space (mem : Bytes) (t kernel_start_phy : Nat) : Bytes :=
  let mem := clear mem t (sizeof_KernelImagePageTable 4)
  let mem := assign_all mem (t + 8 * 256) (kernel_fields (pdpt_addr t 0 / 2 ^ 12))
  let mem := fill_fields mem (pdpt_addr t 0)
    (fun i => kernel_fields (pdt_addr t (i * PAGES_PER_TABLE) / 2 ^ 12)) PAGES_PER_TABLE
  let mem := fill_fields mem (pdt_addr t 0)
    (fun i => kernel_fields (window_pt_addr 4 t (i * PAGES_PER_TABLE) / 2 ^ 12))
    (KERNEL_SPACE_PAGES / PAGES_PER_TABLE)
  -- kernel identity mapping
  let mem := fill_fields mem (window_pt_addr 4 t 0) uncached_fields KERNEL_SPACE_PAGES
  -- kernel image
  fill_fields mem (window_pt_addr 4 t 0) (fun i => kernel_fields (kernel_start_phy / 2 ^ 12 + i))
    KERNEL_IMAGE_PAGES

/-- The physical address of `KERNEL_START + o`. -/
def window_translate (mem : Bytes) (t o : Nat) : Option Nat :=
  (walk mem 4 (t / 4096) ((KERNEL_START + o) / 4096 % 2 ^ 36)).map
    (fun f => f * 4096 + (KERNEL_START + o) % 4096)

/-! ## Walks -/

/-- Tables with a number of directories, in which the virtual page `i` of the window is the
    physical page `page i`. -/
structure Window (dirs : Nat) (mem : Bytes) (t : Nat) (page : Nat → Nat) : Prop where
  pml4t : Refers mem (t + 8 * 256) (t / 4096 + 1)
  pdpt : ∀ i < dirs, Refers mem (pdpt_addr t i) (t / 4096 + 2 + i)
  pdt : ∀ i < 512 * dirs, Refers mem (pdt_addr t i) (t / 4096 + 2 + dirs + i)
  pt : ∀ i < 512 * (512 * dirs), Present (load64 mem (window_pt_addr dirs t i)) ∧
    frame (load64 mem (window_pt_addr dirs t i)) = page i

variable {dirs t : Nat} {mem : Bytes} {page : Nat → Nat}

/-- **A walk in the window reads `pt`.** -/
theorem walk_window (h : Window dirs mem t page) (haligned : t % 4096 = 0) (hdirs : dirs ≤ 512)
    {i : Nat} (hi : i < 512 * (512 * dirs)) :
    walk mem 4 (t / 4096) (2 ^ 35 + i) = some (page i) := by
  have htop : entry_addr 3 (t / 4096) (2 ^ 35 + i) = t + 8 * 256 := by
    unfold entry_addr
    omega
  have hsecond : entry_addr 2 (t / 4096 + 1) (2 ^ 35 + i) = pdpt_addr t (i / 2 ^ 18) := by
    unfold entry_addr pdpt_addr
    omega
  have hthird : entry_addr 1 (t / 4096 + 2 + i / 2 ^ 18) (2 ^ 35 + i) = pdt_addr t (i / 512) := by
    unfold entry_addr pdt_addr
    omega
  have hlast : entry_addr 0 (t / 4096 + 2 + dirs + i / 512) (2 ^ 35 + i) =
      window_pt_addr dirs t i := by
    unfold entry_addr window_pt_addr
    omega
  obtain ⟨hpresent, hframe⟩ := h.pt i hi
  rw [walk_of_refers htop h.pml4t, walk_of_refers hsecond (h.pdpt _ (by omega)),
    walk_of_refers hthird (h.pdt _ (by omega)), walk_one hlast, if_pos hpresent, hframe]

theorem window_translate_eq (h : Window dirs mem t page) (haligned : t % 4096 = 0)
    (hdirs : dirs ≤ 512) {o : Nat} (ho : o < 2 ^ 30 * dirs) :
    window_translate mem t o = some (page (o / 4096) * 4096 + o % 4096) := by
  have hpage : (KERNEL_START + o) / 4096 % 2 ^ 36 = 2 ^ 35 + o / 4096 := by
    unfold KERNEL_START
    omega
  have hoffset : (KERNEL_START + o) % 4096 = o % 4096 := by
    unfold KERNEL_START
    omega
  rw [window_translate, hpage, hoffset, walk_window h haligned hdirs (by omega)]
  rfl

/-- The window depends on the bytes of its tables alone. -/
theorem Window.congr (h : Window dirs mem t page) (hdirs : dirs ≤ 4) {mem' : Bytes}
    (hsame : ∀ a ∈ Set.Ico t (t + sizeof_KernelImagePageTable dirs), mem' a = mem a) :
    Window dirs mem' t page := by
  have hsize : sizeof_KernelImagePageTable dirs = 8192 + 4096 * dirs + 8388608 := rfl
  have hload : ∀ a, t ≤ a → a + 8 ≤ t + sizeof_KernelImagePageTable dirs →
      load64 mem' a = load64 mem a := by
    intro a hlow hhigh
    apply load64_congr
    rintro x ⟨hax, hxa⟩
    exact hsame x ⟨by omega, by omega⟩
  refine ⟨h.pml4t.congr (hload _ (by omega) (by omega)), fun i hi => ?_, fun i hi => ?_,
    fun i hi => ?_⟩
  · have haddr : pdpt_addr t i = t + 4096 + 8 * i := rfl
    exact (h.pdpt i hi).congr (hload _ (by omega) (by omega))
  · have haddr : pdt_addr t i = t + 8192 + 8 * i := rfl
    exact (h.pdt i hi).congr (hload _ (by omega) (by omega))
  · have haddr : window_pt_addr dirs t i = t + 8192 + 4096 * dirs + 8 * i := rfl
    rw [hload _ (by omega) (by omega)]
    exact h.pt i hi

/-! ## Entries of the kernel -/

/-- An entry after the assignments of `kernel_fields`. -/
def kernel_entry (f e : Nat) : Nat := set_frame f (set_bit 1 (set_bit 0 e))

section

variable {f : Nat}

-- the folds are rewritten step by step: unfolding them would compare large powers of two
theorem foldl_kernel_fields (f e : Nat) :
    (kernel_fields f).foldl (fun e g => g e) e = kernel_entry f e := by
  rw [kernel_fields, kernel_entry, List.foldl_cons, List.foldl_cons, List.foldl_cons,
    List.foldl_nil]

theorem foldl_uncached_fields (f e : Nat) :
    (uncached_fields f).foldl (fun e g => g e) e = set_bit 4 (kernel_entry f e) := by
  rw [uncached_fields, kernel_entry, List.foldl_cons, List.foldl_cons, List.foldl_cons,
    List.foldl_cons, List.foldl_nil]

theorem fields_uncached_fields (f : Nat) : Fields (uncached_fields f) := by
  intro g hg
  simp only [uncached_fields, List.mem_cons, List.not_mem_nil, or_false] at hg
  rcases hg with rfl | rfl | rfl | rfl
  · exact fun _ => set_bit_lt (by decide)
  · exact fun _ => set_bit_lt (by decide)
  · exact fun _ => set_frame_lt
  · exact fun _ => set_bit_lt (by decide)

theorem fields_kernel_fields (f : Nat) : Fields (kernel_fields f) := by
  intro g hg
  apply fields_uncached_fields f g
  simp only [kernel_fields, uncached_fields, List.mem_cons, List.not_mem_nil, or_false] at hg ⊢
  rcases hg with h | h | h
  · exact .inl h
  · exact .inr (.inl h)
  · exact .inr (.inr (.inl h))

theorem kernel_entry_present (f e : Nat) : Present (kernel_entry f e) := by
  unfold Present kernel_entry set_frame set_bit
  omega

theorem frame_kernel_entry (e : Nat) (hf : f < 2 ^ 40) : frame (kernel_entry f e) = f := by
  unfold frame kernel_entry set_frame set_bit
  omega

theorem refers_of_kernel_entry {a : Nat} (hf : f < 2 ^ 40)
    (h : load64 mem a = kernel_entry f 0) : Refers mem a f := by
  have hsmall : ¬ Large (kernel_entry f 0) := by
    unfold Large kernel_entry set_frame set_bit
    omega
  exact ⟨h ▸ kernel_entry_present f 0, h ▸ hsmall, h ▸ frame_kernel_entry 0 hf⟩

/-- An entry of a table that was zero before it was filled. -/
theorem refers_of_filled {m : Bytes} {a i n : Nat} {g : Nat → Nat} (hi : i < n)
    (hg : g i < 2 ^ 40) (hzero : load64 m (a + 8 * i) = 0)
    (hload : load64 mem (a + 8 * i) =
      load64 (fill_fields m a (fun i => kernel_fields (g i)) n) (a + 8 * i)) :
    Refers mem (a + 8 * i) (g i) := by
  rw [load64_fill_fields m a (fun i => kernel_fields (g i)) (fields_kernel_fields _) hi,
    foldl_kernel_fields, hzero] at hload
  exact refers_of_kernel_entry hg hload

/-- Not caching a page does not change where it is. -/
theorem set_bit_four (e : Nat) :
    (Present (set_bit 4 e) ↔ Present e) ∧ frame (set_bit 4 e) = frame e := by
  unfold Present frame set_bit
  omega

end

/-! ## The two passes over `pt` -/

/-- The physical page of a page of the window, with the kernel image at the page `k`. -/
def window_page (k i : Nat) : Nat := if i < KERNEL_IMAGE_PAGES then k + i else i

/-- Entries that refer to their own number. -/
def Identity (gs : Nat → List (Nat → Nat)) : Prop :=
  ∀ i < KERNEL_SPACE_PAGES, Fields (gs i) ∧ ∀ e,
    Present ((gs i).foldl (fun e g => g e) e) ∧ frame ((gs i).foldl (fun e g => g e) e) = i

theorem identity_kernel_fields : Identity kernel_fields := by
  intro i hi
  unfold KERNEL_SPACE_PAGES at hi
  refine ⟨fields_kernel_fields i, fun e => ?_⟩
  rw [foldl_kernel_fields]
  exact ⟨kernel_entry_present i e, frame_kernel_entry e (by omega)⟩

theorem identity_uncached_fields : Identity uncached_fields := by
  intro i hi
  unfold KERNEL_SPACE_PAGES at hi
  refine ⟨fields_uncached_fields i, fun e => ?_⟩
  obtain ⟨hpresent, hframe⟩ := set_bit_four (kernel_entry i e)
  rw [foldl_uncached_fields, hpresent, hframe]
  exact ⟨kernel_entry_present i e, frame_kernel_entry e (by omega)⟩

/-- The identity first, and then the image over its first pages. -/
theorem pt_passes {gs : Nat → List (Nat → Nat)} (hgs : Identity gs) {k : Nat}
    (hk : k + KERNEL_IMAGE_PAGES ≤ 2 ^ 40) (m : Bytes) (a : Nat) {m' : Bytes}
    (hm' : m' = fill_fields (fill_fields m a gs KERNEL_SPACE_PAGES) a
      (fun i => kernel_fields (k + i)) KERNEL_IMAGE_PAGES) {i : Nat} (hi : i < KERNEL_SPACE_PAGES) :
    Present (load64 m' (a + 8 * i)) ∧ frame (load64 m' (a + 8 * i)) = window_page k i := by
  obtain ⟨hfields, hidentity⟩ := hgs i hi
  unfold window_page
  by_cases himage : i < KERNEL_IMAGE_PAGES
  · have hload := load64_fill_fields (fill_fields m a gs KERNEL_SPACE_PAGES) a
      (fun i => kernel_fields (k + i)) (fields_kernel_fields (k + i)) himage
    rw [foldl_kernel_fields] at hload
    rw [hm', hload, if_pos himage]
    exact ⟨kernel_entry_present _ _, frame_kernel_entry _ (by omega)⟩
  · -- the second pass ends before this entry
    have hload := (changesOnly_fill_fields (fill_fields m a gs KERNEL_SPACE_PAGES) a
      (fun i => kernel_fields (k + i)) KERNEL_IMAGE_PAGES).load64_outside (b := a + 8 * i)
      (by omega)
    rw [hm', hload, load64_fill_fields m a gs hfields hi, if_neg himage]
    exact hidentity _

theorem changesOnly_pt_passes (m : Bytes) (a : Nat) (gs gs' : Nat → List (Nat → Nat)) :
    ChangesOnly (Set.Ico a (a + 8 * KERNEL_SPACE_PAGES)) m
      (fill_fields (fill_fields m a gs KERNEL_SPACE_PAGES) a gs' KERNEL_IMAGE_PAGES) := by
  have himage : Set.Ico a (a + 8 * KERNEL_IMAGE_PAGES) ⊆ Set.Ico a (a + 8 * KERNEL_SPACE_PAGES) :=
    Set.Ico_subset_Ico_right (by unfold KERNEL_IMAGE_PAGES KERNEL_SPACE_PAGES; omega)
  exact (changesOnly_fill_fields m a gs _).trans
    ((changesOnly_fill_fields _ a gs' _).mono himage)

/-! ## Stages -/

/-- The memory after each stage of a builder. It starts from a structure that is zero but for the
    first entry of `pml4t`; the first `n` entries of `pdpt` are set. -/
structure Stages (dirs n t k : Nat) (gs : Nat → List (Nat → Nat)) (m₀ m₁ m₂ m₃ m₄ : Bytes) :
    Prop where
  zero : ∀ a, t + 8 ≤ a → a + 8 ≤ t + sizeof_KernelImagePageTable dirs → load64 m₀ a = 0
  pml4t : m₁ = assign_all m₀ (t + 8 * 256) (kernel_fields (pdpt_addr t 0 / 2 ^ 12))
  pdpt : m₂ = fill_fields m₁ (pdpt_addr t 0)
    (fun i => kernel_fields (pdt_addr t (i * 512) / 2 ^ 12)) n
  pdt : m₃ = fill_fields m₂ (pdt_addr t 0)
    (fun i => kernel_fields (window_pt_addr dirs t (i * 512) / 2 ^ 12)) (512 * dirs)
  pt : m₄ = fill_fields (fill_fields m₃ (window_pt_addr dirs t 0) gs KERNEL_SPACE_PAGES)
    (window_pt_addr dirs t 0) (fun i => kernel_fields (k + i)) KERNEL_IMAGE_PAGES

namespace Stages

variable {n k : Nat} {gs : Nat → List (Nat → Nat)} {m₀ m₁ m₂ m₃ m₄ : Bytes}

/-! What each stage changes. -/

theorem changes_pml4t (h : Stages dirs n t k gs m₀ m₁ m₂ m₃ m₄) :
    ChangesOnly (Set.Ico (t + 2048) (t + 2048 + 8)) m₀ m₁ :=
  h.pml4t ▸ changesOnly_assign_all m₀ (t + 8 * 256) _

theorem changes_pdpt (h : Stages dirs n t k gs m₀ m₁ m₂ m₃ m₄) :
    ChangesOnly (Set.Ico (t + 4096) (t + 4096 + 8 * n)) m₁ m₂ :=
  h.pdpt ▸ changesOnly_fill_fields m₁ (pdpt_addr t 0) _ n

theorem changes_pdt (h : Stages dirs n t k gs m₀ m₁ m₂ m₃ m₄) :
    ChangesOnly (Set.Ico (t + 8192) (t + 8192 + 8 * (512 * dirs))) m₂ m₃ :=
  h.pdt ▸ changesOnly_fill_fields m₂ (pdt_addr t 0) _ (512 * dirs)

theorem changes_pt (h : Stages dirs n t k gs m₀ m₁ m₂ m₃ m₄) :
    ChangesOnly (Set.Ico (t + 8192 + 4096 * dirs)
      (t + 8192 + 4096 * dirs + 8 * KERNEL_SPACE_PAGES)) m₃ m₄ :=
  h.pt ▸ changesOnly_pt_passes m₃ (window_pt_addr dirs t 0) gs _

/-- An entry of `pdpt` refers to the page that many pages behind the first directory, whether or
    not there is a directory. -/
theorem refers_pdpt (h : Stages dirs n t k gs m₀ m₁ m₂ m₃ m₄) (hn : n ≤ 512)
    (haligned : t % 4096 = 0) (hbound : t + sizeof_KernelImagePageTable dirs ≤ 2 ^ 52) {i : Nat}
    (hi : i < n) : Refers m₄ (pdpt_addr t i) (t / 4096 + 2 + i) := by
  have hsize : sizeof_KernelImagePageTable dirs = 8192 + 4096 * dirs + 8388608 := rfl
  have hframe : pdt_addr t (i * 512) / 2 ^ 12 = t / 4096 + 2 + i := by
    unfold pdt_addr
    omega
  have hword : pdpt_addr t 0 + 8 * i = t + 4096 + 8 * i := rfl
  rw [← hframe]
  refine refers_of_filled (m := m₁) (a := pdpt_addr t 0) (n := n)
    (g := fun i => pdt_addr t (i * 512) / 2 ^ 12) hi (by omega) ?_ ?_
  · rw [h.changes_pml4t.load64_outside (by omega), h.zero _ (by omega) (by omega)]
  · rw [h.changes_pt.load64_outside (by omega), h.changes_pdt.load64_outside (by omega), h.pdpt]

end Stages

/-- **Both builders make a window** when they set at least the entries of `pdpt` for the
    directories. -/
theorem window_of_stages {gs : Nat → List (Nat → Nat)} (hgs : Identity gs) {k n : Nat}
    (haligned : t % 4096 = 0) (hbound : t + sizeof_KernelImagePageTable dirs ≤ 2 ^ 52)
    (hk : k + KERNEL_IMAGE_PAGES ≤ 2 ^ 40) (hdirs : dirs ≤ 4) (hn : dirs ≤ n) (hn' : n ≤ 512)
    {m₀ m₁ m₂ m₃ m₄ : Bytes} (h : Stages dirs n t k gs m₀ m₁ m₂ m₃ m₄) :
    Window dirs m₄ t (window_page k) := by
  have hsize : sizeof_KernelImagePageTable dirs = 8192 + 4096 * dirs + 8388608 := rfl
  have hspace : KERNEL_SPACE_PAGES = 1048576 := rfl
  have hpt : window_pt_addr dirs t 0 = t + 8192 + 4096 * dirs := rfl
  refine ⟨?_, fun i hi => h.refers_pdpt hn' haligned hbound (by omega), ?_, ?_⟩
  · have hentry : load64 m₄ (t + 2048) = kernel_entry (pdpt_addr t 0 / 2 ^ 12) 0 := by
      rw [h.changes_pt.load64_outside (by omega), h.changes_pdt.load64_outside (by omega),
        h.changes_pdpt.load64_outside (by omega), h.pml4t]
      show load64 (assign_all m₀ (t + 2048) _) (t + 2048) = _
      rw [load64_assign_all _ _ (fields_kernel_fields _), foldl_kernel_fields,
        h.zero _ (by omega) (by omega)]
    have hframe : pdpt_addr t 0 / 2 ^ 12 = t / 4096 + 1 := by
      unfold pdpt_addr
      omega
    rw [hframe] at hentry
    exact refers_of_kernel_entry (by omega) hentry
  · intro i hi
    have hframe : window_pt_addr dirs t (i * 512) / 2 ^ 12 = t / 4096 + 2 + dirs + i := by
      unfold window_pt_addr
      omega
    have hword : pdt_addr t 0 + 8 * i = t + 8192 + 8 * i := rfl
    rw [← hframe]
    refine refers_of_filled (m := m₂) (a := pdt_addr t 0) (n := 512 * dirs)
      (g := fun i => window_pt_addr dirs t (i * 512) / 2 ^ 12) hi (by omega) ?_ ?_
    · rw [h.changes_pdpt.load64_outside (by omega), h.changes_pml4t.load64_outside (by omega),
        h.zero _ (by omega) (by omega)]
    · rw [h.changes_pt.load64_outside (by omega), h.pdt]
  · intro i hi
    exact pt_passes hgs hk m₃ (window_pt_addr dirs t 0) h.pt (by omega)

/-- The stages of the kernel. It sets all entries of `pdpt`. -/
theorem stages_kernel (mem : Bytes) (t k : Nat) :
    ∃ m₀ m₁ m₂ m₃, Stages 4 PAGES_PER_TABLE t (k / 2 ^ 12) uncached_fields m₀ m₁ m₂ m₃
      (setup_page_table_in_kernel_space mem t k) ∧
      ∀ a, t ≤ a → a + 8 ≤ t + sizeof_KernelImagePageTable 4 → load64 m₀ a = 0 := by
  refine ⟨_, _, _, _, ⟨fun a hlow hhigh => ?_, rfl, rfl, rfl, rfl⟩, fun a hlow hhigh => ?_⟩
  · exact load64_clear (by omega) hhigh
  · exact load64_clear hlow hhigh

theorem window_kernel (mem : Bytes) {k : Nat} (haligned : t % 4096 = 0)
    (hbound : t + sizeof_KernelImagePageTable 4 ≤ 2 ^ 52)
    (hk : k / 2 ^ 12 + KERNEL_IMAGE_PAGES ≤ 2 ^ 40) :
    Window 4 (setup_page_table_in_kernel_space mem t k) t (window_page (k / 2 ^ 12)) := by
  obtain ⟨m₀, m₁, m₂, m₃, hstages, -⟩ := stages_kernel mem t k
  exact window_of_stages identity_uncached_fields haligned hbound hk (by decide) (by decide)
    (by decide) hstages

/-- The entry that is copied from the table of the firmware is not part of the window. -/
theorem window_boot (mem : Bytes) (cr3 : Nat) {k : Nat} (haligned : t % 4096 = 0)
    (hbound : t + sizeof_KernelImagePageTable 1 ≤ 2 ^ 52)
    (hk : k / 2 ^ 12 + KERNEL_IMAGE_PAGES ≤ 2 ^ 40) :
    Window 1 (setup_kernel_image_page_table mem t cr3 k) t (window_page (k / 2 ^ 12)) := by
  let m := clear mem t (sizeof_KernelImagePageTable 1)
  have hfirst : ChangesOnly (Set.Ico t (t + 8)) m (store64 m t (load64 m cr3)) :=
    .overwrite _ (Set.Subset.refl _)
  have hcomm : (fun i => kernel_fields (window_pt_addr 1 t (PAGES_PER_TABLE * i) / 2 ^ 12)) =
      fun i => kernel_fields (window_pt_addr 1 t (i * 512) / 2 ^ 12) := by
    funext i
    rw [Nat.mul_comm]
    rfl
  unfold setup_kernel_image_page_table
  rw [hcomm]
  refine window_of_stages identity_kernel_fields haligned hbound hk (by decide) (n := 1) (by decide)
    (by decide) ⟨fun a hlow hhigh => ?_, rfl, rfl, rfl, rfl⟩
  rw [hfirst.load64_outside (by omega)]
  exact load64_clear (by omega) hhigh

/-- The kernel writes nothing but its own tables. -/
theorem changesOnly_setup_page_table_in_kernel_space (mem : Bytes) (t k : Nat) :
    ChangesOnly (Set.Ico t (t + sizeof_KernelImagePageTable 4)) mem
      (setup_page_table_in_kernel_space mem t k) := by
  have hsize : sizeof_KernelImagePageTable 4 = 8413184 := rfl
  have hspace : KERNEL_SPACE_PAGES = 1048576 := rfl
  have hper_table : PAGES_PER_TABLE = 512 := rfl
  have hdirs : KERNEL_SPACE_PAGES / PAGES_PER_TABLE = 2048 := rfl
  have hpdpt : pdpt_addr t 0 = t + 4096 := rfl
  have hpdt : pdt_addr t 0 = t + 8192 := rfl
  have hpt : window_pt_addr 4 t 0 = t + 8192 + 4096 * 4 := rfl
  have hwithin : ∀ {a n}, t ≤ a → a + n ≤ t + sizeof_KernelImagePageTable 4 →
      Set.Ico a (a + n) ⊆ Set.Ico t (t + sizeof_KernelImagePageTable 4) :=
    fun hlow hhigh => Set.Ico_subset_Ico hlow hhigh
  have h₀ : ChangesOnly (Set.Ico t (t + sizeof_KernelImagePageTable 4)) mem
      (clear mem t (sizeof_KernelImagePageTable 4)) := .overwrite _ (Set.Subset.refl _)
  have h₁ := fun m gs => (changesOnly_assign_all m (t + 8 * 256) gs).mono
    (hwithin (by omega) (by omega))
  have h₂ := fun m gs => (changesOnly_fill_fields m (pdpt_addr t 0) gs PAGES_PER_TABLE).mono
    (hwithin (by omega) (by omega))
  have h₃ := fun m gs => (changesOnly_fill_fields m (pdt_addr t 0) gs
    (KERNEL_SPACE_PAGES / PAGES_PER_TABLE)).mono (hwithin (by omega) (by omega))
  have h₄ := fun m gs gs' => (changesOnly_pt_passes m (window_pt_addr 4 t 0) gs gs').mono
    (hwithin (by omega) (by omega))
  exact h₀.trans ((h₁ _ _).trans ((h₂ _ _).trans ((h₃ _ _).trans (h₄ _ _ _))))

/-! ## The switch of `cr3` -/

theorem window_page_addr {k o : Nat} (haligned : k % 4096 = 0) :
    window_page (k / 2 ^ 12) (o / 4096) * 4096 + o % 4096 =
      if o < KERNEL_IMAGE_PAGES * PAGE_SIZE then k + o else o := by
  unfold window_page KERNEL_IMAGE_PAGES PAGE_SIZE
  split <;> split <;> omega

/-- **The kernel window.** With the kernel image at `k` and the tables of the kernel at the
    offset `t` of the image, the window is the image followed by the identity map. In the first
    GiB the tables of the boot loader say the same, and they still do so when the kernel has
    built its own, unless it was given an image on top of them. -/
theorem kernel_window_agrees_with_boot (mem mem_boot : Bytes) (k t t_boot cr3 : Nat)
    (hkernel : k % PAGE_SIZE = 0 ∧ k < 2 ^ 51)
    (htables : t % PAGE_SIZE = 0 ∧
      t + sizeof_KernelImagePageTable 4 ≤ KERNEL_IMAGE_PAGES * PAGE_SIZE)
    (hboot : t_boot % PAGE_SIZE = 0 ∧ t_boot + sizeof_KernelImagePageTable 1 ≤ 2 ^ 52) :
    let boot := setup_kernel_image_page_table mem_boot t_boot cr3 k
    let kernel := setup_page_table_in_kernel_space mem (k + t) k
    (∀ o < KERNEL_SPACE_PAGES * PAGE_SIZE, window_translate kernel (k + t) o =
      some (if o < KERNEL_IMAGE_PAGES * PAGE_SIZE then k + o else o)) ∧
    (∀ o < 2 ^ 30, window_translate boot t_boot o = window_translate kernel (k + t) o) ∧
    ((∀ a ∈ Set.Ico t_boot (t_boot + sizeof_KernelImagePageTable 1), mem a = boot a) →
      Disjoint (Set.Ico (k + t) (k + t + sizeof_KernelImagePageTable 4))
        (Set.Ico t_boot (t_boot + sizeof_KernelImagePageTable 1)) →
      ∀ o < 2 ^ 30, window_translate kernel t_boot o = window_translate kernel (k + t) o) := by
  intro boot kernel
  obtain ⟨hk, hk51⟩ := hkernel
  obtain ⟨ht, hinside⟩ := htables
  obtain ⟨htb, hbound⟩ := hboot
  have himage : KERNEL_IMAGE_PAGES = 16384 := rfl
  have hspace : KERNEL_SPACE_PAGES = 1048576 := rfl
  have hpage : PAGE_SIZE = 4096 := rfl
  have hsize : sizeof_KernelImagePageTable 4 = 8413184 := rfl
  rw [hpage] at hk ht htb hinside
  have haligned : (k + t) % 4096 = 0 := by omega
  have hkernel : Window 4 kernel (k + t) (window_page (k / 2 ^ 12)) :=
    window_kernel mem haligned (by omega) (by omega)
  have hboot : Window 1 boot t_boot (window_page (k / 2 ^ 12)) :=
    window_boot mem_boot cr3 htb hbound (by omega)
  have hagree : ∀ {m : Bytes}, Window 1 m t_boot (window_page (k / 2 ^ 12)) → ∀ o < 2 ^ 30,
      window_translate m t_boot o = window_translate kernel (k + t) o := by
    intro m hm o ho
    rw [window_translate_eq hm htb (by decide) (by omega),
      window_translate_eq hkernel haligned (by decide) (by omega)]
  refine ⟨fun o ho => ?_, hagree hboot, fun hintact hdisjoint => hagree ?_⟩
  · rw [hspace, hpage] at ho
    rw [window_translate_eq hkernel haligned (by decide) (by omega), window_page_addr hk]
  · -- the tables of the boot loader are as it has left them
    refine hboot.congr (by decide) (fun a ha => ?_)
    rw [← hintact a ha]
    exact changesOnly_setup_page_table_in_kernel_space mem (k + t) k a
      (Set.disjoint_right.mp hdisjoint ha)

/-- The boot loader leaves its tables at 128 MiB and loads the kernel at 16 MiB, with its tables
    2 MiB behind the start. -/
theorem kernel_at_16M_agrees_with_boot :
    let boot := setup_kernel_image_page_table (fun _ => 0) 0x8000000 0 0x1000000
    let kernel := setup_page_table_in_kernel_space boot (0x1000000 + 0x200000) 0x1000000
    window_translate kernel (0x1000000 + 0x200000) 0x3ffffff = some 0x4ffffff ∧
    window_translate kernel (0x1000000 + 0x200000) 0xfee00000 = some 0xfee00000 ∧
    window_translate kernel 0x8000000 0x3ffffff =
      window_translate kernel (0x1000000 + 0x200000) 0x3ffffff := by
  intro boot kernel
  obtain ⟨hwindow, -, hswitch⟩ := kernel_window_agrees_with_boot boot (fun _ => 0)
    0x1000000 0x200000 0x8000000 0 (by decide) (by decide) (by decide)
  refine ⟨hwindow 0x3ffffff (by decide), hwindow 0xfee00000 (by decide), ?_⟩
  apply hswitch (fun _ _ => rfl)
  · rw [Set.Ico_disjoint_Ico]
    decide
  · decide

/-! ## Conversions of addresses -/

def kernel2phy (kernel_addr : Nat) : Nat := u64_sub kernel_addr KERNEL_START

def phy2virt (phy : Nat) : Except Fault Nat :=
  if phy < IDENTITY_MAP_PHY_END then .ok ((phy + KERNEL_START) % 2 ^ 64)
  else .error (.assertion "")

/-- The physical address of a virtual one, by the tables at `t`. -/
def virt_translate (mem : Bytes) (t v : Nat) : Option Nat :=
  (walk mem 4 (t / 4096) (v / 4096 % 2 ^ 36)).map (fun f => f * 4096 + v % 4096)

/-- The image with the tables in it is in the reach of page tables. -/
theorem image_in_reach {k : Nat}
    (hkernel : k % PAGE_SIZE = 0 ∧ k + KERNEL_IMAGE_PAGES * PAGE_SIZE ≤ 2 ^ 52)
    (htables : t % PAGE_SIZE = 0 ∧
      t + sizeof_KernelImagePageTable 4 ≤ KERNEL_IMAGE_PAGES * PAGE_SIZE) :
    (k + t) % 4096 = 0 ∧ k + t + sizeof_KernelImagePageTable 4 ≤ 2 ^ 52 ∧
    k / 2 ^ 12 + KERNEL_IMAGE_PAGES ≤ 2 ^ 40 := by
  obtain ⟨hkpage, hkbound⟩ := hkernel
  obtain ⟨htpage, htbound⟩ := htables
  have hpages : KERNEL_IMAGE_PAGES = 16384 := rfl
  have hpage : PAGE_SIZE = 4096 := rfl
  rw [hpage] at hkpage hkbound htpage htbound
  omega

theorem phy2virt_eq {p v : Nat} (h : phy2virt p = .ok v) :
    p < IDENTITY_MAP_PHY_END ∧ v = KERNEL_START + p := by
  have hend : IDENTITY_MAP_PHY_END = 2 ^ 32 := rfl
  have hstart : KERNEL_START = 2 ^ 64 - 2 ^ 47 := rfl
  unfold phy2virt at h
  split at h
  · next hp =>
    have hv := Except.ok.inj h
    exact ⟨hp, by omega⟩
  · cases h

/-- **The conversions against the page tables.** The two are inverse to each other. The tables map
    the converted address back exactly when it is in the identity map or the kernel is loaded at
    the address zero; below the identity map they lead to the kernel image. -/
theorem phy2virt_maps_back_iff (mem : Bytes) (k t p v : Nat)
    (hkernel : k % PAGE_SIZE = 0 ∧ k + KERNEL_IMAGE_PAGES * PAGE_SIZE ≤ 2 ^ 52)
    (htables : t % PAGE_SIZE = 0 ∧
      t + sizeof_KernelImagePageTable 4 ≤ KERNEL_IMAGE_PAGES * PAGE_SIZE)
    (hv : phy2virt p = .ok v) :
    kernel2phy v = p ∧
    (virt_translate (setup_page_table_in_kernel_space mem (k + t) k) (k + t) v = some p ↔
      IDENTITY_MAP_PHY_START ≤ p ∨ k = 0) := by
  obtain ⟨hp, rfl⟩ := phy2virt_eq hv
  obtain ⟨haligned, hbound, hpages⟩ := image_in_reach hkernel htables
  have hend : IDENTITY_MAP_PHY_END = 2 ^ 32 := rfl
  constructor
  · have hstart : KERNEL_START = 2 ^ 64 - 2 ^ 47 := rfl
    rw [kernel2phy, u64_sub_of_le (Nat.le_add_right _ _) (by omega), Nat.add_sub_cancel_left]
  · have htranslate : virt_translate (setup_page_table_in_kernel_space mem (k + t) k) (k + t)
        (KERNEL_START + p) = some (if p < KERNEL_IMAGE_PAGES * PAGE_SIZE then k + p else p) := by
      rw [← window_page_addr hkernel.1]
      exact window_translate_eq (window_kernel mem haligned hbound hpages) haligned (by decide)
        (by omega)
    have hlow : IDENTITY_MAP_PHY_START = KERNEL_IMAGE_PAGES * PAGE_SIZE := rfl
    rw [htranslate, ← hlow, Option.some.injEq]
    split <;> omega

/-- A table of a device in the last page below 4 GiB is found, with the kernel at 16 MiB. -/
theorem last_page_maps_back :
    virt_translate (setup_page_table_in_kernel_space (fun _ => 0) (0x1000000 + 0x200000) 0x1000000)
      (0x1000000 + 0x200000) (KERNEL_START + 0xfffff000) = some 0xfffff000 :=
  (phy2virt_maps_back_iff (fun _ => 0) 0x1000000 0x200000 0xfffff000 (KERNEL_START + 0xfffff000)
    (by decide) (by decide) rfl).2.mpr (.inl (by decide))

/-- One that the firmware has left at 1 MiB is not: the address leads into the kernel image. -/
theorem low_address_maps_to_image :
    phy2virt 0x100000 = .ok (KERNEL_START + 0x100000) ∧
    virt_translate (setup_page_table_in_kernel_space (fun _ => 0) 0x1200000 0x1000000) 0x1200000
      (KERNEL_START + 0x100000) = some 0x1100000 := by
  refine ⟨rfl, ?_⟩
  have hwindow := window_kernel (fun _ => 0) (t := 0x1200000) (k := 0x1000000) (by decide)
    (by decide) (by decide)
  exact window_translate_eq hwindow (o := 0x100000) (by decide) (by decide) (by decide)

end Modern05
