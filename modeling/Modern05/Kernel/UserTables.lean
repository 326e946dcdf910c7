import Modern05.Kernel.Process

/-! # The page tables of a process

    What the constructor of `Process` and `map_user_addr` leave in memory. The upper
    three tables refer to each other and to the 512 last-level tables behind them, which
    are one array of entries, `pt`.

    * `walk_user`: in the user half, a walk reads this array and nothing else.
    * `init_tables_spec`: the constructor builds such tables, with an empty array.
    * `MapsInto.map_user_addr`: mapping adds the pages it was given and no others.
-/

namespace Modern05

open Memory PageTable

variable {mem mem' : Bytes} {pts vpage : Nat} {S : Set Nat}

/-- The upper tables of a process, up to the half that belongs to the kernel. -/
structure UserTables (mem : Bytes) (pts : Nat) : Prop where
  pml4t : Refers mem pts (pts / 4096 + 1)
  pml4t_rest : ∀ i, 0 < i → i < 256 → ¬ Present (load64 mem (pts + 8 * i))
  pdpt : Refers mem (pts + 4096) (pts / 4096 + 2)
  pdpt_rest : ∀ i, 0 < i → i < 512 → ¬ Present (load64 mem (pts + 4096 + 8 * i))
  pdt : ∀ i < 512, Refers mem (pts + 8192 + 8 * i) (pts / 4096 + 3 + i)

/-! ## Walks -/

/-- The four entries for a user page. -/
theorem user_entry_addrs (haligned : pts % 4096 = 0) (hv : vpage < PROCESS_MAX_USER_PAGES) :
    entry_addr 3 (pts / 4096) vpage = pts ∧
    entry_addr 2 (pts / 4096 + 1) vpage = pts + 4096 ∧
    entry_addr 1 (pts / 4096 + 2) vpage = pts + 8192 + 8 * (vpage / 512) ∧
    entry_addr 0 (pts / 4096 + 3 + vpage / 512) vpage = pt_addr pts vpage := by
  unfold PROCESS_MAX_USER_PAGES at hv
  unfold entry_addr pt_addr PAGE_SIZE
  omega

/-- **A walk in the user half reads `pt`.** -/
theorem walk_user (haligned : pts % 4096 = 0) (ht : UserTables mem pts)
    (hv : vpage < PROCESS_MAX_USER_PAGES) : walk mem 4 (pts / 4096) vpage =
      if Present (load64 mem (pt_addr pts vpage)) then
        some (frame (load64 mem (pt_addr pts vpage))) else none := by
  obtain ⟨htop, hsecond, hthird, hlast⟩ := user_entry_addrs haligned hv
  have hpdt := ht.pdt (vpage / 512) (by unfold PROCESS_MAX_USER_PAGES at hv; omega)
  rw [walk_of_refers htop ht.pml4t, walk_of_refers hsecond ht.pdpt, walk_of_refers hthird hpdt,
    walk_one hlast]

/-- Behind the last-level tables nothing is mapped. -/
theorem walk_user_none (haligned : pts % 4096 = 0) (ht : UserTables mem pts)
    (hlow : PROCESS_MAX_USER_PAGES ≤ vpage) (hhigh : vpage < 2 ^ 35) :
    walk mem 4 (pts / 4096) vpage = none := by
  unfold PROCESS_MAX_USER_PAGES at hlow
  have htop : entry_addr 3 (pts / 4096) vpage = pts + 8 * (vpage / 2 ^ 27) := by
    unfold entry_addr
    omega
  by_cases hzero : vpage / 2 ^ 27 = 0
  · -- The first entry of the top table, but another one than the first of the second.
    have hsecond : entry_addr 2 (pts / 4096 + 1) vpage = pts + 4096 + 8 * (vpage / 2 ^ 18) := by
      unfold entry_addr
      omega
    have hrest := ht.pdpt_rest (vpage / 2 ^ 18) (by omega) (by omega)
    rw [hzero] at htop
    rw [walk_of_refers htop ht.pml4t, walk_of_absent hsecond hrest]
  · have hrest := ht.pml4t_rest (vpage / 2 ^ 27) (by omega) (by omega)
    rw [walk_of_absent htop hrest]

/-! ## The array `pt` -/

/-- Every page the array maps meets `G`. -/
def MapsInto (mem : Bytes) (pts : Nat) (G : Nat → Prop) : Prop :=
  ∀ vpage < PROCESS_MAX_USER_PAGES, Present (load64 mem (pt_addr pts vpage)) →
    G (frame (load64 mem (pt_addr pts vpage)))

variable {G G' : Nat → Prop}

theorem MapsInto.mono (h : MapsInto mem pts G) (hG : ∀ f, G f → G' f) : MapsInto mem pts G' :=
  fun vpage hv hp => hG _ (h vpage hv hp)

/-- The pages that a walk in the user half finds are those of the array. -/
theorem MapsInto.of_walk (h : MapsInto mem pts G) (haligned : pts % 4096 = 0)
    (ht : UserTables mem pts) (hv : vpage < 2 ^ 35) {f : Nat}
    (hwalk : walk mem 4 (pts / 4096) vpage = some f) : G f := by
  by_cases hlow : vpage < PROCESS_MAX_USER_PAGES
  · rw [walk_user haligned ht hlow] at hwalk
    split at hwalk
    · rename_i hp
      cases hwalk
      exact h vpage hlow hp
    · cases hwalk
  · rw [walk_user_none haligned ht (by omega) hv] at hwalk
    cases hwalk

/-! ## Frames -/

/-- The bytes of the tables. -/
def table_bytes (pts : Nat) : Set Nat := Set.Ico pts (pts + sizeof_PageTabletSructures)

theorem sizeof_PageTabletSructures_eq : sizeof_PageTabletSructures = 2109440 := rfl

/-- An entry of the tables lies in their bytes. -/
theorem entry_subset_tables {a : Nat} (hlow : pts ≤ a) (hhigh : a + 8 ≤ pts + 2109440) :
    Set.Ico a (a + 8) ⊆ table_bytes pts := by
  unfold table_bytes
  rw [sizeof_PageTabletSructures_eq]
  exact Set.Ico_subset_Ico hlow hhigh

/-- The upper three tables come first. -/
theorem upper_subset_tables : Set.Ico pts (pts + 12288) ⊆ table_bytes pts := by
  unfold table_bytes
  rw [sizeof_PageTabletSructures_eq]
  exact Set.Ico_subset_Ico_right (by omega)

/-- The upper tables do not change when no byte of them does. -/
theorem UserTables.congr (ht : UserTables mem pts) (hm : ChangesOnly S mem mem')
    (hS : Disjoint S (Set.Ico pts (pts + 12288))) : UserTables mem' pts := by
  have hload : ∀ a, pts ≤ a → a + 8 ≤ pts + 12288 → load64 mem' a = load64 mem a :=
    fun a hlow hhigh => hm.load64 (hS.mono_right (Set.Ico_subset_Ico hlow hhigh))
  refine ⟨?_, ?_, ?_, ?_, ?_⟩
  · exact ht.pml4t.congr (hload _ (by omega) (by omega))
  · intro i hpos hi
    rw [hload _ (by omega) (by omega)]
    exact ht.pml4t_rest i hpos hi
  · exact ht.pdpt.congr (hload _ (by omega) (by omega))
  · intro i hpos hi
    rw [hload _ (by omega) (by omega)]
    exact ht.pdpt_rest i hpos hi
  · intro i hi
    exact (ht.pdt i hi).congr (hload _ (by omega) (by omega))

/-- A walk does not change when the tables up to the entry it ends at do not. -/
theorem walk_user_congr (haligned : pts % 4096 = 0) (ht : UserTables mem pts)
    (hv : vpage < PROCESS_MAX_USER_PAGES) (hm : ChangesOnly S mem mem')
    (hS : Disjoint S (Set.Ico pts (pt_addr pts vpage + 8))) :
    walk mem' 4 (pts / 4096) vpage = walk mem 4 (pts / 4096) vpage := by
  have haddr : pt_addr pts vpage = pts + 12288 + 8 * vpage := rfl
  have hupper : UserTables mem' pts :=
    ht.congr hm (hS.mono_right (Set.Ico_subset_Ico_right (by omega)))
  have hentry : load64 mem' (pt_addr pts vpage) = load64 mem (pt_addr pts vpage) :=
    hm.load64 (hS.mono_right (Set.Ico_subset_Ico_left (by omega)))
  rw [walk_user haligned hupper hv, walk_user haligned ht hv, hentry]

/-- A walk in the user half does not change when the tables do not. -/
theorem walk_user_frame (haligned : pts % 4096 = 0) (ht : UserTables mem pts)
    (hm : ChangesOnly S mem mem') (hS : Disjoint S (table_bytes pts)) (hv : vpage < 2 ^ 35) :
    walk mem' 4 (pts / 4096) vpage = walk mem 4 (pts / 4096) vpage := by
  by_cases hlow : vpage < PROCESS_MAX_USER_PAGES
  · apply walk_user_congr haligned ht hlow hm
    apply hS.mono_right
    unfold PROCESS_MAX_USER_PAGES at hlow
    unfold table_bytes
    rw [sizeof_PageTabletSructures_eq]
    apply Set.Ico_subset_Ico_right
    unfold pt_addr PAGE_SIZE
    omega
  · have ht' : UserTables mem' pts := ht.congr hm (hS.mono_right upper_subset_tables)
    rw [walk_user_none haligned ht' (by omega) hv, walk_user_none haligned ht (by omega) hv]

theorem MapsInto.congr (h : MapsInto mem pts G) (hm : ChangesOnly S mem mem')
    (hS : Disjoint S (table_bytes pts)) : MapsInto mem' pts G := by
  intro vpage hv
  have hentry : Set.Ico (pt_addr pts vpage) (pt_addr pts vpage + 8) ⊆ table_bytes pts := by
    unfold PROCESS_MAX_USER_PAGES at hv
    apply entry_subset_tables <;> unfold pt_addr PAGE_SIZE <;> omega
  rw [hm.load64 (hS.mono_right hentry)]
  exact h vpage hv

/-! ## Mapping -/

variable {vaddr paddr n : Nat}

theorem changesOnly_map_user_addr (mem : Bytes) (pts vaddr paddr n : Nat) :
    ChangesOnly (Set.Ico (pt_addr pts (vaddr / 2 ^ 12)) (pt_addr pts (vaddr / 2 ^ 12) + 8 * n))
      mem (map_user_addr mem pts vaddr paddr n) :=
  changesOnly_fill_entries _ _ _ n

/-- The entries of the range get the new pages. -/
theorem load64_map_user_addr {i : Nat} (hi : i < n) :
    load64 (map_user_addr mem pts vaddr paddr n) (pt_addr pts (vaddr / 2 ^ 12 + i)) =
      user_entry (paddr / 2 ^ 12 + i) (load64 mem (pt_addr pts (vaddr / 2 ^ 12 + i))) := by
  have haddr : pt_addr pts (vaddr / 2 ^ 12 + i) = pt_addr pts (vaddr / 2 ^ 12) + 8 * i := by
    unfold pt_addr
    omega
  rw [haddr]
  exact load64_fill_entries mem _ _ hi

/-- The other entries stay. -/
theorem load64_map_user_addr_of_notMem
    (hv : vpage < vaddr / 2 ^ 12 ∨ vaddr / 2 ^ 12 + n ≤ vpage) :
    load64 (map_user_addr mem pts vaddr paddr n) (pt_addr pts vpage) =
      load64 mem (pt_addr pts vpage) := by
  apply (changesOnly_map_user_addr mem pts vaddr paddr n).load64_outside
  unfold pt_addr
  omega

/-- **Mapping adds the pages it was given and no others.** -/
theorem MapsInto.map_user_addr (h : MapsInto mem pts G) (hbound : paddr / 2 ^ 12 + n ≤ 2 ^ 40)
    (hnew : ∀ i < n, G (paddr / 2 ^ 12 + i)) :
    MapsInto (map_user_addr mem pts vaddr paddr n) pts G := by
  intro vpage hv hp
  by_cases hin : vaddr / 2 ^ 12 ≤ vpage ∧ vpage < vaddr / 2 ^ 12 + n
  · have hi : vpage - vaddr / 2 ^ 12 < n := by omega
    have hentry : load64 (Modern05.map_user_addr mem pts vaddr paddr n)
        (pt_addr pts (vaddr / 2 ^ 12 + (vpage - vaddr / 2 ^ 12))) = _ := load64_map_user_addr hi
    rw [Nat.add_sub_cancel' hin.1] at hentry
    rw [hentry, frame_user_entry (by omega)]
    exact hnew _ hi
  · rw [load64_map_user_addr_of_notMem (by omega)] at hp ⊢
    exact h vpage hv hp

/-- Mapping does not touch the upper tables. -/
theorem UserTables.map_user_addr (ht : UserTables mem pts) :
    UserTables (map_user_addr mem pts vaddr paddr n) pts := by
  apply ht.congr (changesOnly_map_user_addr mem pts vaddr paddr n)
  rw [Set.Ico_disjoint_Ico]
  unfold pt_addr PAGE_SIZE
  omega

/-- Mapping pages below 1 GiB stays inside the tables. -/
theorem map_user_addr_subset (hv : vaddr / 2 ^ 12 + n ≤ PROCESS_MAX_USER_PAGES) :
    Set.Ico (pt_addr pts (vaddr / 2 ^ 12)) (pt_addr pts (vaddr / 2 ^ 12) + 8 * n) ⊆
      table_bytes pts := by
  unfold PROCESS_MAX_USER_PAGES at hv
  unfold table_bytes
  rw [sizeof_PageTabletSructures_eq]
  apply Set.Ico_subset_Ico <;> unfold pt_addr PAGE_SIZE <;> omega

/-! ## The constructor -/

/-- What the constructor leaves: upper tables that refer to each other, an array without
    entries, and all other memory as it was. -/
structure FreshTables (mem mem' : Bytes) (pts : Nat) : Prop where
  upper : UserTables mem' pts
  empty : ∀ vpage < PROCESS_MAX_USER_PAGES, load64 mem' (pt_addr pts vpage) = 0
  only : ChangesOnly (table_bytes pts) mem mem'

/-- The words of the tables after the constructor. -/
structure TableWords (mem mem' : Bytes) (pts : Nat) : Prop where
  pml4t : load64 mem' pts = user_entry (pts / 4096 + 1) 0
  /-- The tables of the kernel are present and writable, and not for the user. -/
  pml4t_kernel : ∃ f, load64 mem' (pts + 8 * 256) = set_frame f (set_bit 1 (set_bit 0 0))
  pml4t_rest : ∀ i, 0 < i → i < 512 → i ≠ 256 → load64 mem' (pts + 8 * i) = 0
  pdpt : load64 mem' (pts + 4096) = user_entry (pts / 4096 + 2) 0
  pdpt_rest : ∀ i, 0 < i → i < 512 → load64 mem' (pts + 4096 + 8 * i) = 0
  pdt : ∀ i < 512, load64 mem' (pts + 8192 + 8 * i) = user_entry (pts / 4096 + 3 + i) 0
  pt : ∀ vpage < PROCESS_MAX_USER_PAGES, load64 mem' (pt_addr pts vpage) = 0
  only : ChangesOnly (table_bytes pts) mem mem'

theorem init_tables_words (P : Platform) (mem : Bytes) (haligned : pts % 4096 = 0) :
    TableWords mem (init_tables P mem pts) pts := by
  have hsize := sizeof_PageTabletSructures_eq
  -- The memory after each of the stages, and what the stage changes.
  let kernel_entry := pts + 8 * 256
  let m₀ := clear mem pts sizeof_PageTabletSructures
  let m₁ := assign (assign (assign m₀ kernel_entry (set_bit 0)) kernel_entry (set_bit 1))
    kernel_entry (set_frame (P.kernel_pdpt_phy_addr / 2 ^ 12))
  let m₂ := set_user_entry m₁ pts ((pts + PAGE_SIZE) / 2 ^ 12)
  let m₃ := set_user_entry m₂ (pts + PAGE_SIZE) ((pts + 2 * PAGE_SIZE) / 2 ^ 12)
  let f := fun i => pt_addr pts (i * PAGES_PER_TABLE) / 2 ^ 12
  let m₄ := fill_entries m₃ (pts + 2 * PAGE_SIZE) f PAGES_PER_TABLE
  have hinit : init_tables P mem pts = m₄ := rfl
  have c₀ : ChangesOnly (table_bytes pts) mem m₀ := .overwrite _ (Set.Subset.refl _)
  have c₁ : ChangesOnly (Set.Ico (pts + 2048) (pts + 2048 + 8)) m₀ m₁ :=
    ((changesOnly_assign m₀ _ _).trans (changesOnly_assign _ _ _)).trans (changesOnly_assign _ _ _)
  have c₂ : ChangesOnly (Set.Ico pts (pts + 8)) m₁ m₂ := changesOnly_set_user_entry _ _ _
  have c₃ : ChangesOnly (Set.Ico (pts + 4096) (pts + 4096 + 8)) m₂ m₃ :=
    changesOnly_set_user_entry _ _ _
  have c₄ : ChangesOnly (Set.Ico (pts + 8192) (pts + 8192 + 4096)) m₃ m₄ :=
    changesOnly_fill_entries m₃ (pts + 2 * PAGE_SIZE) f PAGES_PER_TABLE
  have hzero : ∀ a, pts ≤ a → a + 8 ≤ pts + 2109440 → load64 m₀ a = 0 := by
    intro a hlow hhigh
    exact load64_clear hlow (by omega)
  -- An entry that no stage sets stays zero.
  have huntouched : ∀ a, pts + 8 ≤ a → a + 8 ≤ pts + 2109440 →
      (a + 8 ≤ pts + 2048 ∨ pts + 2048 + 8 ≤ a) → (a + 8 ≤ pts + 4096 ∨ pts + 4096 + 8 ≤ a) →
      (a + 8 ≤ pts + 8192 ∨ pts + 8192 + 4096 ≤ a) → load64 m₄ a = 0 := by
    intro a hlow hhigh hk hp hd
    rw [c₄.load64_outside (by omega), c₃.load64_outside (by omega), c₂.load64_outside (by omega),
      c₁.load64_outside (by omega), hzero a (by omega) hhigh]
  rw [hinit]
  refine ⟨?_, ⟨P.kernel_pdpt_phy_addr / 2 ^ 12, ?_⟩, ?_, ?_, ?_, ?_, ?_, ?_⟩
  · rw [c₄.load64_outside (by omega), c₃.load64_outside (by omega)]
    show load64 (set_user_entry m₁ pts _) pts = _
    rw [load64_set_user_entry, c₁.load64_outside (by omega), hzero pts (by omega) (by omega)]
    congr 1
    unfold PAGE_SIZE
    omega
  · rw [c₄.load64_outside (by omega), c₃.load64_outside (by omega), c₂.load64_outside (by omega)]
    show load64 (assign (assign (assign m₀ kernel_entry _) kernel_entry _) kernel_entry _)
      kernel_entry = _
    rw [load64_assign _ _ (fun _ => set_frame_lt),
      load64_assign _ _ (fun _ => set_bit_lt (by decide)),
      load64_assign _ _ (fun _ => set_bit_lt (by decide)), hzero _ (by omega) (by omega)]
  · intro i hpos hi hother
    exact huntouched _ (by omega) (by omega) (by omega) (by omega) (by omega)
  · rw [c₄.load64_outside (by omega)]
    show load64 (set_user_entry m₂ (pts + PAGE_SIZE) _) (pts + PAGE_SIZE) = _
    rw [load64_set_user_entry]
    show user_entry _ (load64 m₂ (pts + 4096)) = _
    rw [c₂.load64_outside (by omega), c₁.load64_outside (by omega), hzero _ (by omega) (by omega)]
    congr 1
    unfold PAGE_SIZE
    omega
  · intro i hpos hi
    exact huntouched _ (by omega) (by omega) (by omega) (by omega) (by omega)
  · intro i hi
    have hfill : load64 m₄ (pts + 8192 + 8 * i) =
        user_entry (f i) (load64 m₃ (pts + 8192 + 8 * i)) := load64_fill_entries m₃ _ f hi
    rw [hfill, c₃.load64_outside (by omega), c₂.load64_outside (by omega),
      c₁.load64_outside (by omega), hzero _ (by omega) (by omega)]
    congr 1
    show pt_addr pts (i * PAGES_PER_TABLE) / 2 ^ 12 = _
    unfold pt_addr PAGE_SIZE PAGES_PER_TABLE
    omega
  · intro vpage hv
    unfold PROCESS_MAX_USER_PAGES at hv
    apply huntouched <;> unfold pt_addr PAGE_SIZE <;> omega
  · have hsub : ∀ a n, pts ≤ a → a + n ≤ pts + 2109440 → Set.Ico a (a + n) ⊆ table_bytes pts := by
      intro a n hlow hhigh
      unfold table_bytes
      rw [hsize]
      exact Set.Ico_subset_Ico hlow hhigh
    exact (((c₀.trans (c₁.mono (hsub _ _ (by omega) (by omega)))).trans
      (c₂.mono (hsub _ _ (by omega) (by omega)))).trans
      (c₃.mono (hsub _ _ (by omega) (by omega)))).trans
      (c₄.mono (hsub _ _ (by omega) (by omega)))

/-- **The constructor builds the tables.** -/
theorem init_tables_spec (P : Platform) (mem : Bytes) (haligned : pts % 4096 = 0)
    (hbound : pts + sizeof_PageTabletSructures ≤ 2 ^ 52) :
    FreshTables mem (init_tables P mem pts) pts := by
  have hw := init_tables_words P mem haligned
  rw [sizeof_PageTabletSructures_eq] at hbound
  refine ⟨⟨?_, ?_, ?_, ?_, ?_⟩, hw.pt, hw.only⟩
  · exact refers_of_user_entry (by omega) hw.pml4t rfl
  · intro i hpos hi
    rw [hw.pml4t_rest i hpos (by omega) (by omega)]
    decide
  · exact refers_of_user_entry (by omega) hw.pdpt rfl
  · intro i hpos hi
    rw [hw.pdpt_rest i hpos hi]
    decide
  · intro i hi
    exact refers_of_user_entry (by omega) (hw.pdt i hi) rfl

end Modern05
