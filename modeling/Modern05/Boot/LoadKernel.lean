import Modern05.Elf.Format

/-! # Loading the kernel

    `LoadKernel` in `boot_loader.c`, which the boot loader calls with the file of the kernel in a
    buffer. The firmware maps every address to itself. The length of the file is an argument that
    it does not use.

    The loop is that of the user loader, with three differences: a segment goes to its offset in the
    area for the kernel, a segment that does not fit ends the call with a result of 0, and
    `p_memsz` bytes are copied out of the file where the user loader copies `p_filesz`.

    What is printed is left out where it reads nothing new; the bytes of a segment and of the entry
    point that are printed are read here as well. The fields of `efi_info` that are set and the
    memory map that is printed at the end are left out.

    * `kernel_writes_in_area_iff` says when nothing but the area is written.
    * `kernel_image_iff`: what is behind the data of a segment in the file takes the place of zeros,
      so that the image is right when there are zeros in the file.
-/

namespace Modern05

open Memory AddressSpace

/-! ## The call -/

/-- The addresses of the boot loader. -/
def efi_space : AddressSpace := ⟨fun _ v => some v⟩

section programs

variable {A : AddressSpace} {ε : Type}

/-- The bytes of a segment of 24 bytes are printed. Printing changes no memory, so that the fields
    that are read for each byte are read once. -/
def print_segment (buffer o : Nat) : Code A ε Unit := do
  let p_memsz ← load_field buffer (o + 40) 8
  if p_memsz = 0x18 then
    let p_offset ← load_field buffer (o + 8) 8
    let _ ← load_field buffer p_offset 0x18
    pure ()
  else pure ()

def load_kernel_segment (phyKernelStart kernel_max_size buffer : Nat) (x : Visit) : Code A ε Bool :=
  match x.segment with
  | none => pure true
  | some ph =>
    if ph.p_filesz ≤ ph.p_memsz then
      let section_offset := u64_sub ph.p_vaddr KERNEL_START
      if (section_offset + ph.p_memsz) % 2 ^ 64 > kernel_max_size then
        -- "kernel file size too big to fill in the allocated buffer"
        pure false
      else do
        AddressSpace.memcpy (phyKernelStart + section_offset) (buffer + ph.p_offset) ph.p_memsz
        print_segment buffer x.offset
        pure true
    else
      -- "Don't know how to load sections that has filesize > memsize"
      pure false

/-- The part of the call that uses the buffer, and whether it goes on to the end. -/
def load_kernel_file (phyKernelStart kernel_max_size buffer : Nat) : Code A ε (Bool × Loaded) := do
  let matches_magic ← magic_matches buffer ElfMagic
  if matches_magic then
    -- `efi_assert` prints a message if this is zero, and returns
    let _ ← load_field buffer 32 8
    let r ← load_segments buffer (load_kernel_segment phyKernelStart kernel_max_size buffer) 65536 0
    if r.1 then
      let entry ← load_field buffer 24 8
      pure (true, ⟨entry, r.2⟩)
    else pure (false, ⟨0, r.2⟩)
  else pure (false, ⟨0, []⟩)

def load_kernel (phyKernelStart kernel_max_size buffer _buffer_size : Nat) : Code A ε Loaded := do
  let r ← load_kernel_file phyKernelStart kernel_max_size buffer
  if r.1 then
    -- the first bytes of the kernel are printed
    let _ ← load_le (phyKernelStart + u64_sub r.2.entry KERNEL_START) 16
    pure r.2
  else pure r.2

end programs

/-! ## A call that succeeds -/

section returns

variable {A : AddressSpace} {ε : Type} {m m' : Bytes} {phyKernelStart kernel_max_size buffer : Nat}
  {size : Nat} {rs ws : List Nat}

/-- The ranges of the file that are read when a segment is printed. -/
def printed_ranges (f : Bytes) (o : Nat) : List (Nat × Nat) :=
  (o + 40, 8) :: if Memory.load_le f (o + 40) 8 = 0x18 then
    [(o + 8, 8), (Memory.load_le f (o + 8) 8, 0x18)] else []

theorem of_returns_print_segment {o : Nat} {u : Unit}
    (h : Returns (print_segment buffer o : Code A ε Unit) m u m' rs ws) :
    m' = m ∧ rs = (printed_ranges (file_at A m buffer) o).flatMap (range_addrs buffer) ∧
      ws = [] := by
  obtain ⟨rs₁, rfl, h₁⟩ := of_returns_load_field h
  unfold printed_ranges
  split at h₁
  · next hlen =>
    obtain ⟨rs₂, rfl, h₂⟩ := of_returns_load_field h₁
    obtain ⟨rs₃, rfl, h₃⟩ := of_returns_load_field h₂
    obtain ⟨-, rfl, rfl, rfl⟩ := h₃.of_pure
    rw [if_pos hlen]
    simp
  · next hlen =>
    obtain ⟨-, rfl, rfl, rfl⟩ := h₁.of_pure
    rw [if_neg hlen]
    simp

/-- The check for a segment that is copied. -/
def FitsArea (kernel_max_size : Nat) (ph : Elf64_Phdr) : Prop :=
  (u64_sub ph.p_vaddr KERNEL_START + ph.p_memsz) % 2 ^ 64 ≤ kernel_max_size

theorem of_returns_load_kernel_segment {x : Visit}
    (h : Returns (load_kernel_segment phyKernelStart kernel_max_size buffer x : Code A ε Bool) m
      true m' rs ws) :
    (∀ ph ∈ x.segment, FitsArea kernel_max_size ph) ∧
      rs = x.each (fun ph => addrs (buffer + ph.p_offset) ph.p_memsz ++
        (printed_ranges (file_at A m' buffer) x.offset).flatMap (range_addrs buffer)) ∧
      ws = x.each (fun ph =>
        addrs (phyKernelStart + u64_sub ph.p_vaddr KERNEL_START) ph.p_memsz) := by
  unfold load_kernel_segment at h
  unfold Visit.each
  cases hsegment : x.segment with
  | none =>
    rw [hsegment] at h
    obtain ⟨-, -, rfl, rfl⟩ := h.of_pure
    simp
  | some ph =>
    simp only [hsegment] at h
    -- of the three ways through the body only the copy goes on
    split_ifs at h with hfilesz hlarge
    · cases h.of_pure.1
    · obtain ⟨_, m₁, rs₁, ws₁, rs₂, ws₂, hcopy, h₁, rfl, rfl⟩ := h.of_bind
      obtain ⟨rfl, rfl⟩ := hcopy.of_memcpy
      obtain ⟨_, m₂, rs₃, ws₃, rs₄, ws₄, hprint, h₂, rfl, rfl⟩ := h₁.of_bind
      obtain ⟨rfl, rfl, rfl⟩ := of_returns_print_segment hprint
      obtain ⟨-, rfl, rfl, rfl⟩ := h₂.of_pure
      refine ⟨?_, by simp, by simp⟩
      rintro _ ⟨⟩
      exact Nat.not_lt.mp hlarge
    · cases h.of_pure.1

/-- The part that uses the buffer: it gives up, or the loop comes to its end. -/
theorem of_returns_load_kernel_file {r : Bool × Loaded}
    (h : Returns (load_kernel_file phyKernelStart kernel_max_size buffer :
      Code A ε (Bool × Loaded)) m r m' rs ws) :
    (r.1 = false ∧ r.2.entry = 0) ∨
    (r.1 = true ∧ ∃ rs₁, Returns (load_segments buffer
        (load_kernel_segment phyKernelStart kernel_max_size buffer) 65536 0 : Code A ε _) m
        (true, r.2.visits) m' rs₁ ws ∧
      ∀ Q : Nat → Prop, (∀ v ∈ rs, Q v) ↔
        (∀ range ∈ [(0, 4), (32, 8), (24, 8)], ∀ v ∈ range_addrs buffer range, Q v) ∧
          ∀ v ∈ rs₁, Q v) := by
  obtain ⟨matches_magic, m₁, rs₁, ws₁, rs₂, ws₂, hmagic, h₁, rfl, rfl⟩ := h.of_bind
  split at h₁
  · next htrue =>
    subst htrue
    obtain ⟨rfl, hmagic_reads, rfl⟩ := of_returns_magic_matches hmagic
    obtain rfl : rs₁ = range_addrs buffer (0, 4) := hmagic_reads
    obtain ⟨rs₃, rfl, h₂⟩ := of_returns_load_field h₁
    obtain ⟨⟨ok, xs⟩, m₄, rs₆, ws₆, rs₇, ws₇, hloop, h₄, rfl, rfl⟩ := h₂.of_bind
    cases ok with
    | true =>
      obtain ⟨rs₈, rfl, h₅⟩ := of_returns_load_field h₄
      obtain ⟨rfl, rfl, rfl, rfl⟩ := h₅.of_pure
      refine .inr ⟨rfl, rs₆, by simpa using hloop, fun Q => ?_⟩
      have hnil : ∀ v ∈ ([] : List Nat), Q v := List.forall_mem_nil Q
      simp only [List.forall_mem_append, List.forall_mem_cons]
      constructor
      · rintro ⟨hmagic, hphoff, hloop, hentry, -⟩
        exact ⟨⟨hmagic, hphoff, hentry, List.forall_mem_nil _⟩, hloop⟩
      · rintro ⟨⟨hmagic, hphoff, hentry, -⟩, hloop⟩
        exact ⟨hmagic, hphoff, hloop, hentry, hnil⟩
    | false =>
      obtain ⟨rfl, -, -, -⟩ := h₄.of_pure
      exact .inl ⟨rfl, rfl⟩
  · obtain ⟨rfl, -, -, -⟩ := h₁.of_pure
    exact .inl ⟨rfl, rfl⟩

/-- **A call that returns an entry point**: all segments have passed the check, and what was
    written. -/
theorem of_returns_load_kernel {r : Loaded} (hentry : r.entry ≠ 0)
    (h : Returns (load_kernel phyKernelStart kernel_max_size buffer size : Code A ε Loaded) m r m'
      rs ws) :
    (∀ x ∈ r.visits, x.Bounded ∧ ∀ ph ∈ x.segment, FitsArea kernel_max_size ph) ∧
    ws = r.visits.flatMap (fun x => x.each (fun ph =>
      addrs (phyKernelStart + u64_sub ph.p_vaddr KERNEL_START) ph.p_memsz)) := by
  obtain ⟨file, m₁, rs₁, ws₁, rs₂, ws₂, hfile, h₁, rfl, rfl⟩ := h.of_bind
  obtain ⟨hfalse, hzero⟩ | ⟨htrue, rs₃, hloop, -⟩ := of_returns_load_kernel_file hfile
  · rw [hfalse] at h₁
    obtain ⟨rfl, -, -, -⟩ := h₁.of_pure
    exact absurd hzero hentry
  · rw [htrue] at h₁
    obtain ⟨rs₄, rfl, h₂⟩ := Returns.of_load_le_bind h₁
    obtain ⟨rfl, -, -, rfl⟩ := h₂.of_pure
    obtain ⟨hvisits, rfl⟩ := writes_of_load_segments (fun x _ _ _ _ hbody =>
      ⟨(of_returns_load_kernel_segment hbody).1, (of_returns_load_kernel_segment hbody).2.2⟩) hloop
    exact ⟨hvisits, List.append_nil _⟩

end returns

/-! ## Where the segments are written -/

/-- The call of the boot loader. -/
def boot_load (phyKernelStart kernel_max_size buffer buffer_size : Nat) :
    Code efi_space Empty Loaded :=
  load_kernel phyKernelStart kernel_max_size buffer buffer_size

/-- **When nothing but the area for the kernel is written**: exactly when for no segment the sum in
    the check wraps. -/
theorem kernel_writes_in_area_iff
    (phyKernelStart kernel_max_size buffer buffer_size : Nat) (mem mem' : Bytes) (r : Loaded)
    (hmax : kernel_max_size < 2 ^ 64) (harea : phyKernelStart + kernel_max_size ≤ 2 ^ 64)
    (hret : (boot_load phyKernelStart kernel_max_size buffer buffer_size).run mem = (.ok r, mem'))
    (hentry : r.entry ≠ 0) :
    (∀ v ∈ writes (boot_load phyKernelStart kernel_max_size buffer buffer_size) mem,
      v ∈ Set.Ico phyKernelStart (phyKernelStart + kernel_max_size)) ↔
    ∀ x ∈ r.visits, ∀ ph ∈ x.segment,
      u64_sub ph.p_vaddr KERNEL_START + ph.p_memsz < 2 ^ 64 := by
  obtain ⟨hvisits, hwrites⟩ := of_returns_load_kernel hentry (returns_of_run hret)
  rw [boot_load, hwrites, List.forall_mem_flatMap]
  refine forall₂_congr fun x hx => ?_
  rw [Visit.forall_mem_each]
  refine forall₂_congr fun ph hph => ?_
  obtain ⟨hbounded, hfits⟩ := hvisits x hx
  have hpos := hbounded.p_memsz ph hph
  have hcheck := hfits ph hph
  have hoffset : u64_sub ph.p_vaddr KERNEL_START < 2 ^ 64 := Nat.mod_lt _ (by decide)
  unfold FitsArea at hcheck
  rw [addrs_in_window_iff hmax harea, Nat.mod_eq_of_lt hoffset]
  -- the check has passed for the sum modulo 2^64, and what is asked for is the sum
  constructor
  · omega
  · intro hwrap
    rw [Nat.mod_eq_of_lt hwrap] at hcheck
    exact .inr hcheck

/-- The file in memory in the examples, and the area for the kernel behind it. -/
def boot_memory (file : List UInt8) : Bytes := copy (fun _ => 0) 0x1000 file

/-- Two bytes at the start of the kernel. -/
def first_segment : Elf64_Phdr := ⟨120, KERNEL_START, 1, 2⟩

theorem first_segment_in_area : ∃ r mem', (boot_load 0x200000 0x10000 0x1000 122).run
      (boot_memory (one_segment_file KERNEL_START first_segment [0xaa, 0])) = (.ok r, mem') ∧
    ∀ v ∈ writes (boot_load 0x200000 0x10000 0x1000 122)
        (boot_memory (one_segment_file KERNEL_START first_segment [0xaa, 0])),
      v ∈ Set.Ico 0x200000 (0x200000 + 0x10000) := by
  have hrun : ((boot_load 0x200000 0x10000 0x1000 122).run (boot_memory
      (one_segment_file KERNEL_START first_segment [0xaa, 0]))).1.toOption =
        some ⟨KERNEL_START, [⟨64, PT_LOAD, some first_segment⟩]⟩ := by decide +kernel
  refine ⟨_, _, run_of_toOption hrun, (kernel_writes_in_area_iff _ _ _ _ _ _ _ (by decide)
    (by decide) (run_of_toOption hrun) (by decide)).mpr ?_⟩
  simp only [List.mem_singleton, forall_eq, Option.mem_some_iff]
  rintro _ rfl
  decide

/-- A segment that starts one byte below the kernel. -/
def low_segment : Elf64_Phdr := ⟨120, KERNEL_START - 1, 2, 2⟩

theorem low_segment_outside : ∃ mem r mem',
    (boot_load 0x200000 0x10000 0x1000 122).run mem = (.ok r, mem') ∧ r.entry ≠ 0 ∧
    0x1fffff ∈ writes (boot_load 0x200000 0x10000 0x1000 122) mem ∧
    0x1fffff ∉ Set.Ico 0x200000 (0x200000 + 0x10000) := by
  have hrun : ((boot_load 0x200000 0x10000 0x1000 122).run (boot_memory
      (one_segment_file KERNEL_START low_segment [0xaa, 0xbb]))).1.toOption =
        some ⟨KERNEL_START, [⟨64, PT_LOAD, some low_segment⟩]⟩ := by decide +kernel
  refine ⟨_, _, _, run_of_toOption hrun, by decide, by decide +kernel, ?_⟩
  rw [Set.mem_Ico]
  decide

/-! ## The image of the kernel -/

def kernel_area (phyKernelStart kernel_max_size : Nat) : Set Nat :=
  Set.Ico phyKernelStart (phyKernelStart + kernel_max_size)

/-- The file of a kernel that fits the area, in a memory where the file is not in the area. -/
structure KernelFile (mem f : Bytes) (phyKernelStart kernel_max_size buffer size : Nat) : Prop where
  size_lt : size < 2 ^ 64
  max_lt : kernel_max_size < 2 ^ 64
  area_le : phyKernelStart + kernel_max_size ≤ 2 ^ 64
  buffer_le : buffer + size ≤ 2 ^ 64
  well_formed : WellFormed f size
  window : SegmentsIn f KERNEL_START (KERNEL_START + kernel_max_size)
  file : ∀ o < size, mem (buffer + o) = f o
  apart : Disjoint (kernel_area phyKernelStart kernel_max_size)
    (Set.Ico buffer (buffer + size))

/-- What the call is to do: the image of each segment, and no access to the buffer behind the
    file. -/
structure KernelImage (mem mem' f : Bytes) (phyKernelStart kernel_max_size buffer size : Nat) :
    Prop where
  image : ∀ ph ∈ segments f,
    Image mem' (phyKernelStart + (ph.p_vaddr - KERNEL_START)) f ph
  reads : ∀ v ∈ AddressSpace.reads (load_kernel_file phyKernelStart kernel_max_size buffer :
    Code efi_space Empty (Bool × Loaded)) mem, v ∈ Set.Ico buffer (buffer + size)

theorem efi_mapped (m : Bytes) (v : Nat) : efi_space.Mapped m v := rfl

theorem efi_fixed (S V : Set Nat) (m : Bytes) : efi_space.Fixed S V m := fun _ _ _ _ => rfl

theorem run_print_segment {A : AddressSpace} {ε : Type} (hmapped : ∀ m v, A.Mapped m v) (m : Bytes)
    (buffer o : Nat) : (print_segment buffer o : Code A ε Unit).run m = (.ok (), m) := by
  have hranges : ∀ r, RangeMapped A m buffer r := fun r i _ => hmapped m _
  rw [print_segment, run_load_field _ (hranges (o + 40, 8))]
  split
  · rw [run_load_field _ (hranges (o + 8, 8)), run_load_field _ (hranges (_, 0x18))]
    rfl
  · rfl

section image

variable {mem m m' f : Bytes} {phyKernelStart kernel_max_size buffer size i k : Nat}
  {ph : Elf64_Phdr} {ε : Type}

/-- The file stays as it is. -/
theorem KernelFile.kept (h : KernelFile mem f phyKernelStart kernel_max_size buffer size)
    (hm : ChangesOnly (kernel_area phyKernelStart kernel_max_size) mem m)
    {o : Nat} (ho : o < size) :
    efi_space.Kept (kernel_area phyKernelStart kernel_max_size) Set.univ m
      (buffer + o) ∧ efi_space.view m (buffer + o) = f o := by
  have hbuffer := h.buffer_le
  have hmod : (buffer + o) % 2 ^ 64 = buffer + o := Nat.mod_eq_of_lt (by omega)
  have hout : buffer + o ∉ kernel_area phyKernelStart kernel_max_size :=
    Set.disjoint_right.mp h.apart ⟨by omega, by omega⟩
  refine ⟨⟨trivial, buffer + o, congrArg some hmod, hout⟩, ?_⟩
  show m ((buffer + o) % 2 ^ 64) = f o
  rw [hmod, hm _ hout, h.file o ho]

theorem KernelFile.holds (h : KernelFile mem f phyKernelStart kernel_max_size buffer size)
    (hm : ChangesOnly (kernel_area phyKernelStart kernel_max_size) mem m) :
    Holds efi_space m buffer f size :=
  fun _ ho => ⟨efi_mapped m _, (h.kept hm ho).2⟩

/-- The place of a segment in the area, as the call computes it. -/
theorem KernelFile.place (h : KernelFile mem f phyKernelStart kernel_max_size buffer size)
    (hph : ph ∈ segments f) :
    u64_sub ph.p_vaddr KERNEL_START = ph.p_vaddr - KERNEL_START ∧
      ph.p_vaddr - KERNEL_START + ph.p_memsz ≤ kernel_max_size := by
  obtain ⟨j, -, hsegment⟩ := mem_segments.mp hph
  obtain ⟨hlow, hhigh⟩ := h.window.inside ph hph
  exact ⟨u64_sub_of_le hlow ((visit_bounded f j).p_vaddr ph hsegment), by omega⟩

/-- The addresses that a segment is copied to. -/
theorem KernelFile.target (h : KernelFile mem f phyKernelStart kernel_max_size buffer size)
    (hph : ph ∈ segments f) (hk : k < ph.p_memsz) :
    (phyKernelStart + u64_sub ph.p_vaddr KERNEL_START + k) % 2 ^ 64 =
      phyKernelStart + (ph.p_vaddr - KERNEL_START) + k := by
  obtain ⟨hoffset, hfits⟩ := h.place hph
  have harea := h.area_le
  rw [hoffset, Nat.mod_eq_of_lt (by omega)]

/-- **A segment is copied**, whatever is behind the file, and the bytes of the file are in their
    places. -/
theorem KernelFile.run_copy (h : KernelFile mem f phyKernelStart kernel_max_size buffer size)
    (hm : ChangesOnly (kernel_area phyKernelStart kernel_max_size) mem m)
    (hph : ph ∈ segments f) :
    ∃ m', (AddressSpace.memcpy (phyKernelStart + u64_sub ph.p_vaddr KERNEL_START)
        (buffer + ph.p_offset) ph.p_memsz : Code efi_space ε Unit).run m = (.ok (), m') ∧
      ChangesOnly (Set.Ico (phyKernelStart + (ph.p_vaddr - KERNEL_START))
        (phyKernelStart + (ph.p_vaddr - KERNEL_START) + ph.p_memsz)) m m' ∧
      ∀ k < ph.p_memsz, ph.p_offset + k < size →
        m' (phyKernelStart + (ph.p_vaddr - KERNEL_START) + k) = f (ph.p_offset + k) := by
  obtain ⟨-, hfits⟩ := h.place hph
  have hplace : Set.Ico (phyKernelStart + (ph.p_vaddr - KERNEL_START))
      (phyKernelStart + (ph.p_vaddr - KERNEL_START) + ph.p_memsz) ⊆
        kernel_area phyKernelStart kernel_max_size := Set.Ico_subset_Ico (by omega) (by omega)
  obtain ⟨m', hrun, honly, hdata⟩ := run_memcpy_of_mapped (ε := ε) (efi_mapped m)
    (efi_fixed _ _ m) (fun k hk => congrArg some (h.target hph hk))
  refine ⟨m', hrun, honly, fun k hk ho => ?_⟩
  -- the byte comes from the file, which is not where the segment goes
  obtain ⟨⟨-, a, ha, hout⟩, hview⟩ := h.kept hm ho
  rw [hdata k hk ⟨trivial, a, Nat.add_assoc _ _ k ▸ ha, fun hmem => hout (hplace hmem)⟩,
    Nat.add_assoc, hview]

/-- The bytes of the file are in the places of the segments before the header `i`. -/
def InPlace (f : Bytes) (phyKernelStart size i : Nat) (m : Bytes) : Prop :=
  ∀ ph ∈ segments_below f i, ∀ k < ph.p_memsz, ph.p_offset + k < size →
    m (phyKernelStart + (ph.p_vaddr - KERNEL_START) + k) = f (ph.p_offset + k)

/-- **One round of the loop.** -/
theorem KernelFile.run_body (h : KernelFile mem f phyKernelStart kernel_max_size buffer size)
    (hi : i < e_phnum f)
    (hm : ChangesOnly (kernel_area phyKernelStart kernel_max_size) mem m) :
    ∃ m', (load_kernel_segment phyKernelStart kernel_max_size buffer (visit f i) :
        Code efi_space ε Bool).run m = (.ok true, m') ∧
      ChangesOnly (kernel_area phyKernelStart kernel_max_size) mem m' ∧
      (InPlace f phyKernelStart size i m → InPlace f phyKernelStart size (i + 1) m') := by
  have hbelow := segments_below_succ f i
  unfold load_kernel_segment
  cases hsegment : (visit f i).segment with
  | none =>
    rw [hsegment, Option.toList_none, List.append_nil] at hbelow
    refine ⟨m, rfl, hm, fun hplace => ?_⟩
    rw [InPlace, hbelow]
    exact hplace
  | some ph =>
    rw [hsegment, Option.toList_some] at hbelow
    have hph : ph ∈ segments f := mem_segments.mpr ⟨i, hi, hsegment⟩
    have hfilesz := h.well_formed.filesz ph hph
    have hmax := h.max_lt
    obtain ⟨hoffset, hfits⟩ := h.place hph
    have hcheck : ¬ (u64_sub ph.p_vaddr KERNEL_START + ph.p_memsz) % 2 ^ 64 > kernel_max_size := by
      rw [hoffset, Nat.mod_eq_of_lt (by omega)]
      omega
    obtain ⟨m', hcopy, honly, hdata⟩ := h.run_copy (ε := ε) hm hph
    refine ⟨m', ?_, hm.trans (honly.mono (Set.Ico_subset_Ico (by omega) (by omega))), ?_⟩
    · simp only [if_pos hfilesz, if_neg hcheck]
      rw [Prog.run_bind_ok hcopy, Prog.run_bind_ok (run_print_segment efi_mapped m' _ _)]
      rfl
    · intro hplace ph' hph' k hk ho
      by_cases hsame : ph' = ph
      · subst hsame
        exact hdata k hk ho
      · -- the others are where this one does not go
        have hbefore : ph' ∈ segments_below f i := by
          rw [hbelow] at hph'
          exact (List.mem_append.mp hph').resolve_right fun hlast =>
            hsame (List.mem_singleton.mp hlast)
        rw [honly _ (h.window.place_notMem (segments_below_subset hi.le hbefore) hph hsame hk)]
        exact hplace ph' hbefore k hk ho

/-- The memory when the loop comes to the header `i`. -/
structure KernelLoaded (mem f : Bytes) (phyKernelStart kernel_max_size size i : Nat) (m : Bytes) :
    Prop where
  only : ChangesOnly (kernel_area phyKernelStart kernel_max_size) mem m
  data : InPlace f phyKernelStart size i m

/-- **The call succeeds.** -/
theorem KernelFile.run (h : KernelFile mem f phyKernelStart kernel_max_size buffer size) :
    ∃ m', (load_kernel_file phyKernelStart kernel_max_size buffer :
        Code efi_space ε (Bool × Loaded)).run mem =
          (.ok (true, ⟨e_entry f, (List.range' 0 (e_phnum f)).map (visit f)⟩), m') ∧
      KernelLoaded mem f phyKernelStart kernel_max_size size (e_phnum f) m' := by
  have hheader := h.well_formed.header
  have hcount : e_phnum f < 2 ^ 16 := load_le_lt f 56 2
  have hstart := h.holds (.refl _ mem)
  have hmagic := hstart.run_magic_matches (ε := ε) h.well_formed
  have hphoff : InFile size (32, 8) := h.well_formed.in_header (by decide)
  have hentry : InFile size (24, 8) := h.well_formed.in_header (by decide)
  have hbody : ∀ i < e_phnum f, ∀ m, KernelLoaded mem f phyKernelStart kernel_max_size size i m →
      ∃ m', (load_kernel_segment phyKernelStart kernel_max_size buffer (visit f i) :
        Code efi_space ε Bool).run m = (.ok true, m') ∧
          KernelLoaded mem f phyKernelStart kernel_max_size size (i + 1) m' := by
    intro i hi m hm
    obtain ⟨m', hrun, honly, hplace⟩ := h.run_body hi hm.only
    exact ⟨m', hrun, honly, hplace hm.data⟩
  -- the invariant of the loop: the segments that were visited are in place, the file is unchanged
  have hinit : KernelLoaded mem f phyKernelStart kernel_max_size size 0 mem := ⟨.refl _ mem, nofun⟩
  obtain ⟨m', hloop, hm'⟩ := run_load_segments (by omega) (fun i _ m hm => h.holds hm.only)
    (fun i hi => h.well_formed.ranges h.size_lt hi) hbody hinit (Nat.zero_le _) (n := 65536)
    (by omega)
  refine ⟨m', ?_, hm'⟩
  rw [load_kernel_file, Prog.run_bind_ok hmagic, if_pos rfl, hstart.run_load_field _ hphoff,
    Prog.run_bind_ok hloop]
  exact (h.holds hm'.only).run_load_field _ hentry

/-- No segment is copied from behind the file. -/
def CopiesFile (f : Bytes) (size : Nat) : Prop :=
  ∀ ph ∈ segments f, ph.p_offset + ph.p_memsz ≤ size

/-- What is read in a round, apart from the header. -/
theorem KernelFile.reads_round_iff
    (h : KernelFile mem f phyKernelStart kernel_max_size buffer size) (hi : i < e_phnum f) :
    (∀ v ∈ (visit f i).each (fun ph => addrs (buffer + ph.p_offset) ph.p_memsz ++
        (printed_ranges f (visit f i).offset).flatMap (range_addrs buffer)),
      v ∈ Set.Ico buffer (buffer + size)) ↔
    ∀ ph ∈ (visit f i).segment, ph.p_offset + ph.p_memsz ≤ size := by
  rw [Visit.forall_mem_each]
  refine forall₂_congr fun ph hph => ?_
  have hranges := h.well_formed.ranges h.size_lt hi
  obtain ⟨hpos, hoffset, -, hmemsz, htype⟩ := visit_segment hph
  have hlt := (visit_bounded f i).p_offset ph hph
  obtain ⟨hfield₁, hfield₂⟩ := Visit.mem_ranges hph htype
  have hfile : ∀ r, InFile size r →
      ∀ v ∈ range_addrs buffer r, v ∈ Set.Ico buffer (buffer + size) := fun r hr =>
    hr.range_addrs h.size_lt h.buffer_le
  rw [List.forall_mem_append, addrs_in_window_iff h.size_lt h.buffer_le, Nat.mod_eq_of_lt hlt]
  constructor
  · rintro ⟨hcopy, -⟩
    omega
  · -- what is printed are fields of the header and bytes that have been copied
    intro hcopy
    refine ⟨.inr hcopy, ?_⟩
    rw [List.forall_mem_flatMap, printed_ranges, ← hmemsz, ← hoffset]
    refine List.forall_mem_cons.mpr ⟨hfile _ (hranges _ hfield₁), ?_⟩
    split
    · next hlen =>
      refine List.forall_mem_cons.mpr ⟨hfile _ (hranges _ hfield₂), ?_⟩
      refine List.forall_mem_cons.mpr ⟨hfile _ ?_, List.forall_mem_nil _⟩
      rw [hlen] at hcopy
      exact hcopy
    · exact List.forall_mem_nil _

/-- The fields that are printed are those of the file. -/
theorem KernelFile.printed_ranges_eq
    (h : KernelFile mem f phyKernelStart kernel_max_size buffer size) (hi : i < e_phnum f)
    (hm : ChangesOnly (kernel_area phyKernelStart kernel_max_size) mem m)
    (hph : (visit f i).segment = some ph) :
    printed_ranges (file_at efi_space m buffer) (visit f i).offset =
      printed_ranges f (visit f i).offset := by
  have hranges := h.well_formed.ranges h.size_lt hi
  obtain ⟨-, -, -, -, htype⟩ := visit_segment hph
  obtain ⟨hfield₁, hfield₂⟩ := Visit.mem_ranges hph htype
  have hsame : ∀ o < size, file_at efi_space m buffer o = f o := fun o ho => (h.holds hm o ho).2
  unfold printed_ranges
  rw [load_le_file_congr hsame (hranges _ hfield₁), load_le_file_congr hsame (hranges _ hfield₂)]

/-- A round leaves the file as it is, and has read what the file says. -/
theorem KernelFile.reads_round {rs ws : List Nat}
    (h : KernelFile mem f phyKernelStart kernel_max_size buffer size)
    (hm : ChangesOnly (kernel_area phyKernelStart kernel_max_size) mem m)
    (hi : i < e_phnum (file_at efi_space m buffer))
    (hbody : Returns (load_kernel_segment phyKernelStart kernel_max_size buffer
      (visit (file_at efi_space m buffer) i) : Code efi_space ε Bool) m true m' rs ws) :
    ChangesOnly (kernel_area phyKernelStart kernel_max_size) mem m' ∧
      rs = (visit (file_at efi_space m buffer) i).each
        (fun ph => addrs (buffer + ph.p_offset) ph.p_memsz ++ (printed_ranges f
          (visit (file_at efi_space m buffer) i).offset).flatMap (range_addrs buffer)) := by
  have hsame : ∀ o < size, file_at efi_space m buffer o = f o := fun o ho => (h.holds hm o ho).2
  have hfield : InFile size (56, 2) := h.well_formed.in_header (by decide)
  have hcount : e_phnum (file_at efi_space m buffer) = e_phnum f := load_le_file_congr hsame hfield
  rw [hcount] at hi
  have hvisit := visit_congr hsame (h.well_formed.ranges h.size_lt hi)
  rw [hvisit] at hbody ⊢
  obtain ⟨m'', hrun, hm', -⟩ := h.run_body (ε := ε) hi hm
  obtain ⟨-, rfl, -, -⟩ := hbody.unique (returns_of_run hrun)
  refine ⟨hm', ?_⟩
  obtain ⟨-, rfl, -⟩ := of_returns_load_kernel_segment hbody
  unfold Visit.each
  cases hsegment : (visit f i).segment with
  | none => rw [Option.elim_none, Option.elim_none]
  | some ph => rw [h.printed_ranges_eq hi hm' hsegment]

/-- **What the call reads** through the buffer is the file, exactly when no segment is copied from
    behind the file. -/
theorem KernelFile.reads_iff (h : KernelFile mem f phyKernelStart kernel_max_size buffer size) :
    (∀ v ∈ AddressSpace.reads (load_kernel_file phyKernelStart kernel_max_size buffer :
        Code efi_space ε (Bool × Loaded)) mem, v ∈ Set.Ico buffer (buffer + size)) ↔
      CopiesFile f size := by
  have hfile : ∀ o n, o + n ≤ 64 →
      ∀ v ∈ range_addrs buffer (o, n), v ∈ Set.Ico buffer (buffer + size) := by
    intro o n hle
    exact (h.well_formed.in_header hle).range_addrs h.size_lt h.buffer_le
  obtain ⟨m', hrun, -⟩ := h.run (ε := ε)
  obtain ⟨hfalse, -⟩ | ⟨-, rs, hloop, hreads⟩ := of_returns_load_kernel_file (returns_of_run hrun)
  · cases hfalse
  have hrounds := reads_of_load_segments
    (R := fun x => x.each (fun ph => addrs (buffer + ph.p_offset) ph.p_memsz ++
        (printed_ranges f x.offset).flatMap (range_addrs buffer)))
    (fun i m m' rs ws hm hi hbody => h.reads_round hm hi hbody) (.refl _ mem) hloop
  rw [hreads, hrounds]
  constructor
  · rintro ⟨-, -, hvisits⟩ ph hph
    obtain ⟨i, hi, hsegment⟩ := mem_segments.mp hph
    have hvisit : visit f i ∈ (List.range' 0 (e_phnum f)).map (visit f) :=
      List.mem_map_of_mem (List.mem_range'_1.mpr ⟨by omega, by omega⟩)
    exact (h.reads_round_iff hi).mp (hvisits _ hvisit).2 ph hsegment
  · intro hcopies
    refine ⟨?_, fun _ => hfile 56 2 (by omega), fun x hx => ?_⟩
    · simp only [List.forall_mem_cons]
      exact ⟨hfile 0 4 (by omega), hfile 32 8 (by omega), hfile 24 8 (by omega),
        List.forall_mem_nil _⟩
    · obtain ⟨i, hi, rfl⟩ := List.mem_map.mp hx
      have hi : i < e_phnum f := by
        have := (List.mem_range'_1.mp hi).2
        omega
      have hround := (h.reads_round_iff hi).mpr fun ph hph =>
        hcopies ph (mem_segments.mpr ⟨i, hi, hph⟩)
      refine ⟨?_, hround⟩
      rw [List.forall_mem_flatMap]
      exact fun r hr => (h.well_formed.ranges h.size_lt hi r hr).range_addrs h.size_lt h.buffer_le

/-- The whole call. -/
theorem KernelFile.run_boot (h : KernelFile mem f phyKernelStart kernel_max_size buffer size) :
    ∃ r mem', (boot_load phyKernelStart kernel_max_size buffer size).run mem = (.ok r, mem') ∧
      r.entry = e_entry f ∧
      KernelLoaded mem f phyKernelStart kernel_max_size size (e_phnum f) mem' := by
  obtain ⟨mem', hfile, hloaded⟩ := h.run (ε := Empty)
  refine ⟨⟨e_entry f, (List.range' 0 (e_phnum f)).map (visit f)⟩, mem', ?_, rfl, hloaded⟩
  have hentry := (Returns.load_le (ε := Empty)
    (v := phyKernelStart + u64_sub (e_entry f) KERNEL_START) (n := 16)
    (fun i _ => efi_mapped mem' _)).run
  rw [boot_load, load_kernel, Prog.run_bind_ok hfile, if_pos rfl]
  exact Prog.run_bind_ok hentry

end image

/-- **When the image of the kernel is right**: the call succeeds and returns the entry point; it
    leaves the image, and reads nothing behind the file, exactly when in the file the data of each
    segment is followed by as many zeros as the segment goes on. -/
theorem kernel_image_iff (mem f : Bytes) (phyKernelStart kernel_max_size buffer size : Nat)
    (hfile : KernelFile mem f phyKernelStart kernel_max_size buffer size) :
    ∃ r mem', (boot_load phyKernelStart kernel_max_size buffer size).run mem = (.ok r, mem') ∧
      r.entry = e_entry f ∧
      (KernelImage mem mem' f phyKernelStart kernel_max_size buffer size ↔
        ∀ ph ∈ segments f, ∀ k, ph.p_filesz ≤ k → k < ph.p_memsz →
          ph.p_offset + k < size ∧ f (ph.p_offset + k) = 0) := by
  obtain ⟨r, mem', hrun, hentry, hloaded⟩ := hfile.run_boot
  refine ⟨r, mem', hrun, hentry, ?_, ?_⟩
  · intro himage ph hph k hlow hhigh
    -- nothing was read behind the file, so that the place of the segment has bytes of the file
    have hcopies := hfile.reads_iff.mp himage.reads
    have hzero := (himage.image ph hph).bss k hlow hhigh
    have hdata := hcopies ph hph
    rw [hloaded.data ph hph k hhigh (by omega)] at hzero
    exact ⟨by omega, hzero⟩
  · intro hzeros
    have hcopies : CopiesFile f size := by
      intro ph hph
      have hfilesz := hfile.well_formed.filesz ph hph
      have hdata := hfile.well_formed.data ph hph
      -- the last byte of the segment is one of those behind the data, if there are any
      by_cases hbss : ph.p_filesz < ph.p_memsz
      · obtain ⟨hlast, -⟩ := hzeros ph hph (ph.p_memsz - 1) (by omega) (by omega)
        omega
      · omega
    refine ⟨fun ph hph => ⟨fun k hk => ?_, fun k hlow hhigh => ?_⟩, hfile.reads_iff.mpr hcopies⟩
    · have hfilesz := hfile.well_formed.filesz ph hph
      have hdata := hfile.well_formed.data ph hph
      exact hloaded.data ph hph k (by omega) (by omega)
    · obtain ⟨ho, hzero⟩ := hzeros ph hph k hlow hhigh
      rw [hloaded.data ph hph k hhigh ho, hzero]

/-- A file with a segment of two bytes, of which one has data, and the byte `x` behind the data. -/
def first_segment_file (x : UInt8) : List UInt8 :=
  one_segment_file KERNEL_START first_segment [0xaa, x]

theorem kernelFile_first_segment {x : UInt8} (hx : x = 0 ∨ x = 0xbb) :
    KernelFile (boot_memory (first_segment_file x)) (file_bytes (first_segment_file x))
      0x200000 0x10000 0x1000 122 := by
  have hsegments : segments (file_bytes (first_segment_file x)) = [first_segment] := by
    rcases hx with rfl | rfl <;> decide +kernel
  have hheader : bytes (file_bytes (first_segment_file x)) 0 4 = ElfMagic ∧
      e_phoff (file_bytes (first_segment_file x)) = 64 ∧
      e_phentsize (file_bytes (first_segment_file x)) = 56 ∧
      e_phnum (file_bytes (first_segment_file x)) = 1 := by
    rcases hx with rfl | rfl <;> decide +kernel
  obtain ⟨hmagic, hphoff, hphentsize, hphnum⟩ := hheader
  refine ⟨by decide, by decide, by decide, by decide,
    ⟨hmagic, by decide, ?_, hphentsize, ?_, ?_, ?_⟩, ⟨?_, ?_⟩, fun o ho => ?_, ?_⟩
  · rw [hphoff]
    decide
  · rw [hphoff, hphnum]
    decide
  · rw [hsegments]
    decide
  · rw [hsegments]
    decide
  · rw [hsegments]
    exact List.pairwise_singleton _ _
  · rw [hsegments]
    decide
  · have hlen : (first_segment_file x).length = 122 := rfl
    have hin : 0x1000 + o ∈ Set.Ico 0x1000 (0x1000 + (first_segment_file x).length) :=
      ⟨by omega, by omega⟩
    rw [boot_memory, copy, overwrite_of_mem hin, Nat.add_sub_cancel_left]
    rfl
  · rw [kernel_area, Set.Ico_disjoint_Ico]
    decide

/-- The data is followed by a zero, and the image is right. -/
theorem first_segment_image_right : ∃ r mem',
    (boot_load 0x200000 0x10000 0x1000 122).run (boot_memory (first_segment_file 0)) =
      (.ok r, mem') ∧
    KernelImage (boot_memory (first_segment_file 0)) mem'
      (file_bytes (first_segment_file 0)) 0x200000 0x10000 0x1000 122 := by
  obtain ⟨r, mem', hrun, -, himage⟩ := kernel_image_iff _ _ _ _ _ _
    (kernelFile_first_segment (.inl rfl))
  refine ⟨r, mem', hrun, himage.mpr ?_⟩
  have hsegments : segments (file_bytes (first_segment_file 0)) = [first_segment] := by
    decide +kernel
  rw [hsegments]
  intro ph hph k hlow hhigh
  obtain rfl := List.mem_singleton.mp hph
  have hlow : 1 ≤ k := hlow
  have hhigh : k < 2 := hhigh
  obtain rfl : k = 1 := by omega
  decide

/-- The data is followed by a byte of something else, which is loaded in the place of a zero. -/
theorem following_byte_in_image : ∃ r mem', KernelFile (boot_memory (first_segment_file 0xbb))
      (file_bytes (first_segment_file 0xbb)) 0x200000 0x10000 0x1000 122 ∧
    (boot_load 0x200000 0x10000 0x1000 122).run (boot_memory (first_segment_file 0xbb)) =
      (.ok r, mem') ∧
    mem' 0x200001 = 0xbb ∧
    ¬ KernelImage (boot_memory (first_segment_file 0xbb)) mem'
      (file_bytes (first_segment_file 0xbb)) 0x200000 0x10000 0x1000 122 := by
  have hfile := kernelFile_first_segment (x := 0xbb) (.inr rfl)
  have hsegments : segments (file_bytes (first_segment_file 0xbb)) = [first_segment] := by
    decide +kernel
  have hmem : first_segment ∈ segments (file_bytes (first_segment_file 0xbb)) := by
    rw [hsegments]
    exact List.mem_singleton_self _
  obtain ⟨r, mem', hrun, -, hloaded⟩ := hfile.run_boot
  have hplace : 0x200000 + (first_segment.p_vaddr - KERNEL_START) + 1 = 0x200001 := by decide
  have hbyte := hloaded.data _ hmem 1 (by decide) (by decide)
  rw [hplace] at hbyte
  refine ⟨r, mem', hfile, hrun, hbyte, fun himage => ?_⟩
  have hzero := (himage.image _ hmem).bss 1 (by decide) (by decide)
  rw [hplace] at hzero
  exact absurd (hbyte.symm.trans hzero) (by decide)

end Modern05
