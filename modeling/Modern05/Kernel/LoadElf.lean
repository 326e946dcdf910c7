import Modern05.Elf.Format
import Modern05.Kernel.AnonMemory

/-! # Loading a program

    `Process::load_elf_from_buffer` in `process.cpp`, which runs while the page tables of the
    process are in use: it writes the segments of the file to the addresses they are linked at.
    The length of the file is an argument that it does not use. What it prints is left out; the
    fields that it prints are among those it reads.

    A call that returns has passed all checks for the headers it came to. Two of the checks are not
    enough: `p_vaddr + p_memsz` is computed in 64 bits, and nothing is compared with the length of
    the file.

    * `user_writes_in_window_iff` says when the segments are written to the image window.
    * `user_reads_in_file_iff` says when nothing but the file is read.
    * `user_image_iff`: the part of a segment that is not in the file is not cleared, so that the
      image is right when the memory was clear before.
-/

namespace Modern05

open Memory AddressSpace PageTable

/-! ## The call -/

/-- The addresses of the kernel while the process runs. -/
def process_space (P : Platform) (p : Process) : AddressSpace := ⟨fun mem v => translate P mem p v⟩

section programs

variable {A : AddressSpace}

def load_user_segment (buffer : Nat) (x : Visit) : Code A Fault Bool :=
  match x.segment with
  | none => pure true
  | some ph => do
    check (0x100000 ≤ ph.p_vaddr) (.assertion "Segment is at wrong location")
    check ((ph.p_vaddr + ph.p_memsz) % 2 ^ 64 ≤ USER_IMAGE_START + USER_IMAGE_SIZE)
      (.assertion "Segment too big")
    if ph.p_filesz ≤ ph.p_memsz then
      AddressSpace.memcpy ph.p_vaddr (buffer + ph.p_offset) ph.p_filesz
      pure true
    else
      raise (.panic "\nDon't know how to load sections that has filesize > memsize")

def load_elf_from_buffer (buffer _size : Nat) : Code A Fault Loaded := do
  let matches_magic ← magic_matches buffer ElfMagic
  if matches_magic then
    let phoff ← load_field buffer 32 8
    check (phoff ≠ 0) (.assertion "program header table not found\n")
    let r ← load_segments buffer (load_user_segment buffer) 65536 0
    let entry ← load_field buffer 24 8
    pure ⟨entry, r.2⟩
  else
    raise (.panic "Corrupted ELF file, invalid header magic")

end programs

/-! ## A call that returns -/

/-- The checks. -/
structure UserSegment (ph : Elf64_Phdr) : Prop where
  start : USER_IMAGE_START ≤ ph.p_vaddr
  stop : (ph.p_vaddr + ph.p_memsz) % 2 ^ 64 ≤ USER_IMAGE_START + USER_IMAGE_SIZE
  filesz : ph.p_filesz ≤ ph.p_memsz

section returns

variable {A : AddressSpace} {m m' : Bytes} {buffer size : Nat} {rs ws : List Nat}

theorem of_returns_load_user_segment {x : Visit} {go_on : Bool}
    (h : Returns (load_user_segment buffer x : Code A Fault Bool) m go_on m' rs ws) :
    go_on = true ∧ (∀ ph ∈ x.segment, UserSegment ph) ∧
      rs = x.each (fun ph => addrs (buffer + ph.p_offset) ph.p_filesz) ∧
      ws = x.each (fun ph => addrs ph.p_vaddr ph.p_filesz) := by
  unfold load_user_segment at h
  unfold Visit.each
  cases hsegment : x.segment with
  | none =>
    rw [hsegment] at h
    obtain ⟨rfl, -, rfl, rfl⟩ := h.of_pure
    simp
  | some ph =>
    rw [hsegment] at h
    obtain ⟨_, m₁, rs₁, ws₁, rs₂, ws₂, hcheck, h₁, rfl, rfl⟩ := h.of_bind
    obtain ⟨hstart, rfl, rfl, rfl⟩ := hcheck.of_check
    obtain ⟨_, m₂, rs₃, ws₃, rs₄, ws₄, hcheck', h₂, rfl, rfl⟩ := h₁.of_bind
    obtain ⟨hstop, rfl, rfl, rfl⟩ := hcheck'.of_check
    split at h₂
    · next hfilesz =>
      obtain ⟨_, m₃, rs₅, ws₅, rs₆, ws₆, hcopy, h₃, rfl, rfl⟩ := h₂.of_bind
      obtain ⟨rfl, rfl⟩ := hcopy.of_memcpy
      obtain ⟨rfl, -, rfl, rfl⟩ := h₃.of_pure
      refine ⟨rfl, ?_, by simp, by simp⟩
      rintro _ ⟨⟩
      exact ⟨of_decide_eq_true hstart, of_decide_eq_true hstop, hfilesz⟩
    · exact absurd h₂ Returns.not_raise

/-- **A call that returns**: the headers have passed the checks, and the memory that the call has
    written and read. -/
theorem of_returns_load_elf {r : Loaded}
    (h : Returns (load_elf_from_buffer buffer size : Code A Fault Loaded) m r m' rs ws) :
    (∀ x ∈ r.visits, x.Bounded ∧ ∀ ph ∈ x.segment, UserSegment ph) ∧
    ws = r.visits.flatMap (fun x => x.each (fun ph => addrs ph.p_vaddr ph.p_filesz)) ∧
    ∀ Q : Nat → Prop, (∀ v ∈ rs, Q v) ↔
      (∀ range ∈ header_ranges, ∀ v ∈ range_addrs buffer range, Q v) ∧
      ∀ x ∈ r.visits, (∀ v ∈ x.ranges.flatMap (range_addrs buffer), Q v) ∧
        ∀ v ∈ x.each (fun ph => addrs (buffer + ph.p_offset) ph.p_filesz), Q v := by
  obtain ⟨matches_magic, m₁, rs₁, ws₁, rs₂, ws₂, hmagic, h₁, rfl, rfl⟩ := h.of_bind
  split at h₁
  · next htrue =>
    subst htrue
    obtain ⟨rfl, hmagic_reads, rfl⟩ := of_returns_magic_matches hmagic
    obtain rfl : rs₁ = range_addrs buffer (0, 4) := hmagic_reads
    obtain ⟨rs₃, rfl, h₂⟩ := of_returns_load_field h₁
    obtain ⟨_, m₃, rs₄, ws₄, rs₅, ws₅, hphoff, h₃, rfl, rfl⟩ := h₂.of_bind
    obtain ⟨-, rfl, rfl, rfl⟩ := hphoff.of_check
    obtain ⟨⟨ok, xs⟩, m₄, rs₆, ws₆, rs₇, ws₇, hloop, h₄, rfl, rfl⟩ := h₃.of_bind
    obtain ⟨rs₈, rfl, h₅⟩ := of_returns_load_field h₄
    obtain ⟨rfl, rfl, rfl, rfl⟩ := h₅.of_pure
    obtain rfl : ok = true :=
      ends_of_load_segments (fun x _ _ _ _ _ hbody => (of_returns_load_user_segment hbody).1) hloop
    obtain ⟨hvisits, rfl⟩ := writes_of_load_segments (fun x _ _ _ _ hbody =>
      ⟨(of_returns_load_user_segment hbody).2.1, (of_returns_load_user_segment hbody).2.2.2⟩) hloop
    have hreads := reads_of_load_segments (I := fun _ => True)
      (R := fun x => x.each (fun ph => addrs (buffer + ph.p_offset) ph.p_filesz))
      (fun _ _ _ _ _ _ _ hbody => ⟨trivial, (of_returns_load_user_segment hbody).2.2.1⟩)
      trivial hloop
    refine ⟨hvisits, by simp, fun Q => ?_⟩
    have hrounds : 65536 ≠ 0 := by decide
    have hnil : ∀ v ∈ ([] : List Nat), Q v := List.forall_mem_nil Q
    simp only [List.forall_mem_append, List.forall_mem_cons, hreads Q, header_ranges]
    -- the magic, `e_phoff`, the loop with `e_phnum`, and `e_entry` at the end
    constructor
    · rintro ⟨hmagic, hphoff, -, ⟨hphnum, hvisits⟩, hentry, -⟩
      exact ⟨⟨hmagic, hphoff, hphnum hrounds, hentry, List.forall_mem_nil _⟩, hvisits⟩
    · rintro ⟨⟨hmagic, hphoff, hphnum, hentry, -⟩, hvisits⟩
      exact ⟨hmagic, hphoff, hnil, ⟨fun _ => hphnum, hvisits⟩, hentry, hnil⟩
  · exact absurd h₁ Returns.not_raise

end returns

/-! ## Where the segments are written -/

/-- The call while the process `p` runs. -/
def user_load (P : Platform) (p : Process) (buffer size : Nat) :
    Code (process_space P p) Fault Loaded := load_elf_from_buffer buffer size

/-- **When the segments are written to the image window**: exactly when the data of each of them
    ends there. This is so if the check for the end of the segment does not wrap. -/
theorem user_writes_in_window_iff (P : Platform) (p : Process) (mem mem' : Bytes)
    (buffer size : Nat) (r : Loaded)
    (hret : (user_load P p buffer size).run mem = (.ok r, mem')) :
    ((∀ v ∈ writes (user_load P p buffer size) mem,
        v ∈ Set.Ico USER_IMAGE_START (USER_IMAGE_START + USER_IMAGE_SIZE)) ↔
      ∀ x ∈ r.visits, ∀ ph ∈ x.segment,
        ph.p_filesz = 0 ∨ ph.p_vaddr + ph.p_filesz ≤ USER_IMAGE_START + USER_IMAGE_SIZE) ∧
    ((∀ x ∈ r.visits, ∀ ph ∈ x.segment, ph.p_vaddr + ph.p_memsz < 2 ^ 64) →
      ∀ v ∈ writes (user_load P p buffer size) mem,
        v ∈ Set.Ico USER_IMAGE_START (USER_IMAGE_START + USER_IMAGE_SIZE)) := by
  obtain ⟨hvisits, hwrites, -⟩ := of_returns_load_elf (returns_of_run hret)
  have hsegment : ∀ x ∈ r.visits, ∀ ph ∈ x.segment,
      ((∀ v ∈ addrs ph.p_vaddr ph.p_filesz,
          v ∈ Set.Ico USER_IMAGE_START (USER_IMAGE_START + USER_IMAGE_SIZE)) ↔
        ph.p_filesz = 0 ∨ ph.p_vaddr + ph.p_filesz ≤ USER_IMAGE_START + USER_IMAGE_SIZE) := by
    intro x hx ph hph
    obtain ⟨hbounded, hchecks⟩ := hvisits x hx
    have hlt := hbounded.p_vaddr ph hph
    have hstart := (hchecks ph hph).start
    -- the start is checked, so that the data can only leave the window at its end
    rw [← Nat.add_sub_cancel' hstart, addrs_in_window_iff (by decide) (by decide),
      Nat.mod_eq_of_lt (by omega)]
    omega
  have hall : (∀ v ∈ writes (user_load P p buffer size) mem,
        v ∈ Set.Ico USER_IMAGE_START (USER_IMAGE_START + USER_IMAGE_SIZE)) ↔
      ∀ x ∈ r.visits, ∀ ph ∈ x.segment,
        ph.p_filesz = 0 ∨ ph.p_vaddr + ph.p_filesz ≤ USER_IMAGE_START + USER_IMAGE_SIZE := by
    rw [user_load, hwrites, List.forall_mem_flatMap]
    refine forall₂_congr fun x hx => ?_
    rw [Visit.forall_mem_each]
    exact forall₂_congr (hsegment x hx)
  refine ⟨hall, fun hwrap => hall.mpr fun x hx ph hph => ?_⟩
  have hchecks := (hvisits x hx).2 ph hph
  have hstop := hchecks.stop
  have hfilesz := hchecks.filesz
  rw [Nat.mod_eq_of_lt (hwrap x hx ph hph)] at hstop
  omega

/-- Where the kernel has the file in the examples: in its image. -/
def file_buffer : Nat := KERNEL_START + 0x1000

/-- A memory with the file, and with tables that map one page of the image window. -/
def file_memory (file : List UInt8) : Bytes :=
  let mem := copy (fun _ => 0) 0x1000 file
  let mem := store64 mem 0x6000000 0x6001007
  let mem := store64 mem 0x6001000 0x6002007
  let mem := store64 mem 0x6002000 0x6003007
  store64 mem (pt_addr 0x6000000 256) 0x5000007

/-- One byte at the start of the window, and one byte behind it. -/
def small_segment : Elf64_Phdr := ⟨120, USER_IMAGE_START, 1, 2⟩

theorem small_segment_loaded : (user_load platform_2G first_process_2G file_buffer 121).run
    (file_memory (one_segment_file USER_IMAGE_START small_segment [0xaa])) =
      (.ok ⟨USER_IMAGE_START, [⟨64, PT_LOAD, some small_segment⟩]⟩,
        ((user_load platform_2G first_process_2G file_buffer 121).run
          (file_memory (one_segment_file USER_IMAGE_START small_segment [0xaa]))).2) :=
  run_of_toOption (by decide +kernel)

theorem small_segment_in_window : ∃ r mem',
    (user_load platform_2G first_process_2G file_buffer 121).run
      (file_memory (one_segment_file USER_IMAGE_START small_segment [0xaa])) = (.ok r, mem') ∧
    ∀ v ∈ writes (user_load platform_2G first_process_2G file_buffer 121)
        (file_memory (one_segment_file USER_IMAGE_START small_segment [0xaa])),
      v ∈ Set.Ico USER_IMAGE_START (USER_IMAGE_START + USER_IMAGE_SIZE) := by
  refine ⟨_, _, small_segment_loaded,
    (user_writes_in_window_iff _ _ _ _ _ _ _ small_segment_loaded).1.mpr ?_⟩
  simp only [List.mem_singleton, forall_eq, Option.mem_some_iff]
  rintro _ rfl
  decide

/-- A segment in the memory of the kernel, so long that its end wraps to zero. -/
def wrapped_segment : Elf64_Phdr :=
  ⟨120, KERNEL_START + 0x4000000, 1, 2 ^ 64 - (KERNEL_START + 0x4000000)⟩

theorem wrapped_segment_outside : ∃ mem r mem',
    (user_load platform_2G first_process_2G file_buffer 121).run mem = (.ok r, mem') ∧
    writes (user_load platform_2G first_process_2G file_buffer 121) mem =
      [KERNEL_START + 0x4000000] ∧
    KERNEL_START + 0x4000000 ∉ Set.Ico USER_IMAGE_START (USER_IMAGE_START + USER_IMAGE_SIZE) := by
  have hrun : ((user_load platform_2G first_process_2G file_buffer 121).run (file_memory
      (one_segment_file USER_IMAGE_START wrapped_segment [0xaa]))).1.toOption =
        some ⟨USER_IMAGE_START, [⟨64, PT_LOAD, some wrapped_segment⟩]⟩ := by decide +kernel
  refine ⟨_, _, _, run_of_toOption hrun, by decide +kernel, ?_⟩
  rw [Set.mem_Ico]
  decide

/-! ## What is read -/

/-- **When nothing but the file is read**: the header is in the file, and for each header the call
    came to, the fields it has read and the data of the segment. -/
theorem user_reads_in_file_iff (P : Platform) (p : Process) (mem mem' : Bytes)
    (buffer size : Nat) (r : Loaded) (hsize : size < 2 ^ 64) (hbuffer : buffer + size ≤ 2 ^ 64)
    (hret : (user_load P p buffer size).run mem = (.ok r, mem')) :
    (∀ v ∈ reads (user_load P p buffer size) mem, v ∈ Set.Ico buffer (buffer + size)) ↔
      58 ≤ size ∧ ∀ x ∈ r.visits, (∀ range ∈ x.ranges, range.1 % 2 ^ 64 + range.2 ≤ size) ∧
        ∀ ph ∈ x.segment, ph.p_filesz = 0 ∨ ph.p_offset + ph.p_filesz ≤ size := by
  obtain ⟨hvisits, -, hreads⟩ := of_returns_load_elf (returns_of_run hret)
  have hrange : ∀ range : Nat × Nat, 0 < range.2 →
      ((∀ v ∈ range_addrs buffer range, v ∈ Set.Ico buffer (buffer + size)) ↔
        range.1 % 2 ^ 64 + range.2 ≤ size) := by
    intro range hpos
    rw [range_addrs, addrs_in_window_iff hsize hbuffer]
    omega
  rw [user_load, hreads]
  refine and_congr ?_ (forall₂_congr fun x hx => and_congr ?_ ?_)
  · simp only [header_ranges, List.forall_mem_cons, List.not_mem_nil, false_imp_iff, implies_true,
      and_true]
    rw [hrange (0, 4) (by decide), hrange (32, 8) (by decide), hrange (56, 2) (by decide),
      hrange (24, 8) (by decide)]
    omega
  · rw [List.forall_mem_flatMap]
    exact forall₂_congr fun range hin => hrange range (x.ranges_pos range hin)
  · rw [Visit.forall_mem_each]
    refine forall₂_congr fun ph hph => ?_
    rw [addrs_in_window_iff hsize hbuffer, Nat.mod_eq_of_lt ((hvisits x hx).1.p_offset ph hph)]

theorem small_segment_reads_file : ∃ r mem',
    (user_load platform_2G first_process_2G file_buffer 121).run
      (file_memory (one_segment_file USER_IMAGE_START small_segment [0xaa])) = (.ok r, mem') ∧
    ∀ v ∈ reads (user_load platform_2G first_process_2G file_buffer 121)
        (file_memory (one_segment_file USER_IMAGE_START small_segment [0xaa])),
      v ∈ Set.Ico file_buffer (file_buffer + 121) := by
  refine ⟨_, _, small_segment_loaded,
    (user_reads_in_file_iff _ _ _ _ _ _ _ (by decide) (by decide) small_segment_loaded).mpr ?_⟩
  simp only [List.mem_singleton, forall_eq, Option.mem_some_iff]
  refine ⟨by decide, by decide, ?_⟩
  rintro _ rfl
  decide

/-- A file that ends behind its first four bytes. In memory there follows something that is taken
    for the rest of the header, without program headers. -/
theorem truncated_header_read : ∃ mem r mem',
    (user_load platform_2G first_process_2G file_buffer 4).run mem = (.ok r, mem') ∧
    file_buffer + 32 ∈ reads (user_load platform_2G first_process_2G file_buffer 4) mem ∧
    file_buffer + 32 ∉ Set.Ico file_buffer (file_buffer + 4) := by
  have hrun : ((user_load platform_2G first_process_2G file_buffer 4).run (file_memory
      (ElfMagic ++ List.replicate 28 0 ++ [1]))).1.toOption = some ⟨0, []⟩ := by decide +kernel
  refine ⟨_, _, _, run_of_toOption hrun, by decide +kernel, ?_⟩
  rw [Set.mem_Ico]
  decide

/-! ## The image of a program -/

/-- The memory behind the image window. -/
def image_bytes (p : Process) : Set Nat :=
  Set.Ico p.user_image_phy_addr.toNat (p.user_image_phy_addr.toNat + USER_IMAGE_SIZE)

/-- A process as it was constructed, with a file in memory that is not behind its image window. -/
structure ReadyToLoad (P : Platform) (mem : Bytes) (p : Process) (f : Bytes) (buffer size : Nat) :
    Prop where
  pts_aligned : p.pts_paddr.toNat % 4096 = 0
  upper : UserTables mem p.pts_paddr.toNat
  image_aligned : p.user_image_phy_addr.toNat % 4096 = 0
  image : ∀ i < 2048, walk mem 4 (p.pts_paddr.toNat / 4096) (256 + i) =
    some (p.user_image_phy_addr.toNat / 2 ^ 12 + i)
  tables : Disjoint (image_bytes p) (table_bytes p.pts_paddr.toNat)
  file : ∀ o < size, ∃ a, translate P mem p ((buffer + o) % 2 ^ 64) = some a ∧
    a ∉ image_bytes p ∧ mem a = f o

/-- What the call is to do: the image of each segment, and nothing else. -/
structure UserImage (P : Platform) (p : Process) (f mem mem' : Bytes) : Prop where
  image : ∀ ph ∈ segments f, Image ((process_space P p).view mem') ph.p_vaddr f ph
  frame : ∀ a, (∀ ph ∈ segments f, ∀ v ∈ ph.range, translate P mem p v ≠ some a) → mem' a = mem a

section image

variable {P : Platform} {p : Process} {f mem mem' : Bytes} {buffer size i : Nat}

/-- No address moves while only the memory behind the window changes. -/
theorem ReadyToLoad.fixed (h : ReadyToLoad P mem p f buffer size) :
    (process_space P p).Fixed (image_bytes p) Set.univ mem := by
  intro mem' hmem v _
  show translate P mem' p v = translate P mem p v
  by_cases huser : v < USER_END
  · have hpage : v / 4096 < 2 ^ 35 := by
      unfold USER_END at huser
      omega
    rw [translate, translate, if_pos huser, if_pos huser,
      walk_user_frame h.pts_aligned h.upper hmem h.tables hpage]
  · rw [translate, translate, if_neg huser, if_neg huser]

/-- The window is mapped to one range. -/
theorem ReadyToLoad.translate_window (h : ReadyToLoad P mem p f buffer size) {v : Nat}
    (hlow : USER_IMAGE_START ≤ v) (hhigh : v < USER_IMAGE_START + USER_IMAGE_SIZE) :
    translate P mem p v = some (p.user_image_phy_addr.toNat + (v - USER_IMAGE_START)) := by
  have haligned := h.image_aligned
  unfold USER_IMAGE_START at hlow hhigh ⊢
  unfold USER_IMAGE_SIZE at hhigh
  have huser : v < USER_END := by
    unfold USER_END
    omega
  have hwalk := h.image (v / 4096 - 256) (by omega)
  rw [Nat.add_sub_cancel' (by omega)] at hwalk
  have hphys : (p.user_image_phy_addr.toNat / 2 ^ 12 + (v / 4096 - 256)) * 4096 + v % 4096 =
      p.user_image_phy_addr.toNat + (v - 1024 * 1024) := by omega
  rw [translate, if_pos huser, hwalk, Option.map_some, hphys]

/-- The file stays where it is, and as it is. -/
theorem ReadyToLoad.kept (h : ReadyToLoad P mem p f buffer size)
    (hmem : ChangesOnly (image_bytes p) mem mem') {o : Nat} (ho : o < size) :
    (process_space P p).Kept (image_bytes p) Set.univ mem' (buffer + o) ∧
      (process_space P p).view mem' (buffer + o) = f o := by
  obtain ⟨a, ha, hout, hbyte⟩ := h.file o ho
  have hkept : (process_space P p).Kept (image_bytes p) Set.univ mem (buffer + o) :=
    ⟨trivial, a, ha, hout⟩
  obtain ⟨hkept', hview⟩ := hkept.congr h.fixed hmem
  refine ⟨hkept', ?_⟩
  rw [hview, view_of_translate ha, hbyte]

theorem ReadyToLoad.holds (h : ReadyToLoad P mem p f buffer size)
    (hmem : ChangesOnly (image_bytes p) mem mem') :
    Holds (process_space P p) mem' buffer f size :=
  fun _ ho => ⟨(h.kept hmem ho).1.mapped, (h.kept hmem ho).2⟩

/-- The memory when the call comes to the header `i`. -/
def loaded_below (mem : Bytes) (p : Process) (f : Bytes) (i : Nat) : Bytes :=
  write_segments mem p.user_image_phy_addr.toNat USER_IMAGE_START Elf64_Phdr.p_filesz f i

/-- The file of a call that is to succeed: its segments are in the window. -/
structure UserFile (f : Bytes) (size : Nat) : Prop where
  size_lt : size < 2 ^ 64
  well_formed : WellFormed f size
  window : SegmentsIn f USER_IMAGE_START (USER_IMAGE_START + USER_IMAGE_SIZE)

theorem UserFile.changesOnly (hf : UserFile f size) (mem : Bytes) (hi : i ≤ e_phnum f) :
    ChangesOnly (image_bytes p) mem (loaded_below mem p f i) := by
  have hwindow := hf.window.changesOnly mem p.user_image_phy_addr.toNat hf.well_formed.filesz hi
  rw [Nat.add_sub_cancel_left] at hwindow
  exact hwindow

theorem UserFile.address_lt (hf : UserFile f size) {ph : Elf64_Phdr} (hph : ph ∈ segments f)
    {k : Nat} (hk : k < ph.p_memsz) : ph.p_vaddr + k < 2 ^ 64 := by
  obtain ⟨-, hhigh⟩ := hf.window.inside ph hph
  have hend : USER_IMAGE_START + USER_IMAGE_SIZE < 2 ^ 64 := by decide
  omega

/-- The addresses of a segment. -/
theorem UserFile.translate_segment (hf : UserFile f size)
    (h : ReadyToLoad P mem p f buffer size) (hmem : ChangesOnly (image_bytes p) mem mem')
    {ph : Elf64_Phdr} (hph : ph ∈ segments f) {k : Nat} (hk : k < ph.p_memsz) :
    (process_space P p).translate mem' ((ph.p_vaddr + k) % 2 ^ 64) =
      some (p.user_image_phy_addr.toNat + (ph.p_vaddr - USER_IMAGE_START) + k) := by
  obtain ⟨hlow, hhigh⟩ := hf.window.inside ph hph
  rw [Nat.mod_eq_of_lt (hf.address_lt hph hk), h.fixed mem' hmem _ trivial]
  refine (h.translate_window (by omega) (by omega)).trans ?_
  rw [Nat.add_assoc, ← Nat.sub_add_comm hlow]

/-- **One round of the loop.** -/
theorem UserFile.run_body (hf : UserFile f size) (h : ReadyToLoad P mem p f buffer size)
    (hi : i < e_phnum f) :
    (load_user_segment buffer (visit f i) : Code (process_space P p) Fault Bool).run
      (loaded_below mem p f i) = (.ok true, loaded_below mem p f (i + 1)) := by
  have hmem : ChangesOnly (image_bytes p) mem (loaded_below mem p f i) :=
    hf.changesOnly mem (by omega)
  unfold load_user_segment
  cases hsegment : (visit f i).segment with
  | none =>
    rw [loaded_below, loaded_below, write_segments_none hsegment]
    rfl
  | some ph =>
    have hph : ph ∈ segments f := mem_segments.mpr ⟨i, hi, hsegment⟩
    obtain ⟨hlow, hhigh⟩ := hf.window.inside ph hph
    have hfilesz := hf.well_formed.filesz ph hph
    have hend : USER_IMAGE_START + USER_IMAGE_SIZE < 2 ^ 64 := by decide
    -- the two assertions and the test before the copy
    have hstart : 0x100000 ≤ ph.p_vaddr := hlow
    have hstop : (ph.p_vaddr + ph.p_memsz) % 2 ^ 64 ≤ USER_IMAGE_START + USER_IMAGE_SIZE := by
      rw [Nat.mod_eq_of_lt (by omega)]
      exact hhigh
    have hrange : (segment_piece p.user_image_phy_addr.toNat USER_IMAGE_START Elf64_Phdr.p_filesz f
        ph).range ⊆ image_bytes p := by
      refine (hf.window.piece_subset hph hfilesz).trans ?_
      rw [Nat.add_sub_cancel_left]
      exact subset_rfl
    have hcopy := run_copy_segment (ε := Fault) (h.fixed.congr hmem) hrange
      (fun k hk => hf.translate_segment h hmem hph (by omega))
      (fun o ho => (h.kept hmem ho).1) (h.holds hmem) (hf.well_formed.data ph hph)
    simp only [decide_eq_true hstart, decide_eq_true hstop, if_pos hfilesz]
    show (AddressSpace.memcpy ph.p_vaddr (buffer + ph.p_offset) ph.p_filesz >>= fun _ => pure true :
      Code (process_space P p) Fault Bool).run (loaded_below mem p f i) = _
    rw [Prog.run_bind_ok hcopy, loaded_below, ← write_segments_some hsegment]
    rfl

/-- **The call succeeds**, and leaves the data of all segments. -/
theorem UserFile.run (hf : UserFile f size) (h : ReadyToLoad P mem p f buffer size) :
    (user_load P p buffer size).run mem =
      (.ok ⟨e_entry f, (List.range' 0 (e_phnum f)).map (visit f)⟩,
        loaded_below mem p f (e_phnum f)) := by
  have hheader := hf.well_formed.header
  have hcount : e_phnum f < 2 ^ 16 := load_le_lt f 56 2
  have hfile : ∀ i ≤ e_phnum f, Holds (process_space P p) (loaded_below mem p f i) buffer f size :=
    fun i hi => h.holds (hf.changesOnly mem hi)
  have hstart := h.holds (.refl _ mem)
  have hmagic := hstart.run_magic_matches (ε := Fault) hf.well_formed
  have hphoff : InFile size (32, 8) := hf.well_formed.in_header (by decide)
  have hentry : InFile size (24, 8) := hf.well_formed.in_header (by decide)
  obtain ⟨_, hloop, rfl⟩ := run_load_segments (I := fun i m => m = loaded_below mem p f i)
    (by omega) (fun i hi _ hm => hm ▸ hfile i hi)
    (fun i hi => hf.well_formed.ranges hf.size_lt hi)
    (fun i hi _ hm => ⟨_, hm ▸ hf.run_body h hi, rfl⟩) rfl
    (Nat.zero_le _) (n := 65536) (by omega)
  rw [user_load, load_elf_from_buffer, Prog.run_bind_ok hmagic, if_pos rfl,
    hstart.run_load_field _ hphoff]
  have hnonzero : decide (e_phoff f ≠ 0) = true := decide_eq_true hf.well_formed.phoff
  show (check (decide (e_phoff f ≠ 0)) _ >>= _ : Code _ Fault Loaded).run mem = _
  rw [hnonzero]
  refine (Prog.run_bind_ok hloop).trans ?_
  exact (hfile _ le_rfl).run_load_field _ hentry

/-- What is behind the addresses of a segment before and after. -/
theorem UserFile.view_loaded (hf : UserFile f size) (h : ReadyToLoad P mem p f buffer size)
    {ph : Elf64_Phdr} (hph : ph ∈ segments f) {k : Nat} (hk : k < ph.p_memsz) :
    (process_space P p).view (loaded_below mem p f (e_phnum f)) (ph.p_vaddr + k) =
      if k < ph.p_filesz then f (ph.p_offset + k)
      else (process_space P p).view mem (ph.p_vaddr + k) := by
  have hmem : ChangesOnly (image_bytes p) mem (loaded_below mem p f (e_phnum f)) :=
    hf.changesOnly mem le_rfl
  rw [view_of_translate (hf.translate_segment h hmem hph hk),
    view_of_translate (hf.translate_segment h (.refl _ mem) hph hk)]
  exact hf.window.write_segments hf.well_formed.filesz hph hk

end image

/-! A process with a small file, and a byte behind its data. -/

section small_file

def small_file : Bytes := file_bytes (one_segment_file USER_IMAGE_START small_segment [0xaa])

/-- The memory of the first process, with the file in the kernel image and the byte `x` where the
    segment goes on behind its data. -/
def small_file_memory (x : UInt8) : Bytes :=
  overwrite (overwrite (first_blocks_2G.memory platform_2G (fun _ => 0) (fun _ => 0))
    0x1000 121 small_file) 0x5000001 1 (fun _ => x)

theorem small_file_segments : segments small_file = [small_segment] := by decide +kernel

theorem userFile_small : UserFile small_file 121 := by
  refine ⟨by decide, ⟨by decide +kernel, by decide, by decide +kernel, by decide +kernel,
    by decide +kernel, ?_, ?_⟩, ?_, ?_⟩
  · rw [small_file_segments]
    decide
  · rw [small_file_segments]
    decide
  · rw [small_file_segments]
    exact List.pairwise_singleton _ _
  · rw [small_file_segments]
    decide

/-- The kernel image starts at the physical address zero. -/
theorem translate_file_buffer {mem : Bytes} {p : Process} {o : Nat} (ho : o < 0x1000) :
    translate platform_2G mem p ((file_buffer + o) % 2 ^ 64) = some (0x1000 + o) := by
  have hstart : KERNEL_START = 0xffff800000000000 := rfl
  have hlow : IDENTITY_MAP_PHY_START = 0x4000000 := rfl
  have hhigh : IDENTITY_MAP_PHY_END = 0x100000000 := rfl
  have hend : USER_END = 0x800000000000 := rfl
  have hzero : platform_2G.kernel_physical_start = 0 := rfl
  have hmod : (file_buffer + o) % 2 ^ 64 = KERNEL_START + (0x1000 + o) := by
    unfold file_buffer
    omega
  rw [hmod, translate, if_neg (by omega), if_pos (by omega), Nat.add_sub_cancel_left,
    if_pos (by omega), hzero, Nat.zero_add]

theorem readyToLoad_small (x : UInt8) :
    ReadyToLoad platform_2G (small_file_memory x) first_process_2G small_file file_buffer 121 := by
  have hpts : first_process_2G.pts_paddr.toNat = 0x6000000 := by decide
  have himage : first_process_2G.user_image_phy_addr.toNat = 0x5000000 := by decide
  have hsize : USER_IMAGE_SIZE = 0x800000 := rfl
  have hconstructed := one_process_constructed (s := .start platform_2G.region.allocator)
  have hchanges : ChangesOnly (Set.Iio 0x6000000) (first_blocks_2G.memory platform_2G
      (fun _ => 0) (fun _ => 0)) (small_file_memory x) :=
    ChangesOnly.trans (.overwrite _ (fun a ha => Set.mem_Iio.mpr (by have := ha.2; omega)))
      (.overwrite_byte _ (Set.mem_Iio.mpr (by decide)))
  have htables : Disjoint (Set.Iio 0x6000000) (table_bytes 0x6000000) :=
    Set.disjoint_left.mpr fun a ha ha' => absurd ha'.1 (Nat.not_le.mpr ha)
  refine ⟨by rw [hpts], ?_, by rw [himage], ?_, ?_, ?_⟩
  · rw [hpts]
    exact hconstructed.upper.congr hchanges (htables.mono_right upper_subset_tables)
  · intro i hi
    rw [hpts, himage, walk_user_frame (by decide) hconstructed.upper hchanges htables (by omega)]
    exact hconstructed.image i hi
  · rw [image_bytes, table_bytes, himage, hpts, hsize, Set.Ico_disjoint_Ico]
    omega
  · intro o ho
    have hfile : small_file_memory x (0x1000 + o) = small_file o := by
      have hin : 0x1000 + o ∈ Set.Ico 0x1000 (0x1000 + 121) := ⟨by omega, by omega⟩
      have hout : 0x1000 + o ∉ Set.Ico 0x5000001 (0x5000001 + 1) := fun h => by
        have := h.1
        omega
      rw [small_file_memory, overwrite_of_notMem hout, overwrite_of_mem hin,
        Nat.add_sub_cancel_left]
    refine ⟨0x1000 + o, translate_file_buffer (by omega), ?_, hfile⟩
    rw [image_bytes, himage, hsize, Set.mem_Ico]
    omega

/-- What the process finds behind the data of the segment. -/
theorem view_small_bss (x : UInt8) : (process_space platform_2G first_process_2G).view
    (small_file_memory x) (USER_IMAGE_START + 1) = x := by
  have himage : first_process_2G.user_image_phy_addr.toNat = 0x5000000 := by decide
  have hmem : small_segment ∈ segments small_file := by simp [small_file_segments]
  have htranslate := userFile_small.translate_segment (readyToLoad_small x) (.refl _ _) hmem
    (k := 1) (by decide)
  rw [himage] at htranslate
  rw [show USER_IMAGE_START + 1 = small_segment.p_vaddr + 1 from rfl,
    view_of_translate htranslate]
  exact overwrite_of_mem (⟨by decide, by decide⟩ : 0x5000001 ∈ Set.Ico 0x5000001 0x5000002)

end small_file

/-- **When the image is right**: the call succeeds and returns the entry point, and what it leaves
    is the image of the program exactly when the part of each segment that is not in the file was
    zero before. -/
theorem user_image_iff (P : Platform) (p : Process) (f mem : Bytes) (buffer size : Nat)
    (hfile : UserFile f size) (hready : ReadyToLoad P mem p f buffer size) :
    ∃ r mem', (user_load P p buffer size).run mem = (.ok r, mem') ∧ r.entry = e_entry f ∧
      (UserImage P p f mem mem' ↔ ∀ ph ∈ segments f, ∀ k, ph.p_filesz ≤ k → k < ph.p_memsz →
        (process_space P p).view mem (ph.p_vaddr + k) = 0) := by
  refine ⟨_, _, hfile.run hready, rfl, ?_, ?_⟩
  · intro himage ph hph k hlow hhigh
    have hzero := (himage.image ph hph).bss k hlow hhigh
    rw [hfile.view_loaded hready hph hhigh, if_neg (by omega)] at hzero
    exact hzero
  · intro hclear
    refine ⟨fun ph hph => ⟨fun k hk => ?_, fun k hlow hhigh => ?_⟩, fun a ha => ?_⟩
    · have hfilesz := hfile.well_formed.filesz ph hph
      rw [hfile.view_loaded hready hph (by omega), if_pos hk]
    · rw [hfile.view_loaded hready hph hhigh, if_neg (by omega)]
      exact hclear ph hph k hlow hhigh
    · -- what is not behind the addresses of a segment is not written
      refine write_segments_of_notMem fun ph hph hin => ?_
      have hlow : p.user_image_phy_addr.toNat + (ph.p_vaddr - USER_IMAGE_START) ≤ a := hin.1
      have hhigh : a < p.user_image_phy_addr.toNat + (ph.p_vaddr - USER_IMAGE_START) +
        ph.p_filesz := hin.2
      have hfilesz := hfile.well_formed.filesz ph hph
      obtain ⟨k, rfl⟩ := Nat.exists_eq_add_of_le hlow
      have htranslate := hfile.translate_segment hready (.refl _ mem) hph (k := k) (by omega)
      rw [Nat.mod_eq_of_lt (hfile.address_lt hph (by omega))] at htranslate
      exact ha ph hph (ph.p_vaddr + k) ⟨by omega, by omega⟩ htranslate

/-- The byte behind the data is zero before, and the image is right. -/
theorem small_image_right : ∃ r mem', (user_load platform_2G first_process_2G file_buffer 121).run
    (small_file_memory 0) = (.ok r, mem') ∧
    UserImage platform_2G first_process_2G small_file (small_file_memory 0) mem' := by
  obtain ⟨r, mem', hrun, -, himage⟩ := user_image_iff platform_2G first_process_2G small_file
    (small_file_memory 0) file_buffer 121 userFile_small (readyToLoad_small 0)
  refine ⟨r, mem', hrun, himage.mpr ?_⟩
  rw [small_file_segments]
  intro ph hph k hlow hhigh
  obtain rfl := List.mem_singleton.mp hph
  have hlow : 1 ≤ k := hlow
  have hhigh : k < 2 := hhigh
  obtain rfl : k = 1 := by omega
  exact view_small_bss 0

/-- The byte behind the data is left over from before, and is in the image. -/
theorem stale_byte_in_image : ∃ r mem', UserFile small_file 121 ∧
    ReadyToLoad platform_2G (small_file_memory 0xff) first_process_2G small_file file_buffer 121 ∧
    (user_load platform_2G first_process_2G file_buffer 121).run (small_file_memory 0xff) =
      (.ok r, mem') ∧
    small_segment ∈ segments small_file ∧
    (process_space platform_2G first_process_2G).view mem' (USER_IMAGE_START + 1) = 0xff ∧
    ¬ UserImage platform_2G first_process_2G small_file (small_file_memory 0xff) mem' := by
  have hmem : small_segment ∈ segments small_file := by simp [small_file_segments]
  have hready := readyToLoad_small 0xff
  have hstale := userFile_small.view_loaded hready hmem (k := 1) (by decide)
  rw [if_neg (by decide)] at hstale
  have hstale := hstale.trans (view_small_bss 0xff)
  refine ⟨_, _, userFile_small, hready, userFile_small.run hready, hmem, hstale,
    fun himage => ?_⟩
  have hzero := (himage.image small_segment hmem).bss 1 (by decide) (by decide)
  exact absurd (hstale.symm.trans hzero) (by decide)

end Modern05
