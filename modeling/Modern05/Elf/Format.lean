import Mathlib.Data.List.Pairwise
import Modern05.Framework.AddressSpace
import Modern05.Lib.Utils

/-! # ELF files

    The headers of `elf.h`, as far as the two loaders use them, and the loop over the program
    headers that the loaders share. `Process::load_elf_from_buffer` and `LoadKernel` differ in what
    they do with a segment, which is the argument `body` of the loop.

    A file is a memory that starts at its first byte: `visit f i` is the program header `i` of the
    file `f`. The loaders read the same through a pointer, at the time they come to it; what they
    find is recorded in the list of visits that the loop returns, together with its result.

    `Image` is what both are to make of a segment.
-/

namespace Modern05

open Memory AddressSpace

/-! ## Headers -/

def PT_LOAD : Nat := 1

def ElfMagic : List UInt8 := [0x7f, 0x45, 0x4c, 0x46]

structure Elf64_Phdr where
  p_offset : Nat
  p_vaddr : Nat
  p_filesz : Nat
  p_memsz : Nat
  deriving DecidableEq, Repr

/-- What a loader finds when it comes to a program header. -/
structure Visit where
  /-- Where the header is in the file. -/
  offset : Nat
  p_type : Nat
  /-- The rest of the header, if there is something to load. -/
  segment : Option Elf64_Phdr
  deriving DecidableEq, Repr

/-- The entry point that a loader returns, and the headers it came to. -/
structure Loaded where
  entry : Nat
  visits : List Visit
  deriving DecidableEq, Repr

def e_entry (f : Bytes) : Nat := Memory.load_le f 24 8

def e_phoff (f : Bytes) : Nat := Memory.load_le f 32 8

def e_phentsize (f : Bytes) : Nat := Memory.load_le f 54 2

def e_phnum (f : Bytes) : Nat := Memory.load_le f 56 2

/-- A product of type `int`, which has 32 bits, where an address is computed. -/
def int_extend (x : Nat) : Nat :=
  if x % 2 ^ 32 < 2 ^ 31 then x % 2 ^ 32 else x % 2 ^ 32 + (2 ^ 64 - 2 ^ 32)

/-- `e_phoff + e_phentsize * i` -/
def phdr_offset (phoff phentsize i : Nat) : Nat := (phoff + int_extend (phentsize * i)) % 2 ^ 64

/-- The header at an offset, if there is something to load. -/
def segment_at (f : Bytes) (o p_type : Nat) : Option Elf64_Phdr :=
  if p_type = PT_LOAD then
    if Memory.load_le f (o + 40) 8 > 0 then
      some ⟨Memory.load_le f (o + 8) 8, Memory.load_le f (o + 16) 8, Memory.load_le f (o + 32) 8,
        Memory.load_le f (o + 40) 8⟩
    else none
  else none

def visit (f : Bytes) (i : Nat) : Visit :=
  let o := phdr_offset (e_phoff f) (e_phentsize f) i
  let p_type := Memory.load_le f o 4
  ⟨o, p_type, segment_at f o p_type⟩

/-- The segments of the first `n` headers. -/
def segments_below (f : Bytes) (n : Nat) : List Elf64_Phdr :=
  (List.range n).filterMap (fun i => (visit f i).segment)

/-- The segments to load, in the order of their headers. -/
def segments (f : Bytes) : List Elf64_Phdr := segments_below f (e_phnum f)

/-- What a loader is to make of a segment: its bytes from the file, and zeros behind them. -/
structure Image (m : Bytes) (target : Nat) (f : Bytes) (ph : Elf64_Phdr) : Prop where
  data : ∀ k < ph.p_filesz, m (target + k) = f (ph.p_offset + k)
  bss : ∀ k, ph.p_filesz ≤ k → k < ph.p_memsz → m (target + k) = 0

/-- The addresses the segment is linked at. -/
def Elf64_Phdr.range (ph : Elf64_Phdr) : Set Nat := Set.Ico ph.p_vaddr (ph.p_vaddr + ph.p_memsz)

/-- The segments share no byte, and are in a window. -/
structure SegmentsIn (f : Bytes) (lo hi : Nat) : Prop where
  disjoint : (segments f).Pairwise (fun ph ph' => Disjoint ph.range ph'.range)
  inside : ∀ ph ∈ segments f, lo ≤ ph.p_vaddr ∧ ph.p_vaddr + ph.p_memsz ≤ hi

/-- A file of `size` bytes has its headers inside, and the data of its segments. -/
structure WellFormed (f : Bytes) (size : Nat) : Prop where
  magic : bytes f 0 4 = ElfMagic
  header : 64 ≤ size
  phoff : e_phoff f ≠ 0
  phentsize : e_phentsize f = 56
  table : e_phoff f + 56 * e_phnum f ≤ size
  filesz : ∀ ph ∈ segments f, ph.p_filesz ≤ ph.p_memsz
  data : ∀ ph ∈ segments f, ph.p_offset + ph.p_filesz ≤ size

/-- The bytes of a number, least significant byte first. -/
def le_bytes (w n : Nat) : List UInt8 := (List.range n).map (byte w)

/-- A file with one program header, of a segment to load, and the data behind it. -/
def one_segment_file (entry : Nat) (ph : Elf64_Phdr) (data : List UInt8) : List UInt8 :=
  ElfMagic ++ List.replicate 20 0 ++ le_bytes entry 8 ++ le_bytes 64 8 ++ List.replicate 14 0 ++
    le_bytes 56 2 ++ le_bytes 1 2 ++ List.replicate 6 0 ++
    le_bytes PT_LOAD 4 ++ List.replicate 4 0 ++ le_bytes ph.p_offset 8 ++ le_bytes ph.p_vaddr 8 ++
    List.replicate 8 0 ++ le_bytes ph.p_filesz 8 ++ le_bytes ph.p_memsz 8 ++
    List.replicate 8 0 ++ data

/-- A file as a memory of its own. -/
def file_bytes (file : List UInt8) : Bytes := fun o => file.getD o 0

/-! ## The loop over the program headers -/

section programs

variable {A : AddressSpace} {ε : Type}

/-- Compare the first bytes of the file. -/
def magic_matches (buffer : Nat) : List UInt8 → Code A ε Bool
  | [] => pure true
  | c :: cs => do
    let x ← load buffer
    if x = c then magic_matches (buffer + 1) cs else pure false

/-- Read a field of the file. -/
def load_field (buffer o n : Nat) : Code A ε Nat := load_le (buffer + o) n

/-- Read the rest of a header, if there is something to load. -/
def load_segment_header (buffer o p_type : Nat) : Code A ε (Option Elf64_Phdr) :=
  if p_type = PT_LOAD then do
    let p_memsz ← load_field buffer (o + 40) 8
    if p_memsz > 0 then
      let p_offset ← load_field buffer (o + 8) 8
      let p_filesz ← load_field buffer (o + 32) 8
      let p_vaddr ← load_field buffer (o + 16) 8
      pure (some ⟨p_offset, p_vaddr, p_filesz, p_memsz⟩)
    else pure none
  else pure none

/-- Read the program header `i`. -/
def visit_phdr (buffer i : Nat) : Code A ε Visit := do
  let phoff ← load_field buffer 32 8
  let phentsize ← load_field buffer 54 2
  let p_type ← load_field buffer (phdr_offset phoff phentsize i) 4
  let segment ← load_segment_header buffer (phdr_offset phoff phentsize i) p_type
  pure ⟨phdr_offset phoff phentsize i, p_type, segment⟩

/-- The loop from the header `i` on: whether it came to its end, and the headers it came to. The
    body says whether to go on. `e_phnum` is read again each time; it has 16 bits, so that a count
    of 65536 is enough for all headers. -/
def load_segments (buffer : Nat) (body : Visit → Code A ε Bool) :
    Nat → Nat → Code A ε (Bool × List Visit)
  | 0, _ => pure (true, [])
  | n + 1, i => do
    let phnum ← load_field buffer 56 2
    if i < phnum then
      let x ← visit_phdr buffer i
      let go_on ← body x
      if go_on then
        let r ← load_segments buffer body n (i + 1)
        pure (r.1, x :: r.2)
      else pure (false, [x])
    else pure (true, [])

end programs

/-! ## What the loop reads -/

/-- The ranges of the file that are read for the rest of a header, by offset and length. -/
def segment_ranges (o p_type : Nat) (segment : Option Elf64_Phdr) : List (Nat × Nat) :=
  if p_type = PT_LOAD then
    (o + 40, 8) :: if segment.isSome then [(o + 8, 8), (o + 32, 8), (o + 16, 8)] else []
  else []

def Visit.ranges (x : Visit) : List (Nat × Nat) :=
  [(32, 8), (54, 2), (x.offset, 4)] ++ segment_ranges x.offset x.p_type x.segment

/-- The addresses of a range of the file. -/
def range_addrs (buffer : Nat) (r : Nat × Nat) : List Nat := addrs (buffer + r.1) r.2

/-- The file behind a pointer. -/
def file_at (A : AddressSpace) (m : Bytes) (buffer : Nat) : Bytes := fun o => A.view m (buffer + o)

section returns

variable {A : AddressSpace} {ε α : Type} {m m' f : Bytes} {buffer i n o : Nat} {rs ws : List Nat}

theorem visit_offset (f : Bytes) (i : Nat) :
    (visit f i).offset = phdr_offset (e_phoff f) (e_phentsize f) i := rfl

theorem visit_p_type (f : Bytes) (i : Nat) :
    (visit f i).p_type = Memory.load_le f (visit f i).offset 4 := rfl

theorem visit_segment_at (f : Bytes) (i : Nat) :
    (visit f i).segment = segment_at f (visit f i).offset (visit f i).p_type := by
  simp only [visit]

theorem load_le_file_at (A : AddressSpace) (m : Bytes) (buffer o n : Nat) :
    Memory.load_le (A.view m) (buffer + o) n = Memory.load_le (file_at A m buffer) o n :=
  load_le_congr fun i _ => by rw [file_at, Nat.add_assoc]

/-- A range of the file is mapped. -/
def RangeMapped (A : AddressSpace) (m : Bytes) (buffer : Nat) (r : Nat × Nat) : Prop :=
  ∀ i < r.2, A.Mapped m (buffer + r.1 + i)

theorem run_load_field (g : Nat → Code A ε α) (hmapped : RangeMapped A m buffer (o, n)) :
    (load_field buffer o n >>= g).run m =
      (g (Memory.load_le (file_at A m buffer) o n)).run m := by
  rw [← load_le_file_at]
  exact Prog.run_bind_ok (Returns.load_le hmapped).run

theorem of_returns_load_field {g : Nat → Code A ε α} {a : α}
    (h : Returns (load_field buffer o n >>= g) m a m' rs ws) :
    ∃ rs', rs = range_addrs buffer (o, n) ++ rs' ∧
      Returns (g (Memory.load_le (file_at A m buffer) o n)) m a m' rs' ws := by
  rw [← load_le_file_at]
  exact Returns.of_load_le_bind h

theorem of_returns_load_segment_header {p_type : Nat} {segment : Option Elf64_Phdr}
    (h : Returns (load_segment_header buffer o p_type : Code A ε _) m segment m' rs ws) :
    segment = segment_at (file_at A m buffer) o p_type ∧ m' = m ∧
      rs = (segment_ranges o p_type segment).flatMap (range_addrs buffer) ∧ ws = [] := by
  unfold load_segment_header at h
  unfold segment_at segment_ranges
  split at h
  · next htype =>
    rw [if_pos htype, if_pos htype]
    obtain ⟨rs₁, rfl, h₁⟩ := of_returns_load_field h
    split at h₁
    · next hpos =>
      obtain ⟨rs₂, rfl, h₂⟩ := of_returns_load_field h₁
      obtain ⟨rs₃, rfl, h₃⟩ := of_returns_load_field h₂
      obtain ⟨rs₄, rfl, h₄⟩ := of_returns_load_field h₃
      obtain ⟨rfl, rfl, rfl, rfl⟩ := h₄.of_pure
      rw [if_pos hpos]
      simp
    · next hzero =>
      obtain ⟨rfl, rfl, rfl, rfl⟩ := h₁.of_pure
      rw [if_neg hzero]
      simp
  · next htype =>
    obtain ⟨rfl, rfl, rfl, rfl⟩ := h.of_pure
    rw [if_neg htype, if_neg htype]
    simp

/-- **What a loader finds** is what the file has at that time. -/
theorem of_returns_visit_phdr {x : Visit}
    (h : Returns (visit_phdr buffer i : Code A ε Visit) m x m' rs ws) :
    x = visit (file_at A m buffer) i ∧ m' = m ∧ rs = x.ranges.flatMap (range_addrs buffer) ∧
      ws = [] := by
  obtain ⟨rs₁, rfl, h₁⟩ := of_returns_load_field h
  obtain ⟨rs₂, rfl, h₂⟩ := of_returns_load_field h₁
  obtain ⟨rs₃, rfl, h₃⟩ := of_returns_load_field h₂
  obtain ⟨segment, m₁, rs₄, ws₁, rs₅, ws₂, hsegment, hpure, rfl, rfl⟩ := h₃.of_bind
  obtain ⟨rfl, rfl, rfl, rfl⟩ := of_returns_load_segment_header hsegment
  obtain ⟨rfl, rfl, rfl, rfl⟩ := hpure.of_pure
  refine ⟨rfl, rfl, ?_, rfl⟩
  simp [Visit.ranges]

theorem run_load_segment_header {p_type : Nat}
    (hmapped : ∀ r ∈ segment_ranges o p_type (segment_at (file_at A m buffer) o p_type),
      RangeMapped A m buffer r) :
    (load_segment_header buffer o p_type : Code A ε _).run m =
      (.ok (segment_at (file_at A m buffer) o p_type), m) := by
  unfold segment_ranges segment_at at hmapped
  unfold load_segment_header segment_at
  by_cases htype : p_type = PT_LOAD
  · simp only [if_pos htype, List.forall_mem_cons] at hmapped ⊢
    obtain ⟨hmemsz, hrest⟩ := hmapped
    rw [run_load_field _ hmemsz]
    by_cases hpos : Memory.load_le (file_at A m buffer) (o + 40) 8 > 0
    · simp only [if_pos hpos, Option.isSome_some, if_true, List.forall_mem_cons] at hrest ⊢
      obtain ⟨hoffset, hfilesz, hvaddr, -⟩ := hrest
      rw [run_load_field _ hoffset, run_load_field _ hfilesz, run_load_field _ hvaddr]
      rfl
    · rw [if_neg hpos, if_neg hpos]
      rfl
  · rw [if_neg htype, if_neg htype]
    rfl

/-- A header can be read when its ranges are mapped. -/
theorem run_visit_phdr
    (hmapped : ∀ r ∈ (visit (file_at A m buffer) i).ranges, RangeMapped A m buffer r) :
    (visit_phdr buffer i : Code A ε Visit).run m = (.ok (visit (file_at A m buffer) i), m) := by
  rw [Visit.ranges, List.forall_mem_append] at hmapped
  obtain ⟨hfields, hsegment⟩ := hmapped
  simp only [List.forall_mem_cons] at hfields
  obtain ⟨hphoff, hphentsize, htype, -⟩ := hfields
  rw [visit_offset, e_phoff, e_phentsize] at htype
  rw [visit_segment_at, visit_p_type, visit_offset, e_phoff, e_phentsize] at hsegment
  unfold visit_phdr
  rw [run_load_field _ hphoff, run_load_field _ hphentsize, run_load_field _ htype,
    Prog.run_bind_ok (run_load_segment_header hsegment)]
  rfl

theorem Visit.ranges_pos (x : Visit) : ∀ r ∈ x.ranges, 0 < r.2 := by
  have hsegment : ∀ r ∈ segment_ranges x.offset x.p_type x.segment, 0 < r.2 := by
    unfold segment_ranges
    split_ifs <;> simp
  rw [Visit.ranges, List.forall_mem_append]
  exact ⟨by simp, hsegment⟩

/-- Two of the fields that are read for a segment. -/
theorem Visit.mem_ranges {x : Visit} {ph : Elf64_Phdr} (hsegment : x.segment = some ph)
    (htype : x.p_type = PT_LOAD) :
    (x.offset + 40, 8) ∈ x.ranges ∧ (x.offset + 8, 8) ∈ x.ranges := by
  simp [Visit.ranges, segment_ranges, hsegment, htype]

/-! ## Runs of the loop -/

/-- The fields of a segment that is to be loaded. -/
theorem visit_segment {ph : Elf64_Phdr} (h : (visit f i).segment = some ph) :
    0 < ph.p_memsz ∧ ph.p_offset = Memory.load_le f ((visit f i).offset + 8) 8 ∧
      ph.p_vaddr = Memory.load_le f ((visit f i).offset + 16) 8 ∧
      ph.p_memsz = Memory.load_le f ((visit f i).offset + 40) 8 ∧
      (visit f i).p_type = PT_LOAD := by
  rw [visit_segment_at] at h
  unfold segment_at at h
  split_ifs at h with htype hpos
  rw [← Option.some.inj h]
  exact ⟨hpos, rfl, rfl, rfl, htype⟩

/-- Addresses that depend on the segment, if there is one. -/
def Visit.each (x : Visit) (g : Elf64_Phdr → List Nat) : List Nat := x.segment.elim [] g

theorem Visit.forall_mem_each {x : Visit} {g : Elf64_Phdr → List Nat} {Q : Nat → Prop} :
    (∀ v ∈ x.each g, Q v) ↔ ∀ ph ∈ x.segment, ∀ v ∈ g ph, Q v := by
  unfold Visit.each
  cases x.segment <;> simp

/-- The fields have 64 bits, and there is something to load. -/
structure Visit.Bounded (x : Visit) : Prop where
  offset : x.offset < 2 ^ 64
  p_offset : ∀ ph ∈ x.segment, ph.p_offset < 2 ^ 64
  p_vaddr : ∀ ph ∈ x.segment, ph.p_vaddr < 2 ^ 64
  p_memsz : ∀ ph ∈ x.segment, 0 < ph.p_memsz

theorem visit_bounded (f : Bytes) (i : Nat) : (visit f i).Bounded := by
  refine ⟨Nat.mod_lt _ (by decide), fun ph hph => ?_, fun ph hph => ?_, fun ph hph => ?_⟩
  · rw [(visit_segment hph).2.1]
    exact load_le_lt f _ 8
  · rw [(visit_segment hph).2.2.1]
    exact load_le_lt f _ 8
  · exact (visit_segment hph).1

variable {body : Visit → Code A ε Bool} {R W : Visit → List Nat} {G : Visit → Prop}

/-- **A round of a loop that comes to its end**: there is no header left, or the body goes on after
    the next one. -/
theorem of_returns_load_segments_succ {xs : List Visit}
    (h : Returns (load_segments buffer body (n + 1) i) m (true, xs) m' rs ws) :
    (xs = [] ∧ rs = range_addrs buffer (56, 2) ∧ ws = []) ∨
    ∃ x ys m₁ rs₁ ws₁ rs₂ ws₂, i < e_phnum (file_at A m buffer) ∧
      x = visit (file_at A m buffer) i ∧ xs = x :: ys ∧
      Returns (body x) m true m₁ rs₁ ws₁ ∧
      Returns (load_segments buffer body n (i + 1)) m₁ (true, ys) m' rs₂ ws₂ ∧
      rs = range_addrs buffer (56, 2) ++ (x.ranges.flatMap (range_addrs buffer) ++ (rs₁ ++ rs₂)) ∧
      ws = ws₁ ++ ws₂ := by
  obtain ⟨rs₁, rfl, h₁⟩ := of_returns_load_field h
  split at h₁
  · next hlt =>
    obtain ⟨x, m₁, rs₂, ws₂, rs₃, ws₃, hvisit, h₂, rfl, rfl⟩ := h₁.of_bind
    obtain ⟨hx, rfl, rfl, rfl⟩ := of_returns_visit_phdr hvisit
    obtain ⟨go_on, m₂, rs₄, ws₄, rs₅, ws₅, hrun, h₃, rfl, rfl⟩ := h₂.of_bind
    -- a body that does not go on ends the loop with `false`
    cases go_on with
    | true =>
      obtain ⟨⟨ok, ys⟩, m₃, rs₆, ws₆, rs₇, ws₇, hloop, hpure, rfl, rfl⟩ := h₃.of_bind
      obtain ⟨hxs, rfl, rfl, rfl⟩ := hpure.of_pure
      cases hxs
      exact .inr ⟨x, ys, m₂, rs₄, ws₄, rs₆, ws₆, hlt, hx, rfl, hrun, hloop, by simp, by simp⟩
    | false =>
      obtain ⟨hxs, -, -, -⟩ := h₃.of_pure
      cases hxs
  · obtain ⟨hxs, -, rfl, rfl⟩ := h₁.of_pure
    cases hxs
    exact .inl ⟨rfl, by simp, rfl⟩

/-- A loop whose body always goes on comes to its end. -/
theorem ends_of_load_segments {ok : Bool} {xs : List Visit}
    (hbody : ∀ x m go_on m' rs ws, Returns (body x) m go_on m' rs ws → go_on = true)
    (h : Returns (load_segments buffer body n i) m (ok, xs) m' rs ws) : ok = true := by
  induction n generalizing m i xs rs ws with
  | zero =>
    obtain ⟨hxs, -, -, -⟩ := h.of_pure
    cases hxs
    rfl
  | succ n ih =>
    obtain ⟨rs₁, rfl, h₁⟩ := of_returns_load_field h
    split at h₁
    · obtain ⟨x, m₁, rs₂, ws₂, rs₃, ws₃, -, h₂, -, -⟩ := h₁.of_bind
      obtain ⟨go_on, m₂, rs₄, ws₄, rs₅, ws₅, hrun, h₃, -, -⟩ := h₂.of_bind
      rw [if_pos (hbody x _ _ _ _ _ hrun)] at h₃
      obtain ⟨⟨ok', ys⟩, m₃, rs₆, ws₆, rs₇, ws₇, hloop, hpure, -, -⟩ := h₃.of_bind
      obtain ⟨hxs, rfl, -, -⟩ := hpure.of_pure
      cases hxs
      exact ih hloop
    · obtain ⟨hxs, -, -, -⟩ := h₁.of_pure
      cases hxs
      rfl

/-- What a loop that came to its end has written, where a body that goes on has accepted the header
    by `G` and has written `W x`. -/
theorem writes_of_load_segments {xs : List Visit}
    (hbody : ∀ x m m' rs ws, Returns (body x) m true m' rs ws → G x ∧ ws = W x)
    (h : Returns (load_segments buffer body n i) m (true, xs) m' rs ws) :
    (∀ x ∈ xs, x.Bounded ∧ G x) ∧ ws = xs.flatMap W := by
  induction n generalizing m i xs rs ws with
  | zero =>
    obtain ⟨hxs, -, -, rfl⟩ := h.of_pure
    cases hxs
    simp
  | succ n ih =>
    obtain ⟨rfl, -, rfl⟩ | ⟨x, ys, m₁, rs₁, ws₁, rs₂, ws₂, -, hx, rfl, hrun, hloop, -, rfl⟩ :=
      of_returns_load_segments_succ h
    · simp
    · obtain ⟨haccepted, rfl⟩ := hbody x _ _ _ _ hrun
      obtain ⟨hall, rfl⟩ := ih hloop
      have hbounded : x.Bounded := hx ▸ visit_bounded _ i
      exact ⟨List.forall_mem_cons.mpr ⟨⟨hbounded, haccepted⟩, hall⟩, by simp⟩

/-- Where what such a loop has read is, where a body that goes on has read `R x` and keeps an
    invariant of the memory. -/
theorem reads_of_load_segments {xs : List Visit} {I : Bytes → Prop}
    (hbody : ∀ i m m' rs ws, I m → i < e_phnum (file_at A m buffer) →
      Returns (body (visit (file_at A m buffer) i)) m true m' rs ws →
        I m' ∧ rs = R (visit (file_at A m buffer) i))
    (hinv : I m) (h : Returns (load_segments buffer body n i) m (true, xs) m' rs ws)
    (Q : Nat → Prop) : (∀ v ∈ rs, Q v) ↔ (n ≠ 0 → ∀ v ∈ range_addrs buffer (56, 2), Q v) ∧
      ∀ x ∈ xs, (∀ v ∈ x.ranges.flatMap (range_addrs buffer), Q v) ∧ ∀ v ∈ R x, Q v := by
  induction n generalizing m i xs rs ws with
  | zero =>
    obtain ⟨hxs, -, rfl, -⟩ := h.of_pure
    cases hxs
    simp
  | succ n ih =>
    obtain ⟨rfl, rfl, -⟩ | ⟨x, ys, m₁, rs₁, ws₁, rs₂, ws₂, hlt, rfl, rfl, hrun, hloop, rfl, -⟩ :=
      of_returns_load_segments_succ h
    · simp
    · obtain ⟨hinv₁, rfl⟩ := hbody i _ _ _ _ hinv hlt hrun
      simp only [List.forall_mem_append, List.forall_mem_cons, ih hinv₁ hloop]
      -- the number of headers is read in every round
      constructor
      · rintro ⟨hcount, hheader, hsegment, -, hrest⟩
        exact ⟨fun _ => hcount, ⟨hheader, hsegment⟩, hrest⟩
      · rintro ⟨hcount, ⟨hheader, hsegment⟩, hrest⟩
        have hcount := hcount (Nat.succ_ne_zero n)
        exact ⟨hcount, hheader, hsegment, fun _ => hcount, hrest⟩

/-- A comparison that succeeds has read all of the bytes. -/
theorem of_returns_magic_matches {cs : List UInt8}
    (h : Returns (magic_matches buffer cs : Code A ε Bool) m true m' rs ws) :
    m' = m ∧ rs = addrs buffer cs.length ∧ ws = [] := by
  induction cs generalizing buffer rs ws with
  | nil =>
    obtain ⟨-, rfl, rfl, rfl⟩ := h.of_pure
    exact ⟨rfl, rfl, rfl⟩
  | cons c cs ih =>
    obtain ⟨x, m₁, rs₁, ws₁, rs₂, ws₂, hload, h₁, rfl, rfl⟩ := h.of_bind
    obtain ⟨-, rfl, rfl, rfl, rfl⟩ := hload.of_load
    split at h₁
    · obtain ⟨rfl, rfl, rfl⟩ := ih h₁
      exact ⟨rfl, by rw [List.length_cons, addrs_succ]; rfl, rfl⟩
    · cases h₁.of_pure.1

theorem run_magic_matches {cs : List UInt8} (hmapped : RangeMapped A m buffer (0, cs.length))
    (hcs : bytes (A.view m) buffer cs.length = cs) :
    (magic_matches buffer cs : Code A ε Bool).run m = (.ok true, m) := by
  induction cs generalizing buffer with
  | nil => rfl
  | cons c cs ih =>
    rw [List.length_cons, Nat.add_comm, bytes_add] at hcs
    obtain ⟨hfirst, hrest⟩ := List.cons_eq_cons.mp hcs
    have hfirst : A.view m buffer = c := hfirst
    have hload : (load buffer : Code A ε UInt8).run m = (.ok (A.view m buffer), m) :=
      (Returns.load (hmapped 0 (Nat.succ_pos _))).run
    rw [magic_matches, Prog.run_bind_ok hload, if_pos hfirst]
    refine ih (fun i hi => ?_) hrest
    have hi : i < cs.length := hi
    have hnext := hmapped (i + 1) (by show i + 1 < cs.length + 1; omega)
    rwa [show buffer + 1 + 0 + i = buffer + 0 + (i + 1) by omega]

/-- The ranges of the header that both loaders read. -/
def header_ranges : List (Nat × Nat) := [(0, 4), (32, 8), (56, 2), (24, 8)]

/-! ## A file that stays as it is -/

variable {f' : Bytes} {size : Nat}

/-- The first `size` bytes behind the pointer are mapped, and are those of the file. -/
def Holds (A : AddressSpace) (m : Bytes) (buffer : Nat) (f : Bytes) (size : Nat) : Prop :=
  ∀ o < size, A.Mapped m (buffer + o) ∧ A.view m (buffer + o) = f o

/-- A range is in the file. -/
def InFile (size : Nat) (r : Nat × Nat) : Prop := r.1 + r.2 ≤ size

/-- The fields of the header are in a well formed file. -/
theorem WellFormed.in_header (h : WellFormed f size) (hle : o + n ≤ 64) : InFile size (o, n) :=
  hle.trans h.header

theorem Holds.rangeMapped (h : Holds A m buffer f size) {r : Nat × Nat} (hr : InFile size r) :
    RangeMapped A m buffer r := by
  intro i hi
  unfold InFile at hr
  rw [Nat.add_assoc]
  exact (h (r.1 + i) (by omega)).1

/-- What is read in the file. -/
theorem InFile.range_addrs (hsize : size < 2 ^ 64) (hbuffer : buffer + size ≤ 2 ^ 64)
    {r : Nat × Nat} (hr : InFile size r) :
    ∀ v ∈ range_addrs buffer r, v ∈ Set.Ico buffer (buffer + size) := by
  unfold InFile at hr
  rw [Modern05.range_addrs, addrs_in_window_iff hsize hbuffer]
  omega

theorem load_le_file_congr (h : ∀ o < size, f' o = f o) (hr : InFile size (o, n)) :
    Memory.load_le f' o n = Memory.load_le f o n := by
  unfold InFile at hr
  exact load_le_congr fun i hi => h _ (by omega)

/-- A field of the file. -/
theorem Holds.run_load_field (h : Holds A m buffer f size) (g : Nat → Code A ε α)
    (hr : InFile size (o, n)) :
    (load_field buffer o n >>= g).run m = (g (Memory.load_le f o n)).run m := by
  have hsame : ∀ o < size, file_at A m buffer o = f o := fun o ho => (h o ho).2
  rw [Modern05.run_load_field g (h.rangeMapped hr), load_le_file_congr hsame hr]

theorem Holds.run_magic_matches (h : Holds A m buffer f size) (hf : WellFormed f size) :
    (magic_matches buffer ElfMagic : Code A ε Bool).run m = (.ok true, m) := by
  have hsize := hf.header
  have hmagic : bytes (A.view m) buffer 4 = bytes f 0 4 := by
    refine List.map_congr_left fun i hi => ?_
    rw [(h i (by have := List.mem_range.mp hi; omega)).2, Nat.zero_add]
  have hin : InFile size (0, 4) := hf.in_header (by decide)
  exact Modern05.run_magic_matches (h.rangeMapped hin) (hmagic.trans hf.magic)

theorem segment_at_congr (h : ∀ o < size, f' o = f o) {p_type : Nat}
    (hr : ∀ r ∈ segment_ranges o p_type (segment_at f o p_type), InFile size r) :
    segment_at f' o p_type = segment_at f o p_type := by
  unfold segment_ranges segment_at at hr
  unfold segment_at
  by_cases htype : p_type = PT_LOAD
  · simp only [if_pos htype, List.forall_mem_cons] at hr ⊢
    obtain ⟨hmemsz, hrest⟩ := hr
    rw [load_le_file_congr h hmemsz]
    by_cases hpos : Memory.load_le f (o + 40) 8 > 0
    · simp only [if_pos hpos, Option.isSome_some, if_true, List.forall_mem_cons] at hrest ⊢
      obtain ⟨hoffset, hfilesz, hvaddr, -⟩ := hrest
      rw [load_le_file_congr h hoffset, load_le_file_congr h hfilesz, load_le_file_congr h hvaddr]
    · rw [if_neg hpos, if_neg hpos]
  · rw [if_neg htype, if_neg htype]

/-- A header is determined by the ranges that are read for it. -/
theorem visit_congr (h : ∀ o < size, f' o = f o)
    (hr : ∀ r ∈ (visit f i).ranges, InFile size r) : visit f' i = visit f i := by
  rw [Visit.ranges, List.forall_mem_append] at hr
  obtain ⟨hfields, hsegment⟩ := hr
  simp only [List.forall_mem_cons] at hfields
  obtain ⟨hphoff, hphentsize, htype, -⟩ := hfields
  have hoffset : (visit f' i).offset = (visit f i).offset := by
    rw [visit_offset, visit_offset, e_phoff, e_phentsize, load_le_file_congr h hphoff,
      load_le_file_congr h hphentsize]
    rfl
  have hp_type : (visit f' i).p_type = (visit f i).p_type := by
    rw [visit_p_type, visit_p_type, hoffset]
    exact load_le_file_congr h htype
  have hsegment' : (visit f' i).segment = (visit f i).segment := by
    rw [visit_segment_at] at hsegment
    rw [visit_segment_at f', visit_segment_at f, hoffset, hp_type]
    exact segment_at_congr h hsegment
  cases hx : visit f' i
  cases hy : visit f i
  simp_all

/-- **The loop over a file that stays as it is**, from header to header; `I i` is an invariant of
    the memory when it comes to the header `i`. -/
theorem run_load_segments {I : Nat → Bytes → Prop} (hsize : 58 ≤ size)
    (hfile : ∀ i ≤ e_phnum f, ∀ m, I i m → Holds A m buffer f size)
    (hranges : ∀ i < e_phnum f, ∀ r ∈ (visit f i).ranges, InFile size r)
    (hbody : ∀ i < e_phnum f, ∀ m, I i m →
      ∃ m', (body (visit f i)).run m = (.ok true, m') ∧ I (i + 1) m')
    (hinv : I i m) (hi : i ≤ e_phnum f) (hn : e_phnum f ≤ i + n) :
    ∃ m', (load_segments buffer body n i).run m =
      (.ok (true, (List.range' i (e_phnum f - i)).map (visit f)), m') ∧ I (e_phnum f) m' := by
  induction n generalizing i m with
  | zero =>
    obtain rfl : i = e_phnum f := by omega
    rw [Nat.sub_self]
    exact ⟨m, rfl, hinv⟩
  | succ n ih =>
    have hholds := hfile i hi m hinv
    have hsame : ∀ o < size, file_at A m buffer o = f o := fun o ho => (hholds o ho).2
    have hin : InFile size (56, 2) := hsize
    rw [load_segments, hholds.run_load_field _ hin]
    show ∃ m', (if i < e_phnum f then _ else _ : Code A ε _).run m = _ ∧ _
    by_cases hlt : i < e_phnum f
    · -- the header is found as the file has it, and the body is run on it
      have hvisit := visit_congr hsame (hranges i hlt)
      have hrun : (visit_phdr buffer i : Code A ε Visit).run m = (.ok (visit f i), m) := by
        rw [← hvisit]
        apply run_visit_phdr
        rw [hvisit]
        exact fun r hr => hholds.rangeMapped (hranges i hlt r hr)
      have hrange : List.range' i (e_phnum f - i) =
          i :: List.range' (i + 1) (e_phnum f - (i + 1)) := by
        rw [show e_phnum f - i = e_phnum f - (i + 1) + 1 by omega, List.range'_succ]
      obtain ⟨m₁, hbody₁, hinv₁⟩ := hbody i hlt m hinv
      obtain ⟨m₂, hloop, hinv₂⟩ := ih hinv₁ (by omega) (by omega)
      refine ⟨m₂, ?_, hinv₂⟩
      rw [if_pos hlt, Prog.run_bind_ok hrun, Prog.run_bind_ok hbody₁, if_pos rfl,
        Prog.run_bind_ok hloop, hrange]
      rfl
    · -- no header is left
      obtain rfl : i = e_phnum f := by omega
      rw [if_neg hlt, Nat.sub_self]
      exact ⟨m, rfl, hinv⟩

theorem WellFormed.offset_eq (h : WellFormed f size) (hsize : size < 2 ^ 64)
    (hi : i < e_phnum f) : (visit f i).offset = e_phoff f + 56 * i := by
  have hcount : e_phnum f < 2 ^ 16 := load_le_lt f 56 2
  have htable := h.table
  have hsmall : 56 * i % 2 ^ 32 = 56 * i := Nat.mod_eq_of_lt (by omega)
  show phdr_offset (e_phoff f) (e_phentsize f) i = _
  rw [h.phentsize, phdr_offset, int_extend, hsmall, if_pos (by omega)]
  exact Nat.mod_eq_of_lt (by omega)

/-- A loader of a well formed file stays in the file when it reads its headers. -/
theorem WellFormed.ranges (h : WellFormed f size) (hsize : size < 2 ^ 64) (hi : i < e_phnum f) :
    ∀ r ∈ (visit f i).ranges, InFile size r := by
  have hoffset := h.offset_eq hsize hi
  have htable := h.table
  have hheader := h.header
  -- every field that is read is in the 56 bytes of its header
  have hfits : ∀ o n, o + n ≤ 56 → InFile size ((visit f i).offset + o, n) := by
    intro o n hle
    show (visit f i).offset + o + n ≤ size
    omega
  rw [Visit.ranges, List.forall_mem_append]
  refine ⟨?_, fun r hr => ?_⟩
  · simp only [List.forall_mem_cons, InFile]
    exact ⟨by omega, by omega, hfits 0 4 (by omega), by simp⟩
  · unfold segment_ranges at hr
    split_ifs at hr with htype hsome
    · simp only [List.mem_cons, List.not_mem_nil, or_false] at hr
      rcases hr with rfl | rfl | rfl | rfl
      · exact hfits 40 8 (by omega)
      · exact hfits 8 8 (by omega)
      · exact hfits 32 8 (by omega)
      · exact hfits 16 8 (by omega)
    · rw [List.mem_singleton.mp hr]
      exact hfits 40 8 (by omega)
    · cases hr

theorem segments_below_succ (f : Bytes) (n : Nat) :
    segments_below f (n + 1) = segments_below f n ++ (visit f n).segment.toList := by
  rw [segments_below, List.range_succ, List.filterMap_append]
  cases hsegment : (visit f n).segment <;> simp [segments_below, hsegment]

theorem segments_below_subset (hi : i ≤ e_phnum f) : segments_below f i ⊆ segments f := by
  intro ph hph
  obtain ⟨j, hj, hsegment⟩ := List.mem_filterMap.mp hph
  have hj := List.mem_range.mp hj
  exact List.mem_filterMap.mpr ⟨j, List.mem_range.mpr (by omega), hsegment⟩

theorem mem_segments {ph : Elf64_Phdr} :
    ph ∈ segments f ↔ ∃ i < e_phnum f, (visit f i).segment = some ph := by
  simp [segments, segments_below, List.mem_filterMap]

/-! ## Segments in memory -/

/-- The first `len ph` bytes of a segment, where a loader has the address `lo` at `base`. -/
def segment_piece (base lo : Nat) (len : Elf64_Phdr → Nat) (f : Bytes) (ph : Elf64_Phdr) : Piece :=
  ⟨base + (ph.p_vaddr - lo), len ph, fun k => f (ph.p_offset + k)⟩

/-- The memory when the pieces of the first `i` headers have been written. -/
def write_segments (m : Bytes) (base lo : Nat) (len : Elf64_Phdr → Nat) (f : Bytes) (i : Nat) :
    Bytes :=
  write_all m ((segments_below f i).map (segment_piece base lo len f))

variable {base lo hi : Nat} {len : Elf64_Phdr → Nat}

theorem write_segments_none (h : (visit f i).segment = none) :
    write_segments m base lo len f (i + 1) = write_segments m base lo len f i := by
  rw [write_segments, segments_below_succ, h, Option.toList_none, List.append_nil]
  rfl

theorem write_segments_some {ph : Elf64_Phdr} (h : (visit f i).segment = some ph) :
    write_segments m base lo len f (i + 1) = overwrite (write_segments m base lo len f i)
      (base + (ph.p_vaddr - lo)) (len ph) (fun k => f (ph.p_offset + k)) := by
  rw [write_segments, segments_below_succ, h, Option.toList_some, List.map_append]
  exact write_all_concat m _ (segment_piece base lo len f ph)

theorem SegmentsIn.piece_subset (h : SegmentsIn f lo hi) {ph : Elf64_Phdr} (hph : ph ∈ segments f)
    (hlen : len ph ≤ ph.p_memsz) :
    (segment_piece base lo len f ph).range ⊆ Set.Ico base (base + (hi - lo)) := by
  obtain ⟨hlo, hhi⟩ := h.inside ph hph
  rintro x ⟨hx, hx'⟩
  have hx : base + (ph.p_vaddr - lo) ≤ x := hx
  have hx' : x < base + (ph.p_vaddr - lo) + len ph := hx'
  exact ⟨by omega, by omega⟩

/-- Only the window changes. -/
theorem SegmentsIn.changesOnly (h : SegmentsIn f lo hi) (m : Bytes) (base : Nat)
    (hlen : ∀ ph ∈ segments f, len ph ≤ ph.p_memsz) (hcount : i ≤ e_phnum f) :
    ChangesOnly (Set.Ico base (base + (hi - lo))) m (write_segments m base lo len f i) := by
  refine changesOnly_write_all m fun piece hpiece => ?_
  obtain ⟨ph, hph, rfl⟩ := List.mem_map.mp hpiece
  have hph := segments_below_subset hcount hph
  exact h.piece_subset hph (hlen ph hph)

theorem write_segments_of_notMem {x : Nat}
    (hx : ∀ ph ∈ segments f, x ∉ (segment_piece base lo len f ph).range) :
    write_segments m base lo len f (e_phnum f) x = m x := by
  have hmiss : ∀ p ∈ (segments f).map (segment_piece base lo len f), p.range ⊆ {x}ᶜ := by
    rintro p hp y hy rfl
    obtain ⟨ph, hph, rfl⟩ := List.mem_map.mp hp
    exact hx ph hph hy
  exact changesOnly_write_all m hmiss x (fun hout => hout rfl)

/-- Segments that share no byte are at places that share no byte. -/
theorem SegmentsIn.pieces_disjoint (h : SegmentsIn f lo hi)
    (hlen : ∀ ph ∈ segments f, len ph ≤ ph.p_memsz) :
    ((segments f).map (segment_piece base lo len f)).Pairwise
      (fun p q => Disjoint p.range q.range) := by
  rw [List.pairwise_map]
  refine h.disjoint.imp_of_mem fun {ph ph'} hph hph' hdisjoint => ?_
  obtain ⟨hlo, -⟩ := h.inside ph hph
  obtain ⟨hlo', -⟩ := h.inside ph' hph'
  have hle := hlen ph hph
  have hle' := hlen ph' hph'
  rw [Set.disjoint_left] at hdisjoint ⊢
  rintro x ⟨hx, hx'⟩ ⟨hy, hy'⟩
  have hx : base + (ph.p_vaddr - lo) ≤ x := hx
  have hx' : x < base + (ph.p_vaddr - lo) + len ph := hx'
  have hy : base + (ph'.p_vaddr - lo) ≤ x := hy
  have hy' : x < base + (ph'.p_vaddr - lo) + len ph' := hy'
  exact hdisjoint (a := x - base + lo) ⟨by omega, by omega⟩ ⟨by omega, by omega⟩

/-- The place of a segment is not reached by another one. -/
theorem SegmentsIn.place_notMem (h : SegmentsIn f lo hi) {ph ph' : Elf64_Phdr}
    (hph : ph ∈ segments f) (hph' : ph' ∈ segments f) (hne : ph ≠ ph') {k : Nat}
    (hk : k < ph.p_memsz) : base + (ph.p_vaddr - lo) + k ∉
      Set.Ico (base + (ph'.p_vaddr - lo)) (base + (ph'.p_vaddr - lo) + ph'.p_memsz) := by
  rintro ⟨hlow, hhigh⟩
  obtain ⟨hlo, -⟩ := h.inside ph hph
  obtain ⟨hlo', -⟩ := h.inside ph' hph'
  have : Std.Symm (fun ph ph' : Elf64_Phdr => Disjoint ph.range ph'.range) :=
    ⟨fun _ _ hd => hd.symm⟩
  have hdisjoint : Disjoint ph.range ph'.range := h.disjoint.forall hph hph' hne
  have hin : ph.p_vaddr + k ∈ ph.range := ⟨by omega, by omega⟩
  exact Set.disjoint_left.mp hdisjoint hin ⟨by omega, by omega⟩

/-- **What is where a segment belongs**, after the pieces of all segments have been written. -/
theorem SegmentsIn.write_segments (h : SegmentsIn f lo hi)
    (hlen : ∀ ph ∈ segments f, len ph ≤ ph.p_memsz) {ph : Elf64_Phdr} (hph : ph ∈ segments f)
    {k : Nat} (hk : k < ph.p_memsz) :
    Modern05.write_segments m base lo len f (e_phnum f) (base + (ph.p_vaddr - lo) + k) =
      if k < len ph then f (ph.p_offset + k) else m (base + (ph.p_vaddr - lo) + k) := by
  split
  · next hdata =>
    exact write_all_of_mem m (h.pieces_disjoint hlen) (List.mem_map_of_mem hph) hdata
  · next hbehind =>
    -- no piece reaches the rest of the segment: not its own, and not that of another one
    refine write_segments_of_notMem fun ph' hph' hx => ?_
    have hle := hlen ph' hph'
    have hx₁ : base + (ph'.p_vaddr - lo) ≤ base + (ph.p_vaddr - lo) + k := hx.1
    have hx₂ : base + (ph.p_vaddr - lo) + k < base + (ph'.p_vaddr - lo) + len ph' := hx.2
    by_cases hsame : ph = ph'
    · subst hsame
      omega
    · exact h.place_notMem hph hph' hsame hk ⟨hx₁, by omega⟩

/-- **Copying a segment** out of a file that is kept, to addresses that are mapped to its place. -/
theorem run_copy_segment {S : Set Nat} {ph : Elf64_Phdr} {dst : Nat}
    (hfixed : A.Fixed S Set.univ m) (hrange : (segment_piece base lo len f ph).range ⊆ S)
    (hdst : ∀ k < len ph,
      A.translate m ((dst + k) % 2 ^ 64) = some (base + (ph.p_vaddr - lo) + k))
    (hkept : ∀ o < size, A.Kept S Set.univ m (buffer + o)) (hholds : Holds A m buffer f size)
    (hdata : ph.p_offset + len ph ≤ size) :
    (AddressSpace.memcpy dst (buffer + ph.p_offset) (len ph) : Code A ε Unit).run m =
      (.ok (), overwrite m (base + (ph.p_vaddr - lo)) (len ph) (fun k => f (ph.p_offset + k))) := by
  have hcopy : (AddressSpace.memcpy dst (buffer + ph.p_offset) (len ph) : Code A ε Unit).run m =
      (.ok (), overwrite m (base + (ph.p_vaddr - lo)) (len ph)
        (fun k => A.view m (buffer + ph.p_offset + k))) := by
    refine (Returns.memcpy hfixed hrange (fun k hk => ⟨trivial, hdst k hk⟩) fun k hk => ?_).run
    have hk : k < len ph := hk
    rw [Nat.add_assoc]
    exact hkept _ (by omega)
  have hbytes : ∀ k < len ph, A.view m (buffer + ph.p_offset + k) = f (ph.p_offset + k) := by
    intro k hk
    rw [Nat.add_assoc]
    exact (hholds _ (by omega)).2
  rw [hcopy, overwrite_congr hbytes]

end returns

end Modern05
