import Modern05.Framework.Memory
import Modern05.Framework.Prog

/-! # Programs in an address space

    The addresses a program uses are found in memory by a translation, which may itself depend on
    what is in memory, where the page tables are. Addresses have 64 bits. An access to an address
    that is not mapped stops the program.

    `Returns p m a m' rs ws` says that the program `p` returns `a` from the memory `m`, leaves the
    memory `m'`, and on the way has read the addresses `rs` and written the addresses `ws`. For
    each program here there is a lemma that says when it returns, and what.
-/

open Memory

/-- Where the byte at an address is. -/
structure AddressSpace where
  translate : Bytes → Nat → Option Nat

namespace AddressSpace

variable {A : AddressSpace} {ε α β : Type} {m m' m'' : Bytes} {S V : Set Nat}

/-! ## Programs -/

/-- Whether an address is mapped, and the byte behind it. -/
inductive Cell (A : AddressSpace) : Type → Type where
  | mapped (v : Nat) : Cell A Bool
  | byte (v : Nat) : Cell A UInt8

def Mapped (A : AddressSpace) (m : Bytes) (v : Nat) : Prop :=
  (A.translate m (v % 2 ^ 64)).isSome = true

/-- The memory as the program sees it. What is not mapped is zero. -/
def view (A : AddressSpace) (m : Bytes) : Bytes := fun v =>
  match A.translate m (v % 2 ^ 64) with
  | some a => m a
  | none => 0

/-- Write a byte; where nothing is mapped there is none. -/
def update (A : AddressSpace) (m : Bytes) (v : Nat) (x : UInt8) : Bytes :=
  match A.translate m (v % 2 ^ 64) with
  | some a => overwrite m a 1 (fun _ => x)
  | none => m

instance : Cells (Cell A) Bytes where
  get
    | .mapped v, m => (A.translate m (v % 2 ^ 64)).isSome
    | .byte v, m => A.view m v
  set
    | .mapped _, _, m => m
    | .byte v, x, m => A.update m v x

/-- Why a program stops without returning. -/
inductive Stop (ε : Type) where
  | page_fault (vaddr : Nat)
  | raise (e : ε)
  deriving DecidableEq, Repr

abbrev Code (A : AddressSpace) (ε α : Type) := Prog (Cell A) (Stop ε) α

def raise (e : ε) : Code A ε α := .fail (.raise e)

def check (b : Bool) (e : ε) : Code A ε Unit := Prog.check b (.raise e)

def check_mapped (v : Nat) : Code A ε Unit := do
  let mapped ← Prog.load (.mapped v)
  Prog.check mapped (.page_fault v)

def load (v : Nat) : Code A ε UInt8 := do
  check_mapped v
  Prog.load (.byte v)

def store (v : Nat) (x : UInt8) : Code A ε Unit := do
  check_mapped v
  Prog.store (.byte v) x

/-- The number in the `n` bytes from `v` on, least significant byte first. -/
def load_le (v : Nat) : Nat → Code A ε Nat
  | 0 => pure 0
  | n + 1 => do
    let x ← load v
    let rest ← load_le (v + 1) n
    pure (x.toNat + 256 * rest)

/-- Copy `n` bytes, one after the other. -/
def memcpy (dst src : Nat) : Nat → Code A ε Unit
  | 0 => pure ()
  | n + 1 => do
    let x ← load src
    store dst x
    memcpy (dst + 1) (src + 1) n

/-! ## Runs -/

/-- The address of an access. -/
def Cell.addr : Sigma (Cell A) → Option Nat
  | ⟨_, .mapped _⟩ => none
  | ⟨_, .byte v⟩ => some (v % 2 ^ 64)

def reads (p : Code A ε α) (m : Bytes) : List Nat := (Prog.reads p m).filterMap Cell.addr

def writes (p : Code A ε α) (m : Bytes) : List Nat := (Prog.writes p m).filterMap Cell.addr

/-- The `n` addresses from `v` on. -/
def addrs (v n : Nat) : List Nat := (List.range n).map (fun i => (v + i) % 2 ^ 64)

theorem addrs_succ (v n : Nat) : addrs v (n + 1) = v % 2 ^ 64 :: addrs (v + 1) n := by
  simp [addrs, List.range_succ_eq_map, Function.comp_def, Nat.add_comm, Nat.add_left_comm]

theorem mem_addrs {v n x : Nat} : x ∈ addrs v n ↔ ∃ i < n, (v + i) % 2 ^ 64 = x := by
  simp [addrs]

/-- The addresses from `lo + o` on stay in the window from `lo` on when they are within its length;
    addresses that wrap come out before the window or behind it. -/
theorem addrs_in_window_iff {lo len o n : Nat} (hlen : len < 2 ^ 64) (hlo : lo + len ≤ 2 ^ 64) :
    (∀ v ∈ addrs (lo + o) n, v ∈ Set.Ico lo (lo + len)) ↔ n = 0 ∨ o % 2 ^ 64 + n ≤ len := by
  simp only [mem_addrs, Set.mem_Ico]
  constructor
  · intro h
    by_contra hout
    -- the first address of the range, or the one behind the window
    by_cases hstart : o % 2 ^ 64 < len
    · have hend := h _ ⟨len - o % 2 ^ 64, by omega, rfl⟩
      omega
    · have hfirst := h _ ⟨0, by omega, rfl⟩
      omega
  · rintro h v ⟨i, hi, rfl⟩
    omega

/-- The program returns `a`, having read `rs` and written `ws`. -/
structure Returns (p : Code A ε α) (m : Bytes) (a : α) (m' : Bytes) (rs ws : List Nat) : Prop where
  run : p.run m = (.ok a, m')
  reads : AddressSpace.reads p m = rs
  writes : AddressSpace.writes p m = ws

theorem returns_of_run {p : Code A ε α} {a : α} (h : p.run m = (.ok a, m')) :
    Returns p m a m' (AddressSpace.reads p m) (AddressSpace.writes p m) := ⟨h, rfl, rfl⟩

/-- The result of a program, computed. -/
theorem run_of_toOption {p : Code A ε α} {a : α} (h : (p.run m).1.toOption = some a) :
    p.run m = (.ok a, (p.run m).2) := by
  rcases hrun : p.run m with ⟨result, m'⟩
  rw [hrun] at h
  cases result with
  | ok b =>
    cases h
    rfl
  | error e => cases h

namespace Returns

variable {p : Code A ε α} {f : α → Code A ε β} {a a' : α} {b : β} {rs rs' ws ws' : List Nat}

theorem unique (h : Returns p m a m' rs ws) (h' : Returns p m a' m'' rs' ws') :
    a = a' ∧ m' = m'' ∧ rs = rs' ∧ ws = ws' := by
  have hrun := h.run.symm.trans h'.run
  cases hrun
  exact ⟨rfl, rfl, h.reads.symm.trans h'.reads, h.writes.symm.trans h'.writes⟩

theorem bind (hp : Returns p m a m' rs ws) (hf : Returns (f a) m' b m'' rs' ws') :
    Returns (p >>= f) m b m'' (rs ++ rs') (ws ++ ws') := by
  refine ⟨?_, ?_, ?_⟩
  · rw [Prog.run_bind_ok hp.run, hf.run]
  · rw [AddressSpace.reads, Prog.reads_bind_ok hp.run, List.filterMap_append]
    exact congrArg₂ (· ++ ·) hp.reads hf.reads
  · rw [AddressSpace.writes, Prog.writes_bind_ok hp.run, List.filterMap_append]
    exact congrArg₂ (· ++ ·) hp.writes hf.writes

/-- A sequence that returns, part by part. -/
theorem of_bind (h : Returns (p >>= f) m b m'' rs ws) : ∃ a m' rs₁ ws₁ rs₂ ws₂,
    Returns p m a m' rs₁ ws₁ ∧ Returns (f a) m' b m'' rs₂ ws₂ ∧
      rs = rs₁ ++ rs₂ ∧ ws = ws₁ ++ ws₂ := by
  obtain ⟨a, m', hp, hf⟩ := Prog.of_run_bind_ok h.run
  have hseq := (returns_of_run hp).bind (returns_of_run hf)
  obtain ⟨-, -, hrs, hws⟩ := h.unique hseq
  exact ⟨a, m', _, _, _, _, returns_of_run hp, returns_of_run hf, hrs, hws⟩

/-! Each program, when it returns and what follows when it has. -/

variable {u : Unit} {x : UInt8} {v n dst src : Nat}

theorem pure (a : α) (m : Bytes) : Returns (Pure.pure a : Code A ε α) m a m [] [] :=
  ⟨rfl, rfl, rfl⟩

theorem of_pure (h : Returns (Pure.pure a : Code A ε α) m a' m' rs ws) :
    a' = a ∧ m' = m ∧ rs = [] ∧ ws = [] := h.unique (pure a m)

theorem not_raise {e : ε} : ¬ Returns (raise e : Code A ε α) m a m' rs ws := by
  intro h
  cases h.run

theorem check (e : ε) (m : Bytes) : Returns (check true e : Code A ε Unit) m () m [] [] :=
  pure () m

theorem of_check {b : Bool} {e : ε}
    (h : Returns (AddressSpace.check b e : Code A ε Unit) m u m' rs ws) :
    b = true ∧ m' = m ∧ rs = [] ∧ ws = [] := by
  cases b with
  | true => exact ⟨rfl, (h.unique (check e m)).2⟩
  | false => cases h.run

theorem check_mapped (h : A.Mapped m v) :
    Returns (check_mapped v : Code A ε Unit) m () m [] [] := by
  refine ⟨?_, ?_, ?_⟩
  · show Prog.run (Prog.check (A.translate m (v % 2 ^ 64)).isSome _) m = _
    rw [h]
    rfl
  · show (Prog.reads (Prog.check (A.translate m (v % 2 ^ 64)).isSome _) m).filterMap _ = _
    rw [h]
    rfl
  · show (Prog.writes (Prog.check (A.translate m (v % 2 ^ 64)).isSome _) m).filterMap _ = _
    rw [h]
    rfl

theorem of_check_mapped (h : Returns (AddressSpace.check_mapped v : Code A ε Unit) m u m' rs ws) :
    A.Mapped m v ∧ m' = m ∧ rs = [] ∧ ws = [] := by
  by_cases hmapped : A.Mapped m v
  · exact ⟨hmapped, (h.unique (check_mapped hmapped)).2⟩
  · have hrun : Prog.run (Prog.check (A.translate m (v % 2 ^ 64)).isSome _) m = _ := h.run
    rw [Bool.eq_false_iff.mpr hmapped] at hrun
    cases hrun

theorem byte (v : Nat) (m : Bytes) :
    Returns (Prog.load (.byte v) : Code A ε UInt8) m (A.view m v) m [v % 2 ^ 64] [] :=
  ⟨rfl, rfl, rfl⟩

theorem load (h : A.Mapped m v) :
    Returns (load v : Code A ε UInt8) m (A.view m v) m [v % 2 ^ 64] [] :=
  (check_mapped h).bind (byte v m)

theorem of_load (h : Returns (AddressSpace.load v : Code A ε UInt8) m x m' rs ws) :
    A.Mapped m v ∧ x = A.view m v ∧ m' = m ∧ rs = [v % 2 ^ 64] ∧ ws = [] := by
  obtain ⟨_, _, _, _, _, _, hcheck, -, -, -⟩ := h.of_bind
  have hmapped := hcheck.of_check_mapped.1
  exact ⟨hmapped, h.unique (load hmapped)⟩

theorem store (x : UInt8) (h : A.Mapped m v) :
    Returns (store v x : Code A ε Unit) m () (A.update m v x) [] [v % 2 ^ 64] :=
  (check_mapped h).bind ⟨rfl, rfl, rfl⟩

theorem of_store (h : Returns (AddressSpace.store v x : Code A ε Unit) m u m' rs ws) :
    A.Mapped m v ∧ m' = A.update m v x ∧ rs = [] ∧ ws = [v % 2 ^ 64] := by
  obtain ⟨_, _, _, _, _, _, hcheck, -, -, -⟩ := h.of_bind
  have hmapped := hcheck.of_check_mapped.1
  exact ⟨hmapped, (h.unique (store x hmapped)).2⟩

theorem load_le (h : ∀ i < n, A.Mapped m (v + i)) :
    Returns (load_le v n : Code A ε Nat) m (Memory.load_le (A.view m) v n) m (addrs v n) [] := by
  induction n generalizing v with
  | zero => exact pure 0 m
  | succ n ih =>
    have hrest := ih (v := v + 1) fun i hi => by
      rw [Nat.add_right_comm, Nat.add_assoc]
      exact h (i + 1) (by omega)
    have hall : Returns (AddressSpace.load_le v (n + 1) : Code A ε Nat) m
        (Memory.load_le (A.view m) v (n + 1)) m ([v % 2 ^ 64] ++ (addrs (v + 1) n ++ [])) [] :=
      (load (h 0 (by omega))).bind (hrest.bind (pure _ m))
    rw [List.append_nil] at hall
    rw [addrs_succ]
    exact hall

theorem of_load_le {k : Nat} (h : Returns (AddressSpace.load_le v n : Code A ε Nat) m k m' rs ws) :
    (∀ i < n, A.Mapped m (v + i)) ∧ k = Memory.load_le (A.view m) v n ∧ m' = m ∧
      rs = addrs v n ∧ ws = [] := by
  -- the result is determined as soon as all bytes are known to be mapped
  have hmapped : ∀ i < n, A.Mapped m (v + i) := by
    induction n generalizing v k rs ws with
    | zero =>
      intro i hi
      omega
    | succ n ih =>
      obtain ⟨x, m₁, rs₁, ws₁, rs₂, ws₂, hfirst, htail, -, -⟩ := h.of_bind
      obtain ⟨hmapped, -, rfl, -, -⟩ := hfirst.of_load
      obtain ⟨rest, m₂, rs₃, ws₃, rs₄, ws₄, hrest, hsum, -, -⟩ := htail.of_bind
      obtain ⟨-, rfl, -, -⟩ := hsum.of_pure
      intro i hi
      cases i with
      | zero => exact hmapped
      | succ i =>
        rw [← Nat.add_assoc, Nat.add_right_comm]
        exact ih hrest i (by omega)
  exact ⟨hmapped, h.unique (load_le hmapped)⟩

theorem of_load_le_bind {g : Nat → Code A ε β}
    (h : Returns (AddressSpace.load_le v n >>= g) m b m' rs ws) :
    ∃ rs', rs = addrs v n ++ rs' ∧
      Returns (g (Memory.load_le (A.view m) v n)) m b m' rs' ws := by
  obtain ⟨k, m₁, rs₁, ws₁, rs₂, ws₂, hload, hrest, rfl, rfl⟩ := h.of_bind
  obtain ⟨-, rfl, rfl, rfl, rfl⟩ := hload.of_load_le
  exact ⟨rs₂, rfl, hrest⟩

/-- **A copy that returns** has read its source and written its destination. -/
theorem of_memcpy (h : Returns (memcpy dst src n : Code A ε Unit) m u m' rs ws) :
    rs = addrs src n ∧ ws = addrs dst n := by
  induction n generalizing dst src m rs ws with
  | zero =>
    obtain ⟨-, -, rfl, rfl⟩ := h.of_pure
    exact ⟨rfl, rfl⟩
  | succ n ih =>
    obtain ⟨x, m₁, rs₁, ws₁, rs₂, ws₂, hload, hcopy, rfl, rfl⟩ := h.of_bind
    obtain ⟨-, rfl, rfl, rfl, rfl⟩ := hload.of_load
    obtain ⟨_, m₂, rs₃, ws₃, rs₄, ws₄, hstore, hrest, rfl, rfl⟩ := hcopy.of_bind
    obtain ⟨-, rfl, rfl, rfl⟩ := hstore.of_store
    obtain ⟨rfl, rfl⟩ := ih hrest
    simp [addrs_succ]

end Returns

/-! ## Copies -/

/-- The addresses in `V` stay where they are while only `S` is changed. -/
def Fixed (A : AddressSpace) (S V : Set Nat) (m : Bytes) : Prop :=
  ∀ m', ChangesOnly S m m' → ∀ v ∈ V, A.translate m' v = A.translate m v

theorem Fixed.congr (h : A.Fixed S V m) (hm : ChangesOnly S m m') : A.Fixed S V m' :=
  fun m'' hm'' v hv => (h m'' (hm.trans hm'') v hv).trans (h m' hm v hv).symm

theorem view_of_translate {v a : Nat} (h : A.translate m (v % 2 ^ 64) = some a) :
    A.view m v = m a := by
  rw [view, h]

theorem mapped_of_translate {v a : Nat} (h : A.translate m (v % 2 ^ 64) = some a) :
    A.Mapped m v := by
  rw [Mapped, h]
  rfl

/-- The address is fixed, and its byte is not among those that change. -/
def Kept (A : AddressSpace) (S V : Set Nat) (m : Bytes) (v : Nat) : Prop :=
  v % 2 ^ 64 ∈ V ∧ ∃ a, A.translate m (v % 2 ^ 64) = some a ∧ a ∉ S

theorem Kept.mapped {v : Nat} (h : A.Kept S V m v) : A.Mapped m v := by
  obtain ⟨-, a, ha, -⟩ := h
  exact mapped_of_translate ha

theorem Kept.congr {v : Nat} (h : A.Kept S V m v) (hfixed : A.Fixed S V m)
    (hm : ChangesOnly S m m') : A.Kept S V m' v ∧ A.view m' v = A.view m v := by
  obtain ⟨hv, a, ha, haS⟩ := h
  have ha' : A.translate m' (v % 2 ^ 64) = some a := (hfixed m' hm _ hv).trans ha
  refine ⟨⟨hv, a, ha', haS⟩, ?_⟩
  rw [view_of_translate ha', view_of_translate ha, hm a haS]

/-- **A copy where everything is mapped** returns. It changes the range that its destination is
    mapped to, and a byte that is not in this range is copied as it was. -/
theorem run_memcpy_of_mapped {dst src a n : Nat} (hmapped : ∀ v, A.Mapped m v)
    (hfixed : A.Fixed Set.univ Set.univ m)
    (hdst : ∀ i < n, A.translate m ((dst + i) % 2 ^ 64) = some (a + i)) :
    ∃ m', (AddressSpace.memcpy dst src n : Code A ε Unit).run m = (.ok (), m') ∧
      ChangesOnly (Set.Ico a (a + n)) m m' ∧
      ∀ i < n, A.Kept (Set.Ico a (a + n)) Set.univ m (src + i) →
        m' (a + i) = A.view m (src + i) := by
  induction n generalizing dst src a m with
  | zero => exact ⟨m, rfl, .refl _ m, fun i hi => absurd hi (Nat.not_lt_zero i)⟩
  | succ n ih =>
    let m₁ := A.update m dst (A.view m src)
    have hupdate : m₁ = overwrite m a 1 (fun _ => A.view m src) := by
      have hfirst := hdst 0 (by omega)
      rw [Nat.add_zero, Nat.add_zero] at hfirst
      show A.update m dst _ = _
      rw [update, hfirst]
    have hm₁ : ChangesOnly Set.univ m m₁ := fun x hx => absurd trivial hx
    have htranslate : ∀ v, A.translate m₁ v = A.translate m v := fun v => hfixed m₁ hm₁ v trivial
    have hmapped₁ : ∀ v, A.Mapped m₁ v := by
      intro v
      rw [Mapped, htranslate]
      exact hmapped v
    have hdst₁ : ∀ i < n, A.translate m₁ ((dst + 1 + i) % 2 ^ 64) = some (a + 1 + i) := by
      intro i hi
      rw [htranslate, show dst + 1 + i = dst + (i + 1) by omega,
        show a + 1 + i = a + (i + 1) by omega]
      exact hdst (i + 1) (by omega)
    obtain ⟨m₂, hrest, honly, hdata⟩ :
        ∃ m₂, (AddressSpace.memcpy (dst + 1) (src + 1) n : Code A ε Unit).run m₁ = (.ok (), m₂) ∧
          ChangesOnly (Set.Ico (a + 1) (a + 1 + n)) m₁ m₂ ∧
          ∀ i < n, A.Kept (Set.Ico (a + 1) (a + 1 + n)) Set.univ m₁ (src + 1 + i) →
            m₂ (a + 1 + i) = A.view m₁ (src + 1 + i) := ih hmapped₁ (hfixed.congr hm₁) hdst₁
    have hload := (Returns.load (ε := ε) (hmapped src)).run
    have hstore := (Returns.store (ε := ε) (A.view m src) (hmapped dst)).run
    refine ⟨m₂, ?_, ?_, ?_⟩
    · rw [AddressSpace.memcpy, Prog.run_bind_ok hload, Prog.run_bind_ok hstore, hrest]
    · have hfirst : ChangesOnly (Set.Ico a (a + (n + 1))) m m₁ := by
        rw [hupdate]
        exact .overwrite_byte _ ⟨by omega, by omega⟩
      exact hfirst.trans (honly.mono (Set.Ico_subset_Ico (by omega) (by omega)))
    · intro i hi hkept
      rcases i with _ | i
      · rw [Nat.add_zero, Nat.add_zero, honly a (fun hmem => absurd hmem.1 (by omega)), hupdate,
          overwrite_of_mem ⟨by omega, by omega⟩]
      · -- the byte is not the one that was written before it
        obtain ⟨-, b, hb, hout⟩ := hkept
        have hb₁ : A.translate m₁ ((src + 1 + i) % 2 ^ 64) = some b := by
          rw [htranslate, show src + 1 + i = src + (i + 1) by omega]
          exact hb
        have hsame : m₁ b = m b := by
          rw [hupdate, overwrite_of_notMem]
          exact fun hmem => hout ⟨hmem.1, by have := hmem.2; omega⟩
        have hcopied := hdata i (by omega) ⟨trivial, b, hb₁, fun hmem =>
          hout ⟨by have := hmem.1; omega, by have := hmem.2; omega⟩⟩
        rw [show a + (i + 1) = a + 1 + i by omega, hcopied, view_of_translate hb₁,
          view_of_translate hb, hsame]

/-- **A copy** from bytes that are kept to addresses that are mapped to one range. -/
theorem Returns.memcpy {dst src a n : Nat} (hfixed : A.Fixed S V m)
    (hS : Set.Ico a (a + n) ⊆ S)
    (hdst : ∀ i < n, (dst + i) % 2 ^ 64 ∈ V ∧ A.translate m ((dst + i) % 2 ^ 64) = some (a + i))
    (hsrc : ∀ i < n, A.Kept S V m (src + i)) :
    Returns (memcpy dst src n : Code A ε Unit) m ()
      (overwrite m a n (fun i => A.view m (src + i))) (addrs src n) (addrs dst n) := by
  induction n generalizing dst src a m with
  | zero =>
    rw [overwrite_zero]
    exact .pure () m
  | succ n ih =>
    obtain ⟨-, hfirst⟩ := hdst 0 (by omega)
    have hupdate : A.update m dst (A.view m src) = overwrite m a 1 (fun _ => A.view m src) := by
      rw [update, show dst % 2 ^ 64 = (dst + 0) % 2 ^ 64 from rfl, hfirst]
      rfl
    let m₁ := overwrite m a 1 (fun _ => A.view m src)
    have hm₁ : ChangesOnly S m m₁ := .overwrite_byte _ (hS ⟨by omega, by omega⟩)
    have hrest : Returns (AddressSpace.memcpy (dst + 1) (src + 1) n : Code A ε Unit) m₁ ()
        (overwrite m₁ (a + 1) n (fun i => A.view m₁ (src + 1 + i))) (addrs (src + 1) n)
        (addrs (dst + 1) n) := by
      refine ih (hfixed.congr hm₁) (fun x hx => ?_) (fun i hi => ?_) (fun i hi => ?_)
      · have hx : a + 1 ≤ x ∧ x < a + 1 + n := hx
        exact hS ⟨by omega, by omega⟩
      · obtain ⟨hv, htranslate⟩ := hdst (i + 1) (by omega)
        rw [show dst + 1 + i = dst + (i + 1) by omega, show a + 1 + i = a + (i + 1) by omega,
          hfixed m₁ hm₁ _ hv]
        exact ⟨hv, htranslate⟩
      · rw [show src + 1 + i = src + (i + 1) by omega]
        exact ((hsrc (i + 1) (by omega)).congr hfixed hm₁).1
    have hall : Returns (AddressSpace.memcpy dst src (n + 1) : Code A ε Unit) m ()
        (overwrite m₁ (a + 1) n (fun i => A.view m₁ (src + 1 + i)))
        ([src % 2 ^ 64] ++ ([] ++ addrs (src + 1) n))
        ([] ++ ([dst % 2 ^ 64] ++ addrs (dst + 1) n)) :=
      (Returns.load (hsrc 0 (by omega)).mapped).bind
        ((hupdate ▸ Returns.store _ (mapped_of_translate hfirst)).bind hrest)
    have hmem : overwrite m₁ (a + 1) n (fun i => A.view m₁ (src + 1 + i)) =
        overwrite m a (n + 1) (fun i => A.view m (src + i)) := by
      have hfirst : m₁ = overwrite m a 1 (fun i => A.view m (src + i)) :=
        overwrite_congr fun i hi => by rw [Nat.lt_one_iff.mp hi, Nat.add_zero]
      have hrest : ∀ i < n, A.view m₁ (src + 1 + i) = A.view m (src + (1 + i)) := fun i hi => by
        rw [show src + 1 + i = src + (i + 1) by omega, show 1 + i = i + 1 by omega]
        exact ((hsrc (i + 1) (by omega)).congr hfixed hm₁).2
      rw [overwrite_congr hrest, hfirst, Nat.add_comm n 1]
      exact overwrite_add m a 1 n (fun i => A.view m (src + i))
    rw [hmem] at hall
    rw [addrs_succ, addrs_succ]
    exact hall

end AddressSpace
