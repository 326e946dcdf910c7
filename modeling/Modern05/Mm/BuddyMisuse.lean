import Modern05.Mm.BuddyRuns

/-! # Releasing what is not live

    `free_pages` has two guards, the alignment of the address and the `available` flag of
    the block with that number. Neither knows about live blocks: a node that was split,
    or merged away while its flag was clear, passes both.

    `free_pages_rejects_iff` says exactly which calls are rejected, that is stop at an
    assertion and leave the allocator as it was. An assertion of `try_merge_with_buddy`
    does not count: by then the sibling has been taken off its list and uncounted, and
    nothing that runs later touches the counter of that bucket again.
-/

namespace Modern05

open HeapTree BuddyAllocator LTS

variable {ba : BuddyAllocator} {h h' : BuddyHeap} {b k : Nat}

/-- The end of `free_pages`, once the block `b` was merged into `m`. -/
def free_merged (ba : BuddyAllocator) (b m : Nat) : BuddyProg Unit := do
  ba.store (.available m) true
  ba.add_to_available_list m
  let bucket := bucket_index (ba.block_log2size b)
  let count ← ba.load (.allocated_blocks bucket)
  ba.store (.allocated_blocks bucket) (count - 1)

/-! ## What the list edits write -/

/-- The failures of the list edits are no assertions. -/
def Fault.unchecked : Fault → Prop
  | .assertion _ => False
  | _ => True

/-- All cells but the `available` flags. -/
def not_flag : (β : Type) → BuddyCell β → Prop
  | _, .available _ => False
  | _, _ => True

/-- All cells but the counter of available blocks of bucket `k`. -/
def not_count (k : Nat) : (β : Type) → BuddyCell β → Prop
  | _, .available_blocks i => i ≠ k
  | _, _ => True

/-- What both bounds allow: the links and the heads of the lists. -/
def links_only : (β : Type) → BuddyCell β → Prop
  | _, .next _ | _, .prev _ | _, .first_block _ => True
  | _, _ => False

theorem not_flag_of_links (β : Type) (l : BuddyCell β) (h : links_only β l) : not_flag β l := by
  cases l <;> trivial

theorem not_count_of_links (k : Nat) (β : Type) (l : BuddyCell β) (h : links_only β l) :
    not_count k β l := by
  cases l <;> trivial

section confined

variable {β : Type} {W : (β : Type) → BuddyCell β → Prop} {F : Fault → Prop}

theorem confined_load (hF : ∀ e, e.unchecked → F e) (l : BuddyCell β) :
    Prog.Confined W F (fun _ => True) (ba.load l) := by
  unfold load
  split
  · exact .read fun _ => .ret trivial
  · exact .fail (hF _ trivial)

theorem confined_store (hF : ∀ e, e.unchecked → F e) {l : BuddyCell β} (hl : W β l) (v : β) :
    Prog.Confined W F (fun _ => True) (ba.store l v) := by
  unfold store
  split
  · exact .write hl (.ret trivial)
  · exact .fail (hF _ trivial)

theorem confined_deref (hF : ∀ e, e.unchecked → F e) (o : Option Nat) :
    Prog.Confined W F (fun _ => True) (deref o) := by
  cases o with
  | none => exact .fail (hF _ trivial)
  | some b => exact .ret trivial

theorem confined_unlink (hF : ∀ e, e.unchecked → F e) (hW : ∀ β l, links_only β l → W β l) :
    Prog.Confined W F (fun _ => True) (ba.unlink_block k b) := by
  unfold unlink_block
  apply Prog.Confined.bind (confined_load hF _)
  intro first _
  extract_lets relink
  have hrelink : ∀ u, Prog.Confined W F (fun _ => True) (relink u) := by
    intro u
    apply Prog.Confined.bind (confined_load hF _)
    intro next _
    apply Prog.Confined.bind (confined_load hF _)
    intro prev _
    extract_lets last
    have hlast : ∀ u, Prog.Confined W F (fun _ => True) (last u) := by
      intro u
      cases next with
      | none => exact .ret trivial
      | some n => exact confined_store hF (hW _ _ (by trivial)) _
    cases prev with
    | none => exact hlast ()
    | some p => exact .bind (confined_store hF (hW _ _ (by trivial)) _) fun u _ => hlast u
  split
  · apply Prog.Confined.bind (confined_load hF _)
    intro next _
    split
    · exact .bind (confined_store hF (hW _ _ (by trivial)) _) fun u _ => hrelink u
    · apply Prog.Confined.bind (confined_load hF _)
      intro next _
      exact .bind (confined_store hF (hW _ _ (by trivial)) _) fun u _ => hrelink u
  · exact hrelink ()

theorem confined_remove (hF : ∀ e, e.unchecked → F e) (hW : ∀ β l, links_only β l → W β l)
    (hidx : bucket_index (ba.block_log2size b) = k) (hcount : W _ (.available_blocks k)) :
    Prog.Confined W F (fun _ => True) (ba.remove_from_available_list b) := by
  unfold remove_from_available_list
  rw [hidx]
  apply Prog.Confined.bind (confined_unlink hF hW)
  intro _ _
  apply Prog.Confined.bind (confined_load hF _)
  intro count _
  exact confined_store hF hcount _

theorem confined_add (hF : ∀ e, e.unchecked → F e) (hW : ∀ β l, links_only β l → W β l)
    (hidx : bucket_index (ba.block_log2size b) = k) (hcount : W _ (.available_blocks k)) :
    Prog.Confined W F (fun _ => True) (ba.add_to_available_list b) := by
  have hlink : ∀ {γ : Type} {l : BuddyCell γ} {v : γ} {f : Unit → BuddyProg Unit},
      links_only γ l → (∀ u, Prog.Confined W F (fun _ => True) (f u)) →
      Prog.Confined W F (fun _ => True) (ba.store l v >>= f) :=
    fun hl hf => .bind (confined_store hF (hW _ _ hl) _) fun u _ => hf u
  unfold add_to_available_list
  rw [hidx]
  apply Prog.Confined.bind (confined_load hF _)
  intro first _
  extract_lets count
  have hcounted : ∀ u, Prog.Confined W F (fun _ => True) (count u) := by
    intro u
    apply Prog.Confined.bind (confined_load hF _)
    intro n _
    exact confined_store hF hcount _
  split
  · apply hlink (by trivial)
    intro _
    apply hlink (by trivial)
    intro _
    exact hlink (by trivial) hcounted
  · apply Prog.Confined.bind (confined_load hF _)
    intro first _
    apply Prog.Confined.bind (confined_deref hF _)
    intro f _
    apply Prog.Confined.bind (confined_load hF _)
    intro last _
    apply Prog.Confined.bind (confined_load hF _)
    intro first _
    apply Prog.Confined.bind (confined_deref hF _)
    intro f _
    apply hlink (by trivial)
    intro _
    apply Prog.Confined.bind (confined_deref hF _)
    intro l _
    apply hlink (by trivial)
    intro _
    apply Prog.Confined.bind (confined_load hF _)
    intro first _
    apply hlink (by trivial)
    intro _
    exact hlink (by trivial) hcounted

end confined

/-- Different rows have different buckets, also when the numbers of the buckets wrap. -/
theorem bucket_ne_of_level_lt {x : Nat} (hlt : level x < level b) (hb : level b < 2 ^ 64) :
    bucket_index (ba.block_log2size x) ≠ bucket_index (ba.block_log2size b) := by
  unfold level at hlt hb
  simp only [bucket_index, block_log2size, log2_eq, u64_sub]
  unfold Log2MinSize
  omega

theorem confined_merge_into_parent {A : Nat → Prop}
    (hparent : Prog.Confined (not_count k) (fun _ => True) A
      (ba.try_merge_with_buddy (parent b))) :
    Prog.Confined (not_count k) (fun _ => True) A (merge_into_parent ba b) := by
  have hF : ∀ e : Fault, e.unchecked → True := fun _ _ => trivial
  unfold merge_into_parent
  apply Prog.Confined.bind (confined_store hF (by trivial) _)
  intro _ _
  apply Prog.Confined.bind (confined_load hF _)
  intro parent_available _
  apply Prog.Confined.bind (.check trivial)
  intro _ _
  apply Prog.Confined.bind (confined_load hF _)
  intro parent_valid _
  apply Prog.Confined.bind (.check trivial)
  intro _ _
  apply Prog.Confined.bind (confined_store hF (by trivial) _)
  intro _ _
  apply Prog.Confined.bind (confined_store hF (by trivial) _)
  intro _ _
  exact hparent

section rows

variable {n x : Nat} (hk : ∀ y, level y < n → bucket_index (ba.block_log2size y) ≠ k)

include hk

/-- Merging from a node above row `n` touches only counters of buckets above that row
    and ends above it. -/
theorem confined_try_merge (hx : level x < n) :
    Prog.Confined (not_count k) (fun _ => True) (fun m => level m < n)
      (ba.try_merge_with_buddy x) := by
  have hF : ∀ e : Fault, e.unchecked → True := fun _ _ => trivial
  induction x using Nat.strong_induction_on with
  | _ x ih =>
    rcases Nat.eq_zero_or_pos x with rfl | hpos
    · rw [Inv.try_merge_zero]
      exact .ret hx
    · have hsib : level (sibling x) < n := by
        rwa [level_sibling hpos]
      have hpar : level (parent x) < n := by
        have := level_parent hpos
        omega
      have hne := hk _ hsib
      generalize hidx : bucket_index (ba.block_log2size (sibling x)) = i at hne
      rw [Inv.try_merge_of_pos hpos]
      apply Prog.Confined.bind (confined_load hF _)
      intro buddy_available _
      split
      · exact .ret hx
      · apply Prog.Confined.bind (confined_remove hF (not_count_of_links k) hidx hne)
        intro _ _
        exact confined_merge_into_parent (ih (parent x) (parent_lt hpos) hpar)

/-- So does the end of `free_pages`. -/
theorem confined_free_merged {m : Nat} (hm : level m < n) :
    Prog.Confined (not_count k) (fun _ => True) (fun _ => True) (free_merged ba b m) := by
  have hF : ∀ e : Fault, e.unchecked → True := fun _ _ => trivial
  have hne := hk m hm
  unfold free_merged
  generalize bucket_index (ba.block_log2size b) = i
  generalize hidx : bucket_index (ba.block_log2size m) = j at hne
  apply Prog.Confined.bind (confined_store hF (by trivial) _)
  intro _ _
  apply Prog.Confined.bind (confined_add hF (not_count_of_links k) hidx hne)
  intro _ _
  apply Prog.Confined.bind (confined_load hF _)
  intro count _
  exact confined_store hF (by trivial) _

end rows

/-- Taking a block off a list, whether it was on it or not, uncounts it. -/
theorem count_of_remove (hidx : bucket_index (ba.block_log2size b) = k)
    (hrun : (ba.remove_from_available_list b).run h = (.ok (), h')) :
    h'.available_blocks k = h.available_blocks k - 1 := by
  unfold remove_from_available_list at hrun
  rw [hidx] at hrun
  cases hunlink : (ba.unlink_block k b).run h with
  | mk r h₁ =>
    cases r with
    | error e =>
      rw [Prog.run_bind_error hunlink] at hrun
      cases hrun
    | ok u =>
      rw [Prog.run_bind_ok hunlink] at hrun
      -- Relinking leaves the counters alone.
      have hsame : h₁.available_blocks = h.available_blocks := by
        have hconf : Prog.Confined links_only (fun _ => True) (fun _ => True)
            (ba.unlink_block k b) := confined_unlink (fun _ _ => trivial) (fun _ _ hl => hl)
        have := hconf.run_preserves (I := fun s : BuddyHeap =>
          s.available_blocks = h.available_blocks)
          (by intro γ l v s hl hs; cases l <;> first | exact hs | cases hl) rfl
        rwa [hunlink] at this
      by_cases hk : k < bucket_count
      · simp only [run_load_available_blocks hk, run_store_available_blocks_end hk] at hrun
        cases hrun
        show Function.update _ k _ k = _
        rw [Function.update_self, hsame]
      · rw [load_available_blocks_of_ge hk] at hrun
        cases hrun

/-! ## Which calls are rejected -/

theorem run_free_pages_eq {addr : UInt64}
    (halign : (addr - ba.phy_start) % UInt64.ofNat BlockSize = 0)
    (hb : ba.block_at addr = b) (hlt : b < ba.max_blocks) (hav : h.available b = false) :
    (ba.free_pages addr).run h = (ba.try_merge_with_buddy b >>= free_merged ba b).run h := by
  unfold free_pages
  rw [halign, hb]
  simp only [beq_self_eq_true, Prog.run_check_bind_true, run_load_available hlt, hav,
    Bool.not_false]
  rfl

/-- What follows the write of the flag writes no flag. -/
theorem available_of_free_merged (hlt : b < ba.max_blocks) :
    ((free_merged ba b b).run h).2.available b = true := by
  have hF : ∀ e : Fault, e.unchecked → True := fun _ _ => trivial
  unfold free_merged
  rw [run_store_available hlt]
  have hrest : Prog.Confined not_flag (fun _ => True) (fun _ => True) (do
      ba.add_to_available_list b
      let bucket := bucket_index (ba.block_log2size b)
      let count ← ba.load (.allocated_blocks bucket)
      ba.store (.allocated_blocks bucket) (count - 1)) := by
    generalize hidx : bucket_index (ba.block_log2size b) = k
    apply Prog.Confined.bind (confined_add hF not_flag_of_links hidx trivial)
    intro _ _
    apply Prog.Confined.bind (confined_load hF _)
    intro count _
    exact confined_store hF (by trivial) _
  apply hrest.run_preserves (I := fun s : BuddyHeap => s.available b = true)
  · intro γ l v s hl hs
    cases l with
    | available _ => cases hl
    | _ => exact hs
  · exact Function.update_self ..

/-- A failed run of a sequence failed in the first part or in the second. -/
theorem bind_run_error {α β : Type} {p : BuddyProg α} {f : α → BuddyProg β} {e : Fault}
    (hrun : (p >>= f).run h = (.error e, h')) :
    p.run h = (.error e, h') ∨ ∃ a h₁, p.run h = (.ok a, h₁) ∧ (f a).run h₁ = (.error e, h') := by
  rw [Prog.run_bind] at hrun
  cases hp : p.run h with
  | mk r h₁ =>
    rw [hp] at hrun
    cases r with
    | error e' =>
      cases hrun
      exact .inl rfl
    | ok a => exact .inr ⟨a, h₁, rfl, hrun⟩

/-- A merge with the sibling that stops at an assertion has uncounted the sibling. -/
theorem count_of_merge (hpos : 0 < b) (hb : level b < 2 ^ 64)
    (hidx : bucket_index (ba.block_log2size (sibling b)) = k)
    (hlt : sibling b < ba.max_blocks) (hs : h.available (sibling b) = true) {msg : String}
    (hrun : (ba.try_merge_with_buddy b >>= free_merged ba b).run h =
      (.error (.assertion msg), h')) :
    h'.available_blocks k = h.available_blocks k - 1 := by
  have hlevel := level_sibling hpos
  have hk : ∀ y, level y < level b → bucket_index (ba.block_log2size y) ≠ k := by
    intro y hy
    rw [← hidx]
    exact bucket_ne_of_level_lt (by omega) (by omega)
  have hpar : level (parent b) < level b := by
    have := level_parent hpos
    omega
  have hparent := confined_merge_into_parent (confined_try_merge hk hpar)
  have hkeep : ∀ n : UInt64, ∀ (γ : Type) (l : BuddyCell γ) (v : γ) (s : BuddyHeap),
      not_count k γ l → s.available_blocks k = n → (Cells.set l v s).available_blocks k = n := by
    intro n γ l v s hl hs
    cases l with
    | available_blocks i => exact (Function.update_of_ne (Ne.symm hl) _ _).trans hs
    | _ => exact hs
  have hremove : Prog.Confined (fun _ _ => True) Fault.unchecked (fun _ => True)
      (ba.remove_from_available_list (sibling b)) :=
    confined_remove (fun _ he => he) (fun _ _ _ => trivial) hidx trivial
  -- The merge begins with the removal of the sibling, which is no assertion.
  have hmerge : (ba.try_merge_with_buddy b).run h =
      (ba.remove_from_available_list (sibling b) >>= fun _ => merge_into_parent ba b).run h := by
    rw [Inv.try_merge_of_pos hpos, run_load_available hlt, hs]
    simp only [Bool.not_true, Bool.false_eq_true, if_false]
  rcases bind_run_error hrun with hfail | ⟨m, h₁, hok, hfail⟩
  · rw [hmerge] at hfail
    rcases bind_run_error hfail with hfail | ⟨_, h₁, hok, hfail⟩
    · exact absurd (hremove.run_error hfail) (by simp [Fault.unchecked])
    · have := hparent.run_preserves (hkeep _) (count_of_remove hidx hok)
      rwa [hfail] at this
  · cases hr : (ba.remove_from_available_list (sibling b)).run h with
    | mk r h₂ =>
      cases r with
      | error e =>
        rw [hmerge, Prog.run_bind_error hr] at hok
        cases hok
      | ok u =>
        rw [hmerge, Prog.run_bind_ok hr] at hok
        have h1 := hparent.run_preserves (hkeep _) (count_of_remove hidx hr)
        rw [hok] at h1
        have h2 := (confined_free_merged (b := b) hk (hparent.run_ok hok)).run_preserves
          (hkeep _) h1
        rwa [hfail] at h2

/-- A call that gets past both guards fails without an assertion or leaves a changed
    heap behind. -/
theorem free_pages_not_rejected {addr : UInt64}
    (halign : (addr - ba.phy_start) % UInt64.ofNat BlockSize = 0)
    (hb : ba.block_at addr = b) (hlt : b < ba.max_blocks) (hlevel : level b < 2 ^ 64)
    (hav : h.available b = false) (msg : String) :
    (ba.free_pages addr).run h ≠ (.error (.assertion msg), h) := by
  intro hrun
  rw [run_free_pages_eq halign hb hlt hav] at hrun
  -- Without a merge, the flag of the block itself is set and stays so.
  have hnomerge : (ba.try_merge_with_buddy b).run h = (.ok b, h) → False := by
    intro hmerge
    rw [Prog.run_bind_ok hmerge] at hrun
    have := available_of_free_merged (h := h) hlt
    rw [hrun, hav] at this
    cases this
  rcases Nat.eq_zero_or_pos b with hzero | hpos
  · apply hnomerge
    rw [hzero, Inv.try_merge_zero]
    rfl
  · by_cases hsib : sibling b < ba.max_blocks
    · cases hs : h.available (sibling b) with
      | false =>
        apply hnomerge
        rw [Inv.try_merge_of_pos hpos, run_load_available hsib, hs]
        rfl
      | true =>
        generalize hidx : bucket_index (ba.block_log2size (sibling b)) = k
        have hcount := count_of_merge hpos hlevel hidx hsib hs hrun
        generalize h.available_blocks k = n at hcount
        revert hcount
        grind
    · -- The flag of the sibling is outside of the array.
      rw [Inv.try_merge_of_pos hpos, load_available_of_ge hsib] at hrun
      cases hrun

/-- **Which releases are rejected**: those of an address that is not aligned to the
    smallest blocks, or whose block has its `available` flag set. All others get past
    the guards and fail elsewhere or change the allocator, live or not. -/
theorem free_pages_rejects_iff (R : Region) (heap : BuddyHeap) (addr : UInt64) :
    (∃ msg, (R.allocator.free_pages addr).run heap = (.error (.assertion msg), heap)) ↔
      (addr - R.phy_start) % UInt64.ofNat BlockSize ≠ 0 ∨
        (R.allocator.block_at addr < MaxBlocks ∧
          heap.available (R.allocator.block_at addr) = true) := by
  have hstart : R.allocator.phy_start = R.phy_start := rfl
  generalize hb : R.allocator.block_at addr = b
  by_cases halign : (addr - R.phy_start) % UInt64.ofNat BlockSize = 0
  · by_cases hlt : b < MaxBlocks
    · have hmax : b < R.allocator.max_blocks := hlt
      cases hav : heap.available b with
      | true =>
        -- The second guard.
        refine iff_of_true ⟨"Cannot free available pages", ?_⟩ (.inr ⟨hlt, rfl⟩)
        unfold free_pages
        rw [hb, hstart, halign]
        simp only [beq_self_eq_true, Prog.run_check_bind_true, run_load_available hmax, hav,
          Bool.not_true, Prog.run_check_bind_false]
      | false =>
        apply iff_of_false
        · intro h
          obtain ⟨msg, hrun⟩ := h
          have hlevel : level b < 2 ^ 64 := by
            have hsize : MaxBlocks < 2 ^ 17 := by decide
            have h17 : level b < 17 := level_lt_iff.mpr (by omega)
            omega
          rw [← hstart] at halign
          exact free_pages_not_rejected halign hb hmax hlevel hav msg hrun
        · intro h
          rcases h with h | h
          · exact h halign
          · cases h.2
    · apply iff_of_false
      · -- The flag is outside of the array.
        intro h
        obtain ⟨msg, hrun⟩ := h
        have hmax : ¬ b < R.allocator.max_blocks := hlt
        unfold free_pages at hrun
        rw [hb, hstart, halign] at hrun
        simp only [beq_self_eq_true, Prog.run_check_bind_true, load_available_of_ge hmax] at hrun
        cases hrun
      · intro h
        rcases h with h | h
        · exact h halign
        · exact hlt h.1
  · -- The first guard.
    refine iff_of_true ⟨"Failed to free pages, addr is not aligned", ?_⟩ (.inl halign)
    have hbeq : ((addr - R.phy_start) % UInt64.ofNat BlockSize == 0) = false :=
      beq_eq_false_iff_ne.mpr halign
    unfold free_pages
    rw [hstart, hbeq]
    rfl

/-- With one half of a region of two smallest blocks live, the release of the region's
    start, the address of the split root, is accepted. -/
theorem split_root_is_released :
    ∃ s, Reachable (buddy_system region_128K.allocator) s ∧
      (∀ l ∈ s.live, l.addr region_128K.allocator ≠ region_128K.phy_start) ∧
      ((region_128K.allocator.free_pages region_128K.phy_start).run s.heap).1 = .ok () := by
  have hrun : (after region_128K.allocator [.allocate_pages 16]).map (fun s => (s.live,
      ((region_128K.allocator.free_pages region_128K.phy_start).run s.heap).1)) =
        some ([⟨1, 16⟩], .ok ()) := by decide +kernel
  obtain ⟨s, h, e⟩ := Option.map_eq_some_iff.mp hrun
  simp only [Prod.mk.injEq] at e
  refine ⟨s, reachable_after h, ?_, e.2⟩
  rw [e.1]
  decide

end Modern05
