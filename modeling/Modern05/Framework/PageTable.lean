import Modern05.Framework.Memory

/-! # Page tables

    Four-level page tables in a memory of bytes. An entry is a 64-bit word: bit 0 says
    that it is present, bit 2 that the user may use it, bit 7 that it maps a large page, and
    bits 12 to 51 hold the number of the frame it refers to.

    `walk m level table vpage` follows the entries for the virtual page `vpage` from a
    table of the given level, named by its frame, to the physical page. Permissions are
    not looked at; `user_walk` wants the user bit at every level.
-/

namespace PageTable

open Memory

variable {m m' : Bytes} {e f : Nat}

/-! ## Entries -/

def Present (e : Nat) : Prop := e % 2 = 1

def Large (e : Nat) : Prop := e / 2 ^ 7 % 2 = 1

def User (e : Nat) : Prop := e / 2 ^ 2 % 2 = 1

/-- The frame an entry refers to. -/
def frame (e : Nat) : Nat := e / 2 ^ 12 % 2 ^ 40

instance : Decidable (Present e) := inferInstanceAs (Decidable (e % 2 = 1))

instance : Decidable (Large e) := inferInstanceAs (Decidable (e / 2 ^ 7 % 2 = 1))

instance : Decidable (User e) := inferInstanceAs (Decidable (e / 2 ^ 2 % 2 = 1))

/-- Set bit `i` of an entry. -/
def set_bit (i e : Nat) : Nat := e % 2 ^ i + 2 ^ i + e / 2 ^ (i + 1) * 2 ^ (i + 1)

/-- Set the frame of an entry; a frame has 40 bits. -/
def set_frame (f e : Nat) : Nat := e % 2 ^ 12 + f % 2 ^ 40 * 2 ^ 12 + e / 2 ^ 52 * 2 ^ 52

/-- An entry that was made present, writable and accessible to the user, in this order,
    and refers to `f`. -/
def user_entry (f e : Nat) : Nat := set_frame f (set_bit 2 (set_bit 1 (set_bit 0 e)))

theorem user_entry_present (f e : Nat) : Present (user_entry f e) := by
  unfold Present user_entry set_frame set_bit
  omega

theorem user_entry_user (f e : Nat) : User (user_entry f e) := by
  unfold User user_entry set_frame set_bit
  omega

theorem frame_user_entry (hf : f < 2 ^ 40) : frame (user_entry f e) = f := by
  unfold frame user_entry set_frame set_bit
  omega

/-- The flag of large pages is left alone. -/
theorem user_entry_large : Large (user_entry f e) ↔ Large e := by
  unfold Large user_entry set_frame set_bit
  omega

theorem set_bit_lt {i : Nat} (hi : i < 5) (he : e < 2 ^ 64) : set_bit i e < 2 ^ 64 := by
  unfold set_bit
  rcases (by omega : i = 0 ∨ i = 1 ∨ i = 2 ∨ i = 3 ∨ i = 4) with rfl | rfl | rfl | rfl | rfl <;>
    omega

theorem set_frame_lt (he : e < 2 ^ 64) : set_frame f e < 2 ^ 64 := by
  unfold set_frame
  omega

/-! ## Assignments to fields of entries -/

/-- An assignment to a field of the entry at `a`. -/
def assign (m : Bytes) (a : Nat) (g : Nat → Nat) : Bytes := store64 m a (g (load64 m a))

/-- Assignments to the present, writable and user bits of the entry at `a` and to its
    frame. -/
def set_user_entry (m : Bytes) (a f : Nat) : Bytes :=
  assign (assign (assign (assign m a (set_bit 0)) a (set_bit 1)) a (set_bit 2)) a (set_frame f)

theorem load64_assign (m : Bytes) (a : Nat) {g : Nat → Nat} (hg : ∀ e < 2 ^ 64, g e < 2 ^ 64) :
    load64 (assign m a g) a = g (load64 m a) :=
  load64_store64 m a (hg _ (load64_lt m a))

theorem changesOnly_assign (m : Bytes) (a : Nat) (g : Nat → Nat) :
    ChangesOnly (Set.Ico a (a + 8)) m (assign m a g) :=
  .overwrite _ (Set.Subset.refl _)

/-- Assignments to fields of the entry at `a`, one after the other. -/
def assign_all (m : Bytes) (a : Nat) (gs : List (Nat → Nat)) : Bytes :=
  gs.foldl (fun m g => assign m a g) m

/-- The fields of an entry stay inside its 64 bits. -/
def Fields (gs : List (Nat → Nat)) : Prop := ∀ g ∈ gs, ∀ e < 2 ^ 64, g e < 2 ^ 64

theorem changesOnly_assign_all (m : Bytes) (a : Nat) (gs : List (Nat → Nat)) :
    ChangesOnly (Set.Ico a (a + 8)) m (assign_all m a gs) := by
  induction gs generalizing m with
  | nil => exact .refl _ m
  | cons g gs ih => exact (changesOnly_assign m a g).trans (ih _)

theorem load64_assign_all (m : Bytes) (a : Nat) {gs : List (Nat → Nat)} (hgs : Fields gs) :
    load64 (assign_all m a gs) a = gs.foldl (fun e g => g e) (load64 m a) := by
  induction gs generalizing m with
  | nil => rfl
  | cons g gs ih =>
    have hfirst := load64_assign m a (hgs g List.mem_cons_self)
    have hrest := ih (assign m a g) (fun g' hg' => hgs g' (List.mem_cons_of_mem g hg'))
    rw [hfirst] at hrest
    exact hrest

theorem load64_set_user_entry (m : Bytes) (a f : Nat) :
    load64 (set_user_entry m a f) a = user_entry f (load64 m a) := by
  unfold set_user_entry user_entry
  rw [load64_assign _ _ (fun _ => set_frame_lt), load64_assign _ _ (fun _ => set_bit_lt (by omega)),
    load64_assign _ _ (fun _ => set_bit_lt (by omega)),
    load64_assign _ _ (fun _ => set_bit_lt (by omega))]

theorem changesOnly_set_user_entry (m : Bytes) (a f : Nat) :
    ChangesOnly (Set.Ico a (a + 8)) m (set_user_entry m a f) :=
  changesOnly_assign_all m a [set_bit 0, set_bit 1, set_bit 2, set_frame f]

/-- Assign the fields `gs i` of the entry `i`, for `n` consecutive entries from `a` on. -/
def fill_fields (m : Bytes) (a : Nat) (gs : Nat → List (Nat → Nat)) : Nat → Bytes
  | 0 => m
  | n + 1 => assign_all (fill_fields m a gs n) (a + 8 * n) (gs n)

theorem changesOnly_fill_fields (m : Bytes) (a : Nat) (gs : Nat → List (Nat → Nat)) (n : Nat) :
    ChangesOnly (Set.Ico a (a + 8 * n)) m (fill_fields m a gs n) := by
  induction n with
  | zero => exact .refl _ m
  | succ n ih =>
    have hold : Set.Ico a (a + 8 * n) ⊆ Set.Ico a (a + 8 * (n + 1)) :=
      Set.Ico_subset_Ico_right (by omega)
    have hnew : Set.Ico (a + 8 * n) (a + 8 * n + 8) ⊆ Set.Ico a (a + 8 * (n + 1)) :=
      Set.Ico_subset_Ico (by omega) (by omega)
    exact (ih.mono hold).trans ((changesOnly_assign_all _ _ _).mono hnew)

/-- Each entry of the range was set once, from what it was at first. -/
theorem load64_fill_fields (m : Bytes) (a : Nat) (gs : Nat → List (Nat → Nat)) {n i : Nat}
    (hgs : Fields (gs i)) (hi : i < n) :
    load64 (fill_fields m a gs n) (a + 8 * i) =
      (gs i).foldl (fun e g => g e) (load64 m (a + 8 * i)) := by
  induction n with
  | zero => omega
  | succ n ih =>
    by_cases e : i = n
    · subst e
      show load64 (assign_all _ _ _) _ = _
      -- The entries before it did not touch this one.
      rw [load64_assign_all _ _ hgs, (changesOnly_fill_fields m a gs i).load64_outside (by omega)]
    · rw [← ih (by omega)]
      exact (changesOnly_assign_all _ _ _).load64_outside (by omega)

/-- Set `n` consecutive entries from `a` on, the entry `i` to the frame `f i`. -/
def fill_entries (m : Bytes) (a : Nat) (f : Nat → Nat) : Nat → Bytes
  | 0 => m
  | n + 1 => set_user_entry (fill_entries m a f n) (a + 8 * n) (f n)

/-- The assignments of `user_entry`. -/
def user_fields (f : Nat) : List (Nat → Nat) := [set_bit 0, set_bit 1, set_bit 2, set_frame f]

theorem fields_user_fields (f : Nat) : Fields (user_fields f) := by
  intro g hg
  simp only [user_fields, List.mem_cons, List.not_mem_nil, or_false] at hg
  rcases hg with rfl | rfl | rfl | rfl
  · exact fun _ => set_bit_lt (by decide)
  · exact fun _ => set_bit_lt (by decide)
  · exact fun _ => set_bit_lt (by decide)
  · exact fun _ => set_frame_lt

theorem fill_entries_eq (m : Bytes) (a : Nat) (f : Nat → Nat) (n : Nat) :
    fill_entries m a f n = fill_fields m a (fun i => user_fields (f i)) n := by
  induction n with
  | zero => rfl
  | succ n ih =>
    show set_user_entry (fill_entries m a f n) _ _ = _
    rw [ih]
    rfl

theorem changesOnly_fill_entries (m : Bytes) (a : Nat) (f : Nat → Nat) (n : Nat) :
    ChangesOnly (Set.Ico a (a + 8 * n)) m (fill_entries m a f n) := by
  rw [fill_entries_eq]
  exact changesOnly_fill_fields m a _ n

theorem load64_fill_entries (m : Bytes) (a : Nat) (f : Nat → Nat) {n i : Nat} (hi : i < n) :
    load64 (fill_entries m a f n) (a + 8 * i) = user_entry (f i) (load64 m (a + 8 * i)) := by
  have hfields := load64_fill_fields m a (fun i => user_fields (f i)) (fields_user_fields (f i)) hi
  rw [fill_entries_eq, hfields, user_fields, user_entry, List.foldl_cons, List.foldl_cons,
    List.foldl_cons, List.foldl_cons, List.foldl_nil]

/-! ## Walks -/

/-- The address of the entry for `vpage` in a table of the given level. -/
def entry_addr (level table vpage : Nat) : Nat :=
  table * 4096 + 8 * (vpage / 512 ^ level % 512)

/-- The physical page of a virtual page, if it is mapped. -/
def walk (m : Bytes) : Nat → Nat → Nat → Option Nat
  | 0, table, _ => some table
  | level + 1, table, vpage =>
    let e := load64 m (entry_addr level table vpage)
    if Present e then
      -- a large page, in the two levels that can have them
      if Large e ∧ (level = 1 ∨ level = 2) then
        some (frame e / 512 ^ level * 512 ^ level + vpage % 512 ^ level)
      else
        walk m level (frame e) vpage
    else
      none

/-- The physical page of a virtual page that the user may use. -/
def user_walk (m : Bytes) : Nat → Nat → Nat → Option Nat
  | 0, table, _ => some table
  | level + 1, table, vpage =>
    let e := load64 m (entry_addr level table vpage)
    if Present e ∧ User e then
      if Large e ∧ (level = 1 ∨ level = 2) then
        some (frame e / 512 ^ level * 512 ^ level + vpage % 512 ^ level)
      else
        user_walk m level (frame e) vpage
    else
      none

/-- The user bit only takes pages away. -/
theorem walk_of_user_walk {level table vpage : Nat} (h : user_walk m level table vpage = some f) :
    walk m level table vpage = some f := by
  induction level generalizing table with
  | zero => exact h
  | succ level ih =>
    simp only [user_walk] at h
    simp only [walk]
    split at h
    · next hentry =>
      rw [if_pos hentry.1]
      split at h
      · next hlarge => rwa [if_pos hlarge]
      · next hsmall =>
        rw [if_neg hsmall]
        exact ih h
    · cases h

/-- The entry at `a` refers to the table in the frame `f`. -/
structure Refers (m : Bytes) (a f : Nat) : Prop where
  present : Present (load64 m a)
  small : ¬ Large (load64 m a)
  frame_eq : frame (load64 m a) = f

theorem walk_of_refers {level table vpage a : Nat} (ha : entry_addr level table vpage = a)
    (h : Refers m a f) : walk m (level + 1) table vpage = walk m level f vpage := by
  simp only [walk, ha, h.present, h.small, h.frame_eq, if_true, false_and, if_false]

theorem walk_of_absent {level table vpage a : Nat} (ha : entry_addr level table vpage = a)
    (h : ¬ Present (load64 m a)) : walk m (level + 1) table vpage = none := by
  simp only [walk, ha, h, if_false]

/-- At the last level the entry decides. -/
theorem walk_one {table vpage a : Nat} (ha : entry_addr 0 table vpage = a) :
    walk m 1 table vpage = if Present (load64 m a) then some (frame (load64 m a)) else none := by
  simp [walk, ha]

theorem user_walk_of_refers {level table vpage a : Nat} (ha : entry_addr level table vpage = a)
    (h : Refers m a f) (huser : User (load64 m a)) :
    user_walk m (level + 1) table vpage = user_walk m level f vpage := by
  simp only [user_walk, ha, h.present, huser, h.small, h.frame_eq, and_self, if_true, false_and,
    if_false]

theorem user_walk_one {table vpage a : Nat} (ha : entry_addr 0 table vpage = a) :
    user_walk m 1 table vpage =
      if Present (load64 m a) ∧ User (load64 m a) then some (frame (load64 m a)) else none := by
  simp [user_walk, ha]

/-- A table that was cleared and then had the entry at `a` set refers to its frame. -/
theorem refers_of_user_entry {a : Nat} {e : Nat} (hf : f < 2 ^ 40)
    (h : load64 m a = user_entry f e) (he : e = 0) : Refers m a f := by
  subst he
  refine ⟨?_, ?_, ?_⟩
  · rw [h]
    exact user_entry_present f 0
  · rw [h, user_entry_large]
    decide
  · rw [h]
    exact frame_user_entry hf

/-- What an entry refers to does not change when the entry does not. -/
theorem Refers.congr {a : Nat} (h : Refers m a f) (e : load64 m' a = load64 m a) :
    Refers m' a f := by
  refine ⟨?_, ?_, ?_⟩
  · rw [e]
    exact h.present
  · rw [e]
    exact h.small
  · rw [e]
    exact h.frame_eq

end PageTable
