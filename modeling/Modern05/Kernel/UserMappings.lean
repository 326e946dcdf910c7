import Modern05.Kernel.UserTables

/-! # Translation of user addresses

    After the constructor of `Process` and any calls of `map_user_addr`, the hardware
    translates a user address by the last call that covered it. The calls write one array,
    `pt`, indexed by the virtual page; the hardware walks four levels of tables, and wants
    the user bit at each of them.

    * `user_walk_eq`: the walk reads the entry of `pt` for the page.
    * `user_page_map_user_addr`: a call sets the pages it covers and no others.
    * `Follows.map_call`: so one more call is what the last covering call makes of it.
-/

namespace Modern05

open Memory PageTable

/-! ## Calls -/

/-- The arguments of `map_user_addr`. -/
structure MapCall where
  vaddr : Nat
  paddr : Nat
  n_pages : Nat

namespace MapCall

def covers (c : MapCall) (v : Nat) : Bool :=
  c.vaddr ≤ v && v < c.vaddr + PAGE_SIZE * c.n_pages

theorem covers_eq (c : MapCall) (v : Nat) :
    c.covers v = true ↔ c.vaddr ≤ v ∧ v < c.vaddr + PAGE_SIZE * c.n_pages := by
  simp only [covers, Bool.and_eq_true, decide_eq_true_eq]

/-- Whole pages below 1 GiB, at physical addresses of 52 bits. -/
structure Valid (c : MapCall) : Prop where
  vaddr_aligned : c.vaddr % PAGE_SIZE = 0
  paddr_aligned : c.paddr % PAGE_SIZE = 0
  vaddr_le : c.vaddr + PAGE_SIZE * c.n_pages ≤ 2 ^ 30
  paddr_lt : c.paddr + PAGE_SIZE * c.n_pages < 2 ^ 52

end MapCall

def map_calls (mem : Bytes) (pts : Nat) (cs : List MapCall) : Bytes :=
  cs.foldl (fun mem c => map_user_addr mem pts c.vaddr c.paddr c.n_pages) mem

/-- The calls of the constructor: the image and the stack. -/
def constructor_calls (image stack : Nat) : List MapCall :=
  [⟨USER_IMAGE_START, image, USER_IMAGE_SIZE / PAGE_SIZE⟩,
    ⟨USER_STACK_START, stack, USER_STACK_SIZE / PAGE_SIZE⟩]

/-- What the calls are meant to do: the last one that covers an address decides. -/
def last_mapping (cs : List MapCall) (v : Nat) : Option Nat :=
  (cs.reverse.find? (·.covers v)).map (fun c => c.paddr + (v - c.vaddr))

/-- The physical address that the hardware finds for the user. -/
def user_translate (mem : Bytes) (pts v : Nat) : Option Nat :=
  (user_walk mem 4 (pts / 4096) (v / 4096)).map (fun f => f * 4096 + v % 4096)

theorem last_mapping_concat (cs : List MapCall) (c : MapCall) (v : Nat) :
    last_mapping (cs ++ [c]) v =
      if c.covers v = true then some (c.paddr + (v - c.vaddr)) else last_mapping cs v := by
  by_cases hc : c.covers v = true
  · simp [last_mapping, hc]
  · simp [last_mapping, hc]

/-- An address above the calls is not covered. -/
theorem last_mapping_none {cs : List MapCall} (hcs : ∀ c ∈ cs, c.Valid) {v : Nat}
    (hv : 2 ^ 30 ≤ v) : last_mapping cs v = none := by
  have hnone : cs.reverse.find? (·.covers v) = none := by
    rw [List.find?_eq_none]
    intro c hc hcovers
    have hle := (hcs c (List.mem_reverse.mp hc)).vaddr_le
    rw [MapCall.covers_eq] at hcovers
    omega
  rw [last_mapping, hnone]
  rfl

/-- A valid call covers an address when it covers its page, and maps it to the same place in
    the physical page. -/
theorem MapCall.Valid.covers_iff {c : MapCall} (h : c.Valid) (v : Nat) :
    c.covers v = true ↔
      c.vaddr / 2 ^ 12 ≤ v / 4096 ∧ v / 4096 < c.vaddr / 2 ^ 12 + c.n_pages := by
  have haligned := h.vaddr_aligned
  rw [MapCall.covers_eq]
  unfold PAGE_SIZE at haligned ⊢
  omega

theorem MapCall.Valid.address_eq {c : MapCall} (h : c.Valid) {v : Nat} (hv : c.covers v = true) :
    (c.paddr / 2 ^ 12 + (v / 4096 - c.vaddr / 2 ^ 12)) * 4096 + v % 4096 =
      c.paddr + (v - c.vaddr) := by
  have hvaddr := h.vaddr_aligned
  have hpaddr := h.paddr_aligned
  rw [MapCall.covers_eq] at hv
  unfold PAGE_SIZE at hvaddr hpaddr hv
  omega

/-! ## Walks of the user -/

variable {mem mem' : Bytes} {pts vpage : Nat} {S : Set Nat}

/-- The user bits of the upper tables. -/
structure UserBits (mem : Bytes) (pts : Nat) : Prop where
  pml4t : User (load64 mem pts)
  pdpt : User (load64 mem (pts + 4096))
  pdt : ∀ i < 512, User (load64 mem (pts + 8192 + 8 * i))

theorem UserBits.congr (h : UserBits mem pts) (hm : ChangesOnly S mem mem')
    (hS : Disjoint S (Set.Ico pts (pts + 12288))) : UserBits mem' pts := by
  have hload : ∀ a, pts ≤ a → a + 8 ≤ pts + 12288 → load64 mem' a = load64 mem a :=
    fun a hlow hhigh => hm.load64 (hS.mono_right (Set.Ico_subset_Ico hlow hhigh))
  refine ⟨?_, ?_, fun i hi => ?_⟩
  · rw [hload _ (by omega) (by omega)]
    exact h.pml4t
  · rw [hload _ (by omega) (by omega)]
    exact h.pdpt
  · rw [hload _ (by omega) (by omega)]
    exact h.pdt i hi

/-- The entry of `pt` for a page, as the user sees it. -/
def user_page (mem : Bytes) (pts vpage : Nat) : Option Nat :=
  let e := load64 mem (pt_addr pts vpage)
  if Present e ∧ User e then some (frame e) else none

/-- **A walk of the user reads `pt`.** -/
theorem user_walk_eq (haligned : pts % 4096 = 0) (ht : UserTables mem pts) (hu : UserBits mem pts)
    (hv : vpage < PROCESS_MAX_USER_PAGES) :
    user_walk mem 4 (pts / 4096) vpage = user_page mem pts vpage := by
  obtain ⟨htop, hsecond, hthird, hlast⟩ := user_entry_addrs haligned hv
  have hpdt : vpage / 512 < 512 := by
    unfold PROCESS_MAX_USER_PAGES at hv
    omega
  rw [user_walk_of_refers htop ht.pml4t hu.pml4t, user_walk_of_refers hsecond ht.pdpt hu.pdpt,
    user_walk_of_refers hthird (ht.pdt _ hpdt) (hu.pdt _ hpdt), user_walk_one hlast]
  rfl

/-- A call sets the pages it covers. -/
theorem user_page_map_user_addr {vaddr paddr n : Nat} (hbound : paddr / 2 ^ 12 + n ≤ 2 ^ 40) :
    user_page (map_user_addr mem pts vaddr paddr n) pts vpage =
      if vaddr / 2 ^ 12 ≤ vpage ∧ vpage < vaddr / 2 ^ 12 + n then
        some (paddr / 2 ^ 12 + (vpage - vaddr / 2 ^ 12))
      else user_page mem pts vpage := by
  by_cases hin : vaddr / 2 ^ 12 ≤ vpage ∧ vpage < vaddr / 2 ^ 12 + n
  · have hi : vpage - vaddr / 2 ^ 12 < n := by omega
    have hentry : load64 (map_user_addr mem pts vaddr paddr n)
        (pt_addr pts (vaddr / 2 ^ 12 + (vpage - vaddr / 2 ^ 12))) = _ := load64_map_user_addr hi
    rw [Nat.add_sub_cancel' hin.1] at hentry
    rw [if_pos hin, user_page, hentry,
      if_pos ⟨user_entry_present _ _, user_entry_user _ _⟩, frame_user_entry (by omega)]
  · rw [if_neg hin, user_page, load64_map_user_addr_of_notMem (by omega)]
    rfl

/-! ## Any sequence of calls -/

/-- The tables translate the user's addresses below 1 GiB as the calls say. -/
structure Follows (mem : Bytes) (pts : Nat) (cs : List MapCall) : Prop where
  upper : UserTables mem pts
  bits : UserBits mem pts
  pages : ∀ v < 2 ^ 30, (user_page mem pts (v / 4096)).map (fun f => f * 4096 + v % 4096) =
    last_mapping cs v

theorem Follows.congr {cs : List MapCall} (h : Follows mem pts cs) (hm : ChangesOnly S mem mem')
    (hS : Disjoint S (table_bytes pts)) : Follows mem' pts cs := by
  have hupper := hS.mono_right upper_subset_tables
  refine ⟨h.upper.congr hm hupper, h.bits.congr hm hupper, fun v hv => ?_⟩
  have hentry : Set.Ico (pt_addr pts (v / 4096)) (pt_addr pts (v / 4096) + 8) ⊆
      table_bytes pts := by
    apply entry_subset_tables <;> unfold pt_addr PAGE_SIZE <;> omega
  rw [user_page, hm.load64 (hS.mono_right hentry)]
  exact h.pages v hv

theorem Follows.map_call {cs : List MapCall} (h : Follows mem pts cs) {c : MapCall}
    (hc : c.Valid) :
    Follows (map_user_addr mem pts c.vaddr c.paddr c.n_pages) pts (cs ++ [c]) := by
  have hbound : c.paddr / 2 ^ 12 + c.n_pages ≤ 2 ^ 40 := by
    have hlt := hc.paddr_lt
    unfold PAGE_SIZE at hlt
    omega
  have hupper : Disjoint (Set.Ico (pt_addr pts (c.vaddr / 2 ^ 12))
      (pt_addr pts (c.vaddr / 2 ^ 12) + 8 * c.n_pages)) (Set.Ico pts (pts + 12288)) := by
    rw [Set.Ico_disjoint_Ico]
    unfold pt_addr PAGE_SIZE
    omega
  refine ⟨h.upper.map_user_addr, h.bits.congr (changesOnly_map_user_addr _ _ _ _ _) hupper, ?_⟩
  intro v hv
  rw [last_mapping_concat, user_page_map_user_addr hbound]
  by_cases hcovers : c.covers v = true
  · rw [if_pos ((hc.covers_iff v).mp hcovers), if_pos hcovers, Option.map_some,
      hc.address_eq hcovers]
  · rw [if_neg (fun hin => hcovers ((hc.covers_iff v).mpr hin)), if_neg hcovers]
    exact h.pages v hv

/-- By induction over the calls, from the first to the last. -/
theorem Follows.map_calls {cs : List MapCall} (h : Follows mem pts cs) {cs' : List MapCall}
    (hcs' : ∀ c ∈ cs', c.Valid) : Follows (map_calls mem pts cs') pts (cs ++ cs') := by
  induction cs' generalizing mem cs with
  | nil =>
    rw [List.append_nil]
    exact h
  | cons c cs' ih =>
    have hfirst := h.map_call (hcs' c List.mem_cons_self)
    have hrest := ih hfirst (fun c' hc' => hcs' c' (List.mem_cons_of_mem c hc'))
    rw [List.append_assoc] at hrest
    exact hrest

/-- The tables of the constructor, before its calls. -/
theorem follows_init_tables (P : Platform) (mem : Bytes) (haligned : pts % 4096 = 0)
    (hbound : pts + sizeof_PageTabletSructures ≤ 2 ^ 52) :
    Follows (init_tables P mem pts) pts [] := by
  have hwords := init_tables_words P mem haligned
  refine ⟨(init_tables_spec P mem haligned hbound).upper, ⟨?_, ?_, fun i hi => ?_⟩, ?_⟩
  · rw [hwords.pml4t]
    exact user_entry_user _ _
  · rw [hwords.pdpt]
    exact user_entry_user _ _
  · rw [hwords.pdt i hi]
    exact user_entry_user _ _
  · intro v hv
    have hempty := hwords.pt (v / 4096) (by unfold PROCESS_MAX_USER_PAGES; omega)
    rw [user_page, hempty]
    rfl

/-- **The hardware follows the calls**, below 1 GiB and above. -/
theorem Follows.user_translate {cs : List MapCall} (h : Follows mem pts cs)
    (haligned : pts % 4096 = 0) (hcs : ∀ c ∈ cs, c.Valid) {v : Nat} (hv : v < 2 ^ 47) :
    user_translate mem pts v = last_mapping cs v := by
  unfold Modern05.user_translate
  by_cases hlow : v < 2 ^ 30
  · rw [user_walk_eq haligned h.upper h.bits (by unfold PROCESS_MAX_USER_PAGES; omega)]
    exact h.pages v hlow
  · have hnone : user_walk mem 4 (pts / 4096) (v / 4096) = none := by
      rw [Option.eq_none_iff_forall_ne_some]
      intro f hf
      have hwalk := walk_of_user_walk hf
      rw [walk_user_none haligned h.upper (by unfold PROCESS_MAX_USER_PAGES; omega)
        (by omega)] at hwalk
      cases hwalk
    rw [hnone, last_mapping_none hcs (by omega)]
    rfl

/-- The constructor, which writes the object last. -/
theorem follows_construct_process (P : Platform) (mem : Bytes) (contents : Nat → UInt8)
    {object syscall image stack : Nat} (haligned : pts % 4096 = 0)
    (hbound : pts + sizeof_PageTabletSructures ≤ 2 ^ 52)
    (hobject : Disjoint (Set.Ico object (object + sizeof_Process)) (table_bytes pts))
    (hcalls : ∀ c ∈ constructor_calls image stack, c.Valid) :
    Follows (construct_process P mem contents object syscall pts image stack) pts
      (constructor_calls image stack) := by
  have htables := follows_init_tables P (write_object mem syscall (sizeof_Syscall + 8) contents)
    haligned hbound
  have hwrite : ∀ m, ChangesOnly (Set.Ico object (object + sizeof_Process)) m
      (write_object m object sizeof_Process contents) := fun m => .overwrite _ (Set.Subset.refl _)
  exact (htables.map_calls hcalls).congr (hwrite _) hobject

/-- A process whose tables are not part of its own object: after the constructor and any
    calls of `map_user_addr`, the user's walk of an address succeeds exactly when a call
    covered it, and gives what the last such call mapped it to. -/
theorem user_addresses_follow_last_mapping (P : Platform) (mem : Bytes) (contents : Nat → UInt8)
    (object syscall pts image stack : Nat) (calls : List MapCall) (haligned : pts % 4096 = 0)
    (hbound : pts + sizeof_PageTabletSructures ≤ 2 ^ 52)
    (hobject : Disjoint (Set.Ico object (object + sizeof_Process)) (table_bytes pts))
    (hcalls : ∀ c ∈ constructor_calls image stack ++ calls, c.Valid) (v : Nat) (hv : v < 2 ^ 47) :
    user_translate
      (map_calls (construct_process P mem contents object syscall pts image stack) pts calls) pts
      v = last_mapping (constructor_calls image stack ++ calls) v := by
  have hbuilt : Follows (construct_process P mem contents object syscall pts image stack) pts
      (constructor_calls image stack) :=
    follows_construct_process P mem contents haligned hbound hobject
      fun c hc => hcalls c (List.mem_append_left calls hc)
  have hall := hbuilt.map_calls fun c hc => hcalls c (List.mem_append_right _ hc)
  exact hall.user_translate haligned hcalls hv

/-- Two pages behind the break. The second call maps the second of them again. -/
theorem remapped_page_follows_last_mapping :
    user_translate (map_calls
      (construct_process platform_2G (fun _ => 0) (fun _ => 0) 0x5000000 0x5100000 0x5400000
        0x6000000 0x7000000) 0x5400000
      [⟨USER_BRK_START, 0x8000000, 2⟩, ⟨USER_BRK_START + 4096, 0x9000000, 1⟩])
      0x5400000 (USER_BRK_START + 4096 + 5) = some 0x9000005 := by
  have hvalid : ∀ c ∈ constructor_calls 0x6000000 0x7000000 ++
      [⟨USER_BRK_START, 0x8000000, 2⟩, ⟨USER_BRK_START + 4096, 0x9000000, 1⟩], c.Valid := by
    intro c hc
    simp only [constructor_calls, List.cons_append, List.nil_append, List.mem_cons,
      List.not_mem_nil, or_false] at hc
    rcases hc with rfl | rfl | rfl | rfl <;> constructor <;> decide
  refine (user_addresses_follow_last_mapping platform_2G (fun _ => 0) (fun _ => 0) 0x5000000
    0x5100000 0x5400000 0x6000000 0x7000000 _ (by decide) (by decide) ?_ hvalid _
    (by decide)).trans (by decide)
  rw [table_bytes, Set.Ico_disjoint_Ico]
  decide

end Modern05
