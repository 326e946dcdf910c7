import Modern05.Mm.Kmalloc

/-! # Requests for the smallest blocks

    A caller that asks for at most 64 KiB each time gets leaves of the tree. Leaves have consecutive
    numbers, so that two of them share no byte, wherever the other blocks are. As long as not all
    bytes of the region are live there is one to be had.

    * `leaf_area` is where leaves are. It starts in the region, in its last 64 KiB, and is as long
      as the region.
    * `kmalloc_smallest` and `kfree_live` are the two calls for such a caller.
    * `fresh_area` has what later calls can return, next to leaves that stay live.
-/

namespace Modern05

open BuddyAllocator LTS HeapTree

/-- The bytes of the live blocks. -/
def used_bytes (s : BuddyState) : Nat := (s.live.map (fun l => 2 ^ l.log2size)).sum

/-- Where the leaves of the tree are. -/
def leaf_area (R : Region) : Set Nat :=
  Set.Ico (R.phy_start.toNat + 2 ^ R.root_log2size - 65536)
    (R.phy_start.toNat + 2 ^ (R.root_log2size + 1) - 65536)

/-- The leaves apart from those in `kept`. -/
def fresh_area (R : Region) (kept : List Live) : Set Nat :=
  leaf_area R \ {a | ∃ l ∈ kept, l.log2size = Log2MinSize ∧ a ∈ l.bytes R.allocator}

/-- A call has returned the leaf `l`. -/
structure NewLeaf (R : Region) (s : BuddyState) (l : Live) (s' : BuddyState) : Prop where
  reachable : Reachable (buddy_system R.allocator) s'
  log2size : l.log2size = Log2MinSize
  fresh : l ∉ s.live
  live : s'.live = l :: s.live

section smallest

variable {R : Region} {s s' : BuddyState} {l l' : Live} {size : Nat}

/-- There is a free block, if not all bytes are live. -/
theorem hasRoom_of_used (hs : Reachable (buddy_system R.allocator) s)
    (hused : used_bytes s < 2 ^ R.root_log2size) : HasRoom R.allocator s Log2MinSize := by
  by_contra hnoroom
  obtain ⟨free, hinv⟩ := stateInv_of_reachable R.fits s hs
  have hbytes := live_add_free_bytes R.fits hinv
  have hroot := R.fits.root_eq
  have hempty : ∀ k < R.allocator.height + 1, free k = [] := by
    intro k hk
    by_contra hne
    refine hnoroom ⟨Log2MinSize + k, by omega, by omega, fun hnone => hne ?_⟩
    rw [R.fits.bucket_index_eq (by omega) (by omega), Nat.add_sub_cancel_left] at hnone
    exact (hinv.inv.lists.ring k).eq_nil_iff.mpr hnone
  have hzero : ((List.range (R.allocator.height + 1)).map
      (fun k => (free k).length * 2 ^ (Log2MinSize + k))).sum = 0 := by
    apply List.sum_eq_zero
    intro x hx
    obtain ⟨k, hk, rfl⟩ := List.mem_map.mp hx
    rw [hempty k (List.mem_range.mp hk), List.length_nil, Nat.zero_mul]
  rw [hzero, Nat.add_zero, ← used_bytes] at hbytes
  exact absurd hbytes (Nat.ne_of_lt hused)

/-- No more is live than the region has. -/
theorem used_bytes_le (hs : Reachable (buddy_system R.allocator) s) :
    used_bytes s ≤ 2 ^ R.root_log2size := by
  obtain ⟨free, hinv⟩ := stateInv_of_reachable R.fits s hs
  have hbytes := live_add_free_bytes R.fits hinv
  have hroot : R.allocator.root_log2size = R.root_log2size := rfl
  rw [hroot] at hbytes
  unfold used_bytes
  omega

theorem kmalloc_log2size_of_le (h : size ≤ 65536) : kmalloc_log2size size = Log2MinSize := by
  rcases Nat.eq_zero_or_pos size with rfl | hpos
  · decide +kernel
  · rw [kmalloc_log2size_eq (by omega)]
    exact max_eq_left (Nat.clog_le_of_le_pow h)

theorem newLeaf_of_kmalloc (hs : Reachable (buddy_system R.allocator) s) (hsize : size ≤ 65536)
    (hbuf : try_kmalloc R.allocator s size = some (some l, s')) : NewLeaf R s l s' := by
  obtain ⟨hs', ⟨_, l', hl', hl, hfresh, hlive⟩ | ⟨_, hnone, _⟩⟩ := try_kmalloc_cases hs hbuf
  · cases hl'
    exact ⟨hs', hl.trans (kmalloc_log2size_of_le hsize), hfresh, hlive⟩
  · cases hnone

/-- **A request for at most 64 KiB** gets a leaf. -/
theorem kmalloc_smallest (hs : Reachable (buddy_system R.allocator) s)
    (hused : used_bytes s < 2 ^ R.root_log2size) (hsize : size ≤ 65536) :
    ∃ l s', try_kmalloc R.allocator s size = some (some l, s') := by
  rcases try_page_alloc_cases hs (min_le_kmalloc_log2size size) with
    ⟨_, l, s', _, htry⟩ | ⟨hnoroom, _⟩
  · exact ⟨l, s', htry⟩
  · rw [kmalloc_log2size_of_le hsize] at hnoroom
    exact absurd (hasRoom_of_used hs hused) hnoroom

theorem NewLeaf.mem (h : NewLeaf R s l s') : l ∈ s'.live := h.live ▸ List.mem_cons_self

theorem NewLeaf.used (h : NewLeaf R s l s') : used_bytes s' = used_bytes s + 65536 := by
  rw [used_bytes, h.live, List.map_cons, List.sum_cons, h.log2size, ← used_bytes]
  exact Nat.add_comm _ _

/-- A request for at most 64 KiB takes 64 KiB while there are any. -/
theorem used_of_kmalloc {buf : Option Live} (hs : Reachable (buddy_system R.allocator) s)
    (hsize : size ≤ 65536) (hbuf : try_kmalloc R.allocator s size = some (buf, s')) :
    used_bytes s' = min (2 ^ R.root_log2size) (used_bytes s + 65536) ∧
      (buf = none → used_bytes s = 2 ^ R.root_log2size) := by
  have hle := used_bytes_le hs
  obtain ⟨hs', _⟩ := try_kmalloc_cases hs hbuf
  have hle' := used_bytes_le hs'
  by_cases hused : used_bytes s < 2 ^ R.root_log2size
  · obtain ⟨l, t, hbuf'⟩ := kmalloc_smallest hs hused hsize
    cases hbuf.symm.trans hbuf'
    rw [(newLeaf_of_kmalloc hs hsize hbuf).used] at hle' ⊢
    exact ⟨by omega, nofun⟩
  · -- there is no room, and nothing changes
    obtain ⟨_, ⟨hroom, l, rfl, _⟩ | ⟨_, _, rfl⟩⟩ := try_kmalloc_cases hs hbuf
    · rw [(newLeaf_of_kmalloc hs hsize hbuf).used] at hle'
      omega
    · exact ⟨by omega, fun _ => by omega⟩

/-- **The release of a live block** returns, and the block is not live any more. -/
theorem kfree_live (hs : Reachable (buddy_system R.allocator) s) (hl : l ∈ s.live) :
    ∃ s', exec R.allocator s (.free_pages (l.addr R.allocator)) = some s' ∧
      Reachable (buddy_system R.allocator) s' ∧ s'.live = s.live.erase l := by
  obtain ⟨free, hinv⟩ := stateInv_of_reachable R.fits s hs
  obtain ⟨s', _, hreleases, _⟩ := free_outcome R.fits hinv.toSound hl
  have hexec := hreleases.exec_eq hl
  exact ⟨s', hexec, .step hs ⟨valid_of_exec hexec, hexec⟩, hreleases.erase⟩

theorem used_bytes_erase (hl : l ∈ s.live) (hlog2size : l.log2size = Log2MinSize)
    (hlive : s'.live = s.live.erase l) : used_bytes s' + 65536 = used_bytes s := by
  have hperm := (List.perm_cons_erase hl).map (fun l => 2 ^ l.log2size)
  rw [used_bytes, used_bytes, hperm.sum_eq, List.map_cons, List.sum_cons, hlive, hlog2size]
  exact Nat.add_comm _ _

/-- Two live leaves share no byte. -/
theorem disjoint_smallest (hs : Reachable (buddy_system R.allocator) s) (hl : l ∈ s.live)
    (hl' : l' ∈ s.live) (hlog2size : l.log2size = Log2MinSize)
    (hlog2size' : l'.log2size = Log2MinSize) (hne : l ≠ l') :
    Disjoint (l.bytes R.allocator) (l'.bytes R.allocator) := by
  apply disjoint_of_spaced R.fits (hasSize_of_live hs hl) (hasSize_of_live hs hl')
  have hblock : l.block ≠ l'.block := by
    intro h
    apply hne
    cases l
    cases l'
    simp_all
  rw [Spaced, hlog2size, hlog2size', Nat.sub_self]
  omega

theorem bytes_leaf {A : BuddyAllocator} (hlog2size : l.log2size = Log2MinSize) :
    l.bytes A = Set.Ico (l.addr A).toNat ((l.addr A).toNat + 65536) := by
  rw [Live.bytes, hlog2size]
  rfl

/-- A leaf is in its area. -/
theorem bytes_subset_leaf_area (hhigh : R.phy_start.toNat + 2 ^ R.root_log2size ≤ 2 ^ 32)
    (hs : Reachable (buddy_system R.allocator) s) (hl : l ∈ s.live)
    (hlog2size : l.log2size = Log2MinSize) : l.bytes R.allocator ⊆ leaf_area R := by
  obtain ⟨haddr, _⟩ := addr_of_live hhigh hs hl
  obtain ⟨_, hlevel⟩ := hasSize_of_live hs hl
  have hroot := R.fits.root_eq
  have hlevel : level l.block = R.allocator.height := by omega
  obtain ⟨hlow, hup⟩ := level_spec l.block
  have hpow : 2 ^ R.root_log2size = 2 ^ R.allocator.height * 65536 := R.fits.pow_root
  rw [hlevel, Nat.pow_succ] at hup
  rw [hlevel] at hlow
  rw [bytes_leaf hlog2size, leaf_area, haddr, Nat.pow_succ, hpow]
  exact Set.Ico_subset_Ico (by omega) (by omega)

/-- The new leaf shares no byte with one that was live. -/
theorem NewLeaf.disjoint (h : NewLeaf R s l s') (hl' : l' ∈ s.live)
    (hlog2size : l'.log2size = Log2MinSize) :
    Disjoint (l.bytes R.allocator) (l'.bytes R.allocator) :=
  disjoint_smallest h.reachable h.mem (h.live ▸ List.mem_cons_of_mem l hl') h.log2size hlog2size
    (fun e => h.fresh (e ▸ hl'))

theorem bytes_subset_fresh_area {kept : List Live}
    (hhigh : R.phy_start.toNat + 2 ^ R.root_log2size ≤ 2 ^ 32)
    (hs : Reachable (buddy_system R.allocator) s) (hkept : ∀ l' ∈ kept, l' ∈ s.live)
    (hl : l ∈ s.live) (hlog2size : l.log2size = Log2MinSize) (hnot : l ∉ kept) :
    l.bytes R.allocator ⊆ fresh_area R kept := by
  intro a ha
  refine ⟨bytes_subset_leaf_area hhigh hs hl hlog2size ha, ?_⟩
  rintro ⟨l', hl', hlog2size', ha'⟩
  have hne : l ≠ l' := fun e => hnot (e ▸ hl')
  exact Set.disjoint_left.mp
    (disjoint_smallest hs hl (hkept l' hl') hlog2size hlog2size' hne) ha ha'

end smallest

end Modern05
