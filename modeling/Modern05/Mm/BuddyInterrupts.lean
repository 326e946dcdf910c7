import Modern05.Mm.BuddyRegion

/-! # The buddy allocator under interrupts

    Nothing in the allocator keeps an interrupt out, and the handler of the network card
    allocates. Here a kernel thread executes a call one access at a time, and between any
    two accesses an interrupt handler may make whole calls of its own.

    * `handler_takes_same_block`: the handler can be given the block the thread has
      already read from the head of a list; both then own it.
    * `quiet_interrupts_are_safe`: the allocator is safe if handlers call it only at
      quiet points: when the thread is in no call, has not made the first access of its
      call yet, or has nothing but counters left to write.
-/

namespace Modern05

open HeapTree BuddyAllocator LTS

/-! ## The machine -/

/-- A call of the thread as a program; it returns the block the thread then owns. -/
def Call.prog (ba : BuddyAllocator) : Call → BuddyProg (Option Live)
  | .allocate_pages log2size => do
    let block ← ba.allocate_block log2size
    pure (block.map (fun b => ⟨b, log2size⟩))
  | .free_pages addr => do
    ba.free_pages addr
    pure none

/-- The call a thread is in. -/
structure Pending where
  call : Call
  /-- The block the call releases: the thread has given it up. -/
  held : List Live
  /-- The number of accesses made so far. -/
  accesses : Nat
  /-- The rest of the program. -/
  rest : BuddyProg (Option Live)

/-- The allocator, the blocks that the thread and the handlers own, and the call the
    thread is in. -/
structure Machine where
  heap : BuddyHeap
  owned : List Live
  thread : Option Pending

inductive Event where
  /-- The thread begins a call. -/
  | enter (c : Call)
  /-- The thread makes the next access of its call. -/
  | access
  /-- The call of the thread returns. -/
  | leave
  /-- A handler makes a whole call. -/
  | interrupt (c : Call)
  deriving DecidableEq, Repr

/-- The state after an event, if it can happen. -/
def Machine.exec (ba : BuddyAllocator) (m : Machine) : Event → Option Machine
  | .enter c =>
    match m.thread with
    | some _ => none
    | none =>
      if c.valid ba ⟨m.heap, m.owned⟩ then
        match c with
        | .allocate_pages _ => some { m with thread := some ⟨c, [], 0, c.prog ba⟩ }
        | .free_pages addr =>
          some { m with
            owned := m.owned.filter (fun l => l.addr ba != addr)
            thread := some ⟨c, m.owned.filter (fun l => l.addr ba == addr), 0, c.prog ba⟩ }
      else none
  | .access =>
    match m.thread with
    | none => none
    | some t =>
      match t.rest.next m.heap with
      | none => none
      | some (rest, heap) =>
        some { m with
          heap := heap
          thread := some { t with accesses := t.accesses + 1, rest := rest } }
  | .leave =>
    match m.thread with
    | none => none
    | some t =>
      match t.rest with
      | .ret block => some { m with owned := block.toList ++ m.owned, thread := none }
      | _ => none
  | .interrupt c =>
    (Modern05.exec ba ⟨m.heap, m.owned⟩ c).map
      (fun s => { m with heap := s.heap, owned := s.live })

/-- The thread and the handlers, in any interleaving. -/
def interrupt_system (ba : BuddyAllocator) : System Machine Event where
  init := fun m => m = ⟨ba.init, [], none⟩
  step := fun m e m' => m.exec ba e = some m'

/-! ## Quiet points -/

/-- The counters of a bucket. -/
def counters : (β : Type) → BuddyCell β → Prop
  | _, .allocated_blocks _ | _, .available_blocks _ => True
  | _, _ => False

/-- The rest of a call only counts: whatever it reads, it writes counters only, cannot
    fail and returns `block`. -/
def OnlyCounts (block : Option Live) (rest : BuddyProg (Option Live)) : Prop :=
  rest.Confined counters (fun _ => False) (fun b => b = block)

/-- The thread is in no call, before the first access of its call, or has only counters
    left to write. -/
def Machine.quiet (m : Machine) : Prop :=
  ∀ t, m.thread = some t → t.accesses = 0 ∨ ∃ block, OnlyCounts block t.rest

/-- Handlers run at quiet points. -/
def Event.at_quiet_point (m : Machine) : Event → Prop
  | .interrupt _ => m.quiet
  | _ => True

variable {ba : BuddyAllocator} {free : Nat → List Nat} {h h' : BuddyHeap}
  {owned extra : List Live} {c : Call} {m m' : Machine} {t : Pending}

/-! ## Counting changes nothing else -/

/-- The heaps differ in their counters only. -/
structure SameButCounters (h h' : BuddyHeap) : Prop where
  valid : h'.valid = h.valid
  available : h'.available = h.available
  prev : h'.prev = h.prev
  next : h'.next = h.next
  first_block : h'.first_block = h.first_block

theorem SameButCounters.set {β : Type} {l : BuddyCell β} (v : β) (hl : counters β l)
    (hh : SameButCounters h h') : SameButCounters h (Cells.set l v h') := by
  cases l with
  | allocated_blocks k => exact ⟨hh.valid, hh.available, hh.prev, hh.next, hh.first_block⟩
  | available_blocks k => exact ⟨hh.valid, hh.available, hh.prev, hh.next, hh.first_block⟩
  | _ => exact hl.elim

theorem SameButCounters.symm (hh : SameButCounters h h') : SameButCounters h' h :=
  ⟨hh.valid.symm, hh.available.symm, hh.prev.symm, hh.next.symm, hh.first_block.symm⟩

/-- The invariant does not speak of the counters. -/
theorem Sound.of_sameButCounters (hs : Sound ba ⟨h, owned⟩ free) (hh : SameButCounters h h') :
    Sound ba ⟨h', owned⟩ free := by
  have hinv : Inv ba h h.available free (BuddyState.mk h owned).blocks := hs.inv
  refine ⟨?_, hs.size, hs.nodup⟩
  show Inv ba h' h'.available free (BuddyState.mk h owned).blocks
  rw [hh.available]
  refine ⟨⟨?_, hinv.lists.row⟩, ?_, ?_⟩
  · rw [hh.first_block, hh.next, hh.prev]
    exact hinv.lists.ring
  · rw [hh.valid]
    exact hinv.tree
  · rw [hh.valid]
    exact hinv.listed

/-! ## Calls beside a block in transit -/

/-- What a thread may ask for: a size from `Log2MinSize` on, or the release of the block
    it has given up. -/
def Call.asks (ba : BuddyAllocator) (held : List Live) : Call → Prop
  | .allocate_pages log2size => Log2MinSize ≤ log2size ∧ held = []
  | .free_pages addr => ∃ l, held = [l] ∧ l.addr ba = addr

/-- A whole call of the thread returns, and the thread owns the block it returned. -/
theorem prog_outcome (hf : ba.Fits) (hs : Sound ba ⟨h, extra ++ owned⟩ free)
    (hc : c.asks ba extra) : ∃ block h' free', (c.prog ba).run h = (.ok block, h') ∧
      Sound ba ⟨h', block.toList ++ owned⟩ free' := by
  cases c with
  | allocate_pages k =>
    obtain ⟨hk, rfl⟩ := hc
    rcases allocate_outcome hf hs hk with ⟨hrun, _⟩ | ⟨_, _, b, s', free', ha, hs', _⟩
    · exact ⟨none, h, free, Prog.run_bind_ok hrun, hs⟩
    · refine ⟨some ⟨b, k⟩, s'.heap, free', Prog.run_bind_ok ha.run, ?_⟩
      have hlive : (some (Live.mk b k)).toList ++ owned = s'.live := ha.live.symm
      rw [hlive]
      exact hs'
  | free_pages addr =>
    obtain ⟨l, rfl, rfl⟩ := hc
    obtain ⟨s', free', hr, hs', _⟩ := free_outcome hf hs List.mem_cons_self
    refine ⟨none, s'.heap, free', Prog.run_bind_ok hr.run, ?_⟩
    have hlive : owned = s'.live := by
      rw [hr.erase]
      exact (List.erase_cons_head l owned).symm
    show Sound ba ⟨s'.heap, owned⟩ free'
    rw [hlive]
    exact hs'

/-- A whole call on the owned blocks keeps the heap in order for further blocks `extra`
    that are on nobody's record. -/
theorem sound_of_exec_beside (hf : ba.Fits) (hs : Sound ba ⟨h, extra ++ owned⟩ free)
    {s' : BuddyState} (hstep : exec ba ⟨h, owned⟩ c = some s') :
    ∃ free', Sound ba ⟨s'.heap, extra ++ s'.live⟩ free' := by
  have hvalid := valid_of_exec hstep
  cases c with
  | allocate_pages k =>
    rcases allocate_outcome hf hs hvalid with ⟨hrun, _⟩ | ⟨_, _, b, t, free', ha, ht, _⟩
    · rw [exec_of_none (s := ⟨h, owned⟩) hrun] at hstep
      cases hstep
      exact ⟨free, hs⟩
    · have hrun : (ba.allocate_block k).run h = (.ok (some b), t.heap) := ha.run
      simp only [exec, hrun, Option.some.injEq] at hstep
      subst hstep
      have hperm : t.live.Perm (extra ++ ⟨b, k⟩ :: owned) := by
        rw [ha.live]
        exact List.perm_middle.symm
      have ht : Sound ba ⟨t.heap, t.live⟩ free' := ht
      exact ⟨free', ht.of_perm hperm⟩
  | free_pages addr =>
    obtain ⟨l, hl, rfl⟩ := hvalid
    have hmem : l ∈ extra ++ owned := List.mem_append_right _ hl
    obtain ⟨t, free', hr, ht, _⟩ := free_outcome hf hs hmem
    have hany : owned.any (fun x => x.addr ba == l.addr ba) = true :=
      List.any_eq_true.mpr ⟨l, hl, beq_self_eq_true _⟩
    have hrun : (ba.free_pages (l.addr ba)).run h = (.ok (), t.heap) := hr.run
    simp only [exec, hany, if_true, hrun, Option.some.injEq] at hstep
    subst hstep
    -- No block of `extra` has the address: it would be `l`, which is recorded once.
    have hextra : extra.filter (fun x => x.addr ba != l.addr ba) = extra := by
      rw [List.filter_eq_self]
      intro x hx
      rw [bne_iff_ne]
      intro e
      have hxl := hs.addr_inj hf (List.mem_append_left owned hx) hmem e
      have hnodup := List.Nodup.of_map _ hs.nodup
      exact (List.nodup_append.mp hnodup).2.2 x hx l hl hxl
    refine ⟨free', ?_⟩
    have hlive : t.live = extra ++ owned.filter (fun x => x.addr ba != l.addr ba) := by
      rw [hr.live, List.filter_append, hextra]
    rw [← hlive]
    exact ht

/-! ## The invariant -/

/-- The call has been under way alone: it ends as the whole call would have from the
    heap `h₀` it began in. -/
def Alone (ba : BuddyAllocator) (m : Machine) (t : Pending) : Prop :=
  ∃ h₀ free, Sound ba ⟨h₀, t.held ++ m.owned⟩ free ∧ t.call.asks ba t.held ∧
    t.rest.run m.heap = (t.call.prog ba).run h₀ ∧
    (t.accesses = 0 → t.rest = t.call.prog ba ∧ m.heap = h₀)

/-- The call has done its work but for counting, and the heap is in order for what it
    returns. -/
def Counting (ba : BuddyAllocator) (m : Machine) (t : Pending) : Prop :=
  ∃ block free, OnlyCounts block t.rest ∧ Sound ba ⟨m.heap, block.toList ++ m.owned⟩ free

/-- What holds in every state of a run with quiet interrupts. -/
structure MachineInv (ba : BuddyAllocator) (m : Machine) : Prop where
  idle : m.thread = none → ∃ free, Sound ba ⟨m.heap, m.owned⟩ free
  busy : ∀ t, m.thread = some t → Alone ba m t ∨ Counting ba m t

theorem machineInv_of_busy (hthread : m.thread = some t)
    (h : Alone ba m t ∨ Counting ba m t) : MachineInv ba m := by
  refine ⟨?_, ?_⟩
  · intro hnone
    rw [hthread] at hnone
    cases hnone
  · intro t' ht'
    rw [hthread] at ht'
    cases ht'
    exact h

/-- A call that was alone is counting once only counters are left to write. -/
theorem Alone.counting (hf : ba.Fits) (ha : Alone ba m t) {block : Option Live}
    (hrest : OnlyCounts block t.rest) : Counting ba m t := by
  obtain ⟨h₀, free, hs, hasks, hrun, _⟩ := ha
  obtain ⟨block', h', free', hprog, hs'⟩ := prog_outcome hf hs hasks
  rw [hprog] at hrun
  have hblock : block' = block := hrest.run_ok hrun
  subst hblock
  have hsame : SameButCounters m.heap (t.rest.run m.heap).2 :=
    hrest.run_preserves (fun _ _ v _ hl hh => hh.set v hl) ⟨rfl, rfl, rfl, rfl, rfl⟩
  rw [hrun] at hsame
  exact ⟨block', free', hrest, hs'.of_sameButCounters hsame.symm⟩

/-- Under the invariant a call that has come to its end hands over its block. -/
theorem sound_of_ret (hf : ba.Fits) (hinv : Alone ba m t ∨ Counting ba m t)
    {block : Option Live} (hrest : t.rest = .ret block) :
    ∃ free, Sound ba ⟨m.heap, block.toList ++ m.owned⟩ free := by
  have hcounts : OnlyCounts block t.rest := by
    rw [hrest]
    exact .ret rfl
  have hcounting : Counting ba m t := hinv.elim (fun ha => ha.counting hf hcounts) id
  obtain ⟨block', free, hcounts', hs⟩ := hcounting
  have hblock : block = block' := by
    rw [hrest] at hcounts'
    exact hcounts'.run_ok (Prog.run_ret block m.heap)
  rw [hblock]
  exact ⟨free, hs⟩

/-- Under the invariant the thread does not fault. -/
theorem rest_ne_fail (hf : ba.Fits) (hinv : Alone ba m t ∨ Counting ba m t) (e : Fault) :
    t.rest ≠ .fail e := by
  intro hfail
  rcases hinv with ha | hc
  · obtain ⟨h₀, free, hs, hasks, hrun, _⟩ := ha
    obtain ⟨block, h', free', hprog, _⟩ := prog_outcome hf hs hasks
    rw [hprog, hfail] at hrun
    cases hrun
  · obtain ⟨block, free, hcounts, _⟩ := hc
    rw [hfail] at hcounts
    exact hcounts.run_error (Prog.run_fail e m.heap)

/-! ### One lemma for each event -/

theorem machineInv_enter (hf : ba.Fits) (hinv : MachineInv ba m)
    (hstep : m.exec ba (.enter c) = some m') : MachineInv ba m' := by
  cases hthread : m.thread with
  | some t => simp [Machine.exec, hthread] at hstep
  | none =>
    obtain ⟨free, hs⟩ := hinv.idle hthread
    by_cases hvalid : c.valid ba ⟨m.heap, m.owned⟩
    · cases c with
      | allocate_pages k =>
        simp only [Machine.exec, hthread, hvalid, if_true, Option.some.injEq] at hstep
        subst hstep
        exact machineInv_of_busy rfl
          (.inl ⟨m.heap, free, hs, ⟨hvalid, rfl⟩, rfl, fun _ => ⟨rfl, rfl⟩⟩)
      | free_pages addr =>
        simp only [Machine.exec, hthread, hvalid, if_true, Option.some.injEq] at hstep
        subst hstep
        obtain ⟨l, hl, rfl⟩ := hvalid
        -- The address is that of one block of the record.
        have hnodup : m.owned.Nodup := List.Nodup.of_map _ hs.nodup
        have hheld : m.owned.filter (fun x => x.addr ba == l.addr ba) = [l] := by
          have hcongr : m.owned.filter (fun x => x.addr ba == l.addr ba) =
              m.owned.filter (fun x => x == l) := by
            apply List.filter_congr
            intro x hx
            rw [Bool.eq_iff_iff, beq_iff_eq, beq_iff_eq]
            exact ⟨hs.addr_inj hf hx hl, fun e => e ▸ rfl⟩
          rw [hcongr, List.filter_beq, List.count_eq_one_of_mem hnodup hl]
          rfl
        have hperm := (List.filter_append_perm (fun x => x.addr ba == l.addr ba) m.owned).symm
        exact machineInv_of_busy rfl
          (.inl ⟨m.heap, free, hs.of_perm hperm, ⟨l, hheld, rfl⟩, rfl, fun _ => ⟨rfl, rfl⟩⟩)
    · simp [Machine.exec, hthread, hvalid] at hstep

theorem machineInv_access (hinv : MachineInv ba m) (hstep : m.exec ba .access = some m') :
    MachineInv ba m' := by
  cases hthread : m.thread with
  | none => simp [Machine.exec, hthread] at hstep
  | some t =>
    cases hnext : t.rest.next m.heap with
    | none => simp [Machine.exec, hthread, hnext] at hstep
    | some r =>
      obtain ⟨rest, heap⟩ := r
      simp only [Machine.exec, hthread, hnext, Option.some.injEq] at hstep
      subst hstep
      apply machineInv_of_busy rfl
      rcases hinv.busy t hthread with ha | hc
      · obtain ⟨h₀, free, hs, hasks, hrun, _⟩ := ha
        rw [Prog.run_of_next hnext] at hrun
        exact .inl ⟨h₀, free, hs, hasks, hrun, fun e => nomatch e⟩
      · obtain ⟨block, free, hcounts, hs⟩ := hc
        obtain ⟨hcounts', hsame⟩ := Prog.Confined.of_next hcounts
          (fun _ _ v _ hl hh => SameButCounters.set v hl hh) hnext ⟨rfl, rfl, rfl, rfl, rfl⟩
        exact .inr ⟨block, free, hcounts', hs.of_sameButCounters hsame⟩

theorem machineInv_leave (hf : ba.Fits) (hinv : MachineInv ba m)
    (hstep : m.exec ba .leave = some m') : MachineInv ba m' := by
  cases hthread : m.thread with
  | none => simp [Machine.exec, hthread] at hstep
  | some t =>
    cases hrest : t.rest with
    | ret block =>
      simp only [Machine.exec, hthread, hrest, Option.some.injEq] at hstep
      subst hstep
      refine ⟨fun _ => sound_of_ret hf (hinv.busy t hthread) hrest, ?_⟩
      intro t' ht'
      cases ht'
    | _ => simp [Machine.exec, hthread, hrest] at hstep

theorem machineInv_interrupt (hf : ba.Fits) (hinv : MachineInv ba m) (hquiet : m.quiet)
    (hstep : m.exec ba (.interrupt c) = some m') : MachineInv ba m' := by
  obtain ⟨s', hexec, rfl⟩ := Option.map_eq_some_iff.mp hstep
  refine ⟨?_, ?_⟩
  · intro hthread
    obtain ⟨free, hs⟩ := hinv.idle hthread
    have hs : Sound ba ⟨m.heap, [] ++ m.owned⟩ free := hs
    exact sound_of_exec_beside hf hs hexec
  · intro t hthread
    -- At a quiet point the call is counting, or it has not begun.
    have hcases : Counting ba m t ∨ t.accesses = 0 ∧ Alone ba m t := by
      rcases hinv.busy t hthread with ha | hc
      · rcases hquiet t hthread with hzero | ⟨block, hrest⟩
        · exact .inr ⟨hzero, ha⟩
        · exact .inl (ha.counting hf hrest)
      · exact .inl hc
    rcases hcases with hc | ⟨hzero, ha⟩
    · obtain ⟨block, free, hcounts, hs⟩ := hc
      obtain ⟨free', hs'⟩ := sound_of_exec_beside hf hs hexec
      exact .inr ⟨block, free', hcounts, hs'⟩
    · obtain ⟨h₀, free, hs, hasks, _, hstart⟩ := ha
      obtain ⟨hrest, rfl⟩ := hstart hzero
      obtain ⟨free', hs'⟩ := sound_of_exec_beside hf hs hexec
      exact .inl ⟨s'.heap, free', hs', hasks, by rw [hrest], fun _ => ⟨hrest, rfl⟩⟩

/-! ## Runs -/

/-- The free lists are in order, and no block is on the record twice. -/
structure Machine.Safe (ba : BuddyAllocator) (m : Machine) : Prop where
  /-- No block has two owners. -/
  one_owner : (m.owned.map Live.block).Nodup
  /-- Between two calls of the thread every list is what it should be. -/
  lists : m.thread = none → ∀ k, Log2MinSize ≤ k → k ≤ Log2MaxSize → m.heap.ListInOrder ba k
  /-- The thread does not fault. -/
  no_fault : ∀ t, m.thread = some t → ∀ e, t.rest ≠ .fail e

theorem MachineInv.safe (hf : ba.Fits) (hinv : MachineInv ba m) : m.Safe ba := by
  refine ⟨?_, ?_, ?_⟩
  · have hrecord : ∃ h extra free, Sound ba ⟨h, extra ++ m.owned⟩ free := by
      cases hthread : m.thread with
      | none =>
        obtain ⟨free, hs⟩ := hinv.idle hthread
        exact ⟨m.heap, [], free, hs⟩
      | some t =>
        rcases hinv.busy t hthread with ⟨h₀, free, hs, _⟩ | ⟨block, free, _, hs⟩
        · exact ⟨h₀, t.held, free, hs⟩
        · exact ⟨m.heap, block.toList, free, hs⟩
    obtain ⟨h, extra, free, hs⟩ := hrecord
    exact hs.nodup.sublist ((List.sublist_append_right extra m.owned).map Live.block)
  · intro hthread k hmin hmax
    obtain ⟨free, hs⟩ := hinv.idle hthread
    exact hs.listInOrder hf hmin hmax
  · intro t hthread e
    exact rest_ne_fail hf (hinv.busy t hthread) e

/-- **Interrupts at quiet points are safe.** When the handlers of a run call the
    allocator at quiet points only, no block ever has two owners, the thread does not
    fault, and the free lists are in order whenever the thread is between two calls. -/
theorem quiet_interrupts_are_safe (R : Region) (m : Machine)
    (hm : Reachable ((interrupt_system R.allocator).restrict
      (fun m e => e.at_quiet_point m)) m) : m.Safe R.allocator := by
  have hinv : ∀ m, Reachable ((interrupt_system R.allocator).restrict
      (fun m e => e.at_quiet_point m)) m → MachineInv R.allocator m := by
    apply invariant_of_step
    · intro m hm
      have hm : m = ⟨R.allocator.init, [], none⟩ := hm
      subst hm
      exact ⟨fun _ => ⟨_, (stateInv_start R.allocator).toSound⟩, fun t ht => nomatch ht⟩
    · intro m e m' _ hinv hstep
      obtain ⟨hquiet, hstep⟩ := hstep
      have hstep : m.exec R.allocator e = some m' := hstep
      cases e with
      | enter c => exact machineInv_enter R.fits hinv hstep
      | access => exact machineInv_access hinv hstep
      | leave => exact machineInv_leave R.fits hinv hstep
      | interrupt c => exact machineInv_interrupt R.fits hinv hquiet hstep
  exact (hinv m hm).safe R.fits

/-! ## An interrupt in the window -/

/-- The state after a list of events, if all of them can happen. -/
def after_events (ba : BuddyAllocator) (es : List Event) : Option Machine :=
  es.foldlM (Machine.exec ba) ⟨ba.init, [], none⟩

theorem reachable_after_events {es : List Event} (h : after_events ba es = some m) :
    Reachable (interrupt_system ba) m :=
  Reachable.foldlM (fun _ _ _ he => he) (.init rfl) h

/-- One smallest block at 64 MiB. -/
def region_64K : Region := ⟨0x4000000, 16, by decide, by decide⟩

/-- The thread asks for the only block and reads the head of its list; a handler then
    takes that block, and the thread, which does not look again, takes it as well. -/
def stolen_head : List Event :=
  [.enter (.allocate_pages 16), .access, .interrupt (.allocate_pages 16)] ++
    List.replicate 10 .access ++ [.leave]

/-- **One block, two owners.** -/
theorem handler_takes_same_block :
    ∃ m, Reachable (interrupt_system region_64K.allocator) m ∧ m.thread = none ∧
      m.owned = [⟨0, 16⟩, ⟨0, 16⟩] ∧ ¬ m.Safe region_64K.allocator := by
  have hrun : (after_events region_64K.allocator stolen_head).map
      (fun m => (m.thread.isNone, m.owned)) = some (true, [⟨0, 16⟩, ⟨0, 16⟩]) := by
    decide +kernel
  obtain ⟨m, hm, hend⟩ := Option.map_eq_some_iff.mp hrun
  simp only [Prod.mk.injEq, Option.isNone_iff_eq_none] at hend
  refine ⟨m, reachable_after_events hm, hend.1, hend.2, ?_⟩
  intro hsafe
  have hnodup := hsafe.one_owner
  rw [hend.2] at hnodup
  exact absurd hnodup (by decide)

/-- A handler that allocates after the thread has entered its call, and before the first
    access of it, does no harm. -/
theorem interrupt_before_first_access :
    ∃ m, after_events region_128K.allocator
        [.enter (.allocate_pages 16), .interrupt (.allocate_pages 16)] = some m ∧
      m.Safe region_128K.allocator := by
  obtain ⟨m, hm⟩ := Option.isSome_iff_exists.mp
    (by decide +kernel : (after_events region_128K.allocator
      [.enter (.allocate_pages 16), .interrupt (.allocate_pages 16)]).isSome = true)
  refine ⟨m, hm, quiet_interrupts_are_safe region_128K m ?_⟩
  unfold after_events at hm
  rw [List.foldlM_cons] at hm
  obtain ⟨m₁, henter, hm⟩ := Option.bind_eq_some_iff.mp hm
  rw [List.foldlM_cons] at hm
  obtain ⟨m₂, hinterrupt, hm⟩ := Option.bind_eq_some_iff.mp hm
  cases hm
  apply Reachable.step (l := .interrupt (.allocate_pages 16)) (s := m₁)
  · exact Reachable.step (l := .enter (.allocate_pages 16)) (.init rfl) ⟨trivial, henter⟩
  · refine ⟨?_, hinterrupt⟩
    intro t ht
    cases henter
    cases ht
    exact .inl rfl

end Modern05
