import Modern05.Framework.LTS
import Modern05.Framework.OrderedMap
import Modern05.Lib.Utils

/-! # Directories in memory

    `MemFsDirNode` in `include/fs/mem_fs_node.hpp`: a tree of directories whose entries are found
    by name. There is no type information at run time; `Open` asks the virtual function `type`
    whether a node is a file before it casts the pointer.

    The two classes have each other's answer: a file says that it is a directory, and a directory
    that it is a file.

    Nodes are never freed, so a pointer is the position of a node in the list of all nodes. What a
    file holds is left out. A ghost list records which call has created which node.

    * `MemFs.find_add`: a call that creates a node adds one name and leaves the others.
    * `fsInv_of_reachable`: in every run the entries are the names that were created, and each
      node is of the class it was created with.
    * `MemFs.Open_of_some`: what `Open` does with a name that is there.
    * `directory_contract_iff`: the directories are as they should be exactly for names that are
      not there.
-/

namespace Modern05

open LTS OrderedMap

/-! ## Names -/

abbrev kstring := List UInt8

namespace kstring

/-- The order of `std::string`: by bytes, and a proper start comes first. -/
def lt : kstring → kstring → Bool
  | _, [] => false
  | [], _ :: _ => true
  | a :: as, b :: bs => a < b || (a == b && lt as bs)

theorem lt_self (a : kstring) : lt a a = false := by
  induction a with
  | nil => rfl
  | cons a as ih => simp [lt, ih]

theorem eq_of_not_lt : ∀ {a b : kstring}, lt a b = false → lt b a = false → a = b
  | [], [], _, _ => rfl
  | [], _ :: _, hab, _ => by simp [lt] at hab
  | _ :: _, [], _, hba => by simp [lt] at hba
  | a :: as, b :: bs, hab, hba => by
    simp only [lt, Bool.or_eq_false_iff, decide_eq_false_iff_not] at hab hba
    -- neither of the first bytes is less than the other
    obtain rfl : a = b := UInt8.le_antisymm (UInt8.not_lt.mp hba.1) (UInt8.not_lt.mp hab.1)
    rw [beq_self_eq_true, Bool.true_and] at hab hba
    rw [eq_of_not_lt hab.2 hba.2]

theorem same_iff (a b : kstring) : same lt a b = true ↔ a = b := by
  simp only [same, Bool.and_eq_true, Bool.not_eq_true']
  constructor
  · rintro ⟨hab, hba⟩
    exact eq_of_not_lt hab hba
  · rintro rfl
    exact ⟨lt_self a, lt_self a⟩

end kstring

/-! ## Nodes -/

inductive NodeType where
  | Dir
  | File
  deriving DecidableEq

/-- A node of one of the two classes; the entries are pointers to nodes. -/
inductive MemFsNode where
  | file
  | dir (entries_ : OrderedMap kstring Nat)
  deriving DecidableEq

/-- The virtual function. -/
def MemFsNode.type : MemFsNode → NodeType
  | .file => .Dir
  | .dir _ => .File

/-- The class of a node. -/
def MemFsNode.kind : MemFsNode → NodeType
  | .file => .File
  | .dir _ => .Dir

/-- What a node has under a name. -/
def MemFsNode.lookup : MemFsNode → kstring → Option Nat
  | .file, _ => none
  | .dir entries_, name => entries_.find kstring.lt name

structure MemFs where
  nodes : List MemFsNode
  deriving DecidableEq

namespace MemFs

/-- The entries of a directory. -/
def entries (fs : MemFs) (d : Nat) : Option (OrderedMap kstring Nat) :=
  match fs.nodes[d]? with
  | some (.dir entries_) => some entries_
  | _ => none

/-- `knew` of a node, and an entry for it. The result is the pointer in the entry. -/
def create (fs : MemFs) (d : Nat) (name : kstring) (node : MemFsNode) : Option (MemFs × Nat) := do
  let entries_ ← fs.entries d
  let entries_ := entries_.emplace kstring.lt name fs.nodes.length
  let it ← entries_.find kstring.lt name
  pure (⟨fs.nodes.set d (.dir entries_) ++ [node]⟩, it)

def Mkdir (fs : MemFs) (d : Nat) (name : kstring) : Option (MemFs × Nat) := do
  let entries_ ← fs.entries d
  if (entries_.find kstring.lt name).isSome then none else fs.create d name (.dir [])

def Open (fs : MemFs) (d : Nat) (name : kstring) : Option (MemFs × Nat) := do
  let entries_ ← fs.entries d
  match entries_.find kstring.lt name with
  | some it =>
    let node ← fs.nodes[it]?
    if node.type = .File then pure (fs, it) else none
  | none => fs.create d name .file

def ListDirNode (fs : MemFs) (d : Nat) : Option (OrderedMap kstring Nat) := do
  let entries_ ← fs.entries d
  pure (entries_.foldl (fun ret e => ret.emplace kstring.lt e.1 e.2) [])

/-- The node of a name. -/
def find (fs : MemFs) (d : Nat) (name : kstring) : Option Nat := do
  let entries_ ← fs.entries d
  entries_.find kstring.lt name

end MemFs

/-! ## Calls -/

/-- A node that a call has created. -/
structure Creation where
  dir : Nat
  name : kstring
  kind : NodeType
  node : Nat
  deriving DecidableEq

structure FsState where
  fs : MemFs
  created : List Creation

inductive FsEvent where
  | Mkdir (d : Nat) (name : kstring)
  | Open (d : Nat) (name : kstring)

/-- A call, which is not possible where its assertion fails. -/
def FsState.exec (s : FsState) : FsEvent → Option FsState
  | .Mkdir d name => do
    let (fs, it) ← s.fs.Mkdir d name
    pure ⟨fs, s.created ++ [⟨d, name, .Dir, it⟩]⟩
  | .Open d name => do
    let (fs, it) ← s.fs.Open d name
    pure ⟨fs, if (s.fs.find d name).isSome then s.created
      else s.created ++ [⟨d, name, .File, it⟩]⟩

/-- From a root directory without entries. -/
def mem_fs_system : System FsState FsEvent where
  init := fun s => s = ⟨⟨[.dir []]⟩, []⟩
  step := fun s e s' => s.exec e = some s'

/-! ## A new entry -/

namespace MemFs

variable {fs : MemFs} {d : Nat} {name : kstring} {es : OrderedMap kstring Nat} {node : MemFsNode}

/-- The nodes after `create`. -/
def add (fs : MemFs) (d : Nat) (es : OrderedMap kstring Nat) (name : kstring) (node : MemFsNode) :
    MemFs :=
  ⟨fs.nodes.set d (.dir (es ++ [(name, fs.nodes.length)])) ++ [node]⟩

theorem nodes_of_entries (hd : fs.entries d = some es) : fs.nodes[d]? = some (.dir es) := by
  unfold entries at hd
  split at hd
  · next h =>
    cases hd
    exact h
  · cases hd

theorem lt_of_entries (hd : fs.entries d = some es) : d < fs.nodes.length :=
  (List.getElem?_eq_some_iff.mp (nodes_of_entries hd)).1

theorem find_eq (hd : fs.entries d = some es) (name : kstring) :
    fs.find d name = OrderedMap.find kstring.lt es name := by
  rw [find, hd]
  rfl

theorem create_eq (hd : fs.entries d = some es) (hname : OrderedMap.find kstring.lt es name = none)
    (node : MemFsNode) :
    fs.create d name node = some (fs.add d es name node, fs.nodes.length) := by
  have hit : OrderedMap.find kstring.lt (es ++ [(name, fs.nodes.length)]) name =
      some fs.nodes.length := by
    rw [find_append, hname, find_singleton, if_pos ((kstring.same_iff name name).mpr rfl)]
    rfl
  rw [create, hd]
  simp only [Option.bind_eq_bind, Option.bind_some, emplace_of_none hname, hit]
  rfl

/-- The directory has the entry, the new node is the last one, and the others are as before. -/
theorem nodes_add (hd : fs.entries d = some es) (i : Nat) :
    (fs.add d es name node).nodes[i]? =
      if i = d then some (.dir (es ++ [(name, fs.nodes.length)]))
      else if i = fs.nodes.length then some node else fs.nodes[i]? := by
  have hlt := lt_of_entries hd
  rw [add, List.getElem?_append, List.length_set]
  split_ifs with hi hid hilen hid hilen
  · rw [hid, List.getElem?_set_self hlt]
  · omega
  · rw [List.getElem?_set_ne (Ne.symm hid)]
  · omega
  · simp [hilen]
  · rw [List.getElem?_eq_none (by simp; omega), List.getElem?_eq_none (by omega)]

theorem kind_add (hd : fs.entries d = some es) (i : Nat) :
    ((fs.add d es name node).nodes[i]?).map MemFsNode.kind =
      if i = fs.nodes.length then some node.kind else (fs.nodes[i]?).map MemFsNode.kind := by
  have hlt := lt_of_entries hd
  rw [nodes_add hd]
  by_cases hid : i = d
  · -- the directory is still one
    rw [if_pos hid, if_neg (by omega), hid, nodes_of_entries hd]
    rfl
  · rw [if_neg hid]
    split <;> rfl

theorem entries_add (hd : fs.entries d = some es) (hnode : node = .file ∨ node = .dir [])
    {i : Nat} {es' : OrderedMap kstring Nat} (h : (fs.add d es name node).entries i = some es') :
    (i = d ∧ es' = es ++ [(name, fs.nodes.length)]) ∨ (i ≠ d ∧ fs.entries i = some es') ∨
      es' = [] := by
  have hnodes := nodes_of_entries h
  rw [nodes_add hd] at hnodes
  split_ifs at hnodes with hid hilen
  · cases hnodes
    exact .inl ⟨hid, rfl⟩
  · right; right
    cases hnodes
    rcases hnode with h | h
    · cases h
    · cases h
      rfl
  · right; left
    exact ⟨hid, by rw [entries, hnodes]⟩

theorem find_nodes (fs : MemFs) (i : Nat) (n : kstring) :
    fs.find i n = (fs.nodes[i]?).bind (·.lookup n) := by
  unfold find entries
  cases fs.nodes[i]? with
  | none => rfl
  | some node => cases node <;> rfl

/-- One name is new. -/
theorem find_add (hd : fs.entries d = some es) (hnode : node = .file ∨ node = .dir [])
    (i : Nat) (n : kstring) :
    (fs.add d es name node).find i n =
      (fs.find i n).or (if i = d ∧ n = name then some fs.nodes.length else none) := by
  rw [find_nodes, nodes_add hd]
  by_cases hid : i = d
  · subst hid
    have hsame : same kstring.lt name n = true ↔ n = name :=
      (kstring.same_iff name n).trans eq_comm
    rw [if_pos rfl, find_eq hd]
    show OrderedMap.find kstring.lt (es ++ [(name, fs.nodes.length)]) n = _
    rw [find_append, find_singleton]
    simp [hsame]
  · rw [if_neg hid, if_neg (c := i = d ∧ n = name) (fun h => hid h.1), Option.or_none, find_nodes]
    split
    · next hilen =>
      -- a new node has no entries
      rw [hilen, List.getElem?_eq_none (Nat.le_refl _)]
      rcases hnode with rfl | rfl <;> rfl
    · rfl

/-! ## Calls on names that are there -/

/-- `Mkdir` makes a new directory, or its assertion fails. -/
theorem Mkdir_eq (hd : fs.entries d = some es) (name : kstring) :
    fs.Mkdir d name = if (fs.find d name).isSome then none
      else some (fs.add d es name (.dir []), fs.nodes.length) := by
  rw [find_eq hd, Mkdir, hd]
  cases hname : OrderedMap.find kstring.lt es name with
  | some it => simp [hname]
  | none => simp [hname, create_eq hd hname]

theorem Open_of_none (hd : fs.entries d = some es) (hname : fs.find d name = none) :
    fs.Open d name = some (fs.add d es name .file, fs.nodes.length) := by
  rw [find_eq hd] at hname
  simp [Open, hd, hname, create_eq hd hname]

/-- **`Open` has the two classes mixed up**: its assertion fails for a file, and a directory is
    returned. -/
theorem Open_of_some {it : Nat} (hname : fs.find d name = some it) {kind : NodeType}
    (hkind : (fs.nodes[it]?).map MemFsNode.kind = some kind) :
    fs.Open d name = if kind = .Dir then some (fs, it) else none := by
  obtain ⟨entries_, hd, hfind⟩ := Option.bind_eq_some_iff.mp hname
  obtain ⟨node, hnode, rfl⟩ := Option.map_eq_some_iff.mp hkind
  cases node with
  | file => simp [Open, hd, hfind, hnode, MemFsNode.type, MemFsNode.kind]
  | dir es => simp [Open, hd, hfind, hnode, MemFsNode.type, MemFsNode.kind]

end MemFs

/-! ## Every run -/

/-- A call either finds its name and changes nothing, or it creates a node. -/
theorem FsState.exec_cases {s s' : FsState} {e : FsEvent} (h : s.exec e = some s') :
    s' = s ∨ ∃ d name es node, s.fs.entries d = some es ∧ s.fs.find d name = none ∧
      (node = .file ∨ node = .dir []) ∧
      s' = ⟨s.fs.add d es name node,
        s.created ++ [⟨d, name, node.kind, s.fs.nodes.length⟩]⟩ := by
  cases e with
  | Mkdir d name =>
    obtain ⟨⟨fs, it⟩, hmkdir, h⟩ := Option.bind_eq_some_iff.mp h
    cases h
    obtain ⟨es, hd, -⟩ := Option.bind_eq_some_iff.mp hmkdir
    rw [MemFs.Mkdir_eq hd] at hmkdir
    split at hmkdir
    · cases hmkdir
    · next hname =>
      cases hmkdir
      exact .inr ⟨d, name, es, .dir [], hd, by simpa using hname, .inr rfl, rfl⟩
  | Open d name =>
    obtain ⟨⟨fs, it⟩, hopen, h⟩ := Option.bind_eq_some_iff.mp h
    cases h
    obtain ⟨es, hd, hopen'⟩ := Option.bind_eq_some_iff.mp hopen
    cases hname : s.fs.find d name with
    | some it' =>
      rw [← MemFs.find_eq hd, hname] at hopen'
      obtain ⟨node, hnode, hresult⟩ := Option.bind_eq_some_iff.mp hopen'
      split at hresult
      · cases hresult
        exact .inl rfl
      · cases hresult
    | none =>
      rw [MemFs.Open_of_none hd hname] at hopen
      cases hopen
      exact .inr ⟨d, name, es, .file, hd, hname, .inl rfl, rfl⟩

structure FsInv (s : FsState) : Prop where
  found : ∀ d name it, s.fs.find d name = some it ↔ ∃ kind, ⟨d, name, kind, it⟩ ∈ s.created
  kind : ∀ c ∈ s.created, (s.fs.nodes[c.node]?).map MemFsNode.kind = some c.kind
  distinct : ∀ d es, s.fs.entries d = some es → Distinct kstring.lt es

/-- The root is empty. -/
theorem fsInv_init : FsInv ⟨⟨[.dir []]⟩, []⟩ := by
  have hfind : ∀ d name, MemFs.find ⟨[.dir []]⟩ d name = none := by
    intro d name
    rw [MemFs.find_nodes]
    cases d <;> rfl
  constructor
  · simp [hfind]
  · simp
  · intro d es hd
    have hnodes := MemFs.nodes_of_entries hd
    cases d with
    | zero =>
      cases hnodes
      exact .nil
    | succ d => cases hnodes

/-- A node is created under a name that was not there. -/
theorem FsInv.add {s : FsState} (hs : FsInv s) {d : Nat} {name : kstring}
    {es : OrderedMap kstring Nat} {node : MemFsNode} (hd : s.fs.entries d = some es)
    (hname : s.fs.find d name = none) (hnode : node = .file ∨ node = .dir []) :
    FsInv ⟨s.fs.add d es name node,
      s.created ++ [⟨d, name, node.kind, s.fs.nodes.length⟩]⟩ := by
  refine ⟨fun d' name' it => ?_, fun c hc => ?_, fun d' es' hd' => ?_⟩
  · show (s.fs.add d es name node).find d' name' = some it ↔ _
    rw [MemFs.find_add hd hnode]
    by_cases hnew : d' = d ∧ name' = name
    · obtain ⟨rfl, rfl⟩ := hnew
      -- no entry for this name was created before
      have hnone : ∀ kind it, (⟨d', name', kind, it⟩ : Creation) ∉ s.created := by
        intro kind it hmem
        rw [(hs.found d' name' it).mpr ⟨kind, hmem⟩] at hname
        cases hname
      simp [hname, hnone, eq_comm]
    · have hold : ∀ kind, (⟨d', name', kind, it⟩ : Creation) ≠
          ⟨d, name, node.kind, s.fs.nodes.length⟩ := by
        rintro kind heq
        cases heq
        exact hnew ⟨rfl, rfl⟩
      simp only [if_neg hnew, Option.or_none, List.mem_append, List.mem_singleton, hold, or_false]
      exact hs.found d' name' it
  · show ((s.fs.add d es name node).nodes[c.node]?).map MemFsNode.kind = some c.kind
    rw [MemFs.kind_add hd]
    rcases List.mem_append.mp hc with hold | hlast
    · have hkind := hs.kind c hold
      -- an old node is not the new one
      have hne : c.node ≠ s.fs.nodes.length := by
        intro heq
        rw [heq, List.getElem?_eq_none (Nat.le_refl _)] at hkind
        cases hkind
      rw [if_neg hne, hkind]
    · obtain rfl := List.mem_singleton.mp hlast
      rw [if_pos rfl]
  · rcases MemFs.entries_add hd hnode hd' with ⟨-, rfl⟩ | ⟨-, hold⟩ | rfl
    · rw [MemFs.find_eq hd] at hname
      rw [← emplace_of_none hname]
      exact (hs.distinct d es hd).emplace name _
    · exact hs.distinct d' es' hold
    · exact .nil

theorem fsInv_of_reachable : ∀ s, Reachable mem_fs_system s → FsInv s := by
  refine invariant_of_step ?_ ?_
  · rintro s rfl
    exact fsInv_init
  · intro s e s' _ hs hstep
    obtain rfl | ⟨d, name, es, node, hd, hname, hnode, rfl⟩ := FsState.exec_cases hstep
    · exact hs
    · exact hs.add hd hname hnode

/-- A name keeps its node. -/
theorem find_stable {s s' : FsState} {ls : List FsEvent} (h : Steps mem_fs_system s ls s')
    {d : Nat} {name : kstring} {it : Nat} (hfind : s.fs.find d name = some it) :
    s'.fs.find d name = some it := by
  induction h with
  | refl => exact hfind
  | tail _ hstep ih =>
    obtain rfl | ⟨d', name', es, node, hd, -, hnode, rfl⟩ := FsState.exec_cases hstep
    · exact ih
    · show (MemFs.add _ d' es name' node).find d name = some it
      rw [MemFs.find_add hd hnode, ih]
      rfl

/-- `ListDirNode` copies the entries. -/
theorem ListDirNode_eq {s : FsState} (hs : FsInv s) {d : Nat} {es : OrderedMap kstring Nat}
    (hd : s.fs.entries d = some es) : s.fs.ListDirNode d = some es := by
  rw [MemFs.ListDirNode, hd]
  exact congrArg some (foldl_emplace (hs.distinct d es hd))

/-! ## What a directory should do -/

/-- A name that was created is opened as what it is, and its node says what it is. -/
structure NameContract (s : FsState) (d : Nat) (name : kstring) : Prop where
  file : ∀ it, ⟨d, name, .File, it⟩ ∈ s.created → s.fs.Open d name = some (s.fs, it)
  dir : ∀ it, ⟨d, name, .Dir, it⟩ ∈ s.created → s.fs.Open d name = none
  type : ∀ kind it, ⟨d, name, kind, it⟩ ∈ s.created →
    (s.fs.nodes[it]?).map MemFsNode.type = some kind

/-- **Directories.** In every run and for every directory: a name keeps its node, `Mkdir` does not
    take a name that is there, and `ListDirNode` has the names that were created. `Open` fails for
    files and returns directories, so that opening and `type` are right exactly for names that
    are not there. -/
theorem directory_contract_iff (s : FsState) (hs : Reachable mem_fs_system s) (d : Nat)
    (es : OrderedMap kstring Nat) (hd : s.fs.entries d = some es) (name : kstring) :
    (∀ ls s' it, Steps mem_fs_system s ls s' → s.fs.find d name = some it →
      s'.fs.find d name = some it) ∧
    ((∃ kind it, ⟨d, name, kind, it⟩ ∈ s.created) → s.fs.Mkdir d name = none) ∧
    (∃ listed, s.fs.ListDirNode d = some listed ∧ ∀ n it,
      listed.find kstring.lt n = some it ↔ ∃ kind, ⟨d, n, kind, it⟩ ∈ s.created) ∧
    (∀ kind it, ⟨d, name, kind, it⟩ ∈ s.created →
      s.fs.Open d name = if kind = .Dir then some (s.fs, it) else none) ∧
    (NameContract s d name ↔ ∀ kind it, ⟨d, name, kind, it⟩ ∉ s.created) := by
  have hinv := fsInv_of_reachable s hs
  refine ⟨fun ls s' it h hfind => find_stable h hfind, ?_, ?_, fun kind it hmem => ?_, ?_⟩
  · rintro ⟨kind, it, hmem⟩
    rw [MemFs.Mkdir_eq hd, (hinv.found d name it).mpr ⟨kind, hmem⟩]
    rfl
  · refine ⟨es, ListDirNode_eq hinv hd, fun n it => ?_⟩
    rw [← MemFs.find_eq hd]
    exact hinv.found d n it
  · exact MemFs.Open_of_some ((hinv.found d name it).mpr ⟨kind, hmem⟩) (hinv.kind _ hmem)
  · constructor
    · intro hcontract kind it hmem
      -- the node has the other type
      have hkind := hinv.kind _ hmem
      have htype := hcontract.type kind it hmem
      obtain ⟨node, hnode, hnodekind⟩ := Option.map_eq_some_iff.mp hkind
      rw [hnode] at htype
      cases node <;> cases hnodekind <;> cases htype
    · intro hnone
      exact ⟨fun it hmem => absurd hmem (hnone _ it), fun it hmem => absurd hmem (hnone _ it),
        fun kind it hmem => absurd hmem (hnone kind it)⟩

/-- The state after `Mkdir("a")` and `Open("b")` on the root. -/
def two_names : FsState :=
  ⟨⟨[.dir [([0x61], 1), ([0x62], 2)], .dir [], .file]⟩,
    [⟨0, [0x61], .Dir, 1⟩, ⟨0, [0x62], .File, 2⟩]⟩

theorem reachable_two_names : Reachable mem_fs_system two_names := by
  have hrun : [FsEvent.Mkdir 0 [0x61], .Open 0 [0x62]].foldlM FsState.exec ⟨⟨[.dir []]⟩, []⟩ =
      some two_names := by
    rfl
  exact Reachable.foldlM (fun _ _ _ h => h) (.init rfl) hrun

/-- The contract holds for a third name and not for the first, which cannot be made again and is
    opened and listed. -/
theorem third_name_contract : NameContract two_names 0 [0x63] ∧ ¬ NameContract two_names 0 [0x61] ∧
    two_names.fs.Mkdir 0 [0x61] = none ∧
    two_names.fs.Open 0 [0x61] = some (two_names.fs, 1) ∧
    ∃ listed, two_names.fs.ListDirNode 0 = some listed ∧
      listed.find kstring.lt [0x61] = some 1 := by
  have hfirst : ⟨0, [0x61], .Dir, 1⟩ ∈ two_names.created := List.mem_cons_self
  obtain ⟨-, hmkdir, ⟨listed, hlist, hlisted⟩, hopen, hcontract⟩ :=
    directory_contract_iff two_names reachable_two_names 0 _ rfl [0x61]
  obtain ⟨-, -, -, -, hthird⟩ :=
    directory_contract_iff two_names reachable_two_names 0 _ rfl [0x63]
  refine ⟨hthird.mpr ?_, fun h => hcontract.mp h _ _ hfirst, hmkdir ⟨_, _, hfirst⟩,
    hopen _ _ hfirst, listed, hlist, (hlisted [0x61] 1).mpr ⟨_, hfirst⟩⟩
  intro kind it
  simp [two_names]

/-- The directory is opened as a file, and the file is not opened. -/
theorem directory_opened_as_file : Reachable mem_fs_system two_names ∧
    two_names.fs.Open 0 [0x61] = some (two_names.fs, 1) ∧ two_names.fs.nodes[1]? = some (.dir []) ∧
    two_names.fs.Open 0 [0x62] = none ∧ two_names.fs.nodes[2]? = some .file :=
  ⟨reachable_two_names, rfl, rfl, rfl, rfl⟩

end Modern05
