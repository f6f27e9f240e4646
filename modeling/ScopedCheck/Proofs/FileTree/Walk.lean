import ScopedCheck.FileTree.Walk
import ScopedCheck.Proofs.FileTree.Lookup
/-! # What walks meet

A walk through a project comes to everything below its start that no installed package and no hidden
directory holds and that is not excluded, nor any directory on the way. A way may be cut anywhere
(`comes_append_iff`). -/

namespace ScopedCheck.FileTree

open ScopedCheck.Path (AreNames)

/-- The name of a directory that walks pass by. -/
def IsPassedName (name : Name) : Prop :=
  name = Path.packagesName.toList ∨ name.head? = some '.'

instance (name : Name) : Decidable (IsPassedName name) := inferInstanceAs (Decidable (_ ∨ _))

/-- A file below a node that is in no directory that walks pass by. The node itself may have any
name. -/
def HasSource (node : Node) (names : Location) : Prop :=
  names ≠ [] ∧ (∃ file, node.get? names = some (.file file)) ∧
    ∀ name ∈ names.dropLast, ¬IsPassedName name

@[simp] theorem Visit.path_below (path : Path) (depth : Nat) (name : Name) (kind : NodeKind) :
    (Visit.below path depth name kind).path = path.child (String.ofList name) := rfl

@[simp] theorem Visit.depth_below (path : Path) (depth : Nat) (name : Name) (kind : NodeKind) :
    (Visit.below path depth name kind).depth = depth := rfl

@[simp] theorem Visit.kind_below (path : Path) (depth : Nat) (name : Name) (kind : NodeKind) :
    (Visit.below path depth name kind).kind = kind := rfl

theorem isPassedBy_below (path : Path) (depth : Nat) (name : Name) (kind : NodeKind) :
    (Visit.below path (depth + 1) name kind).isPassedBy = true ↔ kind = .dir ∧ IsPassedName name := by
  simp [Visit.isPassedBy, Visit.below, IsPassedName]

theorem Node.get?_file (file : File) (names : Location) :
    (Node.file file).get? names = if names = [] then some (.file file) else none := by
  cases names <;> simp [Node.get?, Node.entry?, Node.entries]

theorem Node.get?_link (target : Path) (names : Location) :
    (Node.link target).get? names = if names = [] then some (.link target) else none := by
  cases names <;> simp [Node.get?, Node.entry?, Node.entries]

/-! ## Ways -/

/-- From a node that a walk has come to at a path, it comes through names to a node: it passes by no
directory on the way, and nothing there is excluded. -/
inductive Comes (excluded : Path → Bool) : Path → Node → Location → Node → Prop
  | here (path : Path) (node : Node) : Comes excluded path node [] node
  | into {path : Path} {entries : List (Name × Node)} {name : Name} {below last : Node} {names : Location}
      (hentry : Node.entry? (.dir entries) name = some below)
      (hopen : below.isDir = true → ¬IsPassedName name)
      (hkept : excluded (path.child (String.ofList name)) = false)
      (hrest : Comes excluded (path.child (String.ofList name)) below names last) :
      Comes excluded path (.dir entries) (name :: names) last

section Ways

variable {excluded : Path → Bool} {path : Path} {node last : Node} {names : Location}

theorem Comes.get?_eq (h : Comes excluded path node names last) : node.get? names = some last := by
  induction h with
  | here => rfl
  | into hentry _ _ _ ih => simpa [Node.get?, hentry] using ih

/-- A way may be cut anywhere. -/
theorem comes_append_iff {front rear : Location} :
    Comes excluded path node (front ++ rear) last ↔
      ∃ mid, Comes excluded path node front mid ∧ Comes excluded (path.through front) mid rear last := by
  induction front generalizing path node with
  | nil =>
      constructor
      · exact fun h => ⟨node, .here path node, h⟩
      · rintro ⟨mid, hfront, hrear⟩
        cases hfront
        exact hrear
  | cons name front ih =>
      constructor
      · intro h
        cases h with
        | into hentry hopen hkept hrest =>
          obtain ⟨mid, hfront, hrear⟩ := ih.mp hrest
          exact ⟨mid, .into hentry hopen hkept hfront, hrear⟩
      · rintro ⟨mid, hfront, hrear⟩
        cases hfront with
        | into hentry hopen hkept hrest =>
          exact .into hentry hopen hkept (ih.mpr ⟨mid, hrest, hrear⟩)

/-- A walk comes to the same where the same is excluded. -/
theorem Comes.elsewhere {other : Path → Bool} {there : Path}
    (h : Comes excluded path node names last) (hnames : AreNames names)
    (hsame : ∀ names, AreNames names → other (there.through names) = excluded (path.through names)) :
    Comes other there node names last := by
  induction h generalizing there with
  | here => exact .here _ _
  | @into path entries name below last names hentry hopen hkept _ ih =>
    obtain ⟨hname, hrest⟩ := List.forall_mem_cons.mp hnames
    have hone : other (there.through [name]) = excluded (path.through [name]) :=
      hsame [name] (List.forall_mem_singleton.mpr hname)
    refine .into hentry hopen (hone.trans hkept) (ih hrest fun names hnames => ?_)
    exact hsame (name :: names) (List.forall_mem_cons.mpr ⟨hname, hnames⟩)

theorem comes_file_iff {file : File} : Comes excluded path (.file file) names last ↔
    names = [] ∧ last = .file file := by
  constructor
  · intro h
    cases h
    exact ⟨rfl, rfl⟩
  · rintro ⟨rfl, rfl⟩
    exact .here path _

/-- A walk goes on below the first one of some entries or below another one. -/
theorem comes_dir_cons {first : Name} {below : Node} {rest : List (Name × Node)}
    (h : areProper ((first, below) :: rest) = true) {file : File} :
    Comes excluded path (.dir ((first, below) :: rest)) names (.file file) ↔
      (∃ later, names = first :: later ∧ (below.isDir = true → ¬IsPassedName first) ∧
        excluded (path.child (String.ofList first)) = false ∧
        Comes excluded (path.child (String.ofList first)) below later (.file file)) ∨
      Comes excluded path (.dir rest) names (.file file) := by
  obtain ⟨-, hfresh, -, -⟩ := areProper_cons.mp h
  have hfirst : Node.entry? (.dir ((first, below) :: rest)) first = some below := by
    simp [Node.entry?, Node.entries]
  have hother : ∀ {name : Name}, name ≠ first →
      Node.entry? (.dir ((first, below) :: rest)) name = Node.entry? (.dir rest) name := by
    intro name hne
    simp [Node.entry?, Node.entries, Ne.symm hne]
  constructor
  · intro h
    cases h with
    | @into _ _ name next _ later hentry hopen hkept hrest =>
      by_cases hname : name = first
      · subst hname
        obtain rfl : below = next := Option.some.inj (hfirst.symm.trans hentry)
        exact Or.inl ⟨later, rfl, hopen, hkept, hrest⟩
      · exact Or.inr (.into (hother hname ▸ hentry) hopen hkept hrest)
  · rintro (⟨later, rfl, hopen, hkept, hrest⟩ | h)
    · exact .into hfirst hopen hkept hrest
    · cases h with
      | @into _ _ name next _ later hentry hopen hkept hrest =>
        have hname : name ≠ first := fun heq => hfresh _ (Node.mem_of_entry hentry) heq
        exact .into ((hother hname).trans hentry) hopen hkept hrest

theorem Comes.exists_entries {name : Name} (h : Comes excluded path node (name :: names) last) :
    ∃ entries, node = .dir entries := by
  cases h
  exact ⟨_, rfl⟩

/-- A file is a source below a node if a walk that nothing is excluded from comes there. -/
theorem hasSource_iff (path : Path) : HasSource node names ↔
    names ≠ [] ∧ ∃ file, Comes (fun _ => false) path node names (.file file) := by
  induction names generalizing node path with
  | nil => simp [HasSource]
  | cons name names ih =>
    constructor
    · rintro ⟨hne, ⟨file, hfile⟩, hopen⟩
      simp only [Node.get?, Option.bind_eq_some_iff] at hfile
      obtain ⟨below, hentry, hfile⟩ := hfile
      obtain ⟨entries, rfl⟩ : ∃ entries, node = .dir entries := by
        cases node with
        | dir entries => exact ⟨entries, rfl⟩
        | file _ => simp [Node.entry?, Node.entries] at hentry
        | link _ => simp [Node.entry?, Node.entries] at hentry
      cases names with
      | nil =>
        obtain rfl := Option.some.inj hfile
        exact ⟨hne, file, .into hentry (by simp [Node.isDir]) rfl (.here _ _)⟩
      | cons next names =>
        rw [List.dropLast_cons_of_ne_nil (List.cons_ne_nil next names)] at hopen
        obtain ⟨hname, hopen⟩ := List.forall_mem_cons.mp hopen
        obtain ⟨-, found, hfound⟩ := (ih (path.child (String.ofList name))).mp
          ⟨List.cons_ne_nil next names, ⟨file, hfile⟩, hopen⟩
        exact ⟨hne, found, .into hentry (fun _ => hname) rfl hfound⟩
    · rintro ⟨hne, file, h⟩
      refine ⟨hne, ⟨file, h.get?_eq⟩, ?_⟩
      cases h with
      | into hentry hopen _ hrest =>
        cases names with
        | nil => simp
        | cons next names =>
          obtain ⟨entries, rfl⟩ := hrest.exists_entries
          rw [List.dropLast_cons_of_ne_nil (List.cons_ne_nil next names)]
          exact List.forall_mem_cons.mpr ⟨hopen rfl,
            ((ih _).mpr ⟨List.cons_ne_nil next names, file, hrest⟩).2.2⟩

end Ways

mutual

theorem mem_walkNode (excluded : Path → Bool) (name : Name) {node : Node} (hnode : node.isProper = true)
    (path : Path) (depth : Nat) (p : Path) :
    (∃ visit ∈ walkNode (fun visit => !visit.isPassedBy && !excluded visit.path)
        (.below path (depth + 1) name node.kind) node, visit.kind = .file ∧ visit.path = p) ↔
      ∃ names file, (node.isDir = true → ¬IsPassedName name) ∧
        excluded (path.child (String.ofList name)) = false ∧
        Comes excluded (path.child (String.ofList name)) node names (.file file) ∧
        p = (path.child (String.ofList name)).through names := by
  cases node with
  | file file =>
      have hopen : (Visit.below path (depth + 1) name .file).isPassedBy = false := by
        simp [Visit.isPassedBy]
      cases hexcluded : excluded (path.child (String.ofList name)) with
      | true => simp [walkNode, Node.kind, hexcluded]
      | false => simp [walkNode, Node.kind, hexcluded, hopen, Node.isDir, comes_file_iff, eq_comm]
  | link target =>
      constructor
      · rintro ⟨visit, hvisit, hkind, -⟩
        simp only [walkNode] at hvisit
        split at hvisit
        · rw [List.mem_singleton.mp hvisit] at hkind
          simp [Visit.below, Node.kind] at hkind
        · simp at hvisit
      · rintro ⟨names, file, -, -, hcomes, -⟩
        cases hcomes
  | dir entries =>
      have ih := mem_walkEntries excluded hnode (path.child (String.ofList name)) (depth + 1) p
      have hby := isPassedBy_below path depth name .dir
      simp only [walkNode, Node.kind, Node.isDir, forall_const]
      by_cases hopen : IsPassedName name
      · simp [hby.mpr ⟨rfl, hopen⟩, hopen]
      · have hby : (Visit.below path (depth + 1) name .dir).isPassedBy = false := by simpa [hopen] using hby
        cases hexcluded : excluded (path.child (String.ofList name)) with
        | true => simp [hexcluded]
        | false =>
          simp only [hby, Visit.path_below, Visit.depth_below, hexcluded, hopen, Bool.not_false,
            Bool.and_self, if_true, not_false_eq_true, true_and]
          rw [← ih]
          constructor
          · rintro ⟨visit, hvisit, hkind, hp⟩
            rcases List.mem_cons.mp hvisit with rfl | hvisit
            · simp at hkind
            · exact ⟨visit, hvisit, hkind, hp⟩
          · rintro ⟨visit, hvisit, hkind, hp⟩
            exact ⟨visit, List.mem_cons_of_mem _ hvisit, hkind, hp⟩

theorem mem_walkEntries (excluded : Path → Bool) {entries : List (Name × Node)}
    (hentries : areProper entries = true) (path : Path) (depth : Nat) (p : Path) :
    (∃ visit ∈ walkEntries (fun visit => !visit.isPassedBy && !excluded visit.path) path (depth + 1) entries,
        visit.kind = .file ∧ visit.path = p) ↔
      ∃ names file, Comes excluded path (.dir entries) names (.file file) ∧ p = path.through names := by
  cases entries with
  | nil =>
      constructor
      · rintro ⟨visit, hvisit, -⟩
        simp [walkEntries] at hvisit
      · rintro ⟨names, file, hcomes, -⟩
        cases hcomes with
        | into hentry => simp [Node.entry?, Node.entries] at hentry
  | cons entry rest =>
      obtain ⟨first, node⟩ := entry
      obtain ⟨-, -, hnode, hrest⟩ := areProper_cons.mp hentries
      have hfirst := mem_walkNode excluded first hnode path depth p
      have ih := mem_walkEntries excluded hrest path depth p
      simp only [walkEntries, List.mem_append, or_and_right, exists_or, hfirst, ih,
        comes_dir_cons hentries]
      refine or_congr ?_ Iff.rfl
      constructor
      · rintro ⟨names, file, hopen, hkept, hcomes, rfl⟩
        exact ⟨first :: names, file, ⟨names, rfl, hopen, hkept, hcomes⟩, rfl⟩
      · rintro ⟨_, file, ⟨names, rfl, hopen, hkept, hcomes⟩, rfl⟩
        exact ⟨names, file, hopen, hkept, hcomes, rfl⟩

end

/-! ## Whole walks -/

/-- What a walk starts from: whatever is at the start and is not excluded, or the directory behind a link. -/
inductive StartsFrom (tree : FileTree) (excluded : Path → Bool) (start : Path) : Node → Prop
  | here {node : Node} (hnode : tree.unfollowed start = .ok node) (hkind : ∀ target, node ≠ .link target)
      (hkept : excluded start = false) : StartsFrom tree excluded start node
  | behind {target : Path} {entries : List (Name × Node)} (hlink : tree.unfollowed start = .ok (.link target))
      (hdir : tree.node start = .ok (.dir entries)) : StartsFrom tree excluded start (.dir entries)

/-- A walk from a start comes through names to a node. -/
def ComesTo (tree : FileTree) (excluded : Path → Bool) (start : Path) (names : Location) (last : Node) : Prop :=
  ∃ node, tree.StartsFrom excluded start node ∧ Comes excluded start node names last

section Walks

variable {tree : FileTree} {start : Path}

theorem areProper_of_nodeAt? (htree : tree.isProper = true) {location : Location}
    {entries : List (Name × Node)} (h : tree.nodeAt? location = some (.dir entries)) :
    areProper entries = true := (Node.isProper_get? htree h).2

theorem areProper_of_node (htree : tree.isProper = true) {path : Path} {entries : List (Name × Node)}
    (h : tree.node path = .ok (.dir entries)) : areProper entries = true := by
  obtain ⟨-, _, _, location, -, -, hlocation⟩ := node_eq_ok_iff.mp h
  exact areProper_of_nodeAt? htree hlocation

theorem StartsFrom.node_eq (habs : start.isAbsolute = true) {excluded : Path → Bool} {node : Node}
    (h : tree.StartsFrom excluded start node) : tree.node start = .ok node := by
  cases h with
  | here hend hkind => exact node_of_unfollowed habs hend hkind
  | behind _ hdir => exact hdir

theorem startsFrom_iff {excluded : Path → Bool} {found other : Node} (hend : tree.unfollowed start = .ok found)
    (hkind : ∀ target, found ≠ .link target) :
    tree.StartsFrom excluded start other ↔ other = found ∧ excluded start = false := by
  constructor
  · intro h
    cases h with
    | here hnode _ hkept => exact ⟨Except.ok.inj (hnode.symm.trans hend), hkept⟩
    | behind hlink => exact absurd (Except.ok.inj (hend.symm.trans hlink)) (hkind _)
  · rintro ⟨rfl, hkept⟩
    exact .here hend hkind hkept

theorem startsFrom_link_iff {excluded : Path → Bool} {target : Path} {other : Node}
    (hlink : tree.unfollowed start = .ok (.link target)) :
    tree.StartsFrom excluded start other ↔
      ∃ entries, other = .dir entries ∧ tree.node start = .ok (.dir entries) := by
  constructor
  · intro h
    cases h with
    | here hnode hkind => exact absurd (Except.ok.inj (hnode.symm.trans hlink)) (hkind _)
    | behind _ hdir => exact ⟨_, rfl, hdir⟩
  · rintro ⟨entries, rfl, hdir⟩
    exact .behind hlink hdir

/-- A walk meets the files that it comes to. -/
theorem mem_walk (htree : tree.isProper = true) (excluded : Path → Bool) (start p : Path) :
    (∃ visit ∈ tree.walk (fun visit => !visit.isPassedBy && !excluded visit.path) start,
        visit.kind = .file ∧ visit.path = p) ↔
      ∃ names file, tree.ComesTo excluded start names (.file file) ∧ p = start.through names := by
  simp only [ComesTo, walk]
  cases hend : tree.unfollowed start with
  | error fault =>
    have hnone : ∀ node, ¬tree.StartsFrom excluded start node := by
      intro node h
      cases h <;> simp_all
    simp [hnone]
  | ok node =>
    cases node with
    | file file =>
      simp only [startsFrom_iff hend (by simp), and_assoc, exists_eq_left, comes_file_iff]
      cases hexcluded : excluded start with
      | true => simp [walkNode, hexcluded]
      | false => simp [walkNode, hexcluded, Visit.isPassedBy, Node.kind, eq_comm]
    | dir entries =>
      obtain ⟨place, -, hplace⟩ := unfollowed_eq_ok_iff.mp hend
      have hbelow := mem_walkEntries excluded (areProper_of_nodeAt? htree hplace) start 0 p
      simp only [startsFrom_iff hend (by simp), and_assoc, exists_eq_left]
      cases hexcluded : excluded start with
      | true => simp [walkNode, hexcluded]
      | false => simpa [walkNode, hexcluded, Visit.isPassedBy, Node.kind] using hbelow
    | link target =>
      have hlink : ∀ visit ∈ walkNode (fun visit => !visit.isPassedBy && !excluded visit.path)
          ⟨start, 0, start.name.toList, (Node.link target).kind⟩ (.link target), visit.kind ≠ .file := by
        intro visit hvisit
        simp only [walkNode] at hvisit
        split at hvisit
        · rw [List.mem_singleton.mp hvisit]
          simp [Node.kind]
        · simp at hvisit
      simp only [startsFrom_link_iff hend, List.mem_append, or_and_right, exists_or]
      rw [or_iff_right fun ⟨visit, hvisit, hkind, _⟩ => hlink visit hvisit hkind]
      by_cases hdir : ∃ entries, tree.node start = .ok (.dir entries)
      · obtain ⟨entries, hnode⟩ := hdir
        simpa [hnode, and_assoc] using mem_walkEntries excluded (areProper_of_node htree hnode) start 0 p
      · refine iff_of_false ?_ ?_
        · rintro ⟨visit, hvisit, -⟩
          split at hvisit
          · exact hdir ⟨_, ‹_›⟩
          · simp at hvisit
        · rintro ⟨_, _, ⟨_, ⟨entries, -, hnode⟩, -⟩, -⟩
          exact hdir ⟨entries, hnode⟩

/-! ## Walks through sources -/

/-- Names that lead from the place of a path to a file, through no directory that walks pass by. -/
def HasSourceBelow (tree : FileTree) (start : Path) (names : Location) : Prop :=
  ∃ node, tree.node start = .ok node ∧ HasSource node names

theorem HasSource.isDir {node : Node} {names : Location} (h : HasSource node names) :
    ∃ entries, node = .dir entries := by
  obtain ⟨hne, ⟨file, hfile⟩, -⟩ := h
  cases node with
  | dir entries => exact ⟨entries, rfl⟩
  | file _ => simp [Node.get?_file, hne] at hfile
  | link _ => simp [Node.get?_link, hne] at hfile

theorem HasSourceBelow.areNames (htree : tree.isProper = true) {names : Location}
    (h : tree.HasSourceBelow start names) : AreNames names := by
  obtain ⟨node, hnode, hsource⟩ := h
  obtain ⟨entries, rfl⟩ := hsource.isDir
  obtain ⟨-, ⟨file, hfile⟩, -⟩ := hsource
  have hproper : (Node.dir entries).isProper = true := areProper_of_node htree hnode
  exact (Node.isProper_get? hproper hfile).1

/-- A walk that nothing is excluded from comes to the sources below its start. -/
theorem hasSourceBelow_iff (habs : start.isAbsolute = true) (hstart : tree.isFile start = false)
    (names : Location) : tree.HasSourceBelow start names ↔
      ∃ file, tree.ComesTo (fun _ => false) start names (.file file) := by
  constructor
  · rintro ⟨node, hnode, hsource⟩
    obtain ⟨entries, rfl⟩ := hsource.isDir
    obtain ⟨-, file, hcomes⟩ := (hasSource_iff start).mp hsource
    refine ⟨file, .dir entries, ?_, hcomes⟩
    rcases unfollowed_of_node hnode with hend | ⟨target, hlink⟩
    · exact .here hend (by simp) rfl
    · exact .behind hlink hnode
  · rintro ⟨file, node, hfrom, hcomes⟩
    have hnode := hfrom.node_eq habs
    refine ⟨node, hnode, (hasSource_iff start).mpr ⟨?_, file, hcomes⟩⟩
    rintro rfl
    cases hcomes
    simp [isFile, file?, hnode] at hstart

/-- A walk through sources meets exactly the files below its start that are in no directory that it
passes by. -/
theorem mem_walkSources (htree : tree.isProper = true) (habs : start.isAbsolute = true)
    (hstart : tree.isFile start = false) (p : Path) :
    (∃ visit ∈ tree.walkSources start, visit.path = p) ↔
      ∃ names, tree.HasSourceBelow start names ∧ p = start.through names := by
  have hwalk := mem_walk htree (fun _ => false) start p
  simp only [Bool.not_false, Bool.and_true] at hwalk
  simp only [walkSources, List.mem_filter, beq_iff_eq, and_assoc, hwalk, hasSourceBelow_iff habs hstart]
  exact exists_congr fun names => exists_and_right

end Walks

end ScopedCheck.FileTree
