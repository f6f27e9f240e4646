import ScopedCheck.Proofs.FileTree.Growth
/-! # Changes of file trees

What is put at a location or taken from it changes nothing elsewhere: directories stay directories,
links lead where they led, and files are what they were. Paths are looked up through directories and
links only, so that a path goes on to lead to its place whatever happens to files. -/

namespace ScopedCheck.FileTree

open Fallible (bind_eq_ok_iff)

namespace Node

/-! ## Entries that are set or taken away -/

/-- Other names go on to stand for what they stood for. -/
theorem entry?_setEntry_of_ne (entries : List (Name × Node)) {name other : Name} (h : other ≠ name)
    (node : Option Node) :
    entry? (.dir (setEntry entries name node)) other = entry? (.dir entries) other := by
  cases node with
  | some node => rw [entry?_setEntry, if_neg h]
  | none =>
      induction entries with
      | nil => rfl
      | cons first rest ih =>
          rw [setEntry]
          by_cases hfirst : first.1 = name
          · rw [if_pos hfirst, entry?_cons, if_neg fun heq => h (heq.symm.trans hfirst)]
            rfl
          · rw [if_neg hfirst, entry?_cons, entry?_cons, ih]

/-- A name whose entry is taken away stands for nothing. -/
theorem entry?_setEntry_none {entries : List (Name × Node)} (h : areProper entries = true)
    (name : Name) : entry? (.dir (setEntry entries name none)) name = none := by
  induction entries with
  | nil => rfl
  | cons first rest ih =>
      obtain ⟨-, hfresh, -, hrest⟩ := areProper_cons.mp h
      rw [setEntry]
      by_cases hfirst : first.1 = name
      · subst hfirst
        rw [if_pos rfl]
        cases hentry : entry? (.dir rest) first.1 with
        | none => exact hentry
        | some below => exact absurd rfl (hfresh (first.1, below) (mem_of_entry hentry))
      · rw [if_neg hfirst, entry?_cons, if_neg hfirst]
        exact ih hrest

theorem exists_mem_setEntry {entries : List (Name × Node)} {name : Name} {node : Option Node}
    {entry : Name × Node} (h : entry ∈ setEntry entries name node) :
    entry ∈ entries ∨ node = some entry.2 ∧ entry.1 = name := by
  induction entries with
  | nil =>
      cases node with
      | none => cases h
      | some node =>
          obtain rfl := List.mem_singleton.mp h
          exact Or.inr ⟨rfl, rfl⟩
  | cons first rest ih =>
      rw [setEntry] at h
      split at h
      · rcases List.mem_append.mp h with h | h
        · cases node with
          | none => cases h
          | some node =>
              obtain rfl := List.mem_singleton.mp h
              exact Or.inr ⟨rfl, rfl⟩
        · exact Or.inl (List.mem_cons_of_mem _ h)
      · rcases List.mem_cons.mp h with rfl | h
        · exact Or.inl (List.mem_cons_self ..)
        · exact (ih h).imp_left (List.mem_cons_of_mem _)

theorem areProper_setEntry {entries : List (Name × Node)} (h : areProper entries = true)
    {name : Name} (hname : isName name = true) {node : Option Node}
    (hnode : ∀ new ∈ node, new.isProper = true) : areProper (setEntry entries name node) = true := by
  induction entries with
  | nil =>
      cases node with
      | none => rfl
      | some node => exact areProper_cons.mpr ⟨hname, by simp, hnode node rfl, rfl⟩
  | cons first rest ih =>
      obtain ⟨hfirst, hfresh, hbelow, hrest⟩ := areProper_cons.mp h
      rw [setEntry]
      split
      · rename_i heq
        subst heq
        cases node with
        | none => exact hrest
        | some node => exact areProper_cons.mpr ⟨hname, hfresh, hnode node rfl, hrest⟩
      · rename_i hne
        refine areProper_cons.mpr ⟨hfirst, fun entry hentry => ?_, hbelow, ih hrest⟩
        rcases exists_mem_setEntry hentry with hold | ⟨-, hsame⟩
        · exact hfresh entry hold
        · rw [hsame]
          exact Ne.symm hne

/-! ## Nodes that are changed somewhere below -/

/-- A node without anything in it. -/
def bare : Node → Node
  | dir _ => dir []
  | other => other

/-- A directory whose entry is changed has its other entries. -/
theorem get?_alter_dir {node : Node} {front : Location} {entries : List (Name × Node)}
    (hdir : node.get? front = some (.dir entries)) (name : Name) (change : Option Node → Option Node) :
    (node.alter (front ++ [name]) change).get? front =
      some (.dir (setEntry entries name (change ( entry? (.dir entries) name)))) := by
  induction front generalizing node with
  | nil =>
      obtain rfl := Option.some.inj hdir
      rfl
  | cons first rest ih =>
      simp only [get?, Option.bind_eq_some_iff] at hdir
      obtain ⟨next, hnext, hdir⟩ := hdir
      obtain ⟨outer, rfl, halter⟩ := exists_alter_cons hnext rest name
      rw [List.cons_append, halter, get?, entry?_setEntry, if_pos rfl]
      exact ih hdir

/-- Outside of what is changed every node is what it was, apart from what is in it. -/
theorem bare_get?_alter (node : Node) {names other : Location} (h : ¬names <+: other)
    (change : Option Node → Option Node) :
    ((node.alter names change).get? other).map bare = (node.get? other).map bare := by
  fun_induction node.alter names change generalizing other with
  | case1 node => rfl
  | case2 name entries =>
      cases other with
      | nil => rfl
      | cons first rest =>
          have hne : first ≠ name := by
            rintro rfl
            exact h (List.cons_prefix_cons.mpr ⟨rfl, List.nil_prefix⟩)
          rw [get?, get?, entry?_setEntry_of_ne entries hne]
  | case3 name node hnode => rfl
  | case4 name names hlong entries below hbelow ih =>
      simp only [hbelow]
      cases other with
      | nil => rfl
      | cons first rest =>
          by_cases hfirst : first = name
          · subst hfirst
            rw [get?, get?, entry?_setEntry, if_pos rfl, hbelow, Option.bind_some, Option.bind_some]
            apply ih
            intro hprefix
            exact h (List.cons_prefix_cons.mpr ⟨rfl, hprefix⟩)
          · rw [get?, get?, entry?_setEntry_of_ne entries hfirst]
  | case5 name names hlong entries hnone => simp only [hnone]
  | case6 => rfl

theorem isProper_alter {node : Node} (hnode : node.isProper = true) {front : Location}
    {entries : List (Name × Node)} (hdir : node.get? front = some (.dir entries)) {name : Name}
    (hname : isName name = true) {change : Option Node → Option Node}
    (hchange : ∀ new ∈ change ( entry? (.dir entries) name), new.isProper = true) :
    (node.alter (front ++ [name]) change).isProper = true := by
  induction front generalizing node with
  | nil =>
      obtain rfl := Option.some.inj hdir
      exact areProper_setEntry (by simpa [isProper] using hnode) hname hchange
  | cons first rest ih =>
      simp only [get?, Option.bind_eq_some_iff] at hdir
      obtain ⟨next, hnext, hdir⟩ := hdir
      obtain ⟨hfirst, hproper⟩ := isProper_entry hnode hnext
      obtain ⟨outer, rfl, halter⟩ := exists_alter_cons hnext rest name
      rw [List.cons_append, halter]
      refine areProper_setEntry (by simpa [isProper] using hnode) hfirst fun new hnew => ?_
      obtain rfl := Option.mem_some.mp hnew
      exact ih hproper hdir

/-! ## Counting files -/

theorem fileCounts_setEntry {entries : List (Name × Node)} {name : Name} {old : Node}
    (h : entry? (.dir entries) name = some old) (node : Option Node) :
    fileCounts (setEntry entries name node) + old.fileCount =
      fileCounts entries + (node.map fileCount).getD 0 := by
  induction entries with
  | nil => cases h
  | cons first rest ih =>
      obtain ⟨firstName, firstNode⟩ := first
      rw [entry?_cons] at h
      rw [setEntry]
      split at h
      · rename_i hfirst
        obtain rfl := Option.some.inj h
        rw [if_pos hfirst]
        cases node with
        | none => simp [fileCounts, Nat.add_comm]
        | some node =>
            simp only [Option.map_some, Option.toList_some, List.singleton_append, fileCounts,
              Option.getD_some]
            omega
      · rename_i hfirst
        have hrest := ih h
        rw [if_neg hfirst]
        simp only [fileCounts]
        omega

/-- Without one of its files a node has one file less. -/
theorem fileCount_alter_none {node : Node} {front : Location} {name : Name} {file : File}
    (h : node.get? (front ++ [name]) = some (.file file)) :
    (node.alter (front ++ [name]) fun _ => none).fileCount + 1 = node.fileCount := by
  induction front generalizing node with
  | nil =>
      simp only [List.nil_append, get?, Option.bind_eq_some_iff, Option.some.injEq] at h
      obtain ⟨below, hbelow, rfl⟩ := h
      cases node with
      | file _ => cases hbelow
      | link _ => cases hbelow
      | dir entries =>
          have hcount := fileCounts_setEntry hbelow none
          simpa [alter, fileCount] using hcount
  | cons first rest ih =>
      simp only [List.cons_append, get?, Option.bind_eq_some_iff] at h
      obtain ⟨next, hnext, h⟩ := h
      have hbelow := ih h
      obtain ⟨outer, rfl, halter⟩ := exists_alter_cons hnext rest name
      rw [List.cons_append, halter]
      have hcount := fileCounts_setEntry hnext
        (some (next.alter (rest ++ [name]) fun _ => none))
      simp only [fileCount, Option.map_some, Option.getD_some] at hcount ⊢
      omega

end Node

/-! ## Trees that are changed at a location -/

theorem rootNode_entries_alter (tree : FileTree) (location : Location)
    (change : Option Node → Option Node) :
    .dir (tree.rootNode.alter location change).entries = tree.rootNode.alter location change := by
  rcases location with _ | ⟨name, _ | ⟨second, rest⟩⟩
  · rfl
  · rfl
  · simp only [rootNode, Node.alter]
    cases Node.entry? (.dir tree.root) name <;> rfl

theorem nodeAt?_put (tree : FileTree) (location : Location) (node : Node) (other : Location) :
    (tree.put location node).nodeAt? other =
      (tree.rootNode.alter location fun _ => some node).get? other := by
  rw [← rootNode_entries_alter]
  rfl

theorem nodeAt?_without (tree : FileTree) (location other : Location) :
    (tree.without location).nodeAt? other = (tree.rootNode.alter location fun _ => none).get? other := by
  rw [← rootNode_entries_alter]
  rfl

section Changed

variable {tree next : FileTree} {dir : Location} {name : Name} {entries : List (Name × Node)}

/-- At the location and below it is what was put there. -/
theorem nodeAt?_put_self (hdir : tree.nodeAt? dir = some (.dir entries)) (name : Name) (node : Node) :
    (tree.put (dir ++ [name]) node).nodeAt? (dir ++ [name]) = some node := by
  rw [nodeAt?_concat, nodeAt?_put, Node.get?_alter_dir hdir, Option.bind_some, Node.entry?_setEntry,
    if_pos rfl]

theorem nodeAt?_put_append (hdir : tree.nodeAt? dir = some (.dir entries)) (node : Node)
    (rest : Location) : (tree.put (dir ++ [name]) node).nodeAt? (dir ++ [name] ++ rest) = node.get? rest := by
  rw [nodeAt?_append, nodeAt?_put_self hdir, Option.bind_some]

/-- Nothing is left at a location from which something was taken. -/
theorem nodeAt?_without_self (htree : tree.isProper = true)
    (hdir : tree.nodeAt? dir = some (.dir entries)) (name : Name) :
    (tree.without (dir ++ [name])).nodeAt? (dir ++ [name]) = none := by
  have hentries : areProper entries = true := (Node.isProper_get? htree hdir).2
  rw [nodeAt?_concat, nodeAt?_without, Node.get?_alter_dir hdir, Option.bind_some,
    Node.entry?_setEntry_none hentries]

theorem nodeAt?_without_append (htree : tree.isProper = true)
    (hdir : tree.nodeAt? dir = some (.dir entries)) (rest : Location) :
    (tree.without (dir ++ [name])).nodeAt? (dir ++ [name] ++ rest) = none := by
  rw [nodeAt?_append, nodeAt?_without_self htree hdir, Option.bind_none]

theorem isProper_put (htree : tree.isProper = true) (hdir : tree.nodeAt? dir = some (.dir entries))
    (hname : isName name = true) {node : Node} (hnode : node.isProper = true) :
    (tree.put (dir ++ [name]) node).isProper = true := by
  rw [isProper, put, rootNode, rootNode_entries_alter]
  refine Node.isProper_alter htree hdir hname fun new hnew => ?_
  obtain rfl := Option.mem_some.mp hnew
  exact hnode

theorem isProper_without (htree : tree.isProper = true)
    (hdir : tree.nodeAt? dir = some (.dir entries)) (hname : isName name = true) :
    (tree.without (dir ++ [name])).isProper = true := by
  rw [isProper, without, rootNode, rootNode_entries_alter]
  exact Node.isProper_alter htree hdir hname (by simp)

/-- Without one of its files a tree has one file less. -/
theorem fileCount_without {file : File} (h : tree.nodeAt? (dir ++ [name]) = some (.file file)) :
    (tree.without (dir ++ [name])).fileCount + 1 = tree.fileCount := by
  rw [fileCount, without, rootNode, rootNode_entries_alter]
  exact Node.fileCount_alter_none h

/-! ## What is kept elsewhere -/

/-- Whether a tree has become another one by changing files at certain locations and making
directories: directories and links stay, and so do all other files. -/
structure KeepsBut (changed : Location → Prop) (tree next : FileTree) : Prop where
  dirs : ∀ location entries, tree.nodeAt? location = some (.dir entries) →
    ∃ more, next.nodeAt? location = some (.dir more)
  links : ∀ location target,
    tree.nodeAt? location = some (.link target) ↔ next.nodeAt? location = some (.link target)
  files : ∀ location, ¬changed location → ∀ file,
    tree.nodeAt? location = some (.file file) ↔ next.nodeAt? location = some (.file file)
  proper : tree.isProper = true → next.isProper = true

theorem KeepsBut.refl (changed : Location → Prop) (tree : FileTree) : KeepsBut changed tree tree :=
  ⟨fun _ entries h => ⟨entries, h⟩, fun _ _ => .rfl, fun _ _ _ => .rfl, id⟩

theorem KeepsBut.trans {changed : Location → Prop} {last : FileTree} (h : KeepsBut changed tree next)
    (hlast : KeepsBut changed next last) : KeepsBut changed tree last := by
  constructor
  case dirs =>
    intro location entries hdir
    obtain ⟨more, hmore⟩ := h.dirs location entries hdir
    exact hlast.dirs location more hmore
  case links =>
    intro location target
    exact (h.links location target).trans (hlast.links location target)
  case files =>
    intro location hlocation file
    exact (h.files location hlocation file).trans (hlast.files location hlocation file)
  case proper =>
    intro htree
    exact hlast.proper (h.proper htree)

theorem KeepsBut.mono {changed more : Location → Prop} (h : KeepsBut changed tree next)
    (hmore : ∀ location, changed location → more location) : KeepsBut more tree next :=
  ⟨h.dirs, h.links, fun location hlocation => h.files location fun hc => hlocation (hmore location hc),
    h.proper⟩

/-- Nodes that are the same apart from what is in them are the same files, links or directories. -/
theorem nodeAt?_iff_of_bare {location : Location}
    (h : (next.nodeAt? location).map Node.bare = (tree.nodeAt? location).map Node.bare) :
    (∀ file, tree.nodeAt? location = some (.file file) ↔ next.nodeAt? location = some (.file file)) ∧
      (∀ target, tree.nodeAt? location = some (.link target) ↔
        next.nodeAt? location = some (.link target)) ∧
      ((∃ entries, tree.nodeAt? location = some (.dir entries)) ↔
        ∃ entries, next.nodeAt? location = some (.dir entries)) := by
  cases htree : tree.nodeAt? location with
  | none =>
      rw [htree, Option.map_none, Option.map_eq_none_iff] at h
      simp [h]
  | some node =>
      rw [htree, Option.map_some, Option.map_eq_some_iff] at h
      obtain ⟨other, hother, hsame⟩ := h
      rw [hother]
      cases node <;> cases other <;> simp_all [Node.bare]

/-- A new file or a new empty directory changes nothing else. -/
theorem keepsBut_put (hdir : tree.nodeAt? dir = some (.dir entries))
    (hfree : tree.nodeAt? (dir ++ [name]) = none) (hname : isName name = true) {node : Node}
    (hnode : node = .dir [] ∨ ∃ file, node = .file file) :
    KeepsBut (fun location => location = dir ++ [name] ∧ node.isDir = false) tree
      (tree.put (dir ++ [name]) node) := by
  have hnothing : ∀ rest, tree.nodeAt? (dir ++ [name] ++ rest) = none := by
    intro rest
    rw [nodeAt?_append, hfree, Option.bind_none]
  have helsewhere : ∀ location, ¬dir ++ [name] <+: location →
      ((tree.put (dir ++ [name]) node).nodeAt? location).map Node.bare =
        (tree.nodeAt? location).map Node.bare := by
    intro location hlocation
    rw [nodeAt?_put]
    exact Node.bare_get?_alter tree.rootNode hlocation _
  constructor
  case dirs =>
    intro location entries hentries
    by_cases hlocation : dir ++ [name] <+: location
    · obtain ⟨rest, rfl⟩ := hlocation
      rw [hnothing rest] at hentries
      cases hentries
    · exact (nodeAt?_iff_of_bare (helsewhere location hlocation)).2.2.mp ⟨entries, hentries⟩
  case links =>
    intro location target
    by_cases hlocation : dir ++ [name] <+: location
    · obtain ⟨rest, rfl⟩ := hlocation
      rw [hnothing rest, nodeAt?_put_append hdir]
      rcases hnode with rfl | ⟨file, rfl⟩ <;> cases rest <;> simp [Node.get?, Node.entry?, Node.entries]
    · exact (nodeAt?_iff_of_bare (helsewhere location hlocation)).2.1 target
  case files =>
    intro location hunchanged file
    by_cases hlocation : dir ++ [name] <+: location
    · obtain ⟨rest, rfl⟩ := hlocation
      rw [hnothing rest, nodeAt?_put_append hdir]
      rcases hnode with rfl | ⟨new, rfl⟩ <;> cases rest <;>
        simp_all [Node.get?, Node.entry?, Node.entries, Node.isDir]
    · exact (nodeAt?_iff_of_bare (helsewhere location hlocation)).1 file
  case proper =>
    intro htree
    apply isProper_put htree hdir hname
    rcases hnode with rfl | ⟨file, rfl⟩ <;> rfl

/-- To take a file away changes nothing else. -/
theorem keepsBut_without (htree : tree.isProper = true) {file : File}
    (hfile : tree.nodeAt? (dir ++ [name]) = some (.file file)) :
    KeepsBut (· = dir ++ [name]) tree (tree.without (dir ++ [name])) := by
  obtain ⟨entries, hdir⟩ := isDir_of_nodeAt?_concat hfile
  have hname : isName name = true := by
    have hnames := (Node.isProper_get? htree hfile).1
    exact hnames name (by simp)
  have hthere : ∀ rest node, tree.nodeAt? (dir ++ [name] ++ rest) = some node →
      rest = [] ∧ node = .file file := by
    intro rest node hnode
    rw [nodeAt?_append, hfile, Option.bind_some] at hnode
    cases rest with
    | nil => exact ⟨rfl, (Option.some.inj hnode).symm⟩
    | cons first rest => simp [Node.get?, Node.entry?, Node.entries] at hnode
  have helsewhere : ∀ location, ¬dir ++ [name] <+: location →
      ((tree.without (dir ++ [name])).nodeAt? location).map Node.bare =
        (tree.nodeAt? location).map Node.bare := by
    intro location hlocation
    rw [nodeAt?_without]
    exact Node.bare_get?_alter tree.rootNode hlocation _
  constructor
  case dirs =>
    intro location entries hentries
    by_cases hlocation : dir ++ [name] <+: location
    · obtain ⟨rest, rfl⟩ := hlocation
      cases (hthere rest _ hentries).2
    · exact (nodeAt?_iff_of_bare (helsewhere location hlocation)).2.2.mp ⟨entries, hentries⟩
  case links =>
    intro location target
    by_cases hlocation : dir ++ [name] <+: location
    · obtain ⟨rest, rfl⟩ := hlocation
      rw [nodeAt?_without_append htree hdir]
      refine iff_of_false (fun hlink => ?_) (by simp)
      cases (hthere rest _ hlink).2
    · exact (nodeAt?_iff_of_bare (helsewhere location hlocation)).2.1 target
  case files =>
    intro location hunchanged other
    by_cases hlocation : dir ++ [name] <+: location
    · obtain ⟨rest, rfl⟩ := hlocation
      rw [nodeAt?_without_append htree hdir]
      refine iff_of_false (fun hother => ?_) (by simp)
      obtain ⟨rfl, -⟩ := hthere rest _ hother
      exact hunchanged (List.append_nil _)
    · exact (nodeAt?_iff_of_bare (helsewhere location hlocation)).1 other
  case proper =>
    intro _
    exact isProper_without htree hdir hname

/-! ## Lookups that go on -/

/-- Whatever happens to files, the way to a directory stays open. -/
theorem KeepsBut.leads {changed : Location → Prop} (h : KeepsBut changed tree next)
    {links left : Nat} {here there : Location} {pieces : List Name}
    (hleads : Leads tree links here pieces left there)
    (hthere : tree.nodeAt? there = some (.dir entries)) : Leads next links here pieces left there := by
  induction hleads with
  | done links here => exact .done links here
  | stay hdir hpiece _ ih =>
      obtain ⟨more, hmore⟩ := h.dirs _ _ hdir
      exact .stay hmore hpiece (ih hthere)
  | up hdir _ ih =>
      obtain ⟨more, hmore⟩ := h.dirs _ _ hdir
      exact .up hmore (ih hthere)
  | @enter links left here there name rest node hname hshort hnode hkind hrest ih =>
      -- no way goes on behind a file, and this one ends at a directory
      obtain ⟨inner, rfl⟩ : ∃ inner, node = .dir inner := by
        cases hrest with
        | done => exact ⟨_, Option.some.inj (hnode.symm.trans hthere)⟩
        | stay hdir _ _ => exact ⟨_, Option.some.inj (hnode.symm.trans hdir)⟩
        | up hdir _ => exact ⟨_, Option.some.inj (hnode.symm.trans hdir)⟩
        | enter _ _ hbelow _ _ =>
            obtain ⟨inner, hdir⟩ := isDir_of_nodeAt?_concat hbelow
            exact ⟨inner, Option.some.inj (hnode.symm.trans hdir)⟩
        | jump _ _ hbelow _ =>
            obtain ⟨inner, hdir⟩ := isDir_of_nodeAt?_concat hbelow
            exact ⟨inner, Option.some.inj (hnode.symm.trans hdir)⟩
      obtain ⟨more, hmore⟩ := h.dirs _ _ hnode
      exact .enter hname hshort hmore (by simp) (ih hthere)
  | jump hname hshort hnode _ ih => exact .jump hname hshort ((h.links _ _).mp hnode) (ih hthere)

/-- What is known of a path that is held by a directory under a name. -/
theorem holder_spec {path : Path} (h : tree.holder path = .ok (dir, some name)) :
    ∃ front left, segmentsOf path = .ok (front ++ [name]) ∧ IsLastName name ∧
      Leads tree maxLinks [] front left dir ∧ (∃ entries, tree.nodeAt? dir = some (.dir entries)) ∧
        isTooLong name = false := by
  obtain ⟨pieces, hpieces, -⟩ := bind_eq_ok_iff.mp h
  obtain ⟨front, last, hconcat⟩ := segments_eq_concat path
  obtain rfl : pieces = front ++ [last] := (segmentsOf_eq hpieces).trans hconcat
  by_cases hlast : IsLastName last
  · obtain ⟨left, found, hleads, hdir, hshort, hsame⟩ :=
      (holder_eq_ok_iff_of_isLastName hpieces hlast).mp h
    obtain ⟨rfl, hname⟩ := Prod.mk.inj hsame
    obtain rfl := Option.some.inj hname
    exact ⟨front, left, hpieces, hlast, hleads, hdir, hshort⟩
  · rw [holder_of_not_isLastName hpieces hlast] at h
    obtain ⟨location, -, hlocation⟩ := bind_eq_ok_iff.mp h
    cases hlocation

theorem isName_of_holder {path : Path} (h : tree.holder path = .ok (dir, some name)) :
    isName name = true := by
  obtain ⟨front, -, hpieces, ⟨hblank, hdot, hup⟩, -⟩ := holder_spec h
  refine isName_iff.mpr ⟨hblank, hdot, hup, ?_⟩
  have hmem : name ∈ path.segments := by
    rw [← segmentsOf_eq hpieces]
    simp
  exact Text.notMem_of_mem_splitOn hmem

/-- A path that is held by a directory is held by it whatever happens to files. -/
theorem KeepsBut.holder {changed : Location → Prop} (h : KeepsBut changed tree next) {path : Path}
    (hholder : tree.holder path = .ok (dir, some name)) : next.holder path = .ok (dir, some name) := by
  obtain ⟨front, left, hpieces, hlast, hleads, ⟨entries, hdir⟩, hshort⟩ := holder_spec hholder
  obtain ⟨more, hmore⟩ := h.dirs dir entries hdir
  exact (holder_eq_ok_iff_of_isLastName hpieces hlast).mpr
    ⟨left, dir, h.leads hleads hdir, ⟨more, hmore⟩, hshort, rfl⟩

/-! ## Places that paths stand for -/

/-- Whether a path stands for a place: a directory has it under the last name of the path, and what it
has is no link. -/
structure Holds (tree : FileTree) (path : Path) (place : Location) : Prop where
  held : ∃ dir name, place = dir ++ [name] ∧ tree.holder path = .ok (dir, some name)
  plain : ∀ target, tree.nodeAt? place ≠ some (.link target)

theorem Holds.eq {path : Path} {place other : Location} (h : tree.Holds path place)
    (hother : tree.Holds path other) : place = other := by
  obtain ⟨dir, name, rfl, hheld⟩ := h.held
  obtain ⟨dir', name', rfl, hheld'⟩ := hother.held
  obtain ⟨rfl, hname⟩ := Prod.mk.inj (Except.ok.inj (hheld.symm.trans hheld'))
  rw [Option.some.inj hname]

/-- The last name of a path is the last name of its place. -/
theorem Holds.getLast?_segments {path : Path} {place : Location} (h : tree.Holds path place) :
    path.segments.getLast? = place.getLast? := by
  obtain ⟨dir, name, rfl, hheld⟩ := h.held
  obtain ⟨front, -, hpieces, -⟩ := holder_spec hheld
  rw [← segmentsOf_eq hpieces, List.getLast?_concat, List.getLast?_concat]

/-- A path leads to the file that is at its place. -/
theorem Holds.node_iff {path : Path} {place : Location} (h : tree.Holds path place) (file : File) :
    tree.node path = .ok (.file file) ↔ tree.nodeAt? place = some (.file file) := by
  obtain ⟨dir, name, rfl, hheld⟩ := h.held
  obtain ⟨front, left, hpieces, hlast, hleads, -, hshort⟩ := holder_spec hheld
  have hconcat := (segmentsOf_eq hpieces).symm
  have hthere : ∀ node, tree.unfollowed path = .ok node → tree.nodeAt? (dir ++ [name]) = some node := by
    intro node hnode
    obtain ⟨found, hfound, hnode⟩ := unfollowed_eq_ok_iff.mp hnode
    obtain rfl := Except.ok.inj (hheld.symm.trans hfound)
    exact hnode
  constructor
  · intro hnode
    rcases unfollowed_of_node hnode with hfile | ⟨target, hlink⟩
    · exact hthere _ hfile
    · exact absurd (hthere _ hlink) (h.plain target)
  · intro hnode
    refine node_eq_ok_iff.mpr ⟨text_ne_of_isLastName hconcat hlast, _, left, dir ++ [name], hpieces, ?_,
      hnode⟩
    apply Leads.append_iff.mpr
    exact ⟨left, dir, hleads, .enter hlast hshort hnode (by simp) (.done left _)⟩

/-- A path stands for its place whatever happens to files. -/
theorem KeepsBut.holds {changed : Location → Prop} (h : KeepsBut changed tree next) {path : Path}
    {place : Location} (hplace : tree.Holds path place) : next.Holds path place := by
  obtain ⟨dir, name, rfl, hheld⟩ := hplace.held
  exact ⟨⟨dir, name, rfl, h.holder hheld⟩, fun target htarget =>
    hplace.plain target ((h.links _ target).mpr htarget)⟩

/-- A path whose place has not been changed leads to the file to which it led. -/
theorem KeepsBut.node_iff {changed : Location → Prop} (h : KeepsBut changed tree next) {path : Path}
    {place : Location} (hplace : tree.Holds path place) (hunchanged : ¬changed place) (file : File) :
    next.node path = .ok (.file file) ↔ tree.node path = .ok (.file file) := by
  rw [(h.holds hplace).node_iff, hplace.node_iff, h.files place hunchanged]

theorem KeepsBut.isFile_eq {changed : Location → Prop} (h : KeepsBut changed tree next) {path : Path}
    {place : Location} (hplace : tree.Holds path place) (hunchanged : ¬changed place) :
    next.isFile path = tree.isFile path := by
  rw [Bool.eq_iff_iff, isFile_iff, isFile_iff]
  exact exists_congr (h.node_iff hplace hunchanged)

/-- A place that has no file before and none afterwards is no change. -/
theorem KeepsBut.restored {place : Location}
    (h : KeepsBut (· = place) tree next) (hbefore : ∀ file, tree.nodeAt? place ≠ some (.file file))
    (hafter : ∀ file, next.nodeAt? place ≠ some (.file file)) : KeepsBut (fun _ => False) tree next := by
  refine ⟨h.dirs, h.links, fun location _ file => ?_, h.proper⟩
  by_cases hplace : location = place
  · subst hplace
    exact iff_of_false (hbefore file) (hafter file)
  · exact h.files location hplace file

/-! ## Operations -/

theorem createFile_eq_ok_iff {path : Path} {file : File} :
    tree.createFile path file = .ok next ↔ ∃ dir name, tree.holder path = .ok (dir, some name) ∧
      tree.nodeAt? (dir ++ [name]) = none ∧ next = tree.put (dir ++ [name]) (.file file) := by
  rw [createFile, bind_eq_ok_iff]
  constructor
  · rintro ⟨⟨dir, found⟩, hholder, h⟩
    cases found with
    | none => cases h
    | some name =>
        refine ⟨dir, name, hholder, ?_⟩
        cases hfree : tree.nodeAt? (dir ++ [name]) with
        | some node => simp [hfree] at h
        | none =>
            simp only [hfree] at h
            exact ⟨rfl, (Except.ok.inj h).symm⟩
  · rintro ⟨dir, name, hholder, hfree, rfl⟩
    refine ⟨(dir, some name), hholder, ?_⟩
    simp only [hfree]
    rfl

theorem makeDir_eq_ok {path : Path} (h : tree.makeDir path = .ok next) :
    ∃ dir name, tree.holder (trimmedEnd path) = .ok (dir, some name) ∧
      tree.nodeAt? (dir ++ [name]) = none ∧ next = tree.put (dir ++ [name]) (.dir []) := by
  obtain ⟨⟨dir, found⟩, hholder, h⟩ := bind_eq_ok_iff.mp h
  cases found with
  | none => cases h
  | some name =>
      refine ⟨dir, name, hholder, ?_⟩
      cases hfree : tree.nodeAt? (dir ++ [name]) with
      | some node => simp [hfree] at h
      | none =>
          simp only [hfree] at h
          exact ⟨rfl, (Except.ok.inj h).symm⟩

/-- To remove what a directory has under a name takes it away, unless it is a directory. -/
theorem removeFile_of_holder {path : Path} (h : tree.holder path = .ok (dir, some name)) :
    tree.removeFile path =
      match tree.nodeAt? (dir ++ [name]) with
      | none => .error .notFound
      | some (.dir _) => .error .isDirectory
      | some _ => .ok (tree.without (dir ++ [name])) := by
  rw [removeFile, h]
  rfl

theorem keepsBut_makeDir {path : Path} (h : tree.makeDir path = .ok next) :
    KeepsBut (fun _ => False) tree next := by
  obtain ⟨dir, name, hholder, hfree, rfl⟩ := makeDir_eq_ok h
  obtain ⟨-, -, -, -, -, ⟨entries, hdir⟩, -⟩ := holder_spec hholder
  exact (keepsBut_put hdir hfree (isName_of_holder hholder) (.inl rfl)).mono (by simp [Node.isDir])

theorem keepsBut_ensureDir {path : Path} (h : tree.ensureDir path = .ok next) :
    KeepsBut (fun _ => False) tree next := by
  unfold ensureDir at h
  split at h
  · rename_i made hmade
    obtain rfl := Except.ok.inj h
    exact keepsBut_makeDir hmade
  · split at h
    · obtain rfl := Except.ok.inj h
      exact .refl _ tree
    · cases h

theorem keepsBut_ensureDirs {paths : List Path} (h : tree.ensureDirs paths = .ok next) :
    KeepsBut (fun _ => False) tree next := by
  induction paths generalizing next with
  | nil => cases h
  | cons path above ih =>
      unfold ensureDirs at h
      split at h
      · obtain ⟨mid, hmid, h⟩ := bind_eq_ok_iff.mp h
        exact (ih hmid).trans (keepsBut_ensureDir h)
      · exact keepsBut_ensureDir h

/-- To make directories changes no file and no link. -/
theorem keepsBut_makeDirs {path : Path} (h : tree.makeDirs path = .ok next) :
    KeepsBut (fun _ => False) tree next := keepsBut_ensureDirs h

end Changed

end ScopedCheck.FileTree
