import Mathlib.Data.List.Perm.Subperm
import ScopedCheck.Proofs.Path.Normal
/-! # Canonical paths

A path that leads somewhere has the path of its place as its canonical path, and this is canonical
itself as long as it can be looked up. A tree has no more places of files than it has files, so that
a list of different ones cannot be longer. -/

namespace ScopedCheck

namespace FileTree

open ScopedCheck.Path (AreNames)
open Fallible (bind_eq_ok_iff)

/-! ## Where lookups end -/

/-- Whether names may be looked up one after the other. -/
def AreShortNames (names : Location) : Prop :=
  ∀ name ∈ names, isName name = true ∧ isTooLong name = false

theorem AreShortNames.areNames {names : Location} (h : AreShortNames names) : AreNames names :=
  fun name hname => (h name hname).1

theorem AreShortNames.concat {names : Location} (h : AreShortNames names) {name : Name}
    (hname : isName name = true) (hshort : isTooLong name = false) :
    AreShortNames (names ++ [name]) := by
  intro other hother
  rcases List.mem_append.mp hother with hother | hother
  · exact h other hother
  · obtain rfl := List.mem_singleton.mp hother
    exact ⟨hname, hshort⟩

/-- Every place that a lookup comes to has names that were looked up. -/
theorem Leads.areShortNames {tree : FileTree} {links left : Nat} {here there : Location}
    {pieces : List Name} (h : Leads tree links here pieces left there)
    (hpieces : ∀ piece ∈ pieces, '/' ∉ piece) (hhere : AreShortNames here) :
    AreShortNames there := by
  induction h with
  | done => exact hhere
  | stay _ _ _ ih => exact ih (fun piece hpiece => hpieces piece (List.mem_cons_of_mem _ hpiece)) hhere
  | up _ _ ih =>
      apply ih fun piece hpiece => hpieces piece (List.mem_cons_of_mem _ hpiece)
      exact fun name hname => hhere name (List.dropLast_subset _ hname)
  | enter hname hshort _ _ _ ih =>
      apply ih fun piece hpiece => hpieces piece (List.mem_cons_of_mem _ hpiece)
      refine hhere.concat (isName_iff.mpr ⟨hname.1, hname.2.1, hname.2.2, ?_⟩) hshort
      exact hpieces _ (List.mem_cons_self ..)
  | jump _ _ _ _ ih =>
      apply ih
      · intro piece hpiece
        rcases List.mem_append.mp hpiece with hpiece | hpiece
        · exact Text.notMem_of_mem_splitOn hpiece
        · exact hpieces piece (List.mem_cons_of_mem _ hpiece)
      · split
        · simp [AreShortNames]
        · exact hhere

/-- Names lead straight to what is there. -/
theorem Leads.straight {tree : FileTree} (links : Nat) (front : Location) {names : Location} {node : Node}
    (hnames : AreShortNames names) (hnode : tree.nodeAt? (front ++ names) = some node)
    (hkind : ∀ target, node ≠ .link target) :
    Leads tree links front names links (front ++ names) := by
  induction names generalizing front with
  | nil =>
      rw [List.append_nil]
      exact .done links front
  | cons name rest ih =>
      obtain ⟨hname, hshort⟩ := hnames name (List.mem_cons_self ..)
      obtain ⟨hblank, hdot, hup, -⟩ := isName_iff.mp hname
      rw [List.append_cons] at hnode ⊢
      have hbelow := hnode
      rw [nodeAt?_append, Option.bind_eq_some_iff] at hbelow
      obtain ⟨next, hnext, hbelow⟩ := hbelow
      refine .enter ⟨hblank, hdot, hup⟩ hshort hnext ?_ ?_
      · rintro target rfl
        cases rest with
        | nil => exact hkind target (Option.some.inj hbelow).symm
        | cons other rest => simp [Node.get?, Node.entry?, Node.entries] at hbelow
      · exact ih _ (fun other hother => hnames other (List.mem_cons_of_mem _ hother)) hnode

/-! ## Canonical paths -/

theorem locate_spec {tree : FileTree} {path : Path} {location : Location}
    (h : tree.locate path = .ok location) : AreShortNames location ∧ tree.IsPlace location := by
  obtain ⟨-, pieces, left, hpieces, hleads⟩ := locate_eq_ok_iff.mp h
  refine ⟨hleads.areShortNames ?_ (by simp [AreShortNames]), hleads.isPlace (isPlace_nil tree)⟩
  rw [segmentsOf_eq hpieces]
  exact fun piece hpiece => Text.notMem_of_mem_splitOn hpiece

theorem canonical_of_locate {tree : FileTree} {path : Path} {location : Location}
    (h : tree.locate path = .ok location) : tree.canonical path = pathOf location := by
  rw [canonical, canonical?, h]
  rfl

theorem canonical_of_lost {tree : FileTree} {path : Path} {fault : Fault}
    (h : tree.locate path = .error fault) : tree.canonical path = path.normalize := by
  rw [canonical, canonical?, h]
  rfl

theorem normalize_canonical (tree : FileTree) (path : Path) :
    (tree.canonical path).normalize = tree.canonical path := by
  cases hlocate : tree.locate path with
  | error fault =>
      rw [canonical_of_lost hlocate]
      exact Path.normalize_normalize path
  | ok location =>
      rw [canonical_of_locate hlocate]
      exact Path.normalize_pathOf (locate_spec hlocate).1.areNames

theorem isAbsolute_canonical (tree : FileTree) {p : Path} (h : p.isAbsolute = true) :
    (tree.canonical p).isAbsolute = true := by
  unfold canonical
  cases hfound : tree.canonical? p with
  | none =>
      rw [Option.getD_none, Path.normalize, h]
      exact Path.isAbsolute_pathOf _
  | some found =>
      obtain ⟨location, -, rfl⟩ := Option.map_eq_some_iff.mp hfound
      exact Path.isAbsolute_pathOf _

/-- The path of a place leads to the place, if it can be looked up. -/
theorem locate_pathOf {tree : FileTree} {location place : Location} (hnames : AreShortNames location)
    (hplace : tree.IsPlace location) (h : tree.locate (pathOf location) = .ok place) :
    place = location := by
  obtain ⟨node, hnode, hkind⟩ := hplace
  obtain ⟨-, pieces, left, hpieces, hleads⟩ := locate_eq_ok_iff.mp h
  have hstraight := Leads.straight maxLinks [] hnames hnode hkind
  rw [List.nil_append] at hstraight
  rw [segmentsOf_eq hpieces] at hleads
  by_cases hroot : location = []
  · subst hroot
    have hstay : Leads tree maxLinks [] [[]] maxLinks [] := .stay rfl (Or.inl rfl) (.done ..)
    exact Except.ok.inj (hleads.follow_eq.symm.trans hstay.follow_eq)
  · rw [Path.segments_pathOf hroot hnames.areNames] at hleads
    exact Except.ok.inj (hleads.follow_eq.symm.trans hstraight.follow_eq)

/-! ## Places of files -/

/-- Whether a path is that of the place of a file. -/
def IsFilePlace (tree : FileTree) (path : Path) : Prop :=
  ∃ location file, path = pathOf location ∧ AreNames location ∧
    tree.nodeAt? location = some (.file file)

theorem isFilePlace_canonical {tree : FileTree} {path : Path} (h : tree.isFile path = true) :
    tree.IsFilePlace (tree.canonical path) := by
  obtain ⟨file, hfile⟩ := isFile_iff.mp h
  obtain ⟨location, hlocation, hnode⟩ := node_eq_ok_iff_locate.mp hfile
  rw [canonical_of_locate hlocation]
  exact ⟨location, file, rfl, (locate_spec hlocation).1.areNames, hnode⟩

/-- A canonical path of a normal form is that of a place, if there is a file. -/
theorem isFilePlace_canonical_of_normal {tree : FileTree} {path : Path} (hnormal : path.normalize = path)
    (h : tree.isFile (tree.canonical path) = true) : tree.IsFilePlace (tree.canonical path) := by
  obtain ⟨file, hfile⟩ := isFile_iff.mp h
  obtain ⟨place, hplace, hnode⟩ := node_eq_ok_iff_locate.mp hfile
  cases hlocate : tree.locate path with
  | error fault =>
      rw [canonical_of_lost hlocate, hnormal, hlocate] at hplace
      cases hplace
  | ok location =>
      obtain ⟨hnames, hthere⟩ := locate_spec hlocate
      rw [canonical_of_locate hlocate] at hplace ⊢
      obtain rfl := locate_pathOf hnames hthere hplace
      exact ⟨_, file, rfl, hnames.areNames, hnode⟩

/-- Whether a path is the canonical path of one that leads to a file or has a normal form. -/
def IsFound (tree : FileTree) (here : Path) : Prop :=
  ∃ path, (tree.isFile path = true ∨ path.normalize = path) ∧ tree.canonical path = here

/-- Such a path leads to its own place, if it leads to a file at all. -/
theorem IsFound.exists_place {tree : FileTree} {here : Path} (h : tree.IsFound here) {file : File}
    (hfile : tree.node here = .ok (.file file)) :
    ∃ location, here = pathOf location ∧ AreNames location ∧
      tree.nodeAt? location = some (.file file) := by
  obtain ⟨path, hpath, rfl⟩ := h
  obtain ⟨place, hplace, hnode⟩ := node_eq_ok_iff_locate.mp hfile
  cases hlocate : tree.locate path with
  | error fault =>
      rcases hpath with hisFile | hnormal
      · obtain ⟨other, hother⟩ := isFile_iff.mp hisFile
        obtain ⟨location, hlocation, -⟩ := node_eq_ok_iff_locate.mp hother
        rw [hlocate] at hlocation
        cases hlocation
      · rw [canonical_of_lost hlocate, hnormal, hlocate] at hplace
        cases hplace
  | ok location =>
      obtain ⟨hnames, hthere⟩ := locate_spec hlocate
      rw [canonical_of_locate hlocate] at hplace ⊢
      obtain rfl := locate_pathOf hnames hthere hplace
      exact ⟨_, rfl, hnames.areNames, hnode⟩

/-- Canonical paths are canonical themselves, unless they are those of paths that lead nowhere. -/
theorem canonical_canonical {tree : FileTree} {path : Path}
    (h : (∃ location, tree.locate path = .ok location) ∨ path.normalize = path) :
    tree.canonical (tree.canonical path) = tree.canonical path := by
  cases hlocate : tree.locate path with
  | error fault =>
      rcases h with ⟨location, hlocation⟩ | hnormal
      · rw [hlocate] at hlocation
        cases hlocation
      · rw [canonical_of_lost hlocate, hnormal, canonical_of_lost hlocate, hnormal]
  | ok location =>
      obtain ⟨hnames, hthere⟩ := locate_spec hlocate
      rw [canonical_of_locate hlocate]
      cases hplace : tree.locate (pathOf location) with
      | error fault => rw [canonical_of_lost hplace, Path.normalize_pathOf hnames.areNames]
      | ok place => rw [canonical_of_locate hplace, locate_pathOf hnames hthere hplace]

/-- The paths of places are different as soon as the places are. -/
theorem IsFilePlace.eq_of_same {tree : FileTree} {path other : Path} (h : tree.IsFilePlace path)
    (hother : tree.IsFilePlace other) (hsame : path.same other = true) : path = other := by
  obtain ⟨location, -, rfl, hnames, -⟩ := h
  obtain ⟨place, -, rfl, hnames', -⟩ := hother
  rw [Path.same_iff] at hsame
  rw [← Path.names_parts_pathOf hnames, hsame, Path.names_parts_pathOf hnames']

/-! ## Counting files -/

mutual

/-- The places of the files at a node and below it. -/
def Node.filePlaces : Node → List Location
  | .file _ => [[]]
  | .link _ => []
  | .dir entries => filePlacesIn entries

/-- The places of the files in entries and below them. -/
def filePlacesIn : List (Name × Node) → List Location
  | [] => []
  | (name, node) :: rest => node.filePlaces.map (name :: ·) ++ filePlacesIn rest

end

mutual

theorem Node.length_filePlaces : (node : Node) → node.filePlaces.length = node.fileCount
  | .file _ => rfl
  | .link _ => rfl
  | .dir entries => by
      rw [Node.filePlaces, Node.fileCount]
      exact length_filePlacesIn entries

theorem length_filePlacesIn : (entries : List (Name × Node)) →
    (filePlacesIn entries).length = Node.fileCounts entries
  | [] => rfl
  | (name, node) :: rest => by
      rw [filePlacesIn, Node.fileCounts, List.length_append, List.length_map,
        Node.length_filePlaces node, length_filePlacesIn rest]

end

theorem mem_filePlacesIn {entries : List (Name × Node)} {name : Name} {node : Node}
    (h : (name, node) ∈ entries) {names : Location} (hnames : names ∈ node.filePlaces) :
    name :: names ∈ filePlacesIn entries := by
  induction entries with
  | nil => cases h
  | cons entry rest ih =>
      obtain ⟨first, below⟩ := entry
      rw [filePlacesIn, List.mem_append]
      rcases List.mem_cons.mp h with heq | h
      · cases heq
        exact Or.inl (List.mem_map_of_mem hnames)
      · exact Or.inr (ih h)

theorem Node.mem_filePlaces {node : Node} {names : Location} {file : File}
    (h : node.get? names = some (.file file)) : names ∈ node.filePlaces := by
  induction names generalizing node with
  | nil =>
      obtain rfl : node = .file file := Option.some.inj h
      exact List.mem_singleton_self []
  | cons name names ih =>
      simp only [Node.get?, Option.bind_eq_some_iff] at h
      obtain ⟨below, hentry, hbelow⟩ := h
      cases node with
      | dir entries => exact mem_filePlacesIn (mem_of_entry hentry) (ih hbelow)
      | file _ => simp [Node.entry?, Node.entries] at hentry
      | link _ => simp [Node.entry?, Node.entries] at hentry

/-- Different places of files are at most as many as the files. -/
theorem length_le_fileCount {tree : FileTree} {paths : List Path} (hnodup : paths.Nodup)
    (h : ∀ path ∈ paths, tree.IsFilePlace path) : paths.length ≤ tree.fileCount := by
  have hsubset : paths ⊆ tree.rootNode.filePlaces.map pathOf := by
    intro path hpath
    obtain ⟨location, file, rfl, -, hfile⟩ := h path hpath
    exact List.mem_map_of_mem (Node.mem_filePlaces hfile)
  calc paths.length ≤ (tree.rootNode.filePlaces.map pathOf).length :=
        (List.subperm_of_subset hnodup hsubset).length_le
    _ = tree.fileCount := by rw [List.length_map, Node.length_filePlaces, fileCount]

/-- An entry for a file that holds a text. -/
def textEntry (name text : String) : Name × Node := (name.toList, .file { content := .text text })

end FileTree

end ScopedCheck
