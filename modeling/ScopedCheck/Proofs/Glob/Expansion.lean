import ScopedCheck.Glob.Expansion
import ScopedCheck.Proofs.FileTree.Walk
/-! # What a glob expands to

The walk for a glob starts at the literal front of the pattern as it is written, and the glob, which
comes from the normal form of the pattern, sees the paths of the walk as they are written. So a pattern
expands to what its normal form asks for when its literal front is written as in the normal form. -/

namespace ScopedCheck

open FileTree (Name Location HasSourceBelow pathOf)
open ScopedCheck.Path (AreNames)
open Fallible (bind_eq_ok_iff)

namespace Expansion

/-! ## The pattern -/

theorem isAbsolute_absolutePattern {cwd : Path} (hcwd : cwd.isAbsolute = true) (pattern : String) :
    (⟨absolutePattern cwd pattern⟩ : Path).isAbsolute = true := by
  unfold absolutePattern
  split
  · rename_i habs
    simp only [Path.isAbsolute, Path.chars, beq_iff_eq] at habs ⊢
    exact Text.head?_forwardSlashes habs
  · rename_i habs
    obtain ⟨cs, hcs⟩ := Path.chars_eq_of_isAbsolute hcwd
    simp only [Path.isAbsolute, Path.chars, beq_iff_eq] at hcs ⊢
    apply Text.head?_forwardSlashes
    simp only [Path.child, Path.join, habs, Bool.false_eq_true, if_false]
    split <;> simp [hcs]

theorem notMem_absolutePattern (cwd : Path) (pattern : String) :
    '\\' ∉ (absolutePattern cwd pattern).toList := by
  unfold absolutePattern
  split
  · exact Text.notMem_forwardSlashes _
  · exact Text.notMem_forwardSlashes _

/-- The normal form of an absolute pattern. -/
def normalPattern (absolute : String) : String := (⟨absolute⟩ : Path).normalize.slashed

/-- The names of the normal form of an absolute pattern. -/
def patternNames (absolute : String) : Location := Path.names (⟨absolute⟩ : Path).parts

theorem normalPattern_eq {absolute : String} (habs : (⟨absolute⟩ : Path).isAbsolute = true)
    (hslash : '\\' ∉ absolute.toList) :
    normalPattern absolute = (pathOf (patternNames absolute)).text := by
  have hplain : '\\' ∉ (⟨absolute⟩ : Path).normalize.chars := fun hmem =>
    (Path.mem_of_mem_normalize habs hmem).elim (by decide) hslash
  rw [normalPattern, Path.slashed, Text.forwardSlashes_eq hplain, Path.normalize_of_isAbsolute habs]
  rfl

/-! ## Where the walk starts -/

theorem isAbsolute_push {front : Path} (hfront : front.isAbsolute = true) {piece : Name}
    (hpiece : '/' ∉ piece) : (literalFront.push front (String.ofList piece)).isAbsolute = true := by
  unfold literalFront.push
  split
  · rw [FileTree.text_ne_of_isAbsolute hfront]
    exact hfront
  · rw [(Path.stepsOf_segments_child front (Path.isAbsolute_of_notMem hpiece)).1]
    exact hfront

theorem isAbsolute_pushes {front : Path} (hfront : front.isAbsolute = true) {pieces : List Name}
    (hpieces : ∀ piece ∈ pieces, '/' ∉ piece) :
    ((pieces.map String.ofList).foldl literalFront.push front).isAbsolute = true := by
  induction pieces generalizing front with
  | nil => exact hfront
  | cons piece rest ih =>
      have hpush := isAbsolute_push hfront (hpieces piece (by simp))
      exact ih hpush fun p hp => hpieces p (by simp [hp])

/-- The literal front goes on from the root through the pieces behind the leading slash. -/
theorem literalFront_eq {absolute : String} {cs : List Char} (habs : absolute.toList = '/' :: cs) :
    literalFront absolute =
      (((Text.splitOn '/' cs).takeWhile fun piece => !isGlobText (String.ofList piece)).map
        String.ofList).foldl literalFront.push ⟨"/"⟩ := by
  have hsplit : Text.splitOn '/' ('/' :: cs) = [] :: Text.splitOn '/' cs := rfl
  have hroot : isGlobText (String.ofList []) = false := rfl
  rw [literalFront, habs, hsplit, List.map_cons, List.takeWhile_cons]
  simp only [hroot, Bool.not_false, if_true, List.foldl_cons, List.takeWhile_map]
  rfl

theorem isAbsolute_literalFront {absolute : String}
    (habs : (⟨absolute⟩ : Path).isAbsolute = true) : (literalFront absolute).isAbsolute = true := by
  obtain ⟨cs, hcs⟩ := Path.chars_eq_of_isAbsolute habs
  rw [literalFront_eq hcs]
  refine isAbsolute_pushes rfl fun piece hpiece => ?_
  exact Text.notMem_of_mem_splitOn ((List.takeWhile_sublist _).subset hpiece)

/-- The walk for a pattern starts at an absolute path, and never at a file. -/
theorem walkStart_spec (tree : FileTree) {absolute : String}
    (habs : (⟨absolute⟩ : Path).isAbsolute = true) :
    (walkStart tree absolute).isAbsolute = true ∧ tree.isFile (walkStart tree absolute) = false := by
  have hfront := isAbsolute_literalFront habs
  unfold walkStart
  by_cases hfile : tree.isFile (literalFront absolute) = true
  · simp only [hfile, if_true]
    exact FileTree.isFile_parent hfront hfile
  · simp only [hfile, Bool.false_eq_true, if_false]
    exact ⟨hfront, by simp⟩

/-- Names that are pushed one after the other are gone through. -/
theorem pushes_names {front : Path} {names : Location} (hnames : AreNames names) :
    (names.map String.ofList).foldl literalFront.push front = front.through names := by
  induction names generalizing front with
  | nil => rfl
  | cons name rest ih =>
      have hne : name ≠ [] := (FileTree.isName_iff.mp (hnames name (by simp))).1
      have hpush : literalFront.push front (String.ofList name) = front.child (String.ofList name) := by
        simp [literalFront.push, hne]
      rw [List.map_cons, List.foldl_cons, hpush, Path.through_cons]
      exact ih fun n hn => hnames n (by simp [hn])

/-- The literal front of a normal form is a normal form. -/
theorem literalFront_pathOf {location : Location} (h : AreNames location) :
    literalFront (pathOf location).text =
      pathOf (location.takeWhile fun name => !isGlobText (String.ofList name)) := by
  rw [literalFront_eq (Path.chars_pathOf location)]
  by_cases hne : location = []
  · subst hne
    rfl
  · have hnames : AreNames (location.takeWhile fun name => !isGlobText (String.ofList name)) :=
      fun name hname => h name ((List.takeWhile_sublist _).subset hname)
    rw [Text.splitOn_joinWith hne h.notMem, pushes_names hnames]
    have hroot : (⟨"/"⟩ : Path) = pathOf [] := rfl
    rw [hroot, Path.pathOf_through (by simp [AreNames]) hnames, List.nil_append]

/-- The walk for a normal form starts at a normal form. -/
theorem walkStart_pathOf (tree : FileTree) {location : Location} (h : AreNames location) :
    ∃ start, AreNames start ∧ walkStart tree (pathOf location).text = pathOf start := by
  have hnames : AreNames (location.takeWhile fun name => !isGlobText (String.ofList name)) :=
    fun name hname => h name ((List.takeWhile_sublist _).subset hname)
  unfold walkStart
  rw [literalFront_pathOf h]
  generalize location.takeWhile _ = front at hnames
  by_cases hfile : tree.isFile (pathOf front) = true
  · have habs := Path.isAbsolute_pathOf front
    obtain ⟨above, last, _, _, _, hconcat, hlast, -, -⟩ := FileTree.isFile_concat hfile
    have hne : front ≠ [] := by
      rintro rfl
      have hblank : ([] : List Name) ++ [[]] = above ++ [last] := hconcat
      obtain ⟨-, hempty⟩ := List.append_inj' hblank rfl
      exact hlast.1 (List.cons.inj hempty).1.symm
    rw [Path.segments_pathOf hne hnames] at hconcat
    obtain ⟨blanks, hcut, -⟩ := FileTree.upToLastStep_append_blanks true above
    refine ⟨Path.upToLastStep true above, ?_, ?_⟩
    · intro name hname
      apply hnames
      rw [hconcat, hcut]
      simp [hname]
    · simp only [hfile, if_true]
      exact FileTree.parent_eq_pathOf habs ((Path.segments_pathOf hne hnames).trans hconcat) hlast
  · exact ⟨front, hnames, by simp [hfile]⟩

/-- The walk for the normal form of a pattern starts at a normal form. -/
theorem walkStart_normalPattern (tree : FileTree) {cwd : Path} (hcwd : cwd.isAbsolute = true)
    (pattern : String) :
    ∃ root, AreNames root ∧
      walkStart tree (normalPattern (absolutePattern cwd pattern)) = pathOf root := by
  have habs := isAbsolute_absolutePattern hcwd pattern
  rw [normalPattern_eq habs (notMem_absolutePattern cwd pattern)]
  exact walkStart_pathOf tree (Path.areNames_names habs)

/-! ## The files -/

theorem mem_sorted {paths : List Path} {p : Path} : p ∈ Path.sorted paths ↔ p ∈ paths :=
  (List.mergeSort_perm paths _).mem_iff

/-- A glob is matched against the paths of the walk as they are written; what is found is listed in
its normal form. -/
theorem mem_matchedFiles {tree : FileTree} (htree : tree.isProper = true) {absolute : String}
    (habs : (⟨absolute⟩ : Path).isAbsolute = true) (glob : Glob) (f : Path) :
    f ∈ matchedFiles tree absolute glob ↔
      ∃ names, tree.HasSourceBelow (walkStart tree absolute) names ∧
        glob.isMatch ((walkStart tree absolute).through names) = true ∧
          f = ((walkStart tree absolute).through names).normalize := by
  obtain ⟨hstart, hfile⟩ := walkStart_spec tree habs
  have hwalk := FileTree.mem_walkSources htree hstart hfile
  simp only [matchedFiles, mem_sorted, List.mem_map, List.mem_filter]
  constructor
  · rintro ⟨visit, ⟨hvisit, hmatch⟩, rfl⟩
    obtain ⟨names, hsource, hpath⟩ := (hwalk visit.path).mp ⟨visit, hvisit, rfl⟩
    exact ⟨names, hsource, hpath ▸ hmatch, by rw [hpath]⟩
  · rintro ⟨names, hsource, hmatch, rfl⟩
    obtain ⟨visit, hvisit, hpath⟩ := (hwalk _).mpr ⟨names, hsource, rfl⟩
    exact ⟨visit, ⟨hvisit, by rw [hpath]; exact hmatch⟩, by rw [hpath]⟩

/-- Paths that are added to a list are there unless they were there already, in any spelling. -/
theorem mem_addFiles {expansion : Expansion} {paths : List Path}
    (hsame : ∀ p ∈ expansion.files ++ paths, ∀ q ∈ expansion.files ++ paths, p.same q = true → p = q)
    (f : Path) : f ∈ (expansion.addFiles paths).files ↔ f ∈ expansion.files ∨ f ∈ paths := by
  simp only [addFiles]
  generalize expansion.files = files at hsame
  induction paths generalizing files with
  | nil => simp
  | cons p rest ih =>
      rw [List.foldl_cons]
      by_cases hlisted : p.listed files = true
      · obtain ⟨q, hq, hpq⟩ := List.any_eq_true.mp hlisted
        have hp : p ∈ files := by
          rw [hsame p (by simp) q (by simp [hq]) hpq]
          exact hq
        rw [if_pos hlisted, ih files fun a ha b hb => hsame a (by simp at ha ⊢; tauto) b (by simp at hb ⊢; tauto)]
        simp only [List.mem_cons]
        constructor
        · rintro (h | h)
          · exact Or.inl h
          · exact Or.inr (Or.inr h)
        · rintro (h | rfl | h)
          · exact Or.inl h
          · exact Or.inl hp
          · exact Or.inr h
      · rw [if_neg hlisted, ih (files ++ [p]) fun a ha b hb => hsame a (by simpa using ha) b (by simpa using hb)]
        simp only [List.mem_append, List.mem_cons, List.not_mem_nil, or_assoc, false_or]

/-- Normal forms of one place are one path. -/
theorem eq_of_same_pathOf {location other : Location} (h : AreNames location) (h' : AreNames other)
    (hsame : (pathOf location).same (pathOf other) = true) : pathOf location = pathOf other := by
  have hparts : (pathOf location).parts = (pathOf other).parts := by simpa [Path.same] using hsame
  rw [← Path.names_parts_pathOf h, hparts, Path.names_parts_pathOf h']

theorem matchedFiles_normal {tree : FileTree} (htree : tree.isProper = true) {absolute : String}
    (habs : (⟨absolute⟩ : Path).isAbsolute = true) (glob : Glob) {f : Path}
    (hf : f ∈ matchedFiles tree absolute glob) : ∃ location, AreNames location ∧ f = pathOf location := by
  obtain ⟨names, hsource, -, rfl⟩ := (mem_matchedFiles htree habs glob f).mp hf
  have hstart := (walkStart_spec tree habs).1
  have hnames := hsource.areNames htree
  exact ⟨_, (Path.areNames_names hstart).append hnames, Path.normalize_through hstart hnames⟩

/-- One glob expands to the files that its walk finds. -/
theorem ofPatterns_glob {tree : FileTree} {cwd : Path} {pattern : String}
    (hglob : isGlobText pattern = true) {expansion : Expansion}
    (h : ofPatterns tree cwd [pattern] = .ok expansion) :
    ∃ glob, globOf (absolutePattern cwd pattern) = .ok glob ∧
      expansion.files = (addFiles {} (matchedFiles tree (absolutePattern cwd pattern) glob)).files := by
  simp only [ofPatterns, List.foldlM_cons, List.foldlM_nil, addPattern, hglob, if_true] at h
  obtain ⟨expanded, hexpanded, hpure⟩ := bind_eq_ok_iff.mp h
  obtain ⟨glob, hread, hadded⟩ := bind_eq_ok_iff.mp hexpanded
  obtain rfl := Except.ok.inj hpure
  obtain rfl := Except.ok.inj hadded
  refine ⟨glob, hread, ?_⟩
  split <;> rfl

/-- Whether a pattern keeps the bound on the depth of expressions: it is no glob, or none that can be read,
or its expression is nested no deeper. -/
def IsWithinDepth (cwd : Path) (pattern : String) : Prop :=
  isGlobText pattern = true → ∀ glob,
    PathFilter.globOf (normalPattern (absolutePattern cwd pattern)) = .ok glob →
      glob.depth ≤ GlobUnion.maxDepth

/-- To read a glob is a panic exactly when it can be read and its expression is nested too deep. -/
theorem globOf_eq_panicked_iff {absolute message : String} :
    globOf absolute = .error (.panicked message) ↔
      ∃ glob, PathFilter.globOf (normalPattern absolute) = .ok glob ∧ GlobUnion.maxDepth < glob.depth ∧
        panicMessage glob = message := by
  rw [globOf, normalPattern]
  cases PathFilter.globOf (⟨absolute⟩ : Path).normalize.slashed with
  | error failure => simp
  | ok glob =>
      simp only [Except.ok.injEq, exists_eq_left', GlobUnion.isTooDeep]
      by_cases hdeep : GlobUnion.maxDepth < glob.depth
      · simp [hdeep]
      · simp [hdeep]

/-- To expand a pattern is a panic exactly when it does not keep the bound. -/
theorem isWithinDepth_iff (tree : FileTree) {cwd : Path} {pattern : String} :
    IsWithinDepth cwd pattern ↔
      ∀ message, ofPatterns tree cwd [pattern] ≠ .error (.panicked message) := by
  have hone : ofPatterns tree cwd [pattern] = addPattern tree cwd {} pattern := bind_pure _
  rw [hone, addPattern, IsWithinDepth]
  by_cases hglob : isGlobText pattern = true
  · simp only [hglob, if_true, true_implies, ne_eq, Fallible.bind_eq_error_iff, globOf_eq_panicked_iff]
    constructor
    · rintro h message (⟨glob, hread, hdeep, -⟩ | ⟨glob, -, hadded⟩)
      · exact absurd (h glob hread) (Nat.not_le.mpr hdeep)
      · cases hadded
    · intro h glob hread
      by_contra hdeep
      exact h (panicMessage glob) (Or.inl ⟨glob, hread, Nat.not_le.mp hdeep, rfl⟩)
  · simp [hglob]

/-- A pattern that stands for some file is not among the globs that match nothing. -/
theorem unmatched_eq_nil {tree : FileTree} {cwd : Path} {pattern : String} {expansion : Expansion}
    (h : ofPatterns tree cwd [pattern] = .ok expansion) {file : Path} (hfile : file ∈ expansion.files) :
    expansion.unmatched = [] := by
  obtain ⟨expanded, hexpanded, hpure⟩ := bind_eq_ok_iff.mp h
  obtain rfl := Except.ok.inj hpure
  unfold addPattern at hexpanded
  split at hexpanded
  · obtain ⟨glob, -, hadded⟩ := bind_eq_ok_iff.mp hexpanded
    obtain rfl := Except.ok.inj hadded
    cases hmatched : matchedFiles tree (absolutePattern cwd pattern) glob with
    | nil => simp [hmatched, addFiles] at hfile
    | cons first rest => simp [addFiles]
  · obtain rfl := Except.ok.inj hexpanded
    rfl

/-- A file that the normal form of a pattern asks for: it lies below the place where the walk for the
normal form starts, in no directory that walks pass by, and the glob matches its normal path. -/
def IsAskedFor (tree : FileTree) (absolute : String) (glob : Glob) (f : Path) : Prop :=
  glob.isMatch f = true ∧
    ∃ names, tree.HasSourceBelow (walkStart tree (normalPattern absolute)) names ∧
      f = (walkStart tree (normalPattern absolute)).through names

/-- The files that a walk finds, as `mem_matchedFiles` says. -/
def IsFound (tree : FileTree) (start : Path) (glob : Glob) (f : Path) : Prop :=
  ∃ names, tree.HasSourceBelow start names ∧ glob.isMatch (start.through names) = true ∧
    f = (start.through names).normalize

theorem through_normal {start : Path} (hstart : start.isAbsolute = true) {names : Location}
    (hnames : AreNames names) : (start.through names).normalize = start.normalize.through names := by
  rw [Path.normalize_through hstart hnames, Path.normalize_of_isAbsolute hstart,
    Path.pathOf_through (Path.areNames_names hstart) hnames]

/-- From a normal form, different names lead to different paths. -/
theorem through_injective {root : Location} (hroot : AreNames root) {names others : Location}
    (hnames : AreNames names) (hothers : AreNames others)
    (h : (pathOf root).through names = (pathOf root).through others) : names = others := by
  rw [Path.pathOf_through hroot hnames, Path.pathOf_through hroot hothers] at h
  exact List.append_cancel_left (Path.pathOf_injective (hroot.append hnames) (hroot.append hothers) h)

section Found

variable {tree : FileTree} (htree : tree.isProper = true) {start : Path}
  (hstart : start.isAbsolute = true) {root : Location} (hnormal : start.normalize = pathOf root)

include htree hstart hnormal

/-- Behind a start and behind its normal form the same names have one normal form. -/
theorem normalize_through {names : Location} (hnames : tree.HasSourceBelow start names) :
    (start.through names).normalize = (pathOf root).through names := by
  rw [through_normal hstart (hnames.areNames htree), hnormal]

/-- A file is found if the glob matches it as the walk spells it. -/
theorem isFound_through_iff (hroot : AreNames root) (glob : Glob) {names : Location}
    (hnames : tree.HasSourceBelow start names) :
    IsFound tree start glob ((pathOf root).through names) ↔ glob.isMatch (start.through names) = true := by
  constructor
  · rintro ⟨others, hothers, hmatch, heq⟩
    rw [normalize_through htree hstart hnormal hothers] at heq
    rw [through_injective hroot (hnames.areNames htree) (hothers.areNames htree) heq]
    exact hmatch
  · intro hmatch
    exact ⟨names, hnames, hmatch, (normalize_through htree hstart hnormal hnames).symm⟩

/-- A glob that matches the same names behind another start with that normal form finds there what it
finds here. -/
theorem IsFound.of_matches {other : Path} (hother : other.isAbsolute = true)
    (hnormal' : other.normalize = pathOf root) {glob : Glob}
    (hsource : ∀ names, tree.HasSourceBelow start names → tree.HasSourceBelow other names)
    (hmatch : ∀ names, tree.HasSourceBelow start names →
      glob.isMatch (start.through names) = glob.isMatch (other.through names))
    {f : Path} (h : IsFound tree start glob f) : IsFound tree other glob f := by
  obtain ⟨names, hnames, hfound, rfl⟩ := h
  rw [hmatch names hnames] at hfound
  refine ⟨names, hsource names hnames, hfound, ?_⟩
  rw [normalize_through htree hstart hnormal hnames,
    normalize_through htree hother hnormal' (hsource names hnames)]

end Found

/-- Where two starts lead to one directory and have one normal form, the same files are found at both
exactly when the glob matches the same names behind both. -/
theorem isFound_iff_isFound {tree : FileTree} (htree : tree.isProper = true) {start : Path}
    (hstart : start.isAbsolute = true) {root : Location} (hroot : AreNames root)
    (hnormal : start.normalize = pathOf root) (hnode : tree.node start = tree.node (pathOf root))
    (glob : Glob) :
    (∀ f, IsFound tree start glob f ↔ IsFound tree (pathOf root) glob f) ↔
      ∀ names, tree.HasSourceBelow (pathOf root) names →
        glob.isMatch (start.through names) = glob.isMatch ((pathOf root).through names) := by
  have hsource : ∀ names, tree.HasSourceBelow start names ↔ tree.HasSourceBelow (pathOf root) names := by
    intro names
    simp only [HasSourceBelow, hnode]
  have habs := Path.isAbsolute_pathOf root
  have hself := Path.normalize_pathOf hroot
  constructor
  · intro hsame names hnames
    have hhere := isFound_through_iff htree hstart hnormal hroot glob ((hsource names).mpr hnames)
    have hthere := isFound_through_iff htree habs hself hroot glob hnames
    rw [Bool.eq_iff_iff, ← hhere, ← hthere]
    exact hsame _
  · intro hmatch f
    constructor
    · exact .of_matches htree hstart hnormal habs hself (fun names => (hsource names).mp)
        fun names hnames => hmatch names ((hsource names).mp hnames)
    · exact .of_matches htree habs hself hstart hnormal (fun names => (hsource names).mpr)
        fun names hnames => (hmatch names hnames).symm

/-- What a walk from a normal form finds is what it asks for. -/
theorem isFound_root_iff {tree : FileTree} (htree : tree.isProper = true) {absolute : String}
    {root : Location} (hroot : AreNames root)
    (hwalk : walkStart tree (normalPattern absolute) = pathOf root) (glob : Glob) (f : Path) :
    IsFound tree (pathOf root) glob f ↔ IsAskedFor tree absolute glob f := by
  have habs := Path.isAbsolute_pathOf root
  have hself := Path.normalize_pathOf hroot
  rw [IsAskedFor, hwalk]
  constructor
  · rintro ⟨names, hnames, hmatch, rfl⟩
    rw [normalize_through htree habs hself hnames]
    exact ⟨hmatch, names, hnames, rfl⟩
  · rintro ⟨hmatch, names, hnames, rfl⟩
    exact ⟨names, hnames, hmatch, (normalize_through htree habs hself hnames).symm⟩

/-- A pattern expands to the files of its walk that the glob matches as the walk spells them. Where the
walk starts at the same directory as for the normal form, this is what the normal form asks for
exactly when the spelling makes no difference to the glob; a literal front that is written as in the
normal form is enough, and then every such spelling of a pattern expands to the same files. -/
theorem files_of_spelled_glob {tree : FileTree} (htree : tree.isProper = true) {cwd : Path}
    (hcwd : cwd.isAbsolute = true) {pattern : String} (hglob : isGlobText pattern = true)
    {expansion : Expansion} (h : ofPatterns tree cwd [pattern] = .ok expansion) :
    ∃ absolute glob start root, absolute = absolutePattern cwd pattern ∧
      globOf absolute = .ok glob ∧ start = walkStart tree absolute ∧
      root = walkStart tree (normalPattern absolute) ∧
      (∀ f, f ∈ expansion.files ↔ IsFound tree start glob f) ∧
      (start.normalize = root → tree.node start = tree.node root →
        ((∀ f, f ∈ expansion.files ↔ IsAskedFor tree absolute glob f) ↔
          ∀ names, tree.HasSourceBelow root names →
            glob.isMatch (start.through names) = glob.isMatch (root.through names))) ∧
      (literalFront absolute = literalFront (normalPattern absolute) →
        (∀ f, f ∈ expansion.files ↔ IsAskedFor tree absolute glob f) ∧
        ∀ other expansion', isGlobText other = true → ofPatterns tree cwd [other] = .ok expansion' →
          normalPattern (absolutePattern cwd other) = normalPattern absolute →
          literalFront (absolutePattern cwd other) = literalFront (normalPattern absolute) →
          expansion'.files = expansion.files) := by
  obtain ⟨glob, hread, hfiles⟩ := ofPatterns_glob hglob h
  have habs := isAbsolute_absolutePattern hcwd pattern
  obtain ⟨root, hroot, hwalk⟩ := walkStart_normalPattern tree hcwd pattern
  generalize hpattern : absolutePattern cwd pattern = absolute at *
  have hstart := (walkStart_spec tree habs).1
  have hmem : ∀ f, f ∈ expansion.files ↔ IsFound tree (walkStart tree absolute) glob f := by
    intro f
    rw [hfiles, mem_addFiles, mem_matchedFiles htree habs]
    · simp [IsFound]
    · intro p hp q hq hsame
      obtain ⟨place, hplace, rfl⟩ := matchedFiles_normal htree habs glob (by simpa using hp)
      obtain ⟨other, hother, rfl⟩ := matchedFiles_normal htree habs glob (by simpa using hq)
      exact eq_of_same_pathOf hplace hother hsame
  refine ⟨absolute, glob, _, _, rfl, hread, rfl, rfl, hmem, ?_, ?_⟩
  · rw [hwalk]
    intro hnormal hnode
    rw [← isFound_iff_isFound htree hstart hroot hnormal hnode]
    simp only [hmem, isFound_root_iff htree hroot hwalk]
  · intro hfront
    have hsame : walkStart tree absolute = walkStart tree (normalPattern absolute) := by
      simp only [walkStart, hfront]
    refine ⟨fun f => ?_, fun other expansion' hother h' hnormal hfront' => ?_⟩
    · rw [hmem, hsame, hwalk, isFound_root_iff htree hroot hwalk]
    · obtain ⟨glob', hread', hfiles'⟩ := ofPatterns_glob hother h'
      have hglobs : glob' = glob := by
        have heq : globOf (absolutePattern cwd other) = globOf absolute := by
          simp only [globOf, ← normalPattern.eq_1, hnormal]
        exact Except.ok.inj (hread'.symm.trans (heq.trans hread))
      have hwalks : walkStart tree (absolutePattern cwd other) = walkStart tree absolute := by
        simp only [walkStart, hfront, hfront']
      rw [hfiles, hfiles', hglobs]
      simp only [matchedFiles, hwalks]

/-- A project with one source file. -/
def smallProject : FileTree :=
  ⟨[("p".toList, .dir [("src".toList, .dir [("a.ts".toList, .file { content := .text "" })])])]⟩

theorem files_of_glob_in_smallProject :
    ∃ expansion glob, smallProject.isProper = true ∧ (⟨"/p"⟩ : Path).isAbsolute = true ∧
      isGlobText "src/*.ts" = true ∧
      ofPatterns smallProject ⟨"/p"⟩ ["src/*.ts"] = .ok expansion ∧
      literalFront "/p/src/*.ts" = literalFront (normalPattern "/p/src/*.ts") ∧
      (∀ f, f ∈ expansion.files ↔ IsAskedFor smallProject "/p/src/*.ts" glob f) ∧
      expansion.files = [⟨"/p/src/a.ts"⟩] := by
  have hpattern : absolutePattern ⟨"/p"⟩ "src/*.ts" = "/p/src/*.ts" := by decide +kernel
  have hfront : literalFront "/p/src/*.ts" = literalFront (normalPattern "/p/src/*.ts") := by
    decide +kernel
  have hfiles : (ofPatterns smallProject ⟨"/p"⟩ ["src/*.ts"]).toOption.map (·.files) =
      some [⟨"/p/src/a.ts"⟩] := by decide +kernel
  cases hexpansion : ofPatterns smallProject ⟨"/p"⟩ ["src/*.ts"] with
  | error failure => simp [hexpansion, Except.toOption] at hfiles
  | ok expansion =>
      obtain ⟨_, glob, _, _, rfl, -, rfl, rfl, -, -, hplain⟩ :=
        files_of_spelled_glob (by decide) (by decide) (by decide) hexpansion
      rw [hpattern] at hplain
      refine ⟨expansion, glob, by decide, by decide, by decide, rfl, hfront, (hplain hfront).1, ?_⟩
      simpa [hexpansion, Except.toOption] using hfiles

/-- A glob that starts with `./` finds nothing, although its normal form asks for a file and the same
glob without the `./` finds that file. -/
theorem dotted_glob_finds_nothing :
    normalPattern "/p/./src/*.ts" = normalPattern "/p/src/*.ts" ∧
      (ofPatterns smallProject ⟨"/p"⟩ ["src/*.ts"]).toOption.map (·.files) =
        some [⟨"/p/src/a.ts"⟩] ∧
      ∃ expansion glob, ofPatterns smallProject ⟨"/p"⟩ ["./src/*.ts"] = .ok expansion ∧
        globOf (absolutePattern ⟨"/p"⟩ "./src/*.ts") = .ok glob ∧
        ¬∀ f, f ∈ expansion.files ↔
          IsAskedFor smallProject (absolutePattern ⟨"/p"⟩ "./src/*.ts") glob f := by
  have hpattern : absolutePattern ⟨"/p"⟩ "./src/*.ts" = "/p/./src/*.ts" := by decide +kernel
  have hnone : (ofPatterns smallProject ⟨"/p"⟩ ["./src/*.ts"]).toOption.map (·.files) = some [] := by
    decide +kernel
  have hmatch : (globOf "/p/./src/*.ts").toOption.map (·.isMatch ⟨"/p/src/a.ts"⟩) = some true := by
    decide +kernel
  have hroot : walkStart smallProject (normalPattern "/p/./src/*.ts") = ⟨"/p/src"⟩ := by
    decide +kernel
  refine ⟨by decide +kernel, by decide +kernel, ?_⟩
  rw [hpattern]
  cases hexpansion : ofPatterns smallProject ⟨"/p"⟩ ["./src/*.ts"] with
  | error failure => simp [hexpansion, Except.toOption] at hnone
  | ok expansion =>
      cases hglob : globOf "/p/./src/*.ts" with
      | error failure => simp [hglob, Except.toOption] at hmatch
      | ok glob =>
          refine ⟨expansion, glob, rfl, rfl, fun hclaim => ?_⟩
          have hempty : expansion.files = [] := by
            simpa [hexpansion, Except.toOption] using hnone
          have hasked : IsAskedFor smallProject "/p/./src/*.ts" glob ⟨"/p/src/a.ts"⟩ := by
            refine ⟨by simpa [hglob, Except.toOption] using hmatch, ["a.ts".toList], ?_, ?_⟩
            · rw [hroot]
              exact ⟨.dir [("a.ts".toList, .file { content := .text "" })], rfl, by decide,
                ⟨_, rfl⟩, by decide⟩
            · rw [hroot]
              decide +kernel
          have hmem := (hclaim ⟨"/p/src/a.ts"⟩).mpr hasked
          simp [hempty] at hmem

end Expansion

end ScopedCheck
