import ScopedCheck.Proofs.Closure.NestedRoots
import ScopedCheck.Proofs.Config.Carried
/-! # Scans of one project at two places

A scan finds the same files of a project wherever the project is, given that the names of the directories in front
of it are plain and that its patterns are carried over with it (`together_ofConfig`). Both have to be asked for: a
pattern is put behind the path of the project, and all of that is read as a glob. -/

namespace ScopedCheck

open FileTree (Name Node Location pathOf IsPlainPlace textEntry)
open ScopedCheck.Path (AreNames)
open Fallible (Together)
open PathFilter (MatchAlike)

variable {place next : Location}

namespace FileTree

/-! ## Walks at two places -/

section Dirs

variable {tree : FileTree} {entries : List (Name × Node)} {includes excludes : PathFilter} {accepts : Path → Bool}

/-- Names that lead from a directory to a file that a walk with patterns finds. -/
def Finds (place : Location) (entries : List (Name × Node)) (includes excludes : PathFilter) (accepts : Path → Bool)
    (names : Location) : Prop :=
  AreNames names ∧ excludes.isMatch (pathOf place) = false ∧
    (∃ file, Comes excludes.isMatch (pathOf place) (.dir entries) names (.file file)) ∧
    includes.isMatch (pathOf (place ++ names)) = true ∧ accepts (pathOf (place ++ names)) = true

theorem mem_walkMatching_iff_finds (htree : tree.isProper = true) (hplace : AreNames place)
    (hdir : tree.unfollowed (pathOf place) = .ok (.dir entries)) {p : Path} :
    p ∈ tree.walkMatching (pathOf place) includes excludes accepts ↔
      ∃ names, Finds place entries includes excludes accepts names ∧ pathOf (place ++ names) = p := by
  rw [mem_walkMatching_pathOf htree hplace]
  refine exists_congr fun names => ?_
  simp only [ComesTo, startsFrom_iff hdir (by simp), Finds, and_assoc, exists_eq_left]
  constructor
  · rintro ⟨file, hnames, hkept, hcomes, hincluded, haccepts, hp⟩
    exact ⟨hnames, hkept, ⟨file, hcomes⟩, hincluded, haccepts, hp⟩
  · rintro ⟨hnames, hkept, ⟨file, hcomes⟩, hincluded, haccepts, hp⟩
    exact ⟨file, hnames, hkept, hcomes, hincluded, haccepts, hp⟩

theorem Finds.ne_nil {names : Location} (h : Finds place entries includes excludes accepts names) : names ≠ [] := by
  rintro rfl
  obtain ⟨-, -, ⟨file, hcomes⟩, -⟩ := h
  cases hcomes

/-- What is found in a directory is found in another one with the same entries. -/
theorem Finds.elsewhere (hplace : AreNames place) (hnext : AreNames next) {includes' excludes' : PathFilter}
    (hincludes : MatchAlike place next includes includes') (hexcludes : MatchAlike place next excludes excludes')
    (haccepts : ∀ names, AreNames names → names ≠ [] →
      accepts (pathOf (next ++ names)) = accepts (pathOf (place ++ names))) {names : Location}
    (h : Finds place entries includes excludes accepts names) :
    Finds next entries includes' excludes' accepts names := by
  have hsome := h.ne_nil
  obtain ⟨hnames, hkept, ⟨file, hcomes⟩, hincluded, haccepted⟩ := h
  have hroot := hexcludes [] (List.forall_mem_nil _)
  rw [List.append_nil, List.append_nil] at hroot
  refine ⟨hnames, hroot.trans hkept, ⟨file, hcomes.elsewhere hnames fun names hnames => ?_⟩,
    (hincludes names hnames).trans hincluded, (haccepts names hnames hsome).trans haccepted⟩
  rw [Path.pathOf_through hnext hnames, Path.pathOf_through hplace hnames]
  exact hexcludes names hnames

/-- Walks through a directory at two places find files by the same names. -/
theorem finds_iff_finds (hplace : AreNames place) (hnext : AreNames next) {includes' excludes' : PathFilter}
    (hincludes : MatchAlike place next includes includes') (hexcludes : MatchAlike place next excludes excludes')
    (haccepts : ∀ names, AreNames names → names ≠ [] →
      accepts (pathOf (next ++ names)) = accepts (pathOf (place ++ names))) {names : Location} :
    Finds next entries includes' excludes' accepts names ↔ Finds place entries includes excludes accepts names := by
  refine ⟨fun h => ?_, fun h => h.elsewhere hplace hnext hincludes hexcludes haccepts⟩
  exact h.elsewhere hnext hplace (fun names hnames => (hincludes names hnames).symm)
    (fun names hnames => (hexcludes names hnames).symm) fun names hnames hsome => (haccepts names hnames hsome).symm

/-- Of what walks through a directory at two places find, the same is kept if names decide what is. -/
theorem exists_kept (htree : tree.isProper = true) {other : FileTree} (hother : other.isProper = true)
    (hplace : AreNames place) (hnext : AreNames next) (hdir : tree.unfollowed (pathOf place) = .ok (.dir entries))
    (hthere : other.unfollowed (pathOf next) = .ok (.dir entries)) {includes' excludes' : PathFilter}
    (hincludes : MatchAlike place next includes includes') (hexcludes : MatchAlike place next excludes excludes')
    (haccepts : ∀ names, AreNames names → names ≠ [] →
      accepts (pathOf (next ++ names)) = accepts (pathOf (place ++ names))) (keep : Path → Bool)
    (hkeep : ∀ names, AreNames names → names ≠ [] →
      keep (pathOf (next ++ names)) = keep (pathOf (place ++ names))) :
    ∃ listed : List Location,
      Path.sortedUnique ((tree.walkMatching (pathOf place) includes excludes accepts).filter keep) =
          listed.map (fun names => pathOf (place ++ names)) ∧
        Path.sortedUnique ((other.walkMatching (pathOf next) includes' excludes' accepts).filter keep) =
          listed.map fun names => pathOf (next ++ names) := by
  have hsame : ∀ {names}, Finds next entries includes' excludes' accepts names ↔
      Finds place entries includes excludes accepts names :=
    finds_iff_finds hplace hnext hincludes hexcludes haccepts
  apply Path.exists_sortedUnique hplace hnext fun names =>
    Finds place entries includes excludes accepts names ∧ keep (pathOf (place ++ names)) = true
  · exact fun names h => h.1.1
  · intro p
    rw [List.mem_filter, mem_walkMatching_iff_finds htree hplace hdir]
    constructor
    · rintro ⟨⟨names, hfinds, rfl⟩, hkept⟩
      exact ⟨names, ⟨hfinds, hkept⟩, rfl⟩
    · rintro ⟨names, ⟨hfinds, hkept⟩, rfl⟩
      exact ⟨⟨names, hfinds, rfl⟩, hkept⟩
  · intro p
    rw [List.mem_filter, mem_walkMatching_iff_finds hother hnext hthere]
    constructor
    · rintro ⟨⟨names, hfinds, rfl⟩, hkept⟩
      exact ⟨names, ⟨hsame.mp hfinds, (hkeep names hfinds.1 hfinds.ne_nil).symm.trans hkept⟩, rfl⟩
    · rintro ⟨names, ⟨hfinds, hkept⟩, rfl⟩
      exact ⟨⟨names, hsame.mpr hfinds, rfl⟩, (hkeep names hfinds.1 hfinds.ne_nil).trans hkept⟩

end Dirs

end FileTree

namespace ProjectScan

/-! ## Scans -/

/-- The scan that lists files by the names that lead to them from a directory. -/
def behind (place : Location) (ambient generated : List Location) : ProjectScan :=
  ⟨ambient.map fun names => pathOf (place ++ names), generated.map fun names => pathOf (place ++ names)⟩

/-- Scans that list the same files of a directory, one at one place and one at another. -/
def ListAlike (place next : Location) (scan other : ProjectScan) : Prop :=
  ∃ ambient generated, scan = behind place ambient generated ∧ other = behind next ambient generated

theorem roots_of_no_references {config : Config} (h : config.references = []) : roots config = [config.dir] := by
  have hone : Path.sortedUnique [config.dir] = [config.dir] := by
    rw [Path.sortedUnique_eq_dropRepeats (by simp), Path.dropRepeats]
  rw [roots, referenceDirs, h, List.filterMap_nil, hone]
  simp [outermost, Path.same]

theorem patterns_of_no_references {config : Config} (h : config.references = []) :
    patterns config = config.searchPatterns := by
  rw [patterns, referenceDirs, h, List.filterMap_nil, List.map_nil, List.append_nil]

variable {tree other : FileTree} {entries : List (Name × Node)}

section Names

variable (hplace : AreNames place) (hnext : AreNames next) {names : Location} (hnames : AreNames names)
  (hsome : names ≠ [])

include hplace hnext hnames hsome

theorem isDeclaration_pathOf_append :
    (pathOf (next ++ names)).isDeclaration = (pathOf (place ++ names)).isDeclaration := by
  rw [Path.isDeclaration, Path.isDeclaration, Path.endsInOneOf, Path.endsInOneOf,
    Path.name_pathOf_append hplace hnext hnames hsome]

/-- Whether a scan wants a file is told by its name. -/
theorem wants_pathOf_append (r : Recognizer) :
    wants r (pathOf (next ++ names)) = wants r (pathOf (place ++ names)) := by
  rw [wants, wants, isDeclaration_pathOf_append hplace hnext hnames hsome, Recognizer.isGenerated,
    Recognizer.isGenerated, Path.name_pathOf_append hplace hnext hnames hsome]

end Names

/-- Walks through a directory at two places list the same. -/
theorem listAlike_ofFound (htree : tree.isProper = true) (hother : other.isProper = true) (hplace : AreNames place)
    (hnext : AreNames next) (hdir : tree.unfollowed (pathOf place) = .ok (.dir entries))
    (hthere : other.unfollowed (pathOf next) = .ok (.dir entries)) {includes excludes includes' excludes' : PathFilter}
    (hincludes : MatchAlike place next includes includes') (hexcludes : MatchAlike place next excludes excludes')
    (r : Recognizer) :
    ListAlike place next (ofFound (tree.walkMatching (pathOf place) includes excludes (wants r)))
      (ofFound (other.walkMatching (pathOf next) includes' excludes' (wants r))) := by
  have hwants : ∀ names, AreNames names → names ≠ [] →
      wants r (pathOf (next ++ names)) = wants r (pathOf (place ++ names)) :=
    fun names hnames hsome => wants_pathOf_append hplace hnext hnames hsome r
  have hdeclaration : ∀ names, AreNames names → names ≠ [] →
      (pathOf (next ++ names)).isDeclaration = (pathOf (place ++ names)).isDeclaration :=
    fun names hnames hsome => isDeclaration_pathOf_append hplace hnext hnames hsome
  obtain ⟨ambient, hambient, hambient'⟩ := FileTree.exists_kept htree hother hplace hnext hdir hthere hincludes
    hexcludes hwants (·.isDeclaration) hdeclaration
  obtain ⟨generated, hgenerated, hgenerated'⟩ := FileTree.exists_kept htree hother hplace hnext hdir hthere
    hincludes hexcludes hwants (!·.isDeclaration) fun names hnames hsome =>
      congrArg (!·) (hdeclaration names hnames hsome)
  exact ⟨ambient, generated, by rw [ofFound, hambient, hgenerated, behind],
    by rw [ofFound, hambient', hgenerated', behind]⟩

/-- A scan of a project does not depend on where the project is: from two directories with plain names, with
patterns that are carried over from one to the other, it finds the same files, or it fails at both places. -/
theorem together_ofConfig (htree : tree.isProper = true) (hother : other.isProper = true)
    (hplace : IsPlainPlace place) (hnext : IsPlainPlace next)
    (hdir : tree.unfollowed (pathOf place) = .ok (.dir entries))
    (hthere : other.unfollowed (pathOf next) = .ok (.dir entries)) {config carried : Config}
    (hcarried : config.IsCarried place next carried) (hreferences : config.references = [])
    (hreferences' : carried.references = []) (r : Recognizer) :
    Together (ListAlike place next) (ofConfig tree config r) (ofConfig other carried r) := by
  have hincludes := PathFilter.together_ofPatterns hplace hnext (hcarried.searchPatterns hplace hnext)
  have hexcludes := PathFilter.together_ofPatterns hplace hnext (hcarried.excludePatterns hplace hnext)
  have hfound : ∀ {location : Location} {config : Config}, config.references = [] → config.dir = pathOf location →
      ∀ (tree : FileTree) (includes excludes : PathFilter), foundFrom tree includes excludes (wants r) (roots config) =
        tree.walkMatching (pathOf location) includes excludes (wants r) := by
    intro location config hnone hdir tree includes excludes
    rw [foundFrom, roots_of_no_references hnone, List.flatMap_singleton, hdir]
  rw [ofConfig_eq, ofConfig_eq, found, found, patterns_of_no_references hreferences,
    patterns_of_no_references hreferences']
  simp only [hfound hreferences hcarried.dir, hfound hreferences' hcarried.dir_carried]
  refine (hincludes.bind (S := fun paths others => ListAlike place next (ofFound paths) (ofFound others))
    fun includes includes' hin => ?_).map fun _ _ h => h
  exact hexcludes.bind fun excludes excludes' hout =>
    .yield (listAlike_ofFound htree hother hplace.names hnext.names hdir hthere hin hout r)

/-! ## A project in a directory of the root -/

/-- A project with declarations below a directory that is taken in, one of them in a directory that is left out. -/
def projectEntries : List (Name × Node) :=
  [textEntry "tsconfig.json" "\x7b\"include\": [\"src\"], \"exclude\": [\"src/out\"]\x7d",
    ("src".toList, .dir [textEntry "env.d.ts" "", ("out".toList, .dir [textEntry "a.d.ts" ""])])]

/-- The project in a directory of a name. -/
def projectIn (name : String) : FileTree := ⟨[(name.toList, .dir projectEntries)]⟩

/-- What the config of the project says of what is scanned. -/
def IsOfProject (dir : Path) (config : Config) : Prop :=
  config.dir = dir ∧ config.includes = some ⟨dir, ["src"]⟩ ∧ config.excludes = some ⟨dir, ["src/out"]⟩ ∧
    config.references = [] ∧ config.files = none

instance (dir : Path) (config : Config) : Decidable (IsOfProject dir config) :=
  inferInstanceAs (Decidable (_ ∧ _))

/-- A scan of the project from its directory on, which is computed. -/
theorem exists_scan (name : String) (dir : Path) (paths : List Path)
    (h : ((Config.load (projectIn name) (dir.child "tsconfig.json")).toOption.bind fun config =>
        (Recognizer.ofHeuristics ⟨[], [], [], [".gen.ts"]⟩).toOption.map fun r =>
          (decide (IsOfProject dir config), (found (projectIn name) config r [dir]).toOption)) =
      some (true, some paths)) :
    ∃ config r, Config.load (projectIn name) (dir.child "tsconfig.json") = .ok config ∧
      Recognizer.ofHeuristics ⟨[], [], [], [".gen.ts"]⟩ = .ok r ∧ IsOfProject dir config ∧
      ofConfig (projectIn name) config r = .ok (ofFound paths) := by
  simp only [Option.bind_eq_some_iff, Option.map_eq_some_iff, Fallible.toOption_eq_some_iff, Prod.mk.injEq,
    decide_eq_true_eq] at h
  obtain ⟨config, hload, r, hr, hfields, hfound⟩ := h
  refine ⟨config, r, hload, hr, hfields, ?_⟩
  obtain ⟨hdir, -, -, hreferences, -⟩ := hfields
  rw [ofConfig_eq, roots_of_no_references hreferences, hdir]
  exact congrArg (Except.map ofFound) hfound

theorem exists_scan_in_p : ∃ config r, Config.load (projectIn "p") ⟨"/p/tsconfig.json"⟩ = .ok config ∧
    Recognizer.ofHeuristics ⟨[], [], [], [".gen.ts"]⟩ = .ok r ∧ IsOfProject ⟨"/p"⟩ config ∧
    ofConfig (projectIn "p") config r = .ok { ambient := [⟨"/p/src/env.d.ts"⟩] } := by
  have hone : ofFound [⟨"/p/src/env.d.ts"⟩] = { ambient := [⟨"/p/src/env.d.ts"⟩] } := by decide +kernel
  rw [← hone]
  exact exists_scan "p" ⟨"/p"⟩ [⟨"/p/src/env.d.ts"⟩] (by decide +kernel)

theorem together_ofConfig_of_renamed :
    (projectIn "p").isProper = true ∧ (projectIn "q").isProper = true ∧ IsPlainPlace ["p".toList] ∧
      IsPlainPlace ["q".toList] ∧
      (projectIn "p").unfollowed (pathOf ["p".toList]) = .ok (.dir projectEntries) ∧
      (projectIn "q").unfollowed (pathOf ["q".toList]) = .ok (.dir projectEntries) ∧
      ∃ config carried r, Config.load (projectIn "p") ⟨"/p/tsconfig.json"⟩ = .ok config ∧
        Config.load (projectIn "q") ⟨"/q/tsconfig.json"⟩ = .ok carried ∧
        config.IsCarried ["p".toList] ["q".toList] carried ∧ config.references = [] ∧ carried.references = [] ∧
        ofConfig (projectIn "p") config r = .ok { ambient := [⟨"/p/src/env.d.ts"⟩] } ∧
        Together (ListAlike ["p".toList] ["q".toList]) (ofConfig (projectIn "p") config r)
          (ofConfig (projectIn "q") carried r) := by
  have hp : (projectIn "p").isProper = true := by decide +kernel
  have hq : (projectIn "q").isProper = true := by decide +kernel
  have hplace : IsPlainPlace ["p".toList] :=
    ⟨by decide, List.forall_mem_singleton.mpr (by decide), by decide⟩
  have hnext : IsPlainPlace ["q".toList] :=
    ⟨by decide, List.forall_mem_singleton.mpr (by decide), by decide⟩
  have hdir : (projectIn "p").unfollowed (pathOf ["p".toList]) = .ok (.dir projectEntries) := rfl
  have hthere : (projectIn "q").unfollowed (pathOf ["q".toList]) = .ok (.dir projectEntries) := rfl
  obtain ⟨config, r, hload, -, ⟨hat, hincludes, hexcludes, hreferences, hfiles⟩, hscan⟩ := exists_scan_in_p
  obtain ⟨carried, -, hload', -, ⟨hat', hincludes', hexcludes', hreferences', hfiles'⟩, -⟩ :=
    exists_scan "q" ⟨"/q"⟩ [⟨"/q/src/env.d.ts"⟩] (by decide +kernel)
  have hportable : ∀ pattern ∈ ["src", "src/out"], FilePatterns.IsPortable ["p".toList] ["q".toList] [] pattern := by
    intro pattern hpattern
    have hstays : ∀ pattern ∈ ["src", "src/out"], FilePatterns.IsRelative pattern ∧
        FilePatterns.stayBelow 0 (FilePatterns.steps pattern) = true := by
      decide
    exact .inside (hstays pattern hpattern).1 (hstays pattern hpattern).2 fun _ => by decide
  have hspecs : ∀ pattern ∈ ["src", "src/out"], FilePatterns.IsCarried ["p".toList] ["q".toList]
      ⟨⟨"/p"⟩, [pattern]⟩ ⟨⟨"/q"⟩, [pattern]⟩ := fun pattern hpattern =>
    .inside (List.forall_mem_nil _) (List.forall_mem_singleton.mpr (hportable pattern hpattern))
  have hcarried : config.IsCarried ["p".toList] ["q".toList] carried := by
    refine ⟨hat, hat', ?_, ?_, by rw [hfiles, hfiles'], fun hnone => ?_⟩
    · rw [hincludes, hincludes']
      exact .some (hspecs "src" (by simp))
    · rw [hexcludes, hexcludes']
      exact .some (hspecs "src/out" (by simp))
    · rw [hexcludes] at hnone
      cases hnone
  exact ⟨hp, hq, hplace, hnext, hdir, hthere, config, carried, r, hload, hload', hcarried, hreferences, hreferences',
    hscan, together_ofConfig hp hq hplace hnext hdir hthere hcarried hreferences hreferences' r⟩

theorem bracketed_directory_finds_nothing :
    ∃ config other r, Config.load (projectIn "p") ⟨"/p/tsconfig.json"⟩ = .ok config ∧
      Config.load (projectIn "[p]") ⟨"/[p]/tsconfig.json"⟩ = .ok other ∧
      Recognizer.ofHeuristics ⟨[], [], [], [".gen.ts"]⟩ = .ok r ∧
      ofConfig (projectIn "p") config r = .ok { ambient := [⟨"/p/src/env.d.ts"⟩] } ∧
      ofConfig (projectIn "[p]") other r = .ok {} := by
  obtain ⟨config, r, hload, hr, -, hscan⟩ := exists_scan_in_p
  obtain ⟨other, r', hload', hr', -, hscan'⟩ := exists_scan "[p]" ⟨"/[p]"⟩ [] (by decide +kernel)
  obtain rfl : r = r' := Except.ok.inj (hr.symm.trans hr')
  have hnone : ofFound [] = {} := by decide +kernel
  rw [hnone] at hscan'
  exact ⟨config, other, r, hload, hload', hr, hscan, hscan'⟩

end ProjectScan

end ScopedCheck
