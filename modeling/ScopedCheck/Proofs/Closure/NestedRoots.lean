import ScopedCheck.Closure.Scan
import ScopedCheck.Proofs.Config.Rooted
import ScopedCheck.Proofs.Glob.Matching
import ScopedCheck.Proofs.Path.Alike
/-! # Scans of nested projects

A scan walks only those directories that lie in no other one. It finds what walks from all of them would
find just when the walk from around a directory comes to it, or nothing would be found there
(`ofConfig_eq_separately_iff`): a hidden directory, a directory of packages, an excluded directory and a link
on the way each hold the outer walk up, but not one that starts behind them. -/

namespace ScopedCheck

open FileTree (Location pathOf textEntry)

namespace Path

/-! ## Directories that lie in others -/

theorem isSome_dropParts_iff {rest front : List Part} : (dropParts rest front).isSome = true ↔ front <+: rest := by
  fun_induction dropParts rest front with
  | case1 => simp
  | case2 => simp
  | case3 rest front part ih => simpa using ih
  | case4 first rest part front hne => simp [Ne.symm hne]

theorem isWithin_iff {p dir : Path} : p.isWithin dir = true ↔ dir.parts <+: p.parts := isSome_dropParts_iff

theorem isWithin_pathOf_iff {location other : Location} (h : AreNames location) (hother : AreNames other) :
    (pathOf location).isWithin (pathOf other) = true ↔ other <+: location := by
  have hname : Function.Injective Part.name := fun _ _ h => Part.name.inj h
  rw [isWithin_iff, parts_pathOf h, parts_pathOf hother, List.cons_prefix_cons,
    List.prefix_map_iff_of_injective hname]
  exact and_iff_right rfl

end Path

namespace ProjectScan

open ScopedCheck.Path (isWithin_iff same_iff)

theorem mem_outermost_iff {dirs : List Path} {dir : Path} :
    dir ∈ outermost dirs ↔
      dir ∈ dirs ∧ ∀ other ∈ dirs, dir.isWithin other = true → other.parts = dir.parts := by
  simp only [outermost, List.mem_filter, Bool.not_eq_true', List.any_eq_false, Bool.and_eq_true, not_and,
    ← same_iff]
  refine and_congr_right fun _ => forall₂_congr fun other _ => ?_
  cases other.same dir <;> simp

/-- Every directory lies in one that lies in no other one. -/
theorem exists_outermost {dirs : List Path} {dir : Path} (h : dir ∈ dirs) :
    ∃ root ∈ outermost dirs, dir.isWithin root = true := by
  by_cases hdir : dir ∈ outermost dirs
  · exact ⟨dir, hdir, isWithin_iff.mpr (List.prefix_refl _)⟩
  · obtain ⟨other, hother, hwithin, hne⟩ :
        ∃ other ∈ dirs, dir.isWithin other = true ∧ other.parts ≠ dir.parts := by
      by_contra hnone
      refine hdir (mem_outermost_iff.mpr ⟨h, fun other hother hwithin => ?_⟩)
      by_contra hne
      exact hnone ⟨other, hother, hwithin, hne⟩
    have hfront := isWithin_iff.mp hwithin
    have hshorter : other.parts.length < dir.parts.length :=
      lt_of_le_of_ne hfront.length_le fun hlength => hne (hfront.eq_of_length hlength)
    obtain ⟨root, hroot, hinside⟩ := exists_outermost hother
    exact ⟨root, hroot, isWithin_iff.mpr ((isWithin_iff.mp hinside).trans hfront)⟩
termination_by dir.parts.length

-- a directory is not inside of another one whose name its own name starts with
example : outermost [⟨"/p"⟩, ⟨"/p/lib"⟩, ⟨"/play"⟩] = [⟨"/p"⟩, ⟨"/play"⟩] := by decide +kernel

section Dirs

variable {tree : FileTree} {includes excludes : PathFilter} {accepts : Path → Bool} {dirs : List Path}

/-- What walks from some directories find. -/
def foundFrom (tree : FileTree) (includes excludes : PathFilter) (accepts : Path → Bool) (dirs : List Path) :
    List Path :=
  dirs.flatMap fun dir => tree.walkMatching dir includes excludes accepts

theorem mem_foundFrom {p : Path} : p ∈ foundFrom tree includes excludes accepts dirs ↔
    ∃ dir ∈ dirs, p ∈ tree.walkMatching dir includes excludes accepts := List.mem_flatMap

/-- What is found from a directory is found from the outermost one around it if the walk comes there. -/
theorem mem_walkMatching_of_isOnTheWay (htree : tree.isProper = true) {root dir : Path}
    (hroot : root.isAbsolute = true ∧ root.normalize = root) (h : tree.IsOnTheWay excludes.isMatch root dir)
    {p : Path} (hp : p ∈ tree.walkMatching dir includes excludes accepts) :
    p ∈ tree.walkMatching root includes excludes accepts := by
  obtain ⟨location, hlocation, rfl⟩ := Path.exists_pathOf hroot.1 hroot.2
  obtain ⟨way, node, rfl, hcomes, hkind⟩ := h
  have hway := hcomes.areNames htree (Path.isAbsolute_pathOf location)
  rw [Path.pathOf_through hlocation hway] at hp
  obtain ⟨names, file, hnames, hbelow, hfound⟩ :=
    (FileTree.mem_walkMatching_pathOf htree (hlocation.append hway)).mp hp
  rw [List.append_assoc] at hfound
  exact (FileTree.mem_walkMatching_pathOf htree hlocation).mpr
    ⟨way ++ names, file, hway.append hnames, hcomes.append hlocation hway hkind hbelow, hfound⟩

/-- If something is found from a directory and from an outermost one, then the walk from the outermost one
around the directory comes there. -/
theorem isOnTheWay_of_mem_walkMatching (htree : tree.isProper = true)
    (hdirs : ∀ dir ∈ dirs, dir.isAbsolute = true ∧ dir.normalize = dir) {root other dir : Path}
    (hroot : root ∈ outermost dirs) (hother : other ∈ outermost dirs) (hdir : dir ∈ dirs)
    (hwithin : dir.isWithin root = true) {p : Path}
    (hp : p ∈ tree.walkMatching dir includes excludes accepts)
    (hfound : p ∈ tree.walkMatching other includes excludes accepts) :
    tree.IsOnTheWay excludes.isMatch root dir := by
  obtain ⟨hrootMem, hrootOuter⟩ := mem_outermost_iff.mp hroot
  obtain ⟨hotherMem, hotherOuter⟩ := mem_outermost_iff.mp hother
  obtain ⟨outer, houter, rfl⟩ := Path.exists_pathOf (hdirs root hrootMem).1 (hdirs root hrootMem).2
  obtain ⟨place, hplace, rfl⟩ := Path.exists_pathOf (hdirs other hotherMem).1 (hdirs other hotherMem).2
  obtain ⟨inner, hinner, rfl⟩ := Path.exists_pathOf (hdirs dir hdir).1 (hdirs dir hdir).2
  obtain ⟨way, rfl⟩ := (Path.isWithin_pathOf_iff hinner houter).mp hwithin
  obtain ⟨names, file, hnames, hcomes, -, -, rfl⟩ := (FileTree.mem_walkMatching_pathOf htree hinner).mp hp
  obtain ⟨names', file', hnames', hcomes', -, -, hsame⟩ :=
    (FileTree.mem_walkMatching_pathOf htree hplace).mp hfound
  have hsame := Path.pathOf_injective (hplace.append hnames') (hinner.append hnames) hsame
  -- both lie around the place that is found, so that one lies in the other
  have heq : place = outer := by
    have hfront : outer <+: outer ++ way ++ names := by simp
    have hparts : (pathOf outer).parts = (pathOf place).parts := by
      rcases List.prefix_or_prefix_of_prefix hfront ⟨names', hsame⟩ with hin | hin
      · exact hotherOuter _ hrootMem ((Path.isWithin_pathOf_iff hplace houter).mpr hin)
      · exact (hrootOuter _ hotherMem ((Path.isWithin_pathOf_iff houter hplace).mpr hin)).symm
    rw [← Path.names_parts_pathOf hplace, ← hparts, Path.names_parts_pathOf houter]
  subst heq
  rw [List.append_assoc] at hsame
  obtain rfl := List.append_cancel_left hsame
  rw [← Path.pathOf_through houter fun name hname => hinner name (List.mem_append_right _ hname)]
  exact hcomes'.isOnTheWay

/-- Walks from the outermost directories find what walks from all of them find just when the walk from around
a directory comes to it, unless there is nothing to be found from there. -/
theorem foundFrom_outermost_iff (htree : tree.isProper = true)
    (hdirs : ∀ dir ∈ dirs, dir.isAbsolute = true ∧ dir.normalize = dir) :
    (∀ p, p ∈ foundFrom tree includes excludes accepts (outermost dirs) ↔
        p ∈ foundFrom tree includes excludes accepts dirs) ↔
      ∀ root ∈ outermost dirs, ∀ dir ∈ dirs, dir.isWithin root = true →
        tree.walkMatching dir includes excludes accepts = [] ∨ tree.IsOnTheWay excludes.isMatch root dir := by
  simp only [mem_foundFrom]
  constructor
  · intro h root hroot dir hdir hwithin
    by_cases hnone : tree.walkMatching dir includes excludes accepts = []
    · exact Or.inl hnone
    · obtain ⟨p, hp⟩ := List.exists_mem_of_ne_nil _ hnone
      obtain ⟨other, hother, hfound⟩ := (h p).mpr ⟨dir, hdir, hp⟩
      exact Or.inr (isOnTheWay_of_mem_walkMatching htree hdirs hroot hother hdir hwithin hp hfound)
  · intro h p
    constructor
    · rintro ⟨root, hroot, hp⟩
      exact ⟨root, (mem_outermost_iff.mp hroot).1, hp⟩
    · rintro ⟨dir, hdir, hp⟩
      obtain ⟨root, hroot, hwithin⟩ := exists_outermost hdir
      rcases h root hroot dir hdir hwithin with hnone | hway
      · rw [hnone] at hp
        cases hp
      · exact ⟨root, hroot, mem_walkMatching_of_isOnTheWay htree
          (hdirs root (mem_outermost_iff.mp hroot).1) hway hp⟩

/-- Whatever a walk finds is a normal form. -/
theorem normalize_of_mem_foundFrom {p : Path} (h : p ∈ foundFrom tree includes excludes accepts dirs) :
    p.normalize = p := by
  obtain ⟨dir, -, hfound⟩ := mem_foundFrom.mp h
  obtain ⟨visit, -, rfl⟩ := List.mem_map.mp (Path.mem_sorted.mp hfound)
  exact Path.normalize_normalize visit.path

end Dirs

/-! ## Scans -/

/-- The directory of a config and those of the projects that it refers to. -/
def directories (config : Config) : List Path := config.dir :: referenceDirs config

/-- Whether a scan lists a path. -/
def wants (r : Recognizer) (path : Path) : Bool := path.isDeclaration || r.isGenerated path

/-- What a scan lists of the paths that it has found. -/
def ofFound (found : List Path) : ProjectScan :=
  ⟨Path.sortedUnique (found.filter (·.isDeclaration)), Path.sortedUnique (found.filter (!·.isDeclaration))⟩

/-- What the patterns of a config find from some directories. -/
def found (tree : FileTree) (config : Config) (r : Recognizer) (dirs : List Path) : Except Failure (List Path) := do
  let includes ← PathFilter.ofPatterns (patterns config)
  let excludes ← PathFilter.ofPatterns config.excludePatterns
  return foundFrom tree includes excludes (wants r) dirs

/-- A scan that walks every directory for itself, those that lie in others as well. -/
def separately (tree : FileTree) (config : Config) (r : Recognizer) : Except Failure ProjectScan :=
  (found tree config r (directories config)).map ofFound

theorem ofConfig_eq (tree : FileTree) (config : Config) (r : Recognizer) :
    ofConfig tree config r = (found tree config r (roots config)).map ofFound := by
  rw [ofConfig, found]
  cases PathFilter.ofPatterns (patterns config) with
  | error failure => rfl
  | ok includes => cases PathFilter.ofPatterns config.excludePatterns <;> rfl

/-- Scans that found the same normal forms are the same. -/
theorem ofFound_eq_iff {found others : List Path} (hfound : ∀ p ∈ found, p.normalize = p)
    (hothers : ∀ p ∈ others, p.normalize = p) :
    ofFound found = ofFound others ↔ ∀ p, p ∈ found ↔ p ∈ others := by
  have hlist : ∀ keep : Path → Bool,
      Path.sortedUnique (found.filter keep) = Path.sortedUnique (others.filter keep) ↔
        ∀ p, p ∈ found.filter keep ↔ p ∈ others.filter keep := by
    intro keep
    have hkept : ∀ p ∈ found.filter keep, p.normalize = p := fun p hp => hfound p (List.mem_of_mem_filter hp)
    have hkept' : ∀ p ∈ others.filter keep, p.normalize = p := fun p hp => hothers p (List.mem_of_mem_filter hp)
    constructor
    · intro h p
      rw [← Path.mem_sortedUnique_of_normal hkept, h, Path.mem_sortedUnique_of_normal hkept']
    · exact fun h => Path.sortedUnique_congr (Path.alike_of_normal hkept fun p => (h p).symm)
  rw [ofFound, ofFound, ProjectScan.mk.injEq, hlist, hlist]
  simp only [List.mem_filter]
  constructor
  · rintro ⟨hambient, hgenerated⟩ p
    have hambient := hambient p
    have hgenerated := hgenerated p
    cases hkind : p.isDeclaration <;> simp_all
  · exact fun h => ⟨fun p => by rw [h p], fun p => by rw [h p]⟩

/-- A scan finds what walks from all directories would find just when the walk from around a directory comes
to it, unless there is nothing to be found from there. It is held up by hidden directories and directories of
packages, by excluded directories and by links. -/
theorem ofConfig_eq_separately_iff {tree : FileTree} (htree : tree.isProper = true) {config : Config}
    (hdirs : ∀ dir ∈ directories config, dir.isAbsolute = true ∧ dir.normalize = dir) (r : Recognizer) :
    ofConfig tree config r = separately tree config r ↔
      ∀ includes excludes, PathFilter.ofPatterns (patterns config) = .ok includes →
        PathFilter.ofPatterns config.excludePatterns = .ok excludes →
        ∀ root ∈ roots config, ∀ dir ∈ directories config, dir.isWithin root = true →
          tree.walkMatching dir includes excludes (wants r) = [] ∨
            tree.IsOnTheWay excludes.isMatch root dir := by
  have hmem : ∀ dir, dir ∈ Path.sortedUnique (directories config) ↔ dir ∈ directories config := fun dir =>
    Path.mem_sortedUnique_of_normal fun dir hdir => (hdirs dir hdir).2
  have hfound : ∀ includes excludes,
      ofFound (foundFrom tree includes excludes (wants r) (roots config)) =
          ofFound (foundFrom tree includes excludes (wants r) (directories config)) ↔
        ∀ root ∈ roots config, ∀ dir ∈ directories config, dir.isWithin root = true →
          tree.walkMatching dir includes excludes (wants r) = [] ∨
            tree.IsOnTheWay excludes.isMatch root dir := by
    intro includes excludes
    have hwalks := @foundFrom_outermost_iff tree includes excludes (wants r)
      (Path.sortedUnique (directories config)) htree fun dir hdir => hdirs dir ((hmem dir).mp hdir)
    rw [ofFound_eq_iff (fun p => normalize_of_mem_foundFrom) (fun p => normalize_of_mem_foundFrom)]
    simp only [mem_foundFrom, hmem] at hwalks ⊢
    exact hwalks
  rw [ofConfig_eq, separately, found, found]
  cases hincludes : PathFilter.ofPatterns (patterns config) with
  | error failure => exact iff_of_true rfl fun _ _ h => by cases h
  | ok includes =>
    cases hexcludes : PathFilter.ofPatterns config.excludePatterns with
    | error failure => exact iff_of_true rfl fun _ _ _ h => by cases h
    | ok excludes =>
      constructor
      · rintro h _ _ ⟨rfl⟩ ⟨rfl⟩
        exact (hfound includes excludes).mp (Except.ok.inj h)
      · exact fun h => congrArg Except.ok ((hfound includes excludes).mpr (h includes excludes rfl rfl))

/-- A referenced config has the path of a place. -/
theorem exists_pathOf_referencedConfig {path : Path} (habs : path.isAbsolute = true) (reference : String) :
    ∃ location, Path.AreNames location ∧ Config.referencedConfig path reference = pathOf location := by
  obtain ⟨location, hlocation, hcandidate⟩ := Path.exists_pathOf
    (Path.isAbsolute_normalize (Path.isAbsolute_child (Path.isAbsolute_parent habs) reference))
    (Path.normalize_normalize _)
  rw [Config.referencedConfig, hcandidate]
  split
  · exact ⟨location, hlocation, rfl⟩
  · have hname : FileTree.isName Config.fileName.toList = true := by decide
    refine ⟨_, hlocation.append (List.forall_mem_singleton.mpr hname), ?_⟩
    rw [pathOf, pathOf, ← Path.child_ofSegments true hlocation hname, String.ofList_toList]

/-- The directories of a loaded config are normal forms. -/
theorem directories_of_load {tree : FileTree} {path : Path} (habs : path.isAbsolute = true) {config : Config}
    (h : Config.load tree path = .ok config) :
    ∀ dir ∈ directories config, dir.isAbsolute = true ∧ dir.normalize = dir := by
  obtain ⟨⟨layer, chain⟩, -, h⟩ := Fallible.bind_eq_ok_iff.mp h
  obtain rfl := Except.ok.inj h
  have hnormal : ∀ {location : Location}, Path.AreNames location →
      (pathOf location).isAbsolute = true ∧ (pathOf location).normalize = pathOf location :=
    fun hlocation => ⟨Path.isAbsolute_pathOf _, Path.normalize_pathOf hlocation⟩
  obtain ⟨location, hlocation, hpath⟩ := Path.exists_pathOf (FileTree.isAbsolute_canonical tree habs)
    (FileTree.normalize_canonical tree path)
  refine List.forall_mem_cons.mpr ⟨?_, fun dir hdir => ?_⟩
  · obtain ⟨front, hfront, hparent⟩ := Path.exists_pathOf_parent hlocation
    rw [← hpath] at hparent
    rw [Config.dir, hparent]
    exact hnormal hfront
  · obtain ⟨reference, hreference, hparent⟩ := List.mem_filterMap.mp hdir
    obtain ⟨text, -, rfl⟩ := List.mem_map.mp hreference
    obtain ⟨place, hplace, hconfig⟩ := exists_pathOf_referencedConfig
      (FileTree.isAbsolute_canonical tree habs) text
    rw [hconfig] at hparent
    obtain ⟨front, hfront, rfl⟩ := Path.exists_pathOf_of_parent? hplace hparent
    exact hnormal hfront

/-! ## A project in a directory of another one -/

/-- A project that refers to one in a directory below its own, and that one. -/
def withLibrary (above : String) : FileTree :=
  ⟨[("p".toList, .dir [
    textEntry "tsconfig.json" ("\x7b\"references\": [\x7b\"path\": \"" ++ above ++ "/lib\"\x7d]\x7d"),
    textEntry "a.ts" "",
    (above.toList, .dir [("lib".toList, .dir [
      textEntry "tsconfig.json" "\x7b\x7d", textEntry "env.d.ts" ""])])])]⟩

/-- A scan from the file tree on: what is found from the outermost directories and from all of them. -/
theorem exists_scans (tree : FileTree) (path : Path) (outer dirs once twice : List Path)
    (hroots : outermost (Path.dropRepeats dirs) = outer) (hsorted : dirs.Pairwise fun p q => p.le q = true)
    (h : ((Config.load tree path).toOption.bind fun config =>
        (Recognizer.ofHeuristics ⟨[], [], [], [".gen.ts"]⟩).toOption.map fun r =>
          (directories config, (found tree config r outer).toOption, (found tree config r dirs).toOption))
      = some (dirs, some once, some twice)) :
    ∃ config r, Config.load tree path = .ok config ∧ Recognizer.ofHeuristics ⟨[], [], [], [".gen.ts"]⟩ = .ok r ∧
      ofConfig tree config r = .ok (ofFound once) ∧ separately tree config r = .ok (ofFound twice) := by
  simp only [Option.bind_eq_some_iff, Option.map_eq_some_iff, Fallible.toOption_eq_some_iff,
    Prod.mk.injEq] at h
  obtain ⟨config, hload, r, hr, rfl, honce, htwice⟩ := h
  have hall : roots config = outer := by
    rw [← hroots, ← Path.sortedUnique_eq_dropRepeats hsorted]
    rfl
  refine ⟨config, r, hload, hr, ?_, ?_⟩
  · rw [ofConfig_eq, hall]
    exact congrArg (Except.map ofFound) honce
  · exact congrArg (Except.map ofFound) htwice

theorem hidden_directory_is_not_covered :
    ∃ config r, Config.load (withLibrary ".hidden") ⟨"/p/tsconfig.json"⟩ = .ok config ∧
      Recognizer.ofHeuristics ⟨[], [], [], [".gen.ts"]⟩ = .ok r ∧
      ofConfig (withLibrary ".hidden") config r = .ok {} ∧
      separately (withLibrary ".hidden") config r = .ok { ambient := [⟨"/p/.hidden/lib/env.d.ts"⟩] } := by
  have hone : ofFound [⟨"/p/.hidden/lib/env.d.ts"⟩] = { ambient := [⟨"/p/.hidden/lib/env.d.ts"⟩] } := by
    decide +kernel
  have hnone : ofFound [] = {} := by decide +kernel
  rw [← hone, ← hnone]
  exact exists_scans (withLibrary ".hidden") ⟨"/p/tsconfig.json"⟩ [⟨"/p"⟩] [⟨"/p"⟩, ⟨"/p/.hidden/lib"⟩] []
    [⟨"/p/.hidden/lib/env.d.ts"⟩] (by simp +decide [Path.dropRepeats]) (by decide) (by decide +kernel)

theorem ofConfig_eq_separately_of_library :
    (withLibrary "sub").isProper = true ∧
    ∃ config r, Config.load (withLibrary "sub") ⟨"/p/tsconfig.json"⟩ = .ok config ∧
      (∀ dir ∈ directories config, dir.isAbsolute = true ∧ dir.normalize = dir) ∧
      ofConfig (withLibrary "sub") config r = .ok { ambient := [⟨"/p/sub/lib/env.d.ts"⟩] } ∧
      ofConfig (withLibrary "sub") config r = separately (withLibrary "sub") config r ∧
      ∀ includes excludes, PathFilter.ofPatterns (patterns config) = .ok includes →
        PathFilter.ofPatterns config.excludePatterns = .ok excludes →
        ∀ root ∈ roots config, ∀ dir ∈ directories config, dir.isWithin root = true →
          (withLibrary "sub").walkMatching dir includes excludes (wants r) = [] ∨
            (withLibrary "sub").IsOnTheWay excludes.isMatch root dir := by
  have htree : (withLibrary "sub").isProper = true := by decide +kernel
  obtain ⟨config, r, hload, -, honce, htwice⟩ := exists_scans (withLibrary "sub") ⟨"/p/tsconfig.json"⟩ [⟨"/p"⟩]
    [⟨"/p"⟩, ⟨"/p/sub/lib"⟩] [⟨"/p/sub/lib/env.d.ts"⟩] [⟨"/p/sub/lib/env.d.ts"⟩, ⟨"/p/sub/lib/env.d.ts"⟩]
    (by simp +decide [Path.dropRepeats]) (by decide) (by decide +kernel)
  have hdirs := directories_of_load (by decide) hload
  have hone : ofFound [⟨"/p/sub/lib/env.d.ts"⟩] = { ambient := [⟨"/p/sub/lib/env.d.ts"⟩] } := by
    decide +kernel
  have hrepeat : ofFound [⟨"/p/sub/lib/env.d.ts"⟩] = ofFound [⟨"/p/sub/lib/env.d.ts"⟩, ⟨"/p/sub/lib/env.d.ts"⟩] :=
    (ofFound_eq_iff (by decide) (by decide)).mpr (by simp)
  have hsame : ofConfig (withLibrary "sub") config r = separately (withLibrary "sub") config r := by
    rw [honce, htwice, hrepeat]
  rw [hone] at honce
  exact ⟨htree, config, r, hload, hdirs, honce, hsame, (ofConfig_eq_separately_iff htree hdirs r).mp hsame⟩

end ProjectScan

end ScopedCheck
