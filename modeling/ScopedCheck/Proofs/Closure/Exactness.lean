import ScopedCheck.Closure.Discover
import ScopedCheck.Config.Load
import ScopedCheck.Proofs.Closure.Discovery
import ScopedCheck.Proofs.Closure.Walk
import ScopedCheck.Proofs.Path.Order
/-! # What a closure is made of

In a tree of readable texts a discovery has no setback once the globs are read. If following all imports
hits no bound, the closure lists exactly the places that can be reached, the declarations of the
project, the generated files that types are imported from, and for tests the setup files; but nothing
of an installed package. -/

namespace ScopedCheck

theorem Path.isInPackages_eq_of_parts_eq {p q : Path} (h : p.parts = q.parts) :
    p.isInPackages = q.isInPackages := by
  simp only [isInPackages, hasStep, h]

theorem Path.listed_eq_of_parts_eq {p q : Path} (h : p.parts = q.parts) (paths : List Path) :
    p.listed paths = q.listed paths := by
  unfold listed
  congr 1
  funext q
  simp only [same, h]

theorem Path.listed_append {p : Path} {paths others : List Path} :
    p.listed (paths ++ others) = true ↔ p.listed paths = true ∨ p.listed others = true := by
  simp [listed]

/-- Leaving out installed packages leaves out places. -/
theorem Path.listed_filter_outside {p : Path} {paths : List Path} :
    p.listed (paths.filter (!·.isInPackages)) = true ↔
      p.isInPackages = false ∧ p.listed paths = true := by
  simp only [listed_iff, List.mem_filter, Bool.not_eq_true']
  constructor
  · rintro ⟨q, ⟨hq, hkept⟩, hparts⟩
    exact ⟨isInPackages_eq_of_parts_eq hparts ▸ hkept, q, hq, hparts⟩
  · rintro ⟨hkept, q, hq, hparts⟩
    exact ⟨q, ⟨hq, isInPackages_eq_of_parts_eq hparts ▸ hkept⟩, hparts⟩

/-! ## Faithful spellings -/

namespace FileTree

variable {tree : FileTree}

/-- A walk through a project yields normal forms. -/
theorem isFaithful_of_mem_walkMatching {start : Path} {includes excludes : PathFilter}
    {accepts : Path → Bool} {p : Path}
    (h : p ∈ tree.walkMatching start includes excludes accepts) : tree.IsFaithful p := by
  unfold walkMatching at h
  rw [Path.mem_sorted] at h
  obtain ⟨visit, -, rfl⟩ := List.mem_map.mp h
  exact isFaithful_normalize visit.path

end FileTree

/-! ## The scan -/

namespace ProjectScan

variable {tree : FileTree} {config : Config} {r : Recognizer} {scan : ProjectScan}

/-- A scan succeeds when the globs of the config can be read. -/
theorem exists_ofConfig (tree : FileTree) (r : Recognizer)
    (hincludes : ∃ filter, PathFilter.ofPatterns (patterns config) = .ok filter)
    (hexcludes : ∃ filter, PathFilter.ofPatterns config.excludePatterns = .ok filter) :
    ∃ scan, ofConfig tree config r = .ok scan := by
  obtain ⟨includes, hincludes⟩ := hincludes
  obtain ⟨excludes, hexcludes⟩ := hexcludes
  simp only [ofConfig, hincludes, hexcludes]
  exact ⟨_, rfl⟩

theorem isFaithful_of_mem_ambient (hscan : ofConfig tree config r = .ok scan) {p : Path}
    (h : p ∈ scan.ambient) : tree.IsFaithful p := by
  unfold ofConfig at hscan
  obtain ⟨includes, -, hscan⟩ := Fallible.bind_eq_ok_iff.mp hscan
  obtain ⟨excludes, -, hscan⟩ := Fallible.bind_eq_ok_iff.mp hscan
  obtain rfl := Except.ok.inj hscan
  have hmem := (List.mem_filter.mp (Path.mem_of_mem_sortedUnique h)).1
  obtain ⟨root, -, hfound⟩ := List.mem_flatMap.mp hmem
  exact FileTree.isFaithful_of_mem_walkMatching hfound

end ProjectScan

/-! ## Setup files -/

namespace SetupFiles

variable {tree : FileTree}

theorem exists_namedBy (htree : tree.isReadable = true) (project : Path) (name : String) :
    ∃ found, namedBy tree project name = .ok found := by
  simp only [namedBy]
  by_cases hfile : tree.isFile (project.child name) = true
  · obtain ⟨text, htext⟩ := FileTree.readText_of_isReadable htree hfile
    simp only [hfile, if_true, ImportWalk.sourceText, htext]
    exact ⟨_, rfl⟩
  · simp only [hfile]
    exact ⟨_, rfl⟩

/-- In a readable tree the setup files are found, and none is in an installed package. -/
theorem find_spec (htree : tree.isReadable = true) (r : Recognizer) (project : Path) (allowUntyped : Bool) :
    ∃ found, find tree r project allowUntyped = .ok found ∧ ∀ p ∈ found, p.isInPackages = false := by
  obtain ⟨named, hnamed, -⟩ := Fallible.exists_mapM r.heuristics.runnerConfigs fun name _ => exists_namedBy htree project name
  simp only [find, hnamed]
  refine ⟨_, rfl, fun p hp => ?_⟩
  have hkept := (List.mem_filter.mp (Path.mem_of_mem_sortedUnique hp)).2
  simp only [Bool.and_eq_true, Bool.not_eq_true'] at hkept
  exact hkept.1

end SetupFiles

/-! ## What is found first -/

namespace Closure

section Parts

variable (tree : FileTree) (request : ClosureRequest) (scan : ProjectScan)

/-- A file that imports of any kind lead to from the roots, or a root itself. -/
def IsReached (p : Path) : Prop :=
  ∃ f, ImportWalk.Reaches tree (.ofConfig request.config) (fun _ => true) request.roots f ∧
    p.parts = f.parts

/-- A file that is found before types are looked for in generated files. -/
def IsFound (p : Path) : Prop := IsReached tree request p ∨ p.listed scan.ambient = true

/-- A generated file that types are imported from in a file that is found. -/
def IsTypeSource (p : Path) : Prop :=
  p.listed scan.generated = true ∧ ∃ f target, IsFound tree request scan f ∧
    ImportWalk.Imports tree (.ofConfig request.config) (· == .typeOnly) f target ∧
      p.parts = target.parts

/-- A setup file of a request for tests. -/
def IsSetupFile (r : Recognizer) (p : Path) : Prop :=
  request.roots.any (r.isTest request.projectDir) = true ∧ ∃ setupFiles,
    SetupFiles.find tree r request.projectDir request.config.allowsUntyped = .ok setupFiles ∧
      p.listed setupFiles = true

end Parts

variable {tree : FileTree} {request : ClosureRequest} {scan : ProjectScan} {r : Recognizer}

/-- The program of the native host is part of what all imports lead to. -/
theorem native_spec (htree : tree.isReadable = true)
    (hroots : ∀ root ∈ request.roots, tree.IsFaithful root) :
    ∃ program, ProgramHost.native tree request.config request.roots request.limits = .ok program ∧
      ∀ f ∈ program,
        ImportWalk.Reaches tree (.ofConfig request.config) (fun _ => true) request.roots f := by
  obtain ⟨walk, hwalk, hsound, -⟩ := ImportWalk.ofRoots_spec htree (.ofConfig request.config) hroots
    request.limits Import.Kind.followedByCompiler
  refine ⟨walk.files, native_of_ofRoots hwalk, fun f hf => ?_⟩
  exact (hsound f (Path.mem_sorted.mp hf)).mono fun _ _ => rfl

/-- Following all imports leads to what can be reached, if it hits no bound. -/
theorem added_spec (htree : tree.isReadable = true)
    (hroots : ∀ root ∈ request.roots, tree.IsFaithful root) (hincludes : request.includes = none)
    (hlimit : ∀ walk, ImportWalk.ofRoots tree (.ofConfig request.config) request.roots
      request.limits (fun _ => true) = .ok walk → walk.limit = none) :
    ∃ more, added tree request (.ofConfig request.config) = .ok (more, none) ∧
      (∀ f ∈ more,
        ImportWalk.Reaches tree (.ofConfig request.config) (fun _ => true) request.roots f) ∧
      ∀ f, ImportWalk.Reaches tree (.ofConfig request.config) (fun _ => true) request.roots f →
        f.listed more = true := by
  obtain ⟨walk, hwalk, hsound, hcomplete⟩ := ImportWalk.ofRoots_spec htree
    (.ofConfig request.config) hroots request.limits fun _ => true
  have hnone := hlimit walk hwalk
  refine ⟨walk.files, ?_, fun f hf => hsound f (Path.mem_sorted.mp hf), fun f hf => ?_⟩
  · simp only [added, hincludes, hwalk]
    simp only [bind, Except.bind, hnone]
    rfl
  · obtain ⟨q, hq, hparts⟩ := Path.listed_iff.mp (hcomplete hnone f hf)
    exact Path.listed_iff.mpr ⟨q, Path.mem_sorted.mpr hq, hparts⟩

/-- The list of what is found first has faithful spellings of just these files. -/
theorem found_spec (hroots : ∀ root ∈ request.roots, tree.IsFaithful root)
    (hambient : ∀ f ∈ scan.ambient, tree.IsFaithful f) {program more : List Path}
    (hprogram : ∀ f ∈ program,
      ImportWalk.Reaches tree (.ofConfig request.config) (fun _ => true) request.roots f)
    (hsound : ∀ f ∈ more,
      ImportWalk.Reaches tree (.ofConfig request.config) (fun _ => true) request.roots f)
    (hcomplete : ∀ f,
      ImportWalk.Reaches tree (.ofConfig request.config) (fun _ => true) request.roots f →
        f.listed more = true) {files : List Path}
    (hfiles : files = Path.sortedUnique (request.roots.reverse ++ program ++ more ++ scan.ambient)) :
    (∀ f ∈ files, tree.IsFaithful f) ∧
      ∀ p : Path, p.listed files = true ↔ IsFound tree request scan p := by
  have hreaches : ∀ f ∈ request.roots.reverse ++ program ++ more,
      ImportWalk.Reaches tree (.ofConfig request.config) (fun _ => true) request.roots f := by
    intro f hf
    simp only [List.mem_append, List.mem_reverse] at hf
    rcases hf with (hf | hf) | hf
    · exact .root hf
    · exact hprogram f hf
    · exact hsound f hf
  subst hfiles
  refine ⟨fun f hf => ?_, fun p => ?_⟩
  · rcases List.mem_append.mp (Path.mem_of_mem_sortedUnique hf) with hf | hf
    · exact (hreaches f hf).isFaithful hroots
    · exact hambient f hf
  · rw [Path.listed_sortedUnique, Path.listed_append, IsFound]
    refine or_congr ⟨fun h => ?_, fun h => ?_⟩ Iff.rfl
    · obtain ⟨f, hf, hparts⟩ := Path.listed_iff.mp h
      exact ⟨f, hreaches f hf, hparts⟩
    · obtain ⟨f, hf, hparts⟩ := h
      rw [Path.listed_append]
      refine Or.inr ?_
      rw [Path.listed_eq_of_parts_eq hparts]
      exact hcomplete f hf

/-- The generated files that are added are those that types are imported from. -/
theorem typeOnlyGenerated_spec (htree : tree.isReadable = true) {files : List Path}
    (hfaithful : ∀ f ∈ files, tree.IsFaithful f)
    (hfiles : ∀ p : Path, p.listed files = true ↔ IsFound tree request scan p) :
    ∃ generated,
      typeOnlyGenerated tree (.ofConfig request.config) files scan.generated = .ok generated ∧
        ∀ p : Path, p.listed files = true ∨ p.listed generated = true ↔
          IsFound tree request scan p ∨ IsTypeSource tree request scan p := by
  unfold typeOnlyGenerated
  by_cases hempty : scan.generated.isEmpty = true
  · refine ⟨[], by simp [hempty], fun p => ?_⟩
    have hnone : ¬IsTypeSource tree request scan p := by
      rintro ⟨h, -⟩
      simp [List.isEmpty_iff.mp hempty, Path.listed] at h
    simp [Path.listed, hnone, ← hfiles]
  · have hspec := ImportWalk.targetsOf_spec htree (.ofConfig request.config) (· == .typeOnly)
    obtain ⟨targets, htargets, hmem⟩ := Fallible.exists_mapM files fun f _ => by
      obtain ⟨found, hfound, -⟩ := hspec f
      exact ⟨found, hfound⟩
    refine ⟨_, by simp only [hempty, htargets]; rfl, fun p => ?_⟩
    have himports : ∀ target, target ∈ targets.flatten ↔ ∃ f ∈ files,
        ImportWalk.Imports tree (.ofConfig request.config) (· == .typeOnly) f target := by
      intro target
      simp only [List.mem_flatten, hmem]
      constructor
      · rintro ⟨found, ⟨f, hf, hfound⟩, htarget⟩
        obtain ⟨found', hfound', hiff⟩ := hspec f
        rw [hfound] at hfound'
        obtain rfl := Except.ok.inj hfound'
        exact ⟨f, hf, (hiff target).mp htarget⟩
      · rintro ⟨f, hf, htarget⟩
        obtain ⟨found, hfound, hiff⟩ := hspec f
        exact ⟨found, ⟨f, hf, hfound⟩, (hiff target).mpr htarget⟩
    constructor
    · rintro (h | h)
      · exact Or.inl ((hfiles p).mp h)
      · obtain ⟨target, htarget, hparts⟩ := Path.listed_iff.mp h
        obtain ⟨htarget, hkept⟩ := List.mem_filter.mp htarget
        obtain ⟨f, hf, himport⟩ := (himports target).mp htarget
        simp only [Bool.and_eq_true] at hkept
        refine Or.inr ⟨?_, f, target, (hfiles f).mp (Path.listed_of_mem hf), himport, hparts⟩
        rw [Path.listed_eq_of_parts_eq hparts]
        exact hkept.1
    · rintro (h | ⟨hgenerated, f, target, hf, himport, hparts⟩)
      · exact Or.inl ((hfiles p).mpr h)
      · by_cases hlisted : p.listed files = true
        · exact Or.inl hlisted
        · -- the listed spelling of the importing file leads to it as well
          obtain ⟨q, hq, hsame⟩ := Path.listed_iff.mp ((hfiles f).mpr hf)
          have hthere := hfaithful q hq f hsame himport.1
          have htarget := (himports target).mpr ⟨q, hq, himport.of_parts_eq hsame hthere⟩
          refine Or.inr (Path.listed_iff.mpr ⟨target, List.mem_filter.mpr ⟨htarget, ?_⟩, hparts⟩)
          rw [Path.listed_eq_of_parts_eq hparts] at hgenerated hlisted
          simp [hgenerated, hlisted]

theorem setupFilesOf_spec (htree : tree.isReadable = true) (r : Recognizer)
    (hincludes : request.includes = none) :
    ∃ setupFiles, setupFilesOf tree request r = .ok setupFiles ∧
      (∀ f ∈ setupFiles, f.isInPackages = false) ∧
        ∀ p : Path, p.listed setupFiles = true ↔ IsSetupFile tree request r p := by
  obtain ⟨found, hfound, houtside⟩ :=
    SetupFiles.find_spec htree r request.projectDir request.config.allowsUntyped
  unfold setupFilesOf IsSetupFile
  simp only [hincludes, Option.isNone_none, Bool.true_and]
  split
  · rename_i htest
    refine ⟨found, hfound, houtside, fun p => ?_⟩
    simp only [htest, hfound, Except.ok.injEq, true_and, exists_eq_left']
  · rename_i htest
    refine ⟨[], rfl, by simp, fun p => ?_⟩
    simp [Path.listed, htest]

/-! ## The closure -/

/-- What is computed when no part has a setback. -/
theorem value_compute {host : ProgramHost} {program : List Path}
    (hprogram : host tree request.config request.roots request.limits = .ok program)
    {more : List Path} {limit : Option (LimitHit × Nat)}
    (hadded : added tree request (.ofConfig request.config) = .ok (more, limit))
    {files : List Path}
    (hfiles : files = Path.sortedUnique (request.roots.reverse ++ program ++ more ++ scan.ambient))
    {generated : List Path}
    (hgenerated :
      typeOnlyGenerated tree (.ofConfig request.config) files scan.generated = .ok generated)
    {setupFiles : List Path} (hsetup : setupFilesOf tree request r = .ok setupFiles) :
    (compute tree host request r scan).run.value =
      .ok (assembled request scan files generated setupFiles) := by
  subst hfiles
  exact value_compute_iff.mpr
    ⟨program, more, limit, generated, setupFiles, hprogram, hadded, hgenerated, hsetup, rfl⟩

/-- What is discovered when nothing is kept. -/
theorem value_discover {cache : ClosureCache} {host : ProgramHost}
    (hmiss : cache.get? request.key = none)
    (hr : Recognizer.ofHeuristics request.heuristics = .ok r)
    (hscan : ProjectScan.ofConfig tree request.config r = .ok scan) {closure : Closure}
    (hcompute : (compute tree host request r scan).run.value = .ok closure) :
    (cache.discover tree host request).value.1 = closure := by
  rw [ClosureCache.discover_of_miss hmiss ⟨hr, hscan⟩ hcompute]

/-- Discovery with the native host is exact: if the globs can be read, nothing is kept for the request,
a root that stands for a file is spelled as one, and following all imports hits no bound, then the
closure lists each of its places once in ascending order, and these are the places outside of installed
packages that can be reached over imports, that hold a declaration of the project, that hold a generated
file which types are imported from, or that hold a setup file of a test. -/
theorem discover_exact (htree : tree.isReadable = true) {cache : ClosureCache}
    (hincludes : request.includes = none) (hmiss : cache.get? request.key = none)
    (hheuristics : Recognizer.ofHeuristics request.heuristics = .ok r)
    (hsearched : ∃ filter,
      PathFilter.ofPatterns (ProjectScan.patterns request.config) = .ok filter)
    (hexcluded : ∃ filter, PathFilter.ofPatterns request.config.excludePatterns = .ok filter)
    (hroots : ∀ root ∈ request.roots, tree.IsFaithful root)
    (hlimit : ∀ walk, ImportWalk.ofRoots tree (.ofConfig request.config) request.roots
      request.limits (fun _ => true) = .ok walk → walk.limit = none) :
    ∃ scan closure, ProjectScan.ofConfig tree request.config r = .ok scan ∧
      (cache.discover tree .native request).value.1 = closure ∧ closure.discovered = true ∧
      closure.files.Pairwise Path.Precedes ∧
      (∀ p : Path, p.listed closure.files = true ↔ p.isInPackages = false ∧
        (IsFound tree request scan p ∨ IsTypeSource tree request scan p ∨
          IsSetupFile tree request r p)) ∧
      ∀ f ∈ closure.setupFiles, f.listed closure.files = true := by
  obtain ⟨scan, hscan⟩ := ProjectScan.exists_ofConfig tree r hsearched hexcluded
  obtain ⟨program, hprogram, hreached⟩ := native_spec htree hroots
  obtain ⟨more, hadded, hsound, hcomplete⟩ := added_spec htree hroots hincludes hlimit
  obtain ⟨hfaithful, hfiles⟩ := found_spec hroots
    (fun f hf => ProjectScan.isFaithful_of_mem_ambient hscan hf) hreached hsound hcomplete rfl
  obtain ⟨generated, hgenerated, htypes⟩ := typeOnlyGenerated_spec htree hfaithful hfiles
  obtain ⟨setupFiles, hsetup, houtside, hsetups⟩ := setupFilesOf_spec htree r hincludes
  have hcompute := value_compute hprogram hadded rfl hgenerated hsetup
  generalize Path.sortedUnique (request.roots.reverse ++ program ++ more ++ scan.ambient) = files at *
  have hlisted : ∀ p : Path,
      p.listed (assembled request scan files generated setupFiles).files = true ↔
        p.isInPackages = false ∧ (IsFound tree request scan p ∨ IsTypeSource tree request scan p ∨
          IsSetupFile tree request r p) := by
    intro p
    rw [assembled, Path.listed_filter_outside, Path.listed_sortedUnique, Path.listed_append,
      Path.listed_append, htypes, hsetups, or_assoc]
  refine ⟨scan, _, hscan, value_discover hmiss hheuristics hscan hcompute, rfl, ?_, hlisted, ?_⟩
  · exact (Path.pairwise_sortedUnique _).filter _
  · intro f hf
    exact (hlisted f).mpr ⟨houtside f hf, Or.inr (Or.inr ((hsetups f).mp (Path.listed_of_mem hf)))⟩

/-- A project with a test, a file that it imports and that imports it in turn, a declaration that takes a
type from a generated file, and a setup file. -/
def testedProject : FileTree :=
  ⟨[("p".toList, .dir [("tsconfig.json".toList, .file { content := .text "\x7b\x7d" }),
    ("a.test.ts".toList, .file { content := .text "import './b';" }),
    ("b.ts".toList, .file { content := .text "import './a.test';" }),
    ("env.d.ts".toList, .file { content := .text "import type T from './t.gen';" }),
    ("t.gen.ts".toList, .file { content := .text "import './c';" }),
    ("c.ts".toList, .file { content := .text "" }),
    ("setup.ts".toList, .file { content := .text "" })])]⟩

/-- A request for the test of that project. -/
def testedRequest : ClosureRequest where
  config := { configPath := ⟨"/p/tsconfig.json"⟩, chain := [⟨"/p/tsconfig.json"⟩] }
  roots := [⟨"/p/a.test.ts"⟩]
  projectDir := ⟨"/p"⟩
  heuristics := ⟨["*.test.ts"], ["setup.ts"], [], [".gen.ts"]⟩

theorem discover_exact_in_testedProject :
    ∃ r scan closure, Config.load testedProject ⟨"/p/tsconfig.json"⟩ = .ok testedRequest.config ∧
      Recognizer.ofHeuristics testedRequest.heuristics = .ok r ∧
      ProjectScan.ofConfig testedProject testedRequest.config r = .ok scan ∧
      (({} : ClosureCache).discover testedProject .native testedRequest).value.1 = closure ∧
      closure.discovered = true ∧ closure.files.Pairwise Path.Precedes ∧
      (∀ p : Path, p.listed closure.files = true ↔ p.isInPackages = false ∧
        (IsFound testedProject testedRequest scan p ∨
          IsTypeSource testedProject testedRequest scan p ∨
            IsSetupFile testedProject testedRequest r p)) ∧
      ∀ f ∈ closure.setupFiles, f.listed closure.files = true := by
  obtain ⟨r, hr, -⟩ := Fallible.exists_of_toOption
    (show (Recognizer.ofHeuristics testedRequest.heuristics).toOption.map (fun _ => ()) = some () by
      decide +kernel)
  obtain ⟨includes, hincludes, -⟩ := Fallible.exists_of_toOption
    (show (PathFilter.ofPatterns (ProjectScan.patterns testedRequest.config)).toOption.map
      (fun _ => ()) = some () by decide +kernel)
  obtain ⟨excludes, hexcludes, -⟩ := Fallible.exists_of_toOption
    (show (PathFilter.ofPatterns testedRequest.config.excludePatterns).toOption.map
      (fun _ => ()) = some () by decide +kernel)
  obtain ⟨walk, hwalk, hlimit⟩ := Fallible.exists_of_toOption
    (show (ImportWalk.ofRoots testedProject (.ofConfig testedRequest.config) testedRequest.roots
      testedRequest.limits fun _ => true).toOption.map (·.limit) = some none by decide +kernel)
  have hnone : ∀ other, ImportWalk.ofRoots testedProject (.ofConfig testedRequest.config)
      testedRequest.roots testedRequest.limits (fun _ => true) = .ok other → other.limit = none := by
    intro other hother
    rw [hwalk] at hother
    exact Except.ok.inj hother ▸ hlimit
  have hfaithful : ∀ root ∈ testedRequest.roots, testedProject.IsFaithful root := by
    intro root hroot
    rw [List.mem_singleton.mp hroot]
    exact FileTree.isFaithful_of_isFile (by decide +kernel)
  obtain ⟨scan, closure, hclosure⟩ := discover_exact (by decide +kernel) rfl
    (show ClosureCache.get? {} testedRequest.key = none from rfl) hr ⟨includes, hincludes⟩
    ⟨excludes, hexcludes⟩ hfaithful hnone
  exact ⟨r, scan, closure, by with_unfolding_all rfl, hr, hclosure⟩

/-- A project with a file that imports another one. -/
def importingProject : FileTree :=
  ⟨[("p".toList, .dir [("tsconfig.json".toList, .file { content := .text "\x7b\x7d" }),
    ("a.ts".toList, .file { content := .text "import './b';" }),
    ("b.ts".toList, .file { content := .text "" })])]⟩

/-- A request for the importing file of that project, which is spelled in two ways. -/
def slashedRequest : ClosureRequest where
  config := { configPath := ⟨"/p/tsconfig.json"⟩, chain := [⟨"/p/tsconfig.json"⟩] }
  roots := [⟨"/p/a.ts/"⟩, ⟨"/p/a.ts"⟩]
  projectDir := ⟨"/p"⟩
  heuristics := ⟨[], [], [], []⟩

theorem imports_in_importingProject :
    ImportWalk.Imports importingProject (.ofConfig slashedRequest.config) (fun _ => true) ⟨"/p/a.ts"⟩
      ⟨"/p/b.ts"⟩ := by
  obtain ⟨text, htext, himport⟩ := Fallible.exists_of_toOption
    (show (importingProject.readText ⟨"/p/a.ts"⟩).toOption.map (fun text =>
        (Import.scan text).any fun i => ((Import.Resolver.ofConfig slashedRequest.config).resolve
          importingProject ⟨"/p/a.ts"⟩ i.specifier).file? == some ⟨"/p/b.ts"⟩) = some true by
      decide +kernel)
  obtain ⟨i, hi, htarget⟩ := List.any_eq_true.mp himport
  exact ⟨by decide +kernel, text, htext, i, hi, rfl, beq_iff_eq.mp htarget⟩

/-- A root that is spelled with a slash behind it stands in the place of the same root without one. The
slash makes it no file, so that its imports are lost. -/
theorem slashed_root_loses_import :
    ∃ r scan closure,
      Config.load importingProject ⟨"/p/tsconfig.json"⟩ = .ok slashedRequest.config ∧
      importingProject.isReadable = true ∧
      (∀ walk, ImportWalk.ofRoots importingProject (.ofConfig slashedRequest.config)
        slashedRequest.roots slashedRequest.limits (fun _ => true) = .ok walk → walk.limit = none) ∧
      Recognizer.ofHeuristics slashedRequest.heuristics = .ok r ∧
      ProjectScan.ofConfig importingProject slashedRequest.config r = .ok scan ∧
      (({} : ClosureCache).discover importingProject .native slashedRequest).value.1 = closure ∧
      IsReached importingProject slashedRequest ⟨"/p/b.ts"⟩ ∧
      (⟨"/p/b.ts"⟩ : Path).isInPackages = false ∧
      ¬(⟨"/p/b.ts"⟩ : Path).listed closure.files = true := by
  obtain ⟨r, hr, hrecognizer⟩ := Fallible.exists_of_toOption
    (show (Recognizer.ofHeuristics slashedRequest.heuristics).toOption.map (fun r =>
        (slashedRequest.roots.any (r.isTest ⟨"/p"⟩),
          (ProjectScan.ofConfig importingProject slashedRequest.config r).toOption.map fun scan =>
            (scan.ambient, scan.generated))) = some (false, some ([], [])) by
      decide +kernel)
  obtain ⟨htest, hscanned⟩ := Prod.mk.inj hrecognizer
  obtain ⟨scan, hscan, hempty⟩ := Fallible.exists_of_toOption hscanned
  obtain ⟨hambient, hgenerated⟩ := Prod.mk.inj hempty
  obtain ⟨native, hnative, htaken⟩ := Fallible.exists_of_toOption
    (show (ImportWalk.ofRoots importingProject (.ofConfig slashedRequest.config) slashedRequest.roots
      slashedRequest.limits Import.Kind.followedByCompiler).toOption.map (·.taken) =
        some [⟨"/p/a.ts/"⟩] by decide +kernel)
  obtain ⟨walk, hwalk, hwalked⟩ := Fallible.exists_of_toOption
    (show (ImportWalk.ofRoots importingProject (.ofConfig slashedRequest.config) slashedRequest.roots
      slashedRequest.limits fun _ => true).toOption.map (fun walk => (walk.taken, walk.limit)) =
        some ([⟨"/p/a.ts/"⟩], none) by decide +kernel)
  obtain ⟨htaken', hlimit⟩ := Prod.mk.inj hwalked
  have hcompute := value_compute (show ProgramHost.native importingProject slashedRequest.config
      slashedRequest.roots slashedRequest.limits = .ok native.files by
        simp only [ProgramHost.native, hnative]; rfl)
    (show added importingProject slashedRequest (.ofConfig slashedRequest.config) =
      .ok (walk.files, none) by
        simp only [added, slashedRequest] at hwalk ⊢
        simp only [hwalk, bind, Except.bind, hlimit]; rfl) rfl
    (show typeOnlyGenerated importingProject _ _ scan.generated = .ok [] by
      simp [typeOnlyGenerated, hgenerated])
    (show setupFilesOf importingProject slashedRequest r = .ok [] by
      simp only [setupFilesOf, slashedRequest] at htest ⊢
      simp [htest])
  refine ⟨r, scan, _, by with_unfolding_all rfl, by decide +kernel, ?_, hr, hscan,
    value_discover rfl hr hscan hcompute, ?_, by decide +kernel, ?_⟩
  · intro other hother
    rw [hwalk] at hother
    exact Except.ok.inj hother ▸ hlimit
  · have hroot : (⟨"/p/a.ts"⟩ : Path) ∈ slashedRequest.roots := by simp [slashedRequest]
    exact ⟨_, .import (.root hroot) imports_in_importingProject, rfl⟩
  · rw [assembled, Path.listed_filter_outside, Path.listed_sortedUnique, Path.listed_append,
      Path.listed_append, Path.listed_sortedUnique]
    rintro ⟨-, (h | h) | h⟩
    · obtain ⟨q, hq, hparts⟩ := Path.listed_iff.mp h
      simp only [slashedRequest, ImportWalk.files, hambient, htaken, htaken', List.mem_append,
        List.mem_reverse, Path.mem_sorted, List.mem_cons, List.not_mem_nil, or_false] at hq
      have hspelled : q = ⟨"/p/a.ts/"⟩ ∨ q = ⟨"/p/a.ts"⟩ := by tauto
      rcases hspelled with rfl | rfl
      · exact absurd hparts (by decide +kernel)
      · exact absurd hparts (by decide +kernel)
    · simp [Path.listed] at h
    · simp [Path.listed] at h

end Closure

end ScopedCheck
