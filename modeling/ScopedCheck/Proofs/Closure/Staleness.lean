import Mathlib.Data.List.Basic
import ScopedCheck.Proofs.Closure.Exactness
import ScopedCheck.Proofs.FileTree.Canonical
import ScopedCheck.Proofs.FileTree.Growth
/-! # Closures in growing trees

A kept closure is used again as long as its config and its files have the times of then and the number of
declarations is the same. A file that is created changes none of this unless it is one of them, so that the
closure is used again even where a fresh one would differ. It cannot differ as long as nothing that a
discovery looks up has changed. -/

namespace ScopedCheck

/-! ## What stays in a grown tree -/

namespace FileTree

variable {tree grown : FileTree}

/-- A path that led nowhere leads to something in the grown tree. -/
def IsNewIn (tree grown : FileTree) (path : Path) : Prop :=
  tree.modified? path = none ∧ grown.modified? path ≠ none

theorem Grows.modified?_eq_iff (h : tree.Grows grown) (path : Path) :
    tree.modified? path = grown.modified? path ↔ ¬tree.IsNewIn grown path := by
  unfold IsNewIn
  cases htime : tree.modified? path with
  | none => simp [eq_comm]
  | some time => simp [h.modified? htime]

theorem times_eq_iff {files : List Path} :
    tree.times files = grown.times files ↔ ∀ f ∈ files, tree.modified? f = grown.modified? f := by
  simp [times, List.map_inj_left]

theorem Grows.times_eq_iff (h : tree.Grows grown) {files : List Path} :
    tree.times files = grown.times files ↔ ∀ f ∈ files, ¬tree.IsNewIn grown f := by
  simp [FileTree.times_eq_iff, h.modified?_eq_iff]

/-- A file that was there is read as before. -/
theorem Grows.readText (h : tree.Grows grown) {path : Path} (hfile : tree.isFile path = true) :
    grown.isFile path = true ∧ grown.readText path = tree.readText path := by
  obtain ⟨file, hnode⟩ := isFile_iff.mp hfile
  obtain ⟨other, hother, hstays⟩ := h.node hnode
  obtain rfl : other = .file file := hstays
  exact ⟨isFile_iff.mpr ⟨file, hother⟩, by rw [FileTree.readText, FileTree.readText, hnode, hother]⟩

end FileTree

/-- What imports lead to stays, if the importing file was not created and its specifiers still stand for
the same. -/
theorem ImportWalk.targetsOf_eq_of_grows {tree grown : FileTree} (hgrows : tree.Grows grown)
    (resolver : Import.Resolver) (follows : Import.Kind → Bool) {file : Path}
    (hthere : grown.isFile file = true → tree.isFile file = true)
    (himports : ∀ text, tree.readText file = .ok text → ∀ i ∈ Import.scan text,
      (resolver.resolve grown file i.specifier).file? = (resolver.resolve tree file i.specifier).file?) :
    targetsOf grown resolver follows file = targetsOf tree resolver follows file := by
  by_cases hfile : tree.isFile file = true
  · obtain ⟨hgrown, hsame⟩ := hgrows.readText hfile
    cases htext : tree.readText file with
    | error fault =>
        rw [targetsOf_of_unreadable hgrown (hsame.trans htext), targetsOf_of_unreadable hfile htext]
    | ok text =>
        rw [targetsOf_of_readText hgrown (hsame.trans htext), targetsOf_of_readText hfile htext,
          List.filterMap_congr fun i hi => himports text htext i (List.mem_of_mem_filter hi)]
  · have hgrown : grown.isFile file ≠ true := fun h => hfile (hthere h)
    rw [targetsOf, targetsOf, if_neg hgrown, if_neg hfile]

namespace ClosureRequest

open Closure

variable {request : ClosureRequest} {tree grown : FileTree} {host : ProgramHost}

/-- The closure of a request in a second tree, after it was asked for in a first one and nothing else was. -/
def again (request : ClosureRequest) (tree grown : FileTree) (host : ProgramHost) : Closure :=
  ((({} : ClosureCache).discover tree host request).value.2.discover grown host request).value.1

/-! ## Closures that are used again -/

/-- Whether nothing that a kept closure is compared by has changed: it was discovered, the number of
declarations is the same, and neither a document of its config nor one of its files is new. -/
structure StaysKept (request : ClosureRequest) (tree grown : FileTree) (host : ProgramHost) : Prop where
  discovered : (request.fresh tree host).discovered = true
  counted : ∃ r scan, request.IsScanned grown r scan ∧
    scan.ambient.length = (request.fresh tree host).ambientCount
  known : ∀ path ∈ request.config.chain ++ (request.fresh tree host).files, ¬tree.IsNewIn grown path

theorem stamp_eq_iff {config : Config} :
    ConfigStamp.ofConfig tree config = ConfigStamp.ofConfig grown config ↔
      tree.times config.chain = grown.times config.chain := by
  simp [ConfigStamp.ofConfig]

/-- A closure that was discovered is the only one that is kept. -/
theorem kept_of_discovered (h : (request.fresh tree host).discovered = true) :
    (({} : ClosureCache).discover tree host request).value.2 =
      ({} : ClosureCache).store tree request.key (.ofConfig tree request.config)
        (request.fresh tree host) := by
  obtain ⟨r, scan, hscan, hcompute⟩ := discovered_fresh_iff.mp h
  rw [ClosureCache.discover_of_miss rfl hscan hcompute]

theorem kept_of_not_discovered (h : (request.fresh tree host).discovered ≠ true) :
    (({} : ClosureCache).discover tree host request).value.2 = {} := by
  have hfound := ClosureCache.discovers {} tree host request
  rw [fresh] at h
  generalize (({} : ClosureCache).discover tree host request).value = found at h hfound
  cases hfound with
  | again hscan hhit => exact absurd hhit (answer_empty _ _)
  | anew hscan hkept hcompute =>
      obtain ⟨_, _, _, _, _, -, -, -, -, rfl⟩ := value_compute_iff.mp hcompute
      exact absurd rfl h
  | unscanned => rfl
  | lost => rfl

/-- The kept closure is used again in a grown tree just as long as it stays. -/
theorem answer_eq_hit_iff (hgrows : tree.Grows grown) {r : Recognizer} {scan : ProjectScan}
    (hscan : request.IsScanned grown r scan) {kept : Closure} :
    (({} : ClosureCache).discover tree host request).value.2.answer grown request scan = .hit kept ↔
      kept = request.fresh tree host ∧ request.StaysKept tree grown host := by
  by_cases hdiscovered : (request.fresh tree host).discovered = true
  · rw [kept_of_discovered hdiscovered, ClosureCache.answer, ClosureCache.lookup_eq_hit_iff]
    simp only [ClosureCache.get?_store, if_true, Option.some.injEq, exists_eq_left', stamp_eq_iff,
      hgrows.times_eq_iff]
    constructor
    · rintro ⟨rfl, hchain, hcount, hfiles⟩
      exact ⟨rfl, hdiscovered, ⟨r, scan, hscan, hcount.symm⟩,
        List.forall_mem_append.mpr ⟨hchain, hgrows.times_eq_iff.mp hfiles⟩⟩
    · rintro ⟨rfl, -, ⟨_, _, hscan', hcount⟩, hknown⟩
      obtain ⟨-, rfl⟩ := hscan.unique hscan'
      obtain ⟨hchain, hfiles⟩ := List.forall_mem_append.mp hknown
      exact ⟨rfl, hchain, hcount.symm, hgrows.times_eq_iff.mpr hfiles⟩
  · rw [kept_of_not_discovered hdiscovered]
    constructor
    · exact fun h => absurd h (answer_empty scan kept)
    · exact fun h => absurd h.2.discovered hdiscovered

theorem again_of_staysKept (hgrows : tree.Grows grown) (h : request.StaysKept tree grown host) :
    request.again tree grown host = request.fresh tree host := by
  obtain ⟨r, scan, hscan, -⟩ := h.counted
  rw [again, ClosureCache.discover_of_hit hscan ((answer_eq_hit_iff hgrows hscan).mpr ⟨rfl, h⟩)]

theorem again_of_not_staysKept (hgrows : tree.Grows grown) (h : ¬request.StaysKept tree grown host) :
    request.again tree grown host = request.fresh grown host :=
  value_eq_fresh fun _ _ _ hscan hhit => h ((answer_eq_hit_iff hgrows hscan).mp hhit).2

/-! ## Discoveries that look up the same -/

/-- A file that a discovery reads for its imports. -/
inductive Reads (request : ClosureRequest) (tree : FileTree) (host : ProgramHost) : Path → Prop
  | reached {file : Path} (h : ImportWalk.Reaches tree (.ofConfig request.config) (fun _ => true)
      request.roots file) : Reads request tree host file
  | program {program : List Path} {file : Path}
      (hprogram : host tree request.config request.roots request.limits = .ok program)
      (h : file ∈ program) : Reads request tree host file
  | chosen {includes : List Path} {file : Path} (hincludes : request.includes = some includes)
      (h : file ∈ includes.map Path.normalize) : Reads request tree host file
  | ambient {r : Recognizer} {scan : ProjectScan} {file : Path}
      (hscan : request.IsScanned tree r scan) (h : file ∈ scan.ambient) : Reads request tree host file

/-- Whether a discovery looks up the same in two trees: the scan of the project, the host and the search
for setup files find the same, the files that are read are there in both or in none, and the specifiers
in them stand for the same files. -/
structure SeesAlike (request : ClosureRequest) (tree other : FileTree) (host : ProgramHost) : Prop where
  scan : ∀ r, Recognizer.ofHeuristics request.heuristics = .ok r →
    ProjectScan.ofConfig other request.config r = ProjectScan.ofConfig tree request.config r
  program : host other request.config request.roots request.limits =
    host tree request.config request.roots request.limits
  setupFiles : ∀ r, Recognizer.ofHeuristics request.heuristics = .ok r →
    setupFilesOf other request r = setupFilesOf tree request r
  there : ∀ file, request.Reads tree host file → other.isFile file = true → tree.isFile file = true
  imports : ∀ file, request.Reads tree host file → ∀ text, tree.readText file = .ok text →
    ∀ i ∈ Import.scan text,
      ((Import.Resolver.ofConfig request.config).resolve other file i.specifier).file? =
        ((Import.Resolver.ofConfig request.config).resolve tree file i.specifier).file?

theorem SeesAlike.targetsOf_eq (hgrows : tree.Grows grown) (h : request.SeesAlike tree grown host)
    (follows : Import.Kind → Bool) {file : Path} (hfile : request.Reads tree host file) :
    ImportWalk.targetsOf grown (.ofConfig request.config) follows file =
      ImportWalk.targetsOf tree (.ofConfig request.config) follows file :=
  ImportWalk.targetsOf_eq_of_grows hgrows _ follows (h.there file hfile) (h.imports file hfile)

theorem SeesAlike.added_eq (hgrows : tree.Grows grown) (h : request.SeesAlike tree grown host) :
    added grown request (.ofConfig request.config) = added tree request (.ofConfig request.config) := by
  unfold added
  rw [ImportWalk.ofRoots_congr request.limits fun f hf => h.targetsOf_eq hgrows _ (.reached hf)]

/-- What is found first is read. -/
theorem reads_of_mem {r : Recognizer} {scan : ProjectScan} (hscan : request.IsScanned tree r scan)
    {program more : List Path} {limit : Option (LimitHit × Nat)}
    (hprogram : host tree request.config request.roots request.limits = .ok program)
    (hadded : added tree request (.ofConfig request.config) = .ok (more, limit)) {file : Path}
    (hfile : file ∈ Path.sortedUnique (request.roots.reverse ++ program ++ more ++ scan.ambient)) :
    request.Reads tree host file := by
  have hmem := Path.mem_of_mem_sortedUnique hfile
  simp only [List.mem_append, List.mem_reverse] at hmem
  rcases hmem with ((hroot | hmem) | hmem) | hmem
  · exact .reached (.root hroot)
  · exact .program hprogram hmem
  · unfold added at hadded
    cases hincludes : request.includes with
    | some includes =>
        rw [hincludes] at hadded
        obtain ⟨rfl, -⟩ := Prod.mk.inj (Except.ok.inj hadded)
        exact .chosen hincludes hmem
    | none =>
        rw [hincludes] at hadded
        obtain ⟨walk, hwalk, hpure⟩ := Fallible.bind_eq_ok_iff.mp hadded
        obtain ⟨rfl, -⟩ := Prod.mk.inj (Except.ok.inj hpure)
        exact .reached (ImportWalk.reaches_of_ofRoots hwalk file (Path.mem_sorted.mp hmem))
  · exact .ambient hscan hmem

theorem SeesAlike.typeOnlyGenerated_eq (hgrows : tree.Grows grown)
    (h : request.SeesAlike tree grown host) {files : List Path}
    (hfiles : ∀ f ∈ files, request.Reads tree host f) (generated : List Path) :
    typeOnlyGenerated grown (.ofConfig request.config) files generated =
      typeOnlyGenerated tree (.ofConfig request.config) files generated := by
  unfold typeOnlyGenerated
  rw [Fallible.mapM_congr fun f hf => h.targetsOf_eq hgrows (· == .typeOnly) (hfiles f hf)]

theorem SeesAlike.compute_iff (hgrows : tree.Grows grown) (h : request.SeesAlike tree grown host)
    {r : Recognizer} {scan : ProjectScan} (hscan : request.IsScanned tree r scan) {closure : Closure} :
    (compute grown host request r scan).run.value = .ok closure ↔
      (compute tree host request r scan).run.value = .ok closure := by
  rw [value_compute_iff, value_compute_iff, h.program, h.added_eq hgrows, h.setupFiles r hscan.recognizer]
  constructor
  · rintro ⟨program, more, limit, generated, setupFiles, hprogram, hadded, hgenerated, hrest⟩
    rw [h.typeOnlyGenerated_eq hgrows fun f => reads_of_mem hscan hprogram hadded] at hgenerated
    exact ⟨program, more, limit, generated, setupFiles, hprogram, hadded, hgenerated, hrest⟩
  · rintro ⟨program, more, limit, generated, setupFiles, hprogram, hadded, hgenerated, hrest⟩
    rw [← h.typeOnlyGenerated_eq hgrows fun f => reads_of_mem hscan hprogram hadded] at hgenerated
    exact ⟨program, more, limit, generated, setupFiles, hprogram, hadded, hgenerated, hrest⟩

/-- A fresh discovery that looks up the same comes to the same. -/
theorem SeesAlike.fresh_eq (hgrows : tree.Grows grown) (h : request.SeesAlike tree grown host) :
    request.fresh grown host = request.fresh tree host := by
  have hscanned : ∀ r scan, request.IsScanned grown r scan ↔ request.IsScanned tree r scan := by
    intro r scan
    constructor
    · exact fun hscan => ⟨hscan.recognizer, h.scan r hscan.recognizer ▸ hscan.scan⟩
    · exact fun hscan => ⟨hscan.recognizer, (h.scan r hscan.recognizer).trans hscan.scan⟩
  by_cases hscan : ∃ r scan, request.IsScanned tree r scan
  · obtain ⟨r, scan, hscan⟩ := hscan
    rw [fresh_of_isScanned hscan, fresh_of_isScanned ((hscanned r scan).mpr hscan)]
    congr 1
    exact Option.ext fun closure => by
      rw [Fallible.toOption_eq_some_iff, Fallible.toOption_eq_some_iff, h.compute_iff hgrows hscan]
  · have hnone : ∀ r scan, ¬request.IsScanned tree r scan := fun r scan h => hscan ⟨r, scan, h⟩
    rw [fresh, fresh, ClosureCache.value_of_not_isScanned hnone,
      ClosureCache.value_of_not_isScanned fun r scan h => hnone r scan ((hscanned r scan).mp h)]

/-- A request that is made again when files were created and nothing else has changed gives what was
discovered before if that stays kept, and otherwise what a fresh discovery gives. It gives this in any case
if the discovery looks up the same as before. The roots are taken to be files: where a root is a directory,
a file that is created in it changes its time, and what was discovered does not stay kept. -/
theorem again_in_grown_tree (hgrows : tree.Grows grown) :
    (request.StaysKept tree grown host →
      request.again tree grown host = request.fresh tree host) ∧
    (¬request.StaysKept tree grown host →
      request.again tree grown host = request.fresh grown host) ∧
    (request.SeesAlike tree grown host →
      request.again tree grown host = request.fresh grown host) := by
  refine ⟨again_of_staysKept hgrows, again_of_not_staysKept hgrows, fun halike => ?_⟩
  by_cases hkept : request.StaysKept tree grown host
  · rw [again_of_staysKept hgrows hkept, halike.fresh_eq hgrows]
  · exact again_of_not_staysKept hgrows hkept

/-- A project with a file that imports one that is not there. -/
def danglingProject : FileTree :=
  ⟨[("p".toList, .dir [FileTree.textEntry "tsconfig.json" "\x7b\x7d",
    FileTree.textEntry "a.ts" "import './b';"])]⟩

/-- That project with one more file, which has nothing to do with the import. -/
def besideProject : FileTree :=
  ⟨[("p".toList, .dir [FileTree.textEntry "tsconfig.json" "\x7b\x7d",
    FileTree.textEntry "a.ts" "import './b';", FileTree.textEntry "c.ts" ""])]⟩

/-- A request for the importing file. -/
def danglingRequest : ClosureRequest where
  config := { configPath := ⟨"/p/tsconfig.json"⟩, chain := [⟨"/p/tsconfig.json"⟩] }
  roots := [⟨"/p/a.ts"⟩]
  projectDir := ⟨"/p"⟩
  heuristics := ⟨[], [], [], []⟩

theorem fresh_danglingProject :
    ∃ r, danglingRequest.IsScanned danglingProject r {} ∧
      danglingRequest.roots.any (r.isTest danglingRequest.projectDir) = false ∧
      danglingRequest.fresh danglingProject .native = assembled danglingRequest {} (Path.sortedUnique
        ([⟨"/p/a.ts"⟩] ++ Path.sorted [⟨"/p/a.ts"⟩] ++ Path.sorted [⟨"/p/a.ts"⟩])) [] [] :=
  fresh_of_walks rfl (by decide +kernel) (by decide +kernel) (by decide +kernel)

/-- The closure stays kept in every grown project in which the scan still finds nothing. -/
theorem staysKept_danglingProject {r : Recognizer} {grown : FileTree}
    (hscan : danglingRequest.IsScanned grown r {}) :
    danglingRequest.StaysKept danglingProject grown .native := by
  obtain ⟨-, -, -, hfresh⟩ := fresh_danglingProject
  refine ⟨by rw [hfresh]; rfl, ⟨r, {}, hscan, by rw [hfresh]; rfl⟩, ?_⟩
  have hpaths : ∀ path ∈ danglingRequest.config.chain ++
      (danglingRequest.fresh danglingProject .native).files,
        path = ⟨"/p/tsconfig.json"⟩ ∨ path = ⟨"/p/a.ts"⟩ := by
    intro path hpath
    rw [hfresh] at hpath
    rcases List.mem_append.mp hpath with hchain | hfile
    · exact Or.inl (List.mem_singleton.mp hchain)
    · have hmem := Path.mem_of_mem_sortedUnique (List.mem_filter.mp hfile).1
      rw [List.append_nil, List.append_nil] at hmem
      have hmem := Path.mem_of_mem_sortedUnique hmem
      simp only [List.mem_append, Path.mem_sorted, List.mem_singleton, or_self] at hmem
      exact Or.inr hmem
  have hthere : (danglingProject.modified? ⟨"/p/tsconfig.json"⟩,
      danglingProject.modified? ⟨"/p/a.ts"⟩) = (some 0, some 0) := by
    decide +kernel
  obtain ⟨hconfig, hfile⟩ := Prod.mk.inj hthere
  rintro path hpath ⟨hnew, -⟩
  rcases hpaths path hpath with rfl | rfl
  · rw [hconfig] at hnew
    cases hnew
  · rw [hfile] at hnew
    cases hnew

/-- The import of the importing file leads nowhere, in either project. -/
theorem leads_nowhere_in_danglingProject :
    ∃ text, danglingProject.readText ⟨"/p/a.ts"⟩ = .ok text ∧ ∀ i ∈ Import.scan text,
      ((Import.Resolver.ofConfig danglingRequest.config).resolve danglingProject ⟨"/p/a.ts"⟩
        i.specifier).file? = none ∧
      ((Import.Resolver.ofConfig danglingRequest.config).resolve besideProject ⟨"/p/a.ts"⟩
        i.specifier).file? = none := by
  obtain ⟨text, htext, hnowhere⟩ := Fallible.exists_of_toOption
    (show (danglingProject.readText ⟨"/p/a.ts"⟩).toOption.map (fun text =>
        (Import.scan text).all fun i =>
          ((Import.Resolver.ofConfig danglingRequest.config).resolve danglingProject ⟨"/p/a.ts"⟩
            i.specifier).file? == none &&
          ((Import.Resolver.ofConfig danglingRequest.config).resolve besideProject ⟨"/p/a.ts"⟩
            i.specifier).file? == none) = some true by decide +kernel)
  simp only [List.all_eq_true, Bool.and_eq_true, beq_iff_eq] at hnowhere
  exact ⟨text, htext, hnowhere⟩

/-- The native program in a project in which the importing file leads nowhere. -/
theorem native_of_dangling (tree : FileTree)
    (h : (ImportWalk.ofRoots tree (.ofConfig danglingRequest.config) danglingRequest.roots
      danglingRequest.limits Import.Kind.followedByCompiler).toOption.map (·.taken) =
        some [⟨"/p/a.ts"⟩]) :
    ProgramHost.native tree danglingRequest.config danglingRequest.roots danglingRequest.limits =
      .ok (Path.sorted [⟨"/p/a.ts"⟩]) := by
  obtain ⟨walk, hwalk, htaken⟩ := Fallible.exists_of_toOption h
  rw [native_of_ofRoots hwalk, ImportWalk.files, htaken]

/-- Only the importing file is read. -/
theorem eq_of_reads_danglingProject {file : Path}
    (h : danglingRequest.Reads danglingProject .native file) : file = ⟨"/p/a.ts"⟩ := by
  rcases h with hreached | ⟨hfound, hfile⟩ | ⟨hincludes, -⟩ | ⟨hscanned, hfile⟩
  · obtain ⟨text, htext, hnowhere⟩ := leads_nowhere_in_danglingProject
    induction hreached with
    | root hroot => exact List.mem_singleton.mp hroot
    | «import» _ himport ih =>
        obtain ⟨-, source, hsource, i, hi, -, htarget⟩ := himport
        subst ih
        obtain rfl := Except.ok.inj (htext.symm.trans hsource)
        rw [(hnowhere i hi).1] at htarget
        cases htarget
  · have hprogram := native_of_dangling danglingProject (by decide +kernel)
    obtain rfl := Except.ok.inj (hprogram.symm.trans hfound)
    exact List.mem_singleton.mp (Path.mem_sorted.mp hfile)
  · cases hincludes
  · obtain ⟨r, hscan, -⟩ := fresh_danglingProject
    obtain ⟨-, rfl⟩ := hscan.unique hscanned
    cases hfile

/-- Both projects are walked alike, and their importing file leads nowhere. -/
theorem seesAlike_besideProject :
    danglingRequest.SeesAlike danglingProject besideProject .native := by
  obtain ⟨r, hscan, htest, -⟩ := fresh_danglingProject
  obtain ⟨beside, hbeside, -⟩ : ∃ beside, danglingRequest.IsScanned besideProject beside {} ∧
      danglingRequest.roots.any (beside.isTest danglingRequest.projectDir) = false ∧
      danglingRequest.fresh besideProject .native = assembled danglingRequest {} (Path.sortedUnique
        ([⟨"/p/a.ts"⟩] ++ Path.sorted [⟨"/p/a.ts"⟩] ++ Path.sorted [⟨"/p/a.ts"⟩])) [] [] :=
    fresh_of_walks rfl (by decide +kernel) (by decide +kernel) (by decide +kernel)
  refine ⟨fun found hfound => ?_, ?_, fun found hfound => ?_, fun file hfile _ => ?_, ?_⟩
  · obtain rfl := Except.ok.inj (hscan.recognizer.symm.trans hfound)
    obtain rfl := Except.ok.inj (hbeside.recognizer.symm.trans hfound)
    rw [hscan.scan, hbeside.scan]
  · exact (native_of_dangling besideProject (by decide +kernel)).trans
      (native_of_dangling danglingProject (by decide +kernel)).symm
  · obtain rfl := Except.ok.inj (hscan.recognizer.symm.trans hfound)
    simp only [setupFilesOf, htest, Bool.and_false]
    rfl
  · rw [eq_of_reads_danglingProject hfile]
    decide +kernel
  · intro file hfile source hsource i hi
    obtain ⟨text, htext, hnowhere⟩ := leads_nowhere_in_danglingProject
    obtain rfl := eq_of_reads_danglingProject hfile
    obtain rfl := Except.ok.inj (htext.symm.trans hsource)
    rw [(hnowhere i hi).1, (hnowhere i hi).2]

theorem again_in_besideProject :
    danglingProject.createFile ⟨"/p/c.ts"⟩ { content := .text "" } = .ok besideProject ∧
      danglingProject.Grows besideProject ∧
      danglingRequest.StaysKept danglingProject besideProject .native ∧
      danglingRequest.SeesAlike danglingProject besideProject .native ∧
      danglingRequest.again danglingProject besideProject .native =
        danglingRequest.fresh besideProject .native := by
  have hcreate : danglingProject.createFile ⟨"/p/c.ts"⟩ { content := .text "" } =
      .ok besideProject := by
    with_unfolding_all rfl
  have hgrows := (FileTree.createFile_spec hcreate).1
  obtain ⟨r, hscan, -⟩ := fresh_danglingProject
  have hbeside : danglingRequest.IsScanned besideProject r {} :=
    ⟨hscan.recognizer, (seesAlike_besideProject.scan r hscan.recognizer).trans hscan.scan⟩
  obtain ⟨-, -, halike⟩ := again_in_grown_tree hgrows
  exact ⟨hcreate, hgrows, staysKept_danglingProject hbeside, seesAlike_besideProject,
    halike seesAlike_besideProject⟩

/-- When the imported file is created, the import that leads to it now is missed. -/
theorem created_import_is_missed :
    danglingProject.createFile ⟨"/p/b.ts"⟩ { content := .text "" } = .ok importingProject ∧
      Config.load danglingProject ⟨"/p/tsconfig.json"⟩ = .ok danglingRequest.config ∧
      (⟨"/p/b.ts"⟩ : Path).listed (danglingRequest.fresh importingProject .native).files = true ∧
      (⟨"/p/b.ts"⟩ : Path).listed (danglingRequest.again danglingProject importingProject .native).files =
        false := by
  have hcreate : danglingProject.createFile ⟨"/p/b.ts"⟩ { content := .text "" } =
      .ok importingProject := by
    with_unfolding_all rfl
  obtain ⟨r, hscan, -, hfresh⟩ : ∃ r, danglingRequest.IsScanned importingProject r {} ∧
      danglingRequest.roots.any (r.isTest danglingRequest.projectDir) = false ∧
      danglingRequest.fresh importingProject .native = assembled danglingRequest {} (Path.sortedUnique
        ([⟨"/p/a.ts"⟩] ++ Path.sorted [⟨"/p/a.ts"⟩, ⟨"/p/b.ts"⟩] ++
          Path.sorted [⟨"/p/a.ts"⟩, ⟨"/p/b.ts"⟩])) [] [] :=
    fresh_of_walks rfl (by decide +kernel) (by decide +kernel) (by decide +kernel)
  obtain ⟨-, -, -, hkept⟩ := fresh_danglingProject
  refine ⟨hcreate, by with_unfolding_all rfl, ?_, ?_⟩
  · rw [hfresh, assembled, Path.listed_filter_outside, List.append_nil, List.append_nil,
      Path.listed_sortedUnique, Path.listed_sortedUnique]
    exact ⟨by decide +kernel, Path.listed_of_mem (by simp [Path.mem_sorted])⟩
  · rw [again_of_staysKept (FileTree.createFile_spec hcreate).1 (staysKept_danglingProject hscan), hkept]
    rw [Bool.eq_false_iff, assembled, ne_eq, Path.listed_filter_outside, List.append_nil, List.append_nil,
      Path.listed_sortedUnique, Path.listed_sortedUnique]
    rintro ⟨-, h⟩
    obtain ⟨q, hq, hparts⟩ := Path.listed_iff.mp h
    simp only [List.mem_append, Path.mem_sorted, List.mem_singleton, or_self] at hq
    subst hq
    exact absurd hparts (by decide +kernel)

end ClosureRequest

end ScopedCheck
