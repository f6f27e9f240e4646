import ScopedCheck.Proofs.Closure.Invalidation
import ScopedCheck.Proofs.Closure.Limits
/-! # Discoveries that fail

A discovery reads globs, asks the host and reads sources. It has a setback just when one of these steps
fails, and then it gives the fallback and leaves no trace: what is kept stays as it is, so that later
calls get what they would get without it. -/

namespace ScopedCheck

open Fallible (Fails fails_bind_iff fails_bind_pure_iff fails_mapM_iff not_fails_iff not_fails_of_ok bind_eq_ok_iff
  mapError_eq_ok_iff)
open Relation (ReflTransGen)

variable {tree : FileTree} {host : ProgramHost} {request : ClosureRequest} {cache : ClosureCache}
  {r : Recognizer} {scan : ProjectScan}

/-- Whether a file is there but cannot be read as a text. -/
def FileTree.IsUnreadable (tree : FileTree) (path : Path) : Prop :=
  tree.isFile path = true ∧ Fails (tree.readText path)

namespace ImportWalk

variable {targets : Path → Except Setback (List Path)} {limits : Limits} {walk : ImportWalk}
  {file : Path}

/-! ## Walks that fail -/

/-- Whether a walk comes to a file: at some point it is the first one in the queue. -/
def ComesTo (targets : Path → Except Setback (List Path)) (limits : Limits) (walk : ImportWalk)
    (file : Path) : Prop :=
  ∃ mid depth queue, ReflTransGen (Advances targets limits) walk mid ∧
    mid.queue = (file, depth) :: queue

theorem exists_comesTo_of_fails {fuel : Nat} (h : Fails (run targets limits fuel walk)) :
    ∃ file, ComesTo targets limits walk file ∧ Fails (targets file) := by
  induction fuel generalizing walk with
  | zero => exact absurd h (not_fails_of_ok rfl)
  | succ fuel ih =>
      unfold run at h
      cases hqueue : walk.queue with
      | nil =>
          rw [hqueue] at h
          exact absurd h (not_fails_of_ok rfl)
      | cons entry queue =>
          obtain ⟨file, depth⟩ := entry
          simp only [hqueue] at h
          rcases fails_bind_iff.mp h with hfails | ⟨found, hfound, hfails⟩
          · exact ⟨file, ⟨walk, depth, queue, .refl, hqueue⟩, hfails⟩
          · obtain ⟨other, ⟨mid, deeper, rest, hmid, hother⟩, htargets⟩ := ih hfails
            exact ⟨other, ⟨mid, deeper, rest, .head (.step hqueue hfound) hmid, hother⟩, htargets⟩

/-- A walk with enough fuel fails at a file that it comes to and whose imports are not found. -/
theorem fails_of_comesTo {bound fuel done : Nat} (hbound : limits.maxFiles ≤ bound)
    (hgoing : Going targets (fun _ => True) bound walk done) (hfuel : bound ≤ done + fuel)
    (hfile : ComesTo targets limits walk file) (hfails : Fails (targets file)) :
    Fails (run targets limits fuel walk) := by
  obtain ⟨mid, depth, queue, hmid, hqueue⟩ := hfile
  -- whatever is queued was not counted as done yet, so that some fuel is left
  have hleft : ∀ {walk : ImportWalk} {done : Nat} {entry : Path × Nat} {rest : List (Path × Nat)},
      Going targets (fun _ => True) bound walk done → walk.queue = entry :: rest → done < bound := by
    intro walk done entry rest hgoing hqueue
    have hcount := hgoing.count
    have hsmall := hgoing.small
    rw [hqueue, List.length_cons] at hcount
    omega
  induction hmid using ReflTransGen.head_induction_on generalizing fuel done with
  | refl =>
      obtain ⟨left, rfl⟩ : ∃ left, fuel = left + 1 :=
        Nat.exists_eq_succ_of_ne_zero (by have := hleft hgoing hqueue; omega)
      unfold run
      simp only [hqueue]
      exact fails_bind_iff.mpr (Or.inl hfails)
  | @head walk next hstep _ ih =>
      cases hstep with
      | step hfirst hfound =>
          obtain ⟨left, rfl⟩ : ∃ left, fuel = left + 1 :=
            Nat.exists_eq_succ_of_ne_zero (by have := hleft hgoing hfirst; omega)
          have hnext := hgoing.step (fun _ _ _ _ _ _ => trivial) hbound _ hfirst hfound
          unfold run
          simp only [hfirst]
          exact fails_bind_iff.mpr (Or.inr ⟨_, hfound, ih hnext (by omega)⟩)

variable {resolver : Import.Resolver} {follows : Import.Kind → Bool} {roots : List Path}

theorem fails_targetsOf_iff :
    Fails (targetsOf tree resolver follows file) ↔ tree.IsUnreadable file := by
  by_cases hfile : tree.isFile file = true
  · cases htext : tree.readText file with
    | error fault => simp [targetsOf_of_unreadable hfile htext, Fails, FileTree.IsUnreadable, hfile, htext]
    | ok text => simp [targetsOf_of_readText hfile htext, Fails, FileTree.IsUnreadable, htext]
  · simp [targetsOf, FileTree.IsUnreadable, hfile, Fails, pure, Except.pure]

/-- A walk from roots fails just when it comes to a file that cannot be read. -/
theorem fails_ofRoots_iff : Fails (ofRoots tree resolver roots limits follows) ↔
    ∃ file, ComesTo (targetsOf tree resolver follows) limits (roots.foldl start {}) file ∧
      tree.IsUnreadable file := by
  constructor
  · intro h
    obtain ⟨file, hcomes, hfails⟩ := exists_comesTo_of_fails h
    exact ⟨file, hcomes, fails_targetsOf_iff.mp hfails⟩
  · rintro ⟨file, hcomes, hunreadable⟩
    exact fails_of_comesTo (Nat.le_max_right ..)
      (going_start (fun _ _ => trivial) (Nat.le_max_left ..)) (Nat.le_of_eq (Nat.zero_add _).symm)
      hcomes (fails_targetsOf_iff.mpr hunreadable)

end ImportWalk

namespace Closure

open ImportWalk (ComesTo)

/-! ## Steps that fail -/

theorem fails_added_iff {resolver : Import.Resolver} : Fails (added tree request resolver) ↔
    request.includes = none ∧ Fails (ImportWalk.ofRoots tree resolver request.roots request.limits
      fun _ => true) := by
  unfold added
  cases request.includes with
  | some includes => simp [Fails]
  | none => exact fails_bind_pure_iff.trans (by simp)

theorem fails_typeOnlyGenerated_iff {resolver : Import.Resolver} {files generated : List Path} :
    Fails (typeOnlyGenerated tree resolver files generated) ↔
      generated ≠ [] ∧ ∃ file ∈ files, tree.IsUnreadable file := by
  unfold typeOnlyGenerated
  cases generated with
  | nil => simp [Fails]
  | cons first rest =>
      refine fails_bind_pure_iff.trans (fails_mapM_iff.trans ?_)
      simp only [ImportWalk.fails_targetsOf_iff, ne_eq, reduceCtorEq, not_false_eq_true, true_and]

theorem fails_namedBy_iff {project : Path} {name : String} :
    Fails (SetupFiles.namedBy tree project name) ↔ tree.IsUnreadable (project.child name) := by
  unfold SetupFiles.namedBy FileTree.IsUnreadable
  by_cases hfile : tree.isFile (project.child name) = true
  · simp only [hfile, if_true, true_and]
    refine fails_bind_pure_iff.trans ?_
    unfold ImportWalk.sourceText
    cases tree.readText (project.child name) <;> simp [Fails]
  · simp [hfile, Fails, pure, Except.pure]

theorem fails_setupFilesOf_iff : Fails (setupFilesOf tree request r) ↔
    request.includes = none ∧ request.roots.any (r.isTest request.projectDir) = true ∧
      ∃ name ∈ r.heuristics.runnerConfigs, tree.IsUnreadable (request.projectDir.child name) := by
  unfold setupFilesOf
  by_cases h : request.includes.isNone && request.roots.any (r.isTest request.projectDir)
  · obtain ⟨hincludes, htest⟩ := Bool.and_eq_true_iff.mp h
    rw [if_pos h]
    refine fails_bind_pure_iff.trans (fails_mapM_iff.trans ?_)
    simp only [fails_namedBy_iff, Option.isNone_iff_eq_none.mp hincludes, htest, true_and]
  · have hnone : ¬(request.includes = none ∧
        request.roots.any (r.isTest request.projectDir) = true) := by
      rintro ⟨hincludes, htest⟩
      exact h (by simp [hincludes, htest])
    rw [if_neg h, ← and_assoc, iff_false_right fun hall => hnone hall.1]
    exact not_fails_of_ok rfl

/-- A closure cannot be computed just when one of its parts is not found. -/
theorem fails_compute_iff : Fails (compute tree host request r scan).run.value ↔
    Fails (host tree request.config request.roots request.limits) ∨
      Fails (added tree request (.ofConfig request.config)) ∨
      (∃ program more limit, host tree request.config request.roots request.limits = .ok program ∧
        added tree request (.ofConfig request.config) = .ok (more, limit) ∧
        Fails (typeOnlyGenerated tree (.ofConfig request.config)
          (Path.sortedUnique (request.roots.reverse ++ program ++ more ++ scan.ambient))
          scan.generated)) ∨
      Fails (setupFilesOf tree request r) := by
  constructor
  · intro h
    by_contra hnone
    simp only [not_or, not_fails_iff] at hnone
    obtain ⟨⟨program, hprogram⟩, ⟨⟨more, limit⟩, hadded⟩, htypes, ⟨setupFiles, hsetup⟩⟩ := hnone
    obtain ⟨generated, hgenerated⟩ := not_fails_iff.mp fun hfails =>
      htypes ⟨program, more, limit, hprogram, hadded, hfails⟩
    exact not_fails_of_ok (value_compute_iff.mpr
      ⟨program, more, limit, generated, setupFiles, hprogram, hadded, hgenerated, hsetup, rfl⟩) h
  · intro h
    by_contra hnone
    obtain ⟨closure, hcompute⟩ := not_fails_iff.mp hnone
    obtain ⟨program, more, limit, generated, setupFiles, hprogram, hadded, hgenerated, hsetup, -⟩ :=
      value_compute_iff.mp hcompute
    rcases h with h | h | ⟨_, _, _, hprogram', hadded', h⟩ | h
    · exact not_fails_of_ok hprogram h
    · exact not_fails_of_ok hadded h
    · obtain rfl := Except.ok.inj (hprogram.symm.trans hprogram')
      obtain ⟨rfl, rfl⟩ := Prod.mk.inj (Except.ok.inj (hadded.symm.trans hadded'))
      exact not_fails_of_ok hgenerated h
    · exact not_fails_of_ok hsetup h

end Closure

theorem Config.searchPatterns_ne_nil (config : Config) : config.searchPatterns ≠ [] := by
  unfold searchPatterns
  split
  · exact List.cons_ne_nil _ _
  · rename_i hsome
    exact fun h => hsome (List.isEmpty_iff.mpr h)

/-- Everything that is read before kept closures are asked is found just when all globs can be read. -/
theorem ClosureRequest.exists_isScanned_iff : (∃ r scan, request.IsScanned tree r scan) ↔
    (∀ patterns ∈ [request.heuristics.testGlobs, request.heuristics.setupGlobs],
      ¬Fails (Recognizer.unionOf patterns)) ∧
    ∀ patterns ∈ [ProjectScan.patterns request.config, request.config.excludePatterns],
      ¬Fails (PathFilter.ofPatterns patterns) := by
  simp only [List.forall_mem_cons, List.not_mem_nil, false_imp_iff, implies_true, and_true,
    not_fails_iff]
  constructor
  · rintro ⟨r, scan, hr, hscan⟩
    obtain ⟨tests, htests, h⟩ := bind_eq_ok_iff.mp hr
    obtain ⟨setups, hsetups, -⟩ := bind_eq_ok_iff.mp h
    obtain ⟨includes, hincludes, h⟩ := bind_eq_ok_iff.mp hscan
    obtain ⟨excludes, hexcludes, -⟩ := bind_eq_ok_iff.mp h
    exact ⟨⟨⟨tests, htests⟩, setups, hsetups⟩, ⟨includes, hincludes⟩, excludes, hexcludes⟩
  · rintro ⟨⟨⟨tests, htests⟩, setups, hsetups⟩, ⟨includes, hincludes⟩, excludes, hexcludes⟩
    exact ⟨_, _, bind_eq_ok_iff.mpr ⟨tests, htests, bind_eq_ok_iff.mpr ⟨setups, hsetups, rfl⟩⟩,
      bind_eq_ok_iff.mpr ⟨includes, hincludes, bind_eq_ok_iff.mpr ⟨excludes, hexcludes, rfl⟩⟩⟩

namespace ClosureCache

open Closure
open ImportWalk (ComesTo)

/-! ## Setbacks -/

/-- Whether no kept closure answers a request. -/
def IsAsked (cache : ClosureCache) (tree : FileTree) (request : ClosureRequest) : Prop :=
  ∀ r scan closure, request.IsScanned tree r scan → cache.answer tree request scan ≠ .hit closure

/-- A step of a discovery fails. -/
inductive HasSetback (cache : ClosureCache) (tree : FileTree) (host : ProgramHost)
    (request : ClosureRequest) : Prop
  /-- The globs for tests or those for setup files cannot be read. -/
  | heuristics {globs : List String}
      (hglobs : globs ∈ [request.heuristics.testGlobs, request.heuristics.setupGlobs])
      (hfails : Fails (Recognizer.unionOf globs)) : HasSetback cache tree host request
  /-- The include or the exclude patterns cannot be read. -/
  | patterns {patterns : List String}
      (hpatterns : patterns ∈ [ProjectScan.patterns request.config, request.config.excludePatterns])
      (hfails : Fails (PathFilter.ofPatterns patterns)) : HasSetback cache tree host request
  /-- The host fails. -/
  | program (hasked : cache.IsAsked tree request)
      (hfails : Fails (host tree request.config request.roots request.limits)) :
      HasSetback cache tree host request
  /-- The walk over imports comes to a file that cannot be read. -/
  | source (hasked : cache.IsAsked tree request) (hincludes : request.includes = none) {file : Path}
      (hcomes : ComesTo (ImportWalk.targetsOf tree (.ofConfig request.config) fun _ => true)
        request.limits (request.roots.foldl ImportWalk.start {}) file)
      (hfile : tree.IsUnreadable file) : HasSetback cache tree host request
  /-- A file that is searched for imports of generated types cannot be read. -/
  | typeSource (hasked : cache.IsAsked tree request) {r : Recognizer} {scan : ProjectScan}
      (hscan : request.IsScanned tree r scan) (hgenerated : scan.generated ≠ [])
      {program more : List Path} {limit : Option (LimitHit × Nat)}
      (hprogram : host tree request.config request.roots request.limits = .ok program)
      (hadded : added tree request (.ofConfig request.config) = .ok (more, limit)) {file : Path}
      (hmem : file ∈
        Path.sortedUnique (request.roots.reverse ++ program ++ more ++ scan.ambient))
      (hfile : tree.IsUnreadable file) : HasSetback cache tree host request
  /-- The config of a test runner cannot be read, and there is a test among the roots. -/
  | runnerConfig (hasked : cache.IsAsked tree request) (hincludes : request.includes = none)
      {r : Recognizer} (hr : Recognizer.ofHeuristics request.heuristics = .ok r)
      (htest : request.roots.any (r.isTest request.projectDir) = true) {name : String}
      (hname : name ∈ request.heuristics.runnerConfigs)
      (hfile : tree.IsUnreadable (request.projectDir.child name)) :
      HasSetback cache tree host request

theorem heuristics_of_ofHeuristics {heuristics : Heuristics}
    (h : Recognizer.ofHeuristics heuristics = .ok r) : r.heuristics = heuristics := by
  obtain ⟨_, -, h⟩ := bind_eq_ok_iff.mp h
  obtain ⟨_, -, h⟩ := bind_eq_ok_iff.mp h
  exact Except.ok.inj h ▸ rfl

/-- While a closure is computed, the steps that may fail are the last four. -/
theorem hasSetback_of_fails_compute (hasked : cache.IsAsked tree request)
    (hscan : request.IsScanned tree r scan)
    (h : Fails (compute tree host request r scan).run.value) : cache.HasSetback tree host request := by
  rcases fails_compute_iff.mp h with h | h | ⟨program, more, limit, hprogram, hadded, h⟩ | h
  · exact .program hasked h
  · obtain ⟨hincludes, h⟩ := fails_added_iff.mp h
    obtain ⟨file, hcomes, hfile⟩ := ImportWalk.fails_ofRoots_iff.mp h
    exact .source hasked hincludes hcomes hfile
  · obtain ⟨hgenerated, file, hmem, hfile⟩ := fails_typeOnlyGenerated_iff.mp h
    exact .typeSource hasked hscan hgenerated hprogram hadded hmem hfile
  · obtain ⟨hincludes, htest, name, hname, hfile⟩ := fails_setupFilesOf_iff.mp h
    rw [heuristics_of_ofHeuristics hscan.recognizer] at hname
    exact .runnerConfig hasked hincludes hscan.recognizer htest hname hfile

/-- With a setback there is nothing to scan for, or no kept closure answers and none can be computed. -/
theorem HasSetback.fails_compute (h : cache.HasSetback tree host request)
    (hscan : request.IsScanned tree r scan) : cache.IsAsked tree request ∧
      Fails (compute tree host request r scan).run.value := by
  obtain ⟨hheuristics, hpatterns⟩ := ClosureRequest.exists_isScanned_iff.mp ⟨r, scan, hscan⟩
  rw [fails_compute_iff]
  cases h with
  | heuristics hglobs hfails => exact absurd hfails (hheuristics _ hglobs)
  | patterns hmem hfails => exact absurd hfails (hpatterns _ hmem)
  | program hasked hfails => exact ⟨hasked, Or.inl hfails⟩
  | source hasked hincludes hcomes hfile =>
      exact ⟨hasked, Or.inr (Or.inl (fails_added_iff.mpr
        ⟨hincludes, ImportWalk.fails_ofRoots_iff.mpr ⟨_, hcomes, hfile⟩⟩))⟩
  | typeSource hasked hscan' hgenerated hprogram hadded hmem hfile =>
      obtain ⟨-, rfl⟩ := hscan.unique hscan'
      exact ⟨hasked, Or.inr (Or.inr (Or.inl ⟨_, _, _, hprogram, hadded,
        fails_typeOnlyGenerated_iff.mpr ⟨hgenerated, _, hmem, hfile⟩⟩))⟩
  | runnerConfig hasked hincludes hr htest hname hfile =>
      obtain rfl := Except.ok.inj (hscan.recognizer.symm.trans hr)
      exact ⟨hasked, Or.inr (Or.inr (Or.inr (fails_setupFilesOf_iff.mpr ⟨hincludes, htest, _,
        (heuristics_of_ofHeuristics hr).symm ▸ hname, hfile⟩)))⟩

theorem exists_isScanned_of_ok {found : Closure × ClosureCache}
    (h : (cache.tryDiscover tree host request).run.value = .ok found) :
    ∃ r scan, request.IsScanned tree r scan := by
  obtain ⟨r, hr, h⟩ := run_value_bind_eq_ok_iff.mp h
  obtain ⟨scan, hscan, -⟩ := run_value_bind_eq_ok_iff.mp h
  exact ⟨r, scan, hr, mapError_eq_ok_iff.mp hscan⟩

/-- A discovery falls back just when one of its steps fails. -/
theorem fails_tryDiscover_iff :
    Fails (cache.tryDiscover tree host request).run.value ↔ cache.HasSetback tree host request := by
  by_cases hscan : ∃ r scan, request.IsScanned tree r scan
  · obtain ⟨r, scan, hscan⟩ := hscan
    by_cases hhit : ∃ closure, cache.answer tree request scan = .hit closure
    · obtain ⟨closure, hhit⟩ := hhit
      rw [tryDiscover_of_hit hscan hhit]
      refine ⟨fun h => absurd h (not_fails_of_ok rfl), fun h => ?_⟩
      exact absurd hhit ((h.fails_compute hscan).1 r scan closure hscan)
    · have hkept : ∀ kept, cache.answer tree request scan ≠ .hit kept :=
        fun kept h => hhit ⟨kept, h⟩
      have hasked : cache.IsAsked tree request := by
        intro other more closure hother
        obtain ⟨-, rfl⟩ := hscan.unique hother
        exact hkept closure
      rw [tryDiscover_of_not_hit hscan hkept, fails_bind_iff]
      refine ⟨fun h => ?_, fun h => Or.inl (h.fails_compute hscan).2⟩
      rcases h with h | ⟨closure, -, h⟩
      · exact hasSetback_of_fails_compute hasked hscan h
      · exact absurd h (not_fails_of_ok rfl)
  · refine ⟨fun _ => ?_, fun _ => ?_⟩
    · have hglobs := mt ClosureRequest.exists_isScanned_iff.mpr hscan
      simp only [not_and_or, not_forall, not_not] at hglobs
      rcases hglobs with ⟨globs, hmem, hfails⟩ | ⟨patterns, hmem, hfails⟩
      · exact .heuristics hmem hfails
      · exact .patterns hmem hfails
    · by_contra hfails
      obtain ⟨found, hfound⟩ := not_fails_iff.mp hfails
      exact hscan (exists_isScanned_of_ok hfound)

/-- The closures that calls get one after the other, each with a host of its own. -/
def replies (cache : ClosureCache) : List (ProgramHost × ClosureCall) → List Closure
  | [] => []
  | (host, call) :: rest =>
      (cache.discover call.tree host call.request).value.1
        :: (cache.discover call.tree host call.request).value.2.replies rest

/-- If a step of a discovery fails, the roots and some patterns are left. Nothing is kept of it, and nothing
that was kept is lost, so that later calls get what they would get without it. -/
theorem discover_of_hasSetback (h : cache.HasSetback tree host request)
    (later : List (ProgramHost × ClosureCall)) :
    ∃ closure, (cache.discover tree host request).value = (closure, cache) ∧
      closure.discovered = false ∧ closure.files = request.roots ∧ closure.setupFiles = [] ∧
      closure.includePatterns ≠ [] ∧
      cache.replies ((host, ⟨tree, request⟩) :: later) = closure :: cache.replies later := by
  obtain ⟨setback, hsetback⟩ := fails_tryDiscover_iff.mpr h
  have hvalue := discover_of_tryDiscover_error hsetback
  refine ⟨.fallback request, hvalue, rfl, rfl, rfl, request.config.searchPatterns_ne_nil, ?_⟩
  rw [replies, hvalue]

/-! ## A source that is no text -/

/-- The project with a missing import, whose config was written again and in which the imported file was
created, but is no text. -/
def garbledProject : FileTree :=
  ⟨[("p".toList, .dir [("tsconfig.json".toList, .file { content := .text "\x7b\x7d", modified := 1 }),
    FileTree.textEntry "a.ts" "import './b';", ("b.ts".toList, .file { content := .bytes [0xff] })])]⟩

/-- A host that takes the roots for the program. -/
def rootsHost : ProgramHost := fun _ _ roots _ => .ok roots

/-- The walk over imports comes to the file that is no text. -/
theorem comesTo_garbled :
    ComesTo (ImportWalk.targetsOf garbledProject (.ofConfig ClosureRequest.danglingRequest.config)
      fun _ => true) ClosureRequest.danglingRequest.limits
      (ClosureRequest.danglingRequest.roots.foldl ImportWalk.start {}) ⟨"/p/b.ts"⟩ := by
  have hfound : ImportWalk.targetsOf garbledProject
      (.ofConfig ClosureRequest.danglingRequest.config) (fun _ => true) ⟨"/p/a.ts"⟩ =
        .ok [⟨"/p/b.ts"⟩] :=
    Fallible.toOption_eq_some_iff.mp (by decide +kernel)
  have hqueue : (ClosureRequest.danglingRequest.roots.foldl ImportWalk.start {}).queue =
      [(⟨"/p/a.ts"⟩, 0)] := by
    decide +kernel
  exact ⟨_, 1, [], .single (.step hqueue hfound), by decide +kernel⟩

/-- What a fresh discovery finds is kept. -/
theorem exists_kept_of_discovered (h : (request.fresh tree host).discovered = true) :
    ∃ kept, (({} : ClosureCache).discover tree host request).value.2.get? request.key = some kept ∧
      kept.IsBy ⟨tree, request⟩ host := by
  obtain ⟨r, scan, hscan, hcompute⟩ := ClosureRequest.discovered_fresh_iff.mp h
  refine ⟨⟨request.key, .ofConfig tree request.config, tree.times (request.fresh tree host).files,
    request.fresh tree host⟩, ?_, ⟨rfl, rfl, r, scan, hscan, hcompute⟩, rfl⟩
  rw [ClosureRequest.kept_of_discovered h, get?_store, if_pos rfl]

/-- The setback comes after a closure was kept for the same request. That one stays, and is asked again in
the project that it was found in. -/
theorem discover_of_hasSetback_in_garbledProject :
    ∃ (cache : ClosureCache) (closure : Closure),
      cache = (({} : ClosureCache).discover ClosureRequest.danglingProject .native
        ClosureRequest.danglingRequest).value.2 ∧
      cache.get? ClosureRequest.danglingRequest.key ≠ none ∧
      cache.HasSetback garbledProject rootsHost ClosureRequest.danglingRequest ∧
      (cache.discover garbledProject rootsHost ClosureRequest.danglingRequest).value =
        (closure, cache) ∧
      closure.discovered = false ∧ closure.files = [⟨"/p/a.ts"⟩] ∧ closure.setupFiles = [] ∧
      closure.includePatterns ≠ [] ∧
      cache.replies [(rootsHost, ⟨garbledProject, ClosureRequest.danglingRequest⟩),
          (.native, ⟨ClosureRequest.danglingProject, ClosureRequest.danglingRequest⟩)] =
        closure :: cache.replies
          [(.native, ⟨ClosureRequest.danglingProject, ClosureRequest.danglingRequest⟩)] := by
  obtain ⟨-, -, -, hfresh⟩ := ClosureRequest.fresh_danglingProject
  have hdiscovered : (ClosureRequest.danglingRequest.fresh ClosureRequest.danglingProject
      .native).discovered = true := by
    rw [hfresh]
    rfl
  obtain ⟨kept, hget, hby⟩ := exists_kept_of_discovered hdiscovered
  have hasked : IsAsked _ garbledProject ClosureRequest.danglingRequest := fun _ _ closure hscan =>
    answer_ne_hit_of_isOutdated hget hby (.document rfl (List.mem_singleton.mpr rfl)
      (show garbledProject.modified? ⟨"/p/tsconfig.json"⟩ ≠
        ClosureRequest.danglingProject.modified? ⟨"/p/tsconfig.json"⟩ by decide +kernel)) hscan closure
  have hunreadable : garbledProject.IsUnreadable ⟨"/p/b.ts"⟩ :=
    ⟨by decide +kernel, .notText, by with_unfolding_all rfl⟩
  have hsetback : HasSetback _ garbledProject rootsHost ClosureRequest.danglingRequest :=
    .source hasked rfl comesTo_garbled hunreadable
  obtain ⟨closure, hvalue, hdiscovered, hfiles, hsetup, hpatterns, hreplies⟩ :=
    discover_of_hasSetback hsetback
      [(.native, ⟨ClosureRequest.danglingProject, ClosureRequest.danglingRequest⟩)]
  exact ⟨_, closure, rfl, by rw [hget]; exact Option.some_ne_none kept, hsetback, hvalue, hdiscovered,
    hfiles, hsetup, hpatterns, hreplies⟩

end ClosureCache

end ScopedCheck
