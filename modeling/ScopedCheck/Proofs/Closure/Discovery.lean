import ScopedCheck.Closure.Discover
import ScopedCheck.Proofs.Fallible
/-! # What may come of a discovery

A discovery uses a kept closure again, or it computes the closure and keeps it, or it has a setback and
leaves what is kept as it is. What is told on the way has no influence on it. -/

namespace ScopedCheck

namespace Closure

open Fallible (bind_eq_ok_iff mapError_eq_ok_iff mapError_ok)

/-! ## Events change no value -/

theorem liftExcept_ok_bind {α β : Type} (a : α) (next : α → ExceptT Setback Told β) :
    liftExcept (.ok a) >>= next = next a := rfl

theorem value_tell_bind {β : Type} (events : List LogEvent)
    (next : Unit → ExceptT Setback Told β) :
    (ExceptT.lift (Told.tell events) >>= next).run.value = (next ()).run.value := rfl

theorem value_bind {α β : Type} (told : Told α) (next : α → Told β) :
    (told >>= next).value = (next told.value).value := rfl

theorem run_value_bind {α β : Type} (step : ExceptT Setback Told α)
    (next : α → ExceptT Setback Told β) :
    (step >>= next).run.value = step.run.value >>= fun a => (next a).run.value := by
  rw [ExceptT.run_bind, value_bind]
  cases step.run.value <;> rfl

theorem run_value_bind_eq_ok_iff {α β : Type} {step : ExceptT Setback Told α}
    {next : α → ExceptT Setback Told β} {b : β} :
    (step >>= next).run.value = .ok b ↔
      ∃ a, step.run.value = .ok a ∧ (next a).run.value = .ok b := by
  rw [run_value_bind, bind_eq_ok_iff]

/-! ## Computing a closure -/

variable {tree : FileTree} {host : ProgramHost} {request : ClosureRequest} {r : Recognizer}
  {scan : ProjectScan}

/-- The closure of what was found first, the generated files and the setup files. -/
def assembled (request : ClosureRequest) (scan : ProjectScan)
    (files generated setupFiles : List Path) : Closure where
  files := (Path.sortedUnique (files ++ generated ++ setupFiles)).filter (!·.isInPackages)
  discovered := true
  setupFiles
  includePatterns := request.config.searchPatterns
  ambientCount := scan.ambient.length

/-- A closure is computed when no part has a setback, and is put together from the parts. -/
theorem value_compute_iff {closure : Closure} :
    (compute tree host request r scan).run.value = .ok closure ↔
      ∃ program more limit generated setupFiles,
        host tree request.config request.roots request.limits = .ok program ∧
        added tree request (.ofConfig request.config) = .ok (more, limit) ∧
        typeOnlyGenerated tree (.ofConfig request.config)
          (Path.sortedUnique (request.roots.reverse ++ program ++ more ++ scan.ambient))
          scan.generated = .ok generated ∧
        setupFilesOf tree request r = .ok setupFiles ∧
        closure = assembled request scan
          (Path.sortedUnique (request.roots.reverse ++ program ++ more ++ scan.ambient)) generated
          setupFiles := by
  constructor
  · intro h
    obtain ⟨program, hprogram, h⟩ := run_value_bind_eq_ok_iff.mp h
    obtain ⟨⟨more, limit⟩, hadded, h⟩ := run_value_bind_eq_ok_iff.mp h
    obtain ⟨_, -, h⟩ := run_value_bind_eq_ok_iff.mp h
    obtain ⟨generated, hgenerated, h⟩ := run_value_bind_eq_ok_iff.mp h
    obtain ⟨setupFiles, hsetup, h⟩ := run_value_bind_eq_ok_iff.mp h
    obtain ⟨_, -, h⟩ := run_value_bind_eq_ok_iff.mp h
    exact ⟨program, more, limit, generated, setupFiles, mapError_eq_ok_iff.mp hprogram, hadded,
      hgenerated, hsetup, (Except.ok.inj h).symm⟩
  · rintro ⟨program, more, limit, generated, setupFiles, hprogram, hadded, hgenerated, hsetup, rfl⟩
    simp only [compute, hprogram, hadded, mapError_ok, liftExcept_ok_bind, value_tell_bind,
      hgenerated, hsetup]
    rfl

/-- The native program is what the roots lead to by the imports that a compiler follows. -/
theorem native_of_ofRoots {program : ImportWalk}
    (h : ImportWalk.ofRoots tree (.ofConfig request.config) request.roots request.limits
      Import.Kind.followedByCompiler = .ok program) :
    ProgramHost.native tree request.config request.roots request.limits = .ok program.files := by
  simp only [ProgramHost.native, h]
  rfl

/-- What is added is what the roots lead to by all imports, if no files are chosen. -/
theorem added_of_ofRoots (hincludes : request.includes = none) {walk : ImportWalk}
    (h : ImportWalk.ofRoots tree (.ofConfig request.config) request.roots request.limits (fun _ => true) =
      .ok walk) :
    added tree request (.ofConfig request.config) =
      .ok (walk.files, walk.limit.map fun limit => (limit, walk.taken.length)) := by
  simp only [added, hincludes, h]
  rfl

/-- What is computed natively from the two ways of following imports, where there are no declarations, no
generated files, no tests and no chosen files. -/
theorem value_compute_native (hincludes : request.includes = none)
    (htest : request.roots.any (r.isTest request.projectDir) = false) {program all : ImportWalk}
    (hprogram : ImportWalk.ofRoots tree (.ofConfig request.config) request.roots request.limits
      Import.Kind.followedByCompiler = .ok program)
    (hall : ImportWalk.ofRoots tree (.ofConfig request.config) request.roots request.limits
      (fun _ => true) = .ok all) :
    (compute tree .native request r {}).run.value = .ok (assembled request {}
      (Path.sortedUnique (request.roots.reverse ++ program.files ++ all.files)) [] []) := by
  refine value_compute_iff.mpr ⟨program.files, all.files, all.limit.map fun limit =>
    (limit, all.taken.length), [], [], native_of_ofRoots hprogram, added_of_ofRoots hincludes hall, rfl, ?_,
    by rw [List.append_nil]⟩
  simp only [setupFilesOf, htest, Bool.and_false]
  rfl

end Closure

/-! ## Discovering -/

/-- Everything that is read before kept closures are asked. -/
structure ClosureRequest.IsScanned (request : ClosureRequest) (tree : FileTree) (r : Recognizer)
    (scan : ProjectScan) : Prop where
  recognizer : Recognizer.ofHeuristics request.heuristics = .ok r
  scan : ProjectScan.ofConfig tree request.config r = .ok scan

namespace ClosureCache

open Closure
open Fallible (mapError_ok)

variable {cache : ClosureCache} {tree : FileTree} {host : ProgramHost} {request : ClosureRequest}

/-! ### Kept closures -/

theorem mem_of_get? {key : ClosureKey} {kept : KeptClosure} (h : cache.get? key = some kept) :
    kept ∈ cache.kept ∧ kept.key = key :=
  ⟨List.mem_of_find?_eq_some h, by simpa using List.find?_some h⟩

/-- What is kept for a key after a closure was kept. -/
theorem get?_store (cache : ClosureCache) (tree : FileTree) (key : ClosureKey) (stamp : ConfigStamp)
    (closure : Closure) (other : ClosureKey) :
    (cache.store tree key stamp closure).get? other =
      if key = other then some ⟨key, stamp, tree.times closure.files, closure⟩ else cache.get? other := by
  by_cases h : key = other
  · simp [store, get?, h]
  · rw [store, get?, get?, List.find?_cons_of_neg (by simpa using h), List.find?_filter, if_neg h]
    congr 1
    funext kept
    by_cases hother : kept.key = other
    · simp [hother, Ne.symm h]
    · simp [hother]

/-- A kept closure is used again when nothing that it is compared by has changed. -/
theorem lookup_eq_hit_iff {key : ClosureKey} {stamp : ConfigStamp} {count : Nat} {closure : Closure} :
    cache.lookup tree key stamp count = .hit closure ↔
      ∃ kept, cache.get? key = some kept ∧ kept.closure = closure ∧ kept.stamp = stamp ∧
        closure.ambientCount = count ∧ kept.times = tree.times closure.files := by
  unfold lookup
  cases cache.get? key with
  | none => simp
  | some kept =>
      simp only [Option.some.injEq, exists_eq_left']
      by_cases hstamp : kept.stamp = stamp
      · by_cases hcount : kept.closure.ambientCount = count
        · by_cases htimes : kept.times = tree.times kept.closure.files
          · simp only [hstamp, hcount, htimes, ne_eq, not_true_eq_false, if_false, KeptAnswer.hit.injEq]
            constructor
            · rintro rfl
              exact ⟨rfl, trivial, hcount, rfl⟩
            · exact fun h => h.1
          · simp only [hstamp, hcount, htimes, ne_eq, not_true_eq_false, if_false, not_false_eq_true,
              if_true, reduceCtorEq, false_iff, not_and]
            rintro rfl - -
            exact htimes
        · simp only [hstamp, hcount, ne_eq, not_true_eq_false, if_false, not_false_eq_true, if_true,
            reduceCtorEq, false_iff, not_and]
          rintro rfl - hsame
          exact absurd hsame hcount
      · simp [hstamp]

/-! ### The ways of a discovery -/

/-- What is known of a request that was scanned. -/
def answer (cache : ClosureCache) (tree : FileTree) (request : ClosureRequest) (scan : ProjectScan) :
    KeptAnswer :=
  cache.lookup tree request.key (.ofConfig tree request.config) scan.ambient.length

/-- What may come of a discovery. -/
inductive Discovers (cache : ClosureCache) (tree : FileTree) (host : ProgramHost)
    (request : ClosureRequest) : Closure × ClosureCache → Prop
  /-- A kept closure is used again. -/
  | again {r : Recognizer} {scan : ProjectScan} {closure : Closure}
      (hscan : request.IsScanned tree r scan) (hkept : cache.answer tree request scan = .hit closure) :
      Discovers cache tree host request (closure, cache)
  /-- A closure is computed and kept. -/
  | anew {r : Recognizer} {scan : ProjectScan} {closure : Closure}
      (hscan : request.IsScanned tree r scan)
      (hkept : ∀ kept, cache.answer tree request scan ≠ .hit kept)
      (hcompute : (compute tree host request r scan).run.value = .ok closure) :
      Discovers cache tree host request
        (closure, cache.store tree request.key (.ofConfig tree request.config) closure)
  /-- A setback comes before kept closures are asked. -/
  | unscanned (hscan : ∀ r scan, ¬request.IsScanned tree r scan) :
      Discovers cache tree host request (.fallback request, cache)
  /-- A setback comes while a closure is computed. -/
  | lost {r : Recognizer} {scan : ProjectScan} {setback : Setback}
      (hscan : request.IsScanned tree r scan)
      (hkept : ∀ kept, cache.answer tree request scan ≠ .hit kept)
      (hcompute : (compute tree host request r scan).run.value = .error setback) :
      Discovers cache tree host request (.fallback request, cache)

theorem tryDiscover_of_hit {r : Recognizer} {scan : ProjectScan} {closure : Closure}
    (hscan : request.IsScanned tree r scan) (hkept : cache.answer tree request scan = .hit closure) :
    (cache.tryDiscover tree host request).run.value = .ok (closure, cache) := by
  rw [answer] at hkept
  simp only [tryDiscover, hscan.recognizer, hscan.scan, mapError_ok, liftExcept_ok_bind,
    value_tell_bind, hkept]
  rfl

theorem tryDiscover_of_not_hit {r : Recognizer} {scan : ProjectScan}
    (hscan : request.IsScanned tree r scan)
    (hkept : ∀ kept, cache.answer tree request scan ≠ .hit kept) :
    (cache.tryDiscover tree host request).run.value =
      (compute tree host request r scan).run.value >>= fun closure =>
        .ok (closure, cache.store tree request.key (.ofConfig tree request.config) closure) := by
  simp only [answer] at hkept
  simp only [tryDiscover, hscan.recognizer, hscan.scan, mapError_ok, liftExcept_ok_bind,
    value_tell_bind]
  rw [run_value_bind]
  rfl

theorem discover_of_tryDiscover_ok {found : Closure × ClosureCache}
    (h : (cache.tryDiscover tree host request).run.value = .ok found) :
    (cache.discover tree host request).value = found := by
  rw [discover, value_bind, h]
  rfl

theorem discover_of_hit {r : Recognizer} {scan : ProjectScan} {closure : Closure}
    (hscan : request.IsScanned tree r scan) (hkept : cache.answer tree request scan = .hit closure) :
    (cache.discover tree host request).value = (closure, cache) :=
  discover_of_tryDiscover_ok (tryDiscover_of_hit hscan hkept)

theorem discover_of_not_hit {r : Recognizer} {scan : ProjectScan} {closure : Closure}
    (hscan : request.IsScanned tree r scan)
    (hkept : ∀ kept, cache.answer tree request scan ≠ .hit kept)
    (hcompute : (compute tree host request r scan).run.value = .ok closure) :
    (cache.discover tree host request).value =
      (closure, cache.store tree request.key (.ofConfig tree request.config) closure) := by
  apply discover_of_tryDiscover_ok
  rw [tryDiscover_of_not_hit hscan hkept, hcompute]
  rfl

/-- What is discovered when nothing is kept. -/
theorem discover_of_miss {r : Recognizer} {scan : ProjectScan} {closure : Closure}
    (hmiss : cache.get? request.key = none) (hscan : request.IsScanned tree r scan)
    (hcompute : (compute tree host request r scan).run.value = .ok closure) :
    (cache.discover tree host request).value =
      (closure, cache.store tree request.key (.ofConfig tree request.config) closure) := by
  refine discover_of_not_hit hscan (fun kept => ?_) hcompute
  rw [answer, lookup, hmiss]
  exact KeptAnswer.noConfusion

theorem discover_of_tryDiscover_error {setback : Setback}
    (h : (cache.tryDiscover tree host request).run.value = .error setback) :
    (cache.discover tree host request).value = (.fallback request, cache) := by
  rw [discover, value_bind, h]
  rfl

/-- What comes of a discovery. -/
theorem discovers (cache : ClosureCache) (tree : FileTree) (host : ProgramHost)
    (request : ClosureRequest) :
    Discovers cache tree host request (cache.discover tree host request).value := by
  cases hr : Recognizer.ofHeuristics request.heuristics with
  | error setback =>
      have htry : (cache.tryDiscover tree host request).run.value = .error setback := by
        simp only [tryDiscover, run_value_bind, hr]
        rfl
      rw [discover_of_tryDiscover_error htry]
      refine .unscanned fun r scan h => ?_
      rw [h.recognizer] at hr
      cases hr
  | ok r =>
      cases hscan : ProjectScan.ofConfig tree request.config r with
      | error failure =>
          have htry : (cache.tryDiscover tree host request).run.value = .error (.scan failure) := by
            simp only [tryDiscover, hr, liftExcept_ok_bind, run_value_bind, hscan]
            rfl
          rw [discover_of_tryDiscover_error htry]
          refine .unscanned fun other scan h => ?_
          obtain rfl := Except.ok.inj (hr.symm.trans h.recognizer)
          rw [h.scan] at hscan
          cases hscan
      | ok scan =>
          have hscanned : request.IsScanned tree r scan := ⟨hr, hscan⟩
          by_cases hkept : ∃ closure, cache.answer tree request scan = .hit closure
          · obtain ⟨closure, hkept⟩ := hkept
            rw [discover_of_hit hscanned hkept]
            exact .again hscanned hkept
          · have hkept : ∀ kept, cache.answer tree request scan ≠ .hit kept :=
              fun kept h => hkept ⟨kept, h⟩
            cases hcompute : (compute tree host request r scan).run.value with
            | error setback =>
                have htry : (cache.tryDiscover tree host request).run.value = .error setback := by
                  rw [tryDiscover_of_not_hit hscanned hkept, hcompute]
                  rfl
                rw [discover_of_tryDiscover_error htry]
                exact .lost hscanned hkept hcompute
            | ok closure =>
                rw [discover_of_not_hit hscanned hkept hcompute]
                exact .anew hscanned hkept hcompute

/-- What holds of all kept closures holds on, if it holds of a closure that is computed and kept. -/
theorem forall_kept_discover {P : KeptClosure → Prop} (h : ∀ kept ∈ cache.kept, P kept)
    (hnew : ∀ r scan closure, request.IsScanned tree r scan →
      (compute tree host request r scan).run.value = .ok closure →
      P ⟨request.key, .ofConfig tree request.config, tree.times closure.files, closure⟩) :
    ∀ kept ∈ (cache.discover tree host request).value.2.kept, P kept := by
  have hfound := cache.discovers tree host request
  generalize (cache.discover tree host request).value = found at hfound
  cases hfound with
  | again => exact h
  | unscanned => exact h
  | lost => exact h
  | anew hscan hkept hcompute =>
      intro kept hmem
      rcases List.mem_cons.mp hmem with rfl | hmem
      · exact hnew _ _ _ hscan hcompute
      · exact h kept (List.mem_filter.mp hmem).1

/-! ### Fresh discoveries -/

/-- A discovery that uses no kept closure again comes to what is computed, whatever is kept. -/
theorem value_of_not_hit {r : Recognizer} {scan : ProjectScan} (hscan : request.IsScanned tree r scan)
    (hkept : ∀ kept, cache.answer tree request scan ≠ .hit kept) :
    (cache.discover tree host request).value.1 =
      (compute tree host request r scan).run.value.toOption.getD (.fallback request) := by
  cases hcompute : (compute tree host request r scan).run.value with
  | ok closure =>
      rw [discover_of_not_hit hscan hkept hcompute]
      rfl
  | error setback =>
      have htry : (cache.tryDiscover tree host request).run.value = .error setback := by
        rw [tryDiscover_of_not_hit hscan hkept, hcompute]
        rfl
      rw [discover_of_tryDiscover_error htry]
      rfl

theorem value_of_not_isScanned (hscan : ∀ r scan, ¬request.IsScanned tree r scan) :
    (cache.discover tree host request).value = (.fallback request, cache) := by
  have hfound := cache.discovers tree host request
  generalize (cache.discover tree host request).value = found at hfound
  cases hfound with
  | again hscanned => exact absurd hscanned (hscan _ _)
  | anew hscanned => exact absurd hscanned (hscan _ _)
  | unscanned => rfl
  | lost hscanned => exact absurd hscanned (hscan _ _)

end ClosureCache

namespace ClosureRequest

open Closure ClosureCache

variable {request : ClosureRequest} {tree : FileTree} {host : ProgramHost}

/-- The closure of a request that is discovered when nothing is kept. -/
def fresh (request : ClosureRequest) (tree : FileTree) (host : ProgramHost) : Closure :=
  (({} : ClosureCache).discover tree host request).value.1

theorem IsScanned.unique {r other : Recognizer} {scan more : ProjectScan}
    (h : request.IsScanned tree r scan) (hother : request.IsScanned tree other more) :
    r = other ∧ scan = more := by
  obtain rfl := Except.ok.inj (h.recognizer.symm.trans hother.recognizer)
  exact ⟨rfl, Except.ok.inj (h.scan.symm.trans hother.scan)⟩

theorem answer_empty (scan : ProjectScan) (kept : Closure) :
    ({} : ClosureCache).answer tree request scan ≠ .hit kept := KeptAnswer.noConfusion

theorem fresh_of_isScanned {r : Recognizer} {scan : ProjectScan} (hscan : request.IsScanned tree r scan) :
    request.fresh tree host =
      (compute tree host request r scan).run.value.toOption.getD (.fallback request) :=
  value_of_not_hit hscan (answer_empty scan)

/-- A fresh native closure is made of what the two ways of following imports take, where the scan finds
nothing, no root is a test and no files are chosen. -/
theorem fresh_of_walks {program all : List Path} (hincludes : request.includes = none)
    (hscan : (Recognizer.ofHeuristics request.heuristics).toOption.map (fun r =>
      (request.roots.any (r.isTest request.projectDir),
        (ProjectScan.ofConfig tree request.config r).toOption)) = some (false, some {}))
    (hprogram : (ImportWalk.ofRoots tree (.ofConfig request.config) request.roots request.limits
      Import.Kind.followedByCompiler).toOption.map (·.taken) = some program)
    (hall : (ImportWalk.ofRoots tree (.ofConfig request.config) request.roots request.limits
      fun _ => true).toOption.map (·.taken) = some all) :
    ∃ r, request.IsScanned tree r {} ∧ request.roots.any (r.isTest request.projectDir) = false ∧
      request.fresh tree .native = assembled request {} (Path.sortedUnique
        (request.roots.reverse ++ Path.sorted program ++ Path.sorted all)) [] [] := by
  obtain ⟨r, hr, hrecognizer⟩ := Fallible.exists_of_toOption hscan
  obtain ⟨htest, hscanned⟩ := Prod.mk.inj hrecognizer
  have hscan : request.IsScanned tree r {} := ⟨hr, Fallible.toOption_eq_some_iff.mp hscanned⟩
  obtain ⟨walk, hwalk, rfl⟩ := Fallible.exists_of_toOption hprogram
  obtain ⟨walk', hwalk', rfl⟩ := Fallible.exists_of_toOption hall
  refine ⟨r, hscan, htest, ?_⟩
  rw [fresh_of_isScanned hscan, value_compute_native hincludes htest hwalk hwalk']
  rfl

/-- A discovery that uses no kept closure again is as fresh as one without any. -/
theorem value_eq_fresh {cache : ClosureCache} (hkept : ∀ r scan kept, request.IsScanned tree r scan →
    cache.answer tree request scan ≠ .hit kept) :
    (cache.discover tree host request).value.1 = request.fresh tree host := by
  by_cases hscan : ∃ r scan, request.IsScanned tree r scan
  · obtain ⟨r, scan, hscan⟩ := hscan
    rw [fresh_of_isScanned hscan, value_of_not_hit hscan fun kept => hkept r scan kept hscan]
  · have hnone : ∀ r scan, ¬request.IsScanned tree r scan := fun r scan h => hscan ⟨r, scan, h⟩
    rw [fresh, value_of_not_isScanned hnone, value_of_not_isScanned hnone]

/-- A fresh closure is discovered when it was computed. -/
theorem discovered_fresh_iff : (request.fresh tree host).discovered = true ↔
    ∃ r scan, request.IsScanned tree r scan ∧
      (compute tree host request r scan).run.value = .ok (request.fresh tree host) := by
  constructor
  · intro h
    by_cases hscan : ∃ r scan, request.IsScanned tree r scan
    · obtain ⟨r, scan, hscan⟩ := hscan
      refine ⟨r, scan, hscan, ?_⟩
      rw [fresh_of_isScanned hscan] at h ⊢
      cases hcompute : (compute tree host request r scan).run.value with
      | ok closure => rfl
      | error setback =>
          rw [hcompute] at h
          cases h
    · rw [fresh, value_of_not_isScanned fun r scan h => hscan ⟨r, scan, h⟩] at h
      cases h
  · rintro ⟨r, scan, -, hcompute⟩
    obtain ⟨_, _, _, _, _, -, -, -, -, hassembled⟩ := value_compute_iff.mp hcompute
    rw [hassembled]
    rfl

end ClosureRequest

end ScopedCheck
