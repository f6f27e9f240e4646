import ScopedCheck.Proofs.Closure.Setbacks
import ScopedCheck.Proofs.Closure.Sharing
/-! # Generated files that types are imported from

Generated files are looked for once, in the imports of everything that is known by then, and for all of
that they are complete. What is added later is not looked through: the generated files that were found,
and setup files. -/

namespace ScopedCheck

namespace Closure

open Fallible (bind_eq_ok_iff exists_of_mapM mem_of_mapM)

variable {tree : FileTree} {host : ProgramHost} {request : ClosureRequest} {r : Recognizer}
  {scan : ProjectScan}

/-- What is known before generated files are looked for: the roots, the program that the host builds, what
following imports or the choice of the caller adds, and the declarations of the project. -/
def IsKnown (tree : FileTree) (host : ProgramHost) (request : ClosureRequest) (scan : ProjectScan)
    (f : Path) : Prop :=
  ∃ program more limit, host tree request.config request.roots request.limits = .ok program ∧
    added tree request (.ofConfig request.config) = .ok (more, limit) ∧
    f.listed (request.roots.reverse ++ program ++ more ++ scan.ambient) = true

/-- A place that was known first keeps the spelling that it had then. -/
theorem mem_files_assembled_iff {found generated setupFiles : List Path} {f : Path}
    (hknown : f.listed found = true) :
    f ∈ (assembled request scan (Path.sortedUnique found) generated setupFiles).files ↔
      f.isInPackages = false ∧ f ∈ Path.sortedUnique found := by
  obtain ⟨first, hfirst, hparts⟩ := Path.listed_iff.mp hknown
  obtain ⟨spelled, hspelled⟩ := Option.isSome_iff_exists.mp
    (List.find?_isSome.mpr ⟨first, hfirst, Path.same_iff.mpr hparts⟩)
  rw [assembled, List.mem_filter, Path.mem_sortedUnique_iff, Path.mem_sortedUnique_iff, List.append_assoc,
    List.find?_append, Path.find?_sortedUnique, hspelled, Option.some_or, Bool.not_eq_true', and_comm]

/-- The generated files that types are imported from are known already, or they are found. -/
theorem listed_of_typeOnlyGenerated {resolver : Import.Resolver} {files generated found : List Path}
    (h : typeOnlyGenerated tree resolver files generated = .ok found) {f target : Path} (hf : f ∈ files)
    (himport : ImportWalk.Imports tree resolver (· == .typeOnly) f target)
    (htarget : target.listed generated = true) :
    target.listed files = true ∨ target.listed found = true := by
  by_cases hlisted : target.listed files = true
  · exact .inl hlisted
  · have hsome : generated.isEmpty = false := by
      cases generated with
      | nil => simp [Path.listed] at htarget
      | cons first rest => rfl
    rw [typeOnlyGenerated, hsome, if_neg Bool.false_ne_true] at h
    obtain ⟨targets, htargets, h⟩ := bind_eq_ok_iff.mp h
    obtain rfl := Except.ok.inj h
    obtain ⟨own, hown, hf⟩ := exists_of_mapM htargets hf
    refine .inr (Path.listed_of_mem (List.mem_filter.mpr ⟨?_, by simp [htarget, hlisted]⟩))
    exact List.mem_flatten.mpr ⟨own, hown, (ImportWalk.mem_targetsOf_iff hf).mpr himport⟩

/-- What is found is generated, and a type is imported from it. -/
theorem of_mem_typeOnlyGenerated {resolver : Import.Resolver} {files generated found : List Path}
    (h : typeOnlyGenerated tree resolver files generated = .ok found) {target : Path}
    (htarget : target ∈ found) : target.listed generated = true ∧
      ∃ f ∈ files, ImportWalk.Imports tree resolver (· == .typeOnly) f target := by
  unfold typeOnlyGenerated at h
  split at h
  · obtain rfl := Except.ok.inj h
    cases htarget
  · obtain ⟨targets, htargets, h⟩ := bind_eq_ok_iff.mp h
    obtain rfl := Except.ok.inj h
    obtain ⟨htarget, hnew⟩ := List.mem_filter.mp htarget
    obtain ⟨own, hown, htarget⟩ := List.mem_flatten.mp htarget
    obtain ⟨f, hf, hown⟩ := mem_of_mapM htargets hown
    exact ⟨(Bool.and_eq_true_iff.mp hnew).1, f, hf, (ImportWalk.mem_targetsOf_iff hown).mp htarget⟩

-- of two generated files the one that a type is imported from is found
example : (typeOnlyGenerated
    ⟨[("p".toList, .dir [FileTree.textEntry "a.ts" "import './t.gen'; import type U from './u.gen';",
      FileTree.textEntry "t.gen.ts" "", FileTree.textEntry "u.gen.ts" ""])]⟩
    (.ofConfig { configPath := ⟨"/p/tsconfig.json"⟩ }) [⟨"/p/a.ts"⟩]
    [⟨"/p/t.gen.ts"⟩, ⟨"/p/u.gen.ts"⟩]).toOption = some [⟨"/p/u.gen.ts"⟩] := by decide +kernel

/-- A computed closure lists what is known, generated files and setup files. -/
theorem known_or_later {closure : Closure}
    (hcompute : (compute tree host request r scan).run.value = .ok closure) {f : Path}
    (hf : f ∈ closure.files) :
    IsKnown tree host request scan f ∨ f.listed scan.generated = true ∨
      f.listed closure.setupFiles = true := by
  obtain ⟨program, more, limit, generated, setupFiles, hprogram, hadded, hgenerated, -, rfl⟩ :=
    value_compute_iff.mp hcompute
  have hmem := Path.mem_of_mem_sortedUnique (List.mem_filter.mp hf).1
  simp only [List.mem_append] at hmem
  rcases hmem with (hfirst | hfound) | hsetup
  · exact .inl ⟨program, more, limit, hprogram, hadded,
      Path.listed_sortedUnique.mp (Path.listed_of_mem hfirst)⟩
  · exact .inr (.inl (of_mem_typeOnlyGenerated hgenerated hfound).1)
  · exact .inr (.inr (Path.listed_of_mem hsetup))

/-- Generated files that types are imported from in what is known are in a computed closure. -/
theorem listed_of_isKnown {closure : Closure}
    (hcompute : (compute tree host request r scan).run.value = .ok closure) {f target : Path}
    (hf : f ∈ closure.files) (hknown : IsKnown tree host request scan f)
    (himport : ImportWalk.Imports tree (.ofConfig request.config) (· == .typeOnly) f target)
    (htarget : target.listed scan.generated = true) : target.listed closure.files = true := by
  obtain ⟨program, more, limit, generated, setupFiles, hprogram, hadded, hgenerated, -, rfl⟩ :=
    value_compute_iff.mp hcompute
  obtain ⟨program', more', limit', hprogram', hadded', hknown⟩ := hknown
  obtain rfl := Except.ok.inj (hprogram.symm.trans hprogram')
  obtain ⟨rfl, rfl⟩ := Prod.mk.inj (Except.ok.inj (hadded.symm.trans hadded'))
  have hfirst := ((mem_files_assembled_iff hknown).mp hf).2
  rw [assembled, Path.listed_filter_outside, Path.listed_sortedUnique, Path.listed_append,
    Path.listed_append]
  exact ⟨himport.outside, .inl (listed_of_typeOnlyGenerated hgenerated hfirst himport htarget)⟩

end Closure

namespace ClosureCache

open Closure
open Fallible (Fails not_fails_iff)

variable {cache : ClosureCache} {tree : FileTree} {host : ProgramHost} {request : ClosureRequest}

/-- In a readable tree a native discovery comes to an end. -/
theorem discovered_of_isReadable (htree : tree.isReadable = true) {r : Recognizer} {scan : ProjectScan}
    (hscan : request.IsScanned tree r scan) : (request.fresh tree .native).discovered = true := by
  have hreadable : ∀ file, ¬tree.IsUnreadable file := by
    rintro file ⟨hfile, hfails⟩
    obtain ⟨text, htext⟩ := FileTree.readText_of_isReadable htree hfile
    exact Fallible.not_fails_of_ok htext hfails
  have hwalk : ∀ follows, ¬Fails (ImportWalk.ofRoots tree (.ofConfig request.config) request.roots
      request.limits follows) := fun follows hfails => by
    obtain ⟨file, -, hfile⟩ := ImportWalk.fails_ofRoots_iff.mp hfails
    exact hreadable file hfile
  refine ClosureRequest.discovered_fresh_iff.mpr ⟨r, scan, hscan, ?_⟩
  obtain ⟨closure, hcompute⟩ : ∃ closure,
      (compute tree .native request r scan).run.value = .ok closure := by
    refine not_fails_iff.mp fun hfails => ?_
    rcases fails_compute_iff.mp hfails with h | h | ⟨_, _, _, -, -, h⟩ | h
    · exact hwalk _ (Fallible.fails_bind_pure_iff.mp h)
    · exact hwalk _ (fails_added_iff.mp h).2
    · obtain ⟨-, file, -, hfile⟩ := fails_typeOnlyGenerated_iff.mp h
      exact hreadable file hfile
    · obtain ⟨-, -, name, -, hfile⟩ := fails_setupFilesOf_iff.mp h
      exact hreadable _ hfile
  rw [ClosureRequest.fresh_of_isScanned hscan, hcompute]
  rfl

/-- Generated files that types are imported from are complete for everything that is known before they are
looked for, in a closure that is as fresh as one that is discovered when nothing is kept. All else that is
listed is a generated file or a setup file. -/
theorem listsTypeSources (hdiscovered : (cache.discover tree host request).value.1.discovered = true)
    (hfresh : (cache.discover tree host request).value.1 = request.fresh tree host) {r : Recognizer}
    {scan : ProjectScan} (hscan : request.IsScanned tree r scan) :
    ∀ f ∈ (cache.discover tree host request).value.1.files,
      (IsKnown tree host request scan f → ∀ target,
        ImportWalk.Imports tree (.ofConfig request.config) (· == .typeOnly) f target →
        target.listed scan.generated = true →
          target.listed (cache.discover tree host request).value.1.files = true) ∧
      (¬IsKnown tree host request scan f → f.listed scan.generated = true ∨
        f.listed (cache.discover tree host request).value.1.setupFiles = true) := by
  rw [hfresh] at hdiscovered ⊢
  obtain ⟨r', scan', hscan', hcompute⟩ := ClosureRequest.discovered_fresh_iff.mp hdiscovered
  obtain ⟨rfl, rfl⟩ := hscan.unique hscan'
  exact fun f hf => ⟨fun hknown _ himport htarget => listed_of_isKnown hcompute hf hknown himport htarget,
    fun hlater => (known_or_later hcompute hf).resolve_left hlater⟩

/-- A project with a test, a generated file, and two files that import a type from it. -/
def generatedProject : FileTree :=
  ⟨[("p".toList, .dir [FileTree.textEntry "tsconfig.json" "\x7b\x7d", FileTree.textEntry "a.test.ts" "",
    FileTree.textEntry "chosen.ts" "import type T from './t.gen';",
    FileTree.textEntry "setup.ts" "import type T from './t.gen';", FileTree.textEntry "t.gen.ts" ""])]⟩

/-- A request for the test, with or without files that the caller chose. -/
def generatedRequest (includes : Option (List Path)) : ClosureRequest where
  config := { configPath := ⟨"/p/tsconfig.json"⟩, chain := [⟨"/p/tsconfig.json"⟩] }
  roots := [⟨"/p/a.test.ts"⟩]
  projectDir := ⟨"/p"⟩
  includes
  heuristics := ⟨["*.test.ts"], ["setup.ts"], [], [".gen.ts"]⟩

theorem isScanned_generatedProject (includes : Option (List Path)) :
    ∃ r, (generatedRequest includes).IsScanned generatedProject r ⟨[], [⟨"/p/t.gen.ts"⟩]⟩ ∧
      r.isTest ⟨"/p"⟩ ⟨"/p/a.test.ts"⟩ = true ∧
      SetupFiles.find generatedProject r ⟨"/p"⟩ false = .ok [⟨"/p/setup.ts"⟩] := by
  obtain ⟨r, hr, hfound⟩ := Fallible.exists_of_toOption
    (show (Recognizer.ofHeuristics (generatedRequest none).heuristics).toOption.map (fun r =>
        ((ProjectScan.ofConfig generatedProject (generatedRequest none).config r).toOption,
          r.isTest ⟨"/p"⟩ ⟨"/p/a.test.ts"⟩,
          (SetupFiles.find generatedProject r ⟨"/p"⟩ false).toOption)) =
        some (some ⟨[], [⟨"/p/t.gen.ts"⟩]⟩, true, some [⟨"/p/setup.ts"⟩]) by decide +kernel)
  obtain ⟨hscan, hfound⟩ := Prod.mk.inj hfound
  obtain ⟨htest, hsetup⟩ := Prod.mk.inj hfound
  exact ⟨r, ⟨hr, Fallible.toOption_eq_some_iff.mp hscan⟩, htest, Fallible.toOption_eq_some_iff.mp hsetup⟩

theorem imports_in_generatedProject {f : Path} (hf : f = ⟨"/p/chosen.ts"⟩ ∨ f = ⟨"/p/setup.ts"⟩) :
    ImportWalk.Imports generatedProject (.ofConfig (generatedRequest none).config) (· == .typeOnly) f
      ⟨"/p/t.gen.ts"⟩ := by
  have htargets : (ImportWalk.targetsOf generatedProject (.ofConfig (generatedRequest none).config)
      (· == .typeOnly) f).toOption = some [⟨"/p/t.gen.ts"⟩] := by
    rcases hf with rfl | rfl <;> decide +kernel
  exact (ImportWalk.mem_targetsOf_iff (Fallible.toOption_eq_some_iff.mp htargets)).mp
    (List.mem_singleton_self _)

theorem native_generatedProject (includes : Option (List Path)) :
    ProgramHost.native generatedProject (generatedRequest includes).config (generatedRequest includes).roots
      (generatedRequest includes).limits = .ok [⟨"/p/a.test.ts"⟩] :=
  Fallible.toOption_eq_some_iff.mp
    (show (ProgramHost.native generatedProject (generatedRequest none).config (generatedRequest none).roots
      (generatedRequest none).limits).toOption = some [⟨"/p/a.test.ts"⟩] by decide +kernel)

/-- A file that the caller chose is known, and the generated file that it imports a type from is taken. -/
theorem listsTypeSources_generatedProject :
    ∃ r scan closure, (({} : ClosureCache).discover generatedProject .native
        (generatedRequest (some [⟨"/p/chosen.ts"⟩]))).value.1 = closure ∧
      closure.discovered = true ∧
      (generatedRequest (some [⟨"/p/chosen.ts"⟩])).IsScanned generatedProject r scan ∧
      ⟨"/p/chosen.ts"⟩ ∈ closure.files ∧
      IsKnown generatedProject .native (generatedRequest (some [⟨"/p/chosen.ts"⟩])) scan ⟨"/p/chosen.ts"⟩ ∧
      (⟨"/p/t.gen.ts"⟩ : Path).listed scan.generated = true ∧
      (⟨"/p/t.gen.ts"⟩ : Path).listed closure.files = true := by
  obtain ⟨r, hscan, -, -⟩ := isScanned_generatedProject (some [⟨"/p/chosen.ts"⟩])
  have hdiscovered := discovered_of_isReadable (by decide +kernel) hscan
  obtain ⟨r', scan', hscan', hcompute⟩ := ClosureRequest.discovered_fresh_iff.mp hdiscovered
  obtain ⟨rfl, rfl⟩ := hscan.unique hscan'
  have hadded : added generatedProject (generatedRequest (some [⟨"/p/chosen.ts"⟩]))
      (.ofConfig (generatedRequest (some [⟨"/p/chosen.ts"⟩])).config) =
        .ok ([(⟨"/p/chosen.ts"⟩ : Path).normalize], none) := rfl
  have hknown : IsKnown generatedProject .native (generatedRequest (some [⟨"/p/chosen.ts"⟩]))
      ⟨[], [⟨"/p/t.gen.ts"⟩]⟩ ⟨"/p/chosen.ts"⟩ :=
    ⟨_, _, _, native_generatedProject _, hadded, by decide +kernel⟩
  have hlisted : ⟨"/p/chosen.ts"⟩ ∈ ((generatedRequest (some [⟨"/p/chosen.ts"⟩])).fresh generatedProject
      .native).files := by
    obtain ⟨program, more, limit, generated, setupFiles, hprogram, hadded', -, -, hclosure⟩ :=
      value_compute_iff.mp hcompute
    obtain rfl := Except.ok.inj ((native_generatedProject _).symm.trans hprogram)
    obtain ⟨rfl, -⟩ := Prod.mk.inj (Except.ok.inj (hadded.symm.trans hadded'))
    rw [hclosure, mem_files_assembled_iff (by decide +kernel), Path.mem_sortedUnique_iff]
    decide +kernel
  have htypes := listsTypeSources hdiscovered rfl hscan _ hlisted
  have htarget : (⟨"/p/t.gen.ts"⟩ : Path).listed [⟨"/p/t.gen.ts"⟩] = true := by decide +kernel
  exact ⟨r, _, _, rfl, hdiscovered, hscan, hlisted, hknown, htarget,
    htypes.1 hknown _ (imports_in_generatedProject (.inl rfl)) htarget⟩

/-- A setup file is added after generated files were looked for. The one that it imports a type from is
missing. -/
theorem generated_file_of_setup_file_is_missing :
    ∃ r scan closure, (({} : ClosureCache).discover generatedProject .native
        (generatedRequest none)).value.1 = closure ∧
      closure.discovered = true ∧ (generatedRequest none).IsScanned generatedProject r scan ∧
      ⟨"/p/setup.ts"⟩ ∈ closure.files ∧
      ImportWalk.Imports generatedProject (.ofConfig (generatedRequest none).config) (· == .typeOnly)
        ⟨"/p/setup.ts"⟩ ⟨"/p/t.gen.ts"⟩ ∧
      (⟨"/p/t.gen.ts"⟩ : Path).listed scan.generated = true ∧
      (⟨"/p/t.gen.ts"⟩ : Path).isInPackages = false ∧
      (⟨"/p/t.gen.ts"⟩ : Path).listed closure.files = false := by
  obtain ⟨r, hscan, htest, hfind⟩ := isScanned_generatedProject none
  have hdiscovered := discovered_of_isReadable (by decide +kernel) hscan
  obtain ⟨r', scan', hscan', hcompute⟩ := ClosureRequest.discovered_fresh_iff.mp hdiscovered
  obtain ⟨rfl, rfl⟩ := hscan.unique hscan'
  obtain ⟨program, more, limit, generated, setupFiles, hprogram, hadded, hgenerated, hsetup, hclosure⟩ :=
    value_compute_iff.mp hcompute
  obtain rfl := Except.ok.inj ((native_generatedProject _).symm.trans hprogram)
  have hmore : (added generatedProject (generatedRequest none)
      (.ofConfig (generatedRequest none).config)).toOption.map (·.1) = some [⟨"/p/a.test.ts"⟩] := by
    decide +kernel
  obtain rfl := Fallible.of_toOption hadded hmore
  obtain rfl : setupFiles = [⟨"/p/setup.ts"⟩] := by
    have hall : (generatedRequest none).roots.any (r.isTest (generatedRequest none).projectDir) = true := by
      rw [generatedRequest, List.any_cons, htest, Bool.true_or]
    have hnone : (generatedRequest none).includes.isNone = true := rfl
    rw [setupFilesOf, hall, Bool.and_true, if_pos hnone] at hsetup
    exact Except.ok.inj (hsetup.symm.trans hfind)
  -- nothing is imported by the test, which is all that is known
  obtain rfl : generated = [] := by
    refine List.eq_nil_iff_forall_not_mem.mpr fun target htarget => ?_
    obtain ⟨-, f, hf, himport⟩ := of_mem_typeOnlyGenerated hgenerated htarget
    have hmem := Path.mem_of_mem_sortedUnique hf
    simp only [generatedRequest, List.mem_append, List.mem_reverse, List.mem_singleton, List.not_mem_nil,
      or_false, or_self] at hmem
    have hnothing : (ImportWalk.targetsOf generatedProject (.ofConfig (generatedRequest none).config)
        (· == .typeOnly) ⟨"/p/a.test.ts"⟩).toOption = some [] := by decide +kernel
    subst hmem
    exact List.not_mem_nil
      ((ImportWalk.mem_targetsOf_iff (Fallible.toOption_eq_some_iff.mp hnothing)).mpr himport)
  refine ⟨r, _, (generatedRequest none).fresh generatedProject .native, rfl, hdiscovered, hscan, ?_,
    imports_in_generatedProject (.inr rfl), by decide +kernel, by decide +kernel, ?_⟩
  · rw [hclosure, assembled, List.mem_filter, Path.mem_sortedUnique_iff, List.append_nil, List.find?_append,
      Path.find?_sortedUnique]
    decide +kernel
  · rw [hclosure, Bool.eq_false_iff, ne_eq, assembled, Path.listed_filter_outside, Path.listed_sortedUnique,
      List.append_nil, Path.listed_append, Path.listed_sortedUnique]
    decide +kernel

end ClosureCache

end ScopedCheck
