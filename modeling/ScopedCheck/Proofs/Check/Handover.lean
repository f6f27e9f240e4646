import ScopedCheck.Proofs.Check.Session
import ScopedCheck.Proofs.Compiler.Execute
import ScopedCheck.Proofs.TempConfig.Registry
/-! # Files that are handed to a compiler

The compiler of a group is started on a temporary config, and a file that counts as checked is among the
files of that config, unless it lies in an installed package: these are left out of what is discovered. A
config writes backslashes as slashes, so that a name with a backslash becomes another one. -/

namespace ScopedCheck

/-- Whether the config that a compiler was started on reads as one that lists a file. -/
def Invocation.Lists (i : Invocation) (file : Path) : Prop :=
  ∃ document files, Document.parse i.document = .ok document ∧ document.files = some files ∧
    file.text ∈ files

theorem Invocation.lists_iff {i : Invocation} {file : Path} :
    i.Lists file ↔
      file.text ∈ ((Document.parse i.document).toOption.bind Document.files).getD [] := by
  unfold Invocation.Lists
  cases Document.parse i.document with
  | error failure => simp [Except.toOption]
  | ok document => cases hfiles : document.files <;> simp [Except.toOption, hfiles]

instance (i : Invocation) (file : Path) : Decidable (i.Lists file) :=
  decidable_of_iff _ Invocation.lists_iff.symm

/-- Whether it was noted that a compiler was started. Nothing is noted behind a compiler that stops
whoever started it. -/
def Session.HasNoted (session : Session) (i : Invocation) : Prop :=
  i ∈ session.invocations ∨ ∃ j ∈ session.invocations, j.signal.isSome = true

namespace FileGroup

open Checking

variable {s : Surroundings} {host : ProgramHost} {options : CheckOptions} {cwd : Path}
  {group : FileGroup} {session : Session}

/-- What a group asks for its closure under a config, with the files that were added by choice. -/
def closureRequest (options : CheckOptions) (group : FileGroup) (config : Config)
    (includes : Option (List Path)) : ClosureRequest where
  config
  roots := group.sources config
  projectDir := config.dir
  verbose := options.verbose
  includes
  limits := options.limits
  heuristics := options.heuristics

/-- A group that is made ready has its sources for roots, and a temporary config was written for their
closure. -/
theorem of_gives_prepare_some {p : PreparedGroup} {ready : Session}
    (h : Gives (group.prepare s host options cwd) session (some p) ready) :
    ∃ kept configs includes closures,
      session.configs.load session.tree group.configPath = .ok (kept, configs) ∧
      (options.includes = none → includes = none) ∧
      (session.closures.discover session.tree host
        (group.closureRequest options kept.config includes)).value = (p.closure, closures) ∧
      p.roots = group.sources kept.config ∧
      ready.tree.readText p.handle.path = .ok (TempConfig.content kept.config
        (p.closure.selection p.roots) options.synthesis kept.config.dir).pretty := by
  obtain ⟨config, loaded, hload, h⟩ := gives_bind_iff.mp h
  obtain ⟨kept, configs, hkept, rfl, rfl⟩ := of_gives_loadConfig hload
  by_cases hempty : (group.sources kept.config).isEmpty = true
  · simp only [hempty, if_true] at h
    obtain ⟨_, _, -, hpure⟩ := gives_bind_iff.mp h
    obtain ⟨hnone, -⟩ := gives_pure_iff.mp hpure
    cases hnone
  · simp only [hempty] at h
    obtain ⟨⟨selection, compilers⟩, chosen, hchoose, hadd⟩ := gives_bind_iff.mp h
    obtain ⟨log, rfl⟩ := of_gives_chooseCompiler hchoose
    obtain ⟨includes, added, hincludes, hdiscover⟩ := gives_bind_iff.mp hadd
    obtain ⟨rfl, hnone⟩ := of_gives_chosenIncludes hincludes
    obtain ⟨closure, discovered, hfound, hcreate⟩ := gives_bind_iff.mp hdiscover
    obtain ⟨closures, hclosure⟩ := of_gives_discover hfound
    obtain ⟨handle, created, hwritten, hpure⟩ := gives_bind_iff.mp hcreate
    obtain ⟨temps, hcreated⟩ := of_gives_createConfig hwritten
    obtain ⟨hp, rfl⟩ := gives_pure_iff.mp hpure
    obtain rfl := Option.some.inj hp
    exact ⟨kept, configs, includes, closures, hkept, hnone, hclosure, rfl,
      TempConfig.Registry.readText_of_create hcreated⟩

/-- In its turn a group was made ready, a compiler was started on its temporary config, and this came to
an output. -/
def IsCompiledBy (s : Surroundings) (host : ProgramHost) (options : CheckOptions) (cwd : Path)
    (group : FileGroup) (session : Session) (i : Invocation) (output : GroupOutput) : Prop :=
  ∃ p ready e done, Gives (group.prepare s host options cwd) session (some p) ready ∧
    Gives (compile options cwd p) ready e done ∧ output = outputOf p e ∧
    Invocation.of? ready.tree cwd p.handle.path p.compilers e.compiler = some i ∧ done.HasNoted i

/-- What a group came to is the output of a compiler that was started. -/
theorem exists_isCompiledBy {output : GroupOutput} {next : Session}
    (h : Gives (group.check s host options cwd) session (some output) next) :
    ∃ i, group.IsCompiledBy s host options cwd session i output ∧ next.HasNoted i := by
  obtain ⟨prepared, ready, hprepare, h⟩ := gives_bind_iff.mp h
  cases prepared with
  | none =>
      obtain ⟨hnone, -⟩ := gives_pure_iff.mp h
      cases hnone
  | some p =>
      obtain ⟨e, done, hcompile, h⟩ := gives_bind_iff.mp h
      obtain ⟨execution, ran, hrun, hrelease⟩ := gives_bind_iff.mp hcompile
      obtain ⟨started, hstarted, hnoted⟩ := of_gives_runCompilers hrun
      obtain ⟨_, released, hreleased, hpure⟩ := gives_bind_iff.mp hrelease
      obtain ⟨rfl, rfl⟩ := gives_pure_iff.mp hpure
      have hdone : done.invocations = ready.invocations ++ started := by
        rw [← hnoted]
        exact (congrArg (fun found => found.2.invocations) hreleased).symm
      cases hfailure : e.systemFailure? with
      | some failure =>
          rw [hfailure] at h
          exact absurd h not_gives_throw
      | none =>
          rw [hfailure] at h
          obtain ⟨_, _, htell, hpure⟩ := gives_bind_iff.mp h
          obtain ⟨houtput, rfl⟩ := gives_pure_iff.mp hpure
          obtain rfl := Option.some.inj houtput
          obtain rfl := gives_tell_iff.mp htell
          obtain ⟨i, hi, hamong⟩ := exists_started_of_execute hstarted hfailure
          have hnotes : done.HasNoted i := by
            rw [Session.HasNoted, hdone]
            rcases hamong with hmem | ⟨j, hj, hsignal⟩
            · exact Or.inl (List.mem_append_right _ hmem)
            · exact Or.inr ⟨j, List.mem_append_right _ hj, hsignal⟩
          exact ⟨i, ⟨p, ready, e, done, hprepare, hcompile, rfl, hi, hnotes⟩, hnotes⟩

/-- The config that a compiler was started on lists what was selected for the closure of the group. -/
theorem IsCompiledBy.lists_iff (hsession : session.IsSound) {i : Invocation} {output : GroupOutput}
    (h : group.IsCompiledBy s host options cwd session i output) :
    ∃ kept configs includes closure closures,
      session.configs.load session.tree group.configPath = .ok (kept, configs) ∧
      (options.includes = none → includes = none) ∧
      (session.closures.discover session.tree host
        (group.closureRequest options kept.config includes)).value = (closure, closures) ∧
      output.checkedFiles = group.sources kept.config ∧
      output.summary.discovered = closure.discovered ∧
      ∀ file : Path, i.Lists file ↔
        file.text ∈ (closure.selection output.checkedFiles).files.map Path.slashed := by
  obtain ⟨p, ready, e, done, hprepare, -, rfl, hi, -⟩ := h
  obtain ⟨kept, configs, includes, closures, hkept, hnone, hclosure, hroots, htext⟩ :=
    of_gives_prepare_some hprepare
  have hconfig := (ConfigCache.forall_kept_load (fun _ _ _ => Config.isSound_of_load)
    hsession.configs hkept).1
  obtain ⟨document, hparse, hfiles⟩ := TempConfig.parse_content_files hconfig
    (p.closure.selection p.roots) options.synthesis kept.config.dir
  have hdocument := Invocation.document_of?_eq_some hi
  rw [htext] at hdocument
  refine ⟨kept, configs, includes, p.closure, closures, hkept, hnone, hclosure, hroots, rfl,
    fun file => ?_⟩
  rw [Invocation.lists_iff, hdocument]
  simp [Except.toOption, hparse, hfiles, outputOf]

/-- That config lists the checked files, as far as they lie outside of installed packages and no
backslash is in their names. -/
theorem IsCompiledBy.lists_of_mem (hgroup : group.IsNormal) (hsession : session.IsSound)
    {i : Invocation} {output : GroupOutput}
    (h : group.IsCompiledBy s host options cwd session i output) {file : Path}
    (hfile : file ∈ output.checkedFiles)
    (houtside : output.summary.discovered = true → file.isInPackages = false)
    (hplain : '\\' ∉ file.chars) : i.Lists file := by
  obtain ⟨kept, configs, includes, closure, closures, -, -, hclosure, hroots, hdiscovered, hlists⟩ :=
    h.lists_iff hsession
  have hnormal : ∀ root ∈ group.sources kept.config, root.normalize = root :=
    fun root hroot => hgroup root (List.mem_filter.mp hroot).1
  rw [hlists, hroots, ← Text.forwardSlashes_eq hplain]
  rw [hroots] at hfile
  rw [hdiscovered] at houtside
  exact List.mem_map_of_mem
    (ClosureCache.mem_selection_of_root hsession.closures hnormal hclosure hfile houtside)

end FileGroup

namespace Check

open Checking

/-- What a result lists as checked was checked in the turn of a group. -/
theorem exists_turn_of_checked {s : Surroundings} {host : ProgramHost} {options : CheckOptions}
    {cwd : Path} {groups : List FileGroup} {unresolved : List Unresolved} {session : Session}
    {file : Path}
    (h : file ∈ (CheckResult.collect ((checkGroups s host options cwd groups).run session).1
      unresolved).checkedFiles) :
    ∃ turn ∈ turnsOf s host options cwd groups session, ∃ output next,
      Gives (turn.1.check s host options cwd) turn.2 (some output) next ∧
      file ∈ output.checkedFiles ∧
      output.summary ∈ (CheckResult.collect ((checkGroups s host options cwd groups).run session).1
        unresolved).groups := by
  simp only [CheckResult.collect, CheckResult.ofOutputs, List.mem_flatMap, List.mem_filterMap,
    List.mem_map, mem_inOrder, run_checkGroups] at h ⊢
  obtain ⟨output, ⟨finished, ⟨entry, hentry, rfl⟩, houtput⟩, hfile⟩ := h
  have hturn : entry.1 ∈ turnsOf s host options cwd groups session :=
    List.mem_of_getElem? (List.mem_zipIdx_iff_getElem?.mp hentry)
  rcases hcheck : (entry.1.1.check s host options cwd).run.run entry.1.2 with ⟨failure | found, next⟩
  · simp [FinishedGroup.output?, finishedIn, hcheck] at houtput
  · obtain rfl : found = some output := by
      simpa [FinishedGroup.output?, finishedIn, hcheck] using houtput
    exact ⟨entry.1, hturn, output, next, hcheck, hfile, output, ⟨_, ⟨entry, hentry, rfl⟩, houtput⟩, rfl⟩

/-- What a result lists as checked is in the output of a compiler that was started. -/
theorem exists_compiled_turn {s : Surroundings} {host : ProgramHost} {options : CheckOptions}
    {patterns : List String} {session next : Session} {result : CheckResult}
    (hsession : session.IsReached) (hrun : Gives (run s host options patterns) session result next)
    {file : Path} (hfile : file ∈ result.checkedFiles) :
    ∃ turn ∈ turns s host options patterns session, ∃ i output,
      turn.1.IsNormal ∧ turn.2.IsSound ∧
      turn.1.IsCompiledBy s host options (workingDir s options) turn.2 i output ∧ next.HasNoted i ∧
      output.summary ∈ result.groups ∧ file ∈ output.checkedFiles := by
  rcases result_of_gives_run hrun with ⟨failure, -, rfl⟩ | ⟨grouping, hgrouping, rfl, hnoted⟩
  · simp [CheckResult.ofOutputs] at hfile
  · simp only [turns, hgrouping]
    obtain ⟨turn, hturn, output, after, hcheck, hchecked, hsummary⟩ := exists_turn_of_checked hfile
    obtain ⟨hnormal, hsound, hlater⟩ := isSound_of_mem_turnsOf
      (Grouping.isNormal_of_ofPatterns hgrouping) hsession.isSound hturn
    obtain ⟨i, hcompiled, hnotes⟩ := FileGroup.exists_isCompiledBy hcheck
    refine ⟨turn, hturn, i, output, hnormal, hsound, hcompiled, ?_, hsummary, hchecked⟩
    rw [show (turn.1.check s host options _).run.run turn.2 = (.ok (some output), after) from hcheck] at hlater
    rw [Session.HasNoted, hnoted]
    rcases hnotes with hmem | ⟨j, hj, hsignal⟩
    · exact Or.inl (hlater i hmem)
    · exact Or.inr ⟨j, hlater j hj, hsignal⟩

/-- Every file that a result lists as checked was handed to a compiler: in the turn of a group, a compiler
was started on a temporary config and its findings are part of the result; and that config lists the
file, unless the file lies in an installed package and the files were discovered, or its name has a
backslash. -/
theorem checked_file_is_listed {s : Surroundings} {host : ProgramHost} {options : CheckOptions}
    {patterns : List String} {session next : Session} {result : CheckResult}
    (hsession : session.IsReached) (hrun : Gives (run s host options patterns) session result next)
    {file : Path} (hfile : file ∈ result.checkedFiles) :
    ∃ turn ∈ turns s host options patterns session, ∃ i output,
      turn.1.IsCompiledBy s host options (workingDir s options) turn.2 i output ∧ next.HasNoted i ∧
      output.summary ∈ result.groups ∧ file ∈ output.checkedFiles ∧
      ((output.summary.discovered = true → file.isInPackages = false) → '\\' ∉ file.chars →
        i.Lists file) := by
  obtain ⟨turn, hturn, i, output, hnormal, hsound, hcompiled, hnoted, hsummary, hchecked⟩ :=
    exists_compiled_turn hsession hrun hfile
  exact ⟨turn, hturn, i, output, hcompiled, hnoted, hsummary, hchecked,
    hcompiled.lists_of_mem hnormal hsound hchecked⟩

theorem checked_file_is_listed_in_bracketProject :
    ∃ result next, Session.IsReached { tree := bracketProject } ∧
      Gives (run bracketSurroundings .native bracketOptions ["a.ts"]) { tree := bracketProject } result
        next ∧
      ⟨"/p/a.ts"⟩ ∈ result.checkedFiles ∧
      ∃ turn ∈ turns bracketSurroundings .native bracketOptions ["a.ts"] { tree := bracketProject },
        ∃ i output, turn.1.IsCompiledBy bracketSurroundings .native bracketOptions
            (workingDir bracketSurroundings bracketOptions) turn.2 i output ∧
          next.HasNoted i ∧ output.summary ∈ result.groups ∧ ⟨"/p/a.ts"⟩ ∈ output.checkedFiles ∧
          i.Lists ⟨"/p/a.ts"⟩ := by
  obtain ⟨result, next, hrun, hfiles⟩ := exists_gives_of_plain_name
  have hfile : ⟨"/p/a.ts"⟩ ∈ result.checkedFiles := hfiles ▸ List.mem_singleton_self _
  obtain ⟨turn, hturn, i, output, hcompiled, hnoted, hsummary, hchecked, hlists⟩ :=
    checked_file_is_listed (.fresh bracketProject) hrun hfile
  exact ⟨result, next, .fresh _, hrun, hfile, turn, hturn, i, output, hcompiled, hnoted, hsummary,
    hchecked, hlists (fun _ => by decide +kernel) (by decide)⟩

/-- A project with a source in an installed package. -/
def packagedProject : FileTree :=
  ⟨[("p".toList, .dir [FileTree.textEntry "tsconfig.json" "\x7b\x7d",
    ("tsc".toList, .file { content := .text "", mode := 0o755, program := some {} }),
    ("node_modules".toList, .dir [("pkg".toList, .dir [FileTree.textEntry "a.ts" ""])])])]⟩

/-- The group of that source. -/
def packagedGroup : FileGroup :=
  ⟨⟨"/p/tsconfig.json"⟩, ["node_modules/pkg/a.ts"], [⟨"/p/node_modules/pkg/a.ts"⟩]⟩

/-- The config of that project. -/
def packagedConfig : Config where
  configPath := ⟨"/p/tsconfig.json"⟩
  chain := [⟨"/p/tsconfig.json"⟩]

/-- The program of a source in an installed package is that source, which a closure leaves out. -/
theorem selection_in_packagedProject :
    ((({} : ClosureCache).discover packagedProject .native
      (packagedGroup.closureRequest bracketOptions packagedConfig none)).value.1.selection
        (packagedGroup.sources packagedConfig)).files = [] := by
  let request := packagedGroup.closureRequest bracketOptions packagedConfig none
  obtain ⟨r, hr, hrecognizer⟩ := Fallible.exists_of_toOption
    (show (Recognizer.ofHeuristics request.heuristics).toOption.map (fun r =>
        (request.roots.any (r.isTest request.projectDir),
          (ProjectScan.ofConfig packagedProject request.config r).toOption)) =
            some (false, some {}) by
      decide +kernel)
  obtain ⟨htest, hscanned⟩ := Prod.mk.inj hrecognizer
  have hscan := Fallible.toOption_eq_some_iff.mp hscanned
  obtain ⟨program, hprogram, htaken⟩ := Fallible.exists_of_toOption
    (show (ImportWalk.ofRoots packagedProject (.ofConfig request.config) request.roots request.limits
      Import.Kind.followedByCompiler).toOption.map (·.taken) = some request.roots by decide +kernel)
  obtain ⟨all, hall, htaken'⟩ := Fallible.exists_of_toOption
    (show (ImportWalk.ofRoots packagedProject (.ofConfig request.config) request.roots request.limits
      fun _ => true).toOption.map (·.taken) = some request.roots by decide +kernel)
  rw [ClosureCache.discover_of_miss rfl ⟨hr, hscan⟩
    (Closure.value_compute_native rfl htest hprogram hall)]
  have hpackaged : ∀ file ∈ request.roots, file.isInPackages = true := by decide +kernel
  simp only [Closure.assembled, Closure.selection, if_true, FileSelection.files, List.append_nil]
  refine List.filter_eq_nil_iff.mpr fun file hfile => ?_
  have hmem := Path.mem_of_mem_sortedUnique (Path.mem_of_mem_sortedUnique hfile)
  simp only [ImportWalk.files, htaken, htaken', List.mem_append, List.mem_reverse, Path.mem_sorted,
    or_self] at hmem
  simp [hpackaged file hmem]

/-- A source in an installed package counts as checked, but the config that the only compiler was started
on does not list it. -/
theorem packaged_file_is_not_listed :
    ∃ result next,
      Gives (run bracketSurroundings .native bracketOptions ["node_modules/pkg/a.ts"])
        { tree := packagedProject } result next ∧
      result.checkedFiles = [⟨"/p/node_modules/pkg/a.ts"⟩] ∧ next.invocations.length = 1 ∧
      ∀ i ∈ next.invocations, ¬i.Lists ⟨"/p/node_modules/pkg/a.ts"⟩ := by
  obtain ⟨result, hrun, hfiles⟩ := exists_gives
    (show ((run bracketSurroundings .native bracketOptions ["node_modules/pkg/a.ts"]).run.run
        { tree := packagedProject }).1.toOption.map (·.checkedFiles) =
          some [⟨"/p/node_modules/pkg/a.ts"⟩] by
      decide +kernel)
  have hsignals : ((run bracketSurroundings .native bracketOptions ["node_modules/pkg/a.ts"]).run.run
      { tree := packagedProject }).2.invocations.map (·.signal) = [none] := by
    decide +kernel
  generalize ((run bracketSurroundings .native bracketOptions ["node_modules/pkg/a.ts"]).run.run
    { tree := packagedProject }).2 = next at hrun hsignals
  obtain ⟨only, honly, hsignal⟩ := List.map_eq_singleton_iff.mp hsignals
  obtain ⟨turn, hturn, i, output, -, hsound, hcompiled, hnoted, -, hchecked⟩ :=
    exists_compiled_turn (.fresh packagedProject) hrun (hfiles ▸ List.mem_singleton_self _)
  obtain rfl : i = only := by
    rw [Session.HasNoted, honly] at hnoted
    rcases hnoted with hi | ⟨j, hj, hsome⟩
    · exact List.mem_singleton.mp hi
    · rw [List.mem_singleton.mp hj, hsignal] at hsome
      cases hsome
  obtain ⟨grouping, hgrouping, hgroups⟩ := Fallible.exists_of_toOption
    (show (Grouping.ofPatterns packagedProject (workingDir bracketSurroundings bracketOptions)
        (bracketOptions.effectiveProject bracketSurroundings.project)
        ["node_modules/pkg/a.ts"]).toOption.map (·.groups) = some [packagedGroup] by
      decide +kernel)
  obtain rfl : turn = (packagedGroup, { tree := packagedProject }) := by
    simpa [turns, hgrouping, hgroups, turnsOf] using hturn
  obtain ⟨kept, configs, includes, closure, closures, hkept, hnone, hclosure, hroots, -, hlists⟩ :=
    hcompiled.lists_iff hsound
  obtain ⟨config, hload, hkeep⟩ := Fallible.bind_eq_ok_iff.mp
    (show ConfigCache.reload {} packagedProject ⟨"/p/tsconfig.json"⟩ = .ok (kept, configs) from hkept)
  obtain ⟨rfl, -⟩ := Prod.mk.inj (Except.ok.inj hkeep)
  have hconfig : config = packagedConfig :=
    Except.ok.inj (hload.symm.trans (by with_unfolding_all rfl))
  rw [hconfig, hnone rfl] at hclosure
  rw [hconfig] at hroots
  refine ⟨result, next, hrun, hfiles, by rw [honly]; rfl, ?_⟩
  rw [honly]
  refine List.forall_mem_singleton.mpr ?_
  have hselection := selection_in_packagedProject
  rw [hclosure] at hselection
  rw [hlists, hroots, hselection]
  exact List.not_mem_nil

end Check

end ScopedCheck
