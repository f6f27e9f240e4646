import ScopedCheck.Proofs.Check.Grouping
import ScopedCheck.Proofs.Check.Outcome
import ScopedCheck.Proofs.Path.Kind
/-! # No file that was asked for is lost

A file that a pattern stands for is put into the group of its config or stays behind with the reason.
Every group comes to an end, and its files are checked unless the compiler takes them for no sources,
or the group is among the failures. -/

namespace ScopedCheck

namespace Check

open Checking

/-- The groups of a check, each with the session in which it has its turn. -/
def turnsOf (s : Surroundings) (host : ProgramHost) (options : CheckOptions) (cwd : Path) :
    List FileGroup → Session → List (FileGroup × Session)
  | [], _ => []
  | group :: rest, session =>
      (group, session)
        :: turnsOf s host options cwd rest ((group.check s host options cwd).run.run session).2

/-- The session that is left when all groups had their turns. -/
def afterTurns (s : Surroundings) (host : ProgramHost) (options : CheckOptions) (cwd : Path) :
    List FileGroup → Session → Session
  | [], session => session
  | group :: rest, session =>
      afterTurns s host options cwd rest ((group.check s host options cwd).run.run session).2

/-- What a group came to in its turn. -/
def finishedIn (s : Surroundings) (host : ProgramHost) (options : CheckOptions) (cwd : Path)
    (turn : FileGroup × Session) (position : Nat) : FinishedGroup :=
  ⟨position, turn.1.configPath, turn.1.patterns, ((turn.1.check s host options cwd).run.run turn.2).1⟩

/-- Groups are checked in their turns, and each comes to an end with what its check gives there. -/
theorem run_checkGroups (s : Surroundings) (host : ProgramHost) (options : CheckOptions) (cwd : Path)
    (groups : List FileGroup) (session : Session) :
    (checkGroups s host options cwd groups).run session =
      ((turnsOf s host options cwd groups session).zipIdx.map fun entry =>
          finishedIn s host options cwd entry.1 entry.2,
        afterTurns s host options cwd groups session) := by
  have hfrom : ∀ (first : Nat) (session : Session),
      ((groups.zipIdx first).mapM fun entry => do
          let outcome ← (entry.1.check s host options cwd).run
          return (⟨entry.2, entry.1.configPath, entry.1.patterns, outcome⟩ : FinishedGroup) :
            StateM Session (List FinishedGroup)).run session =
        (((turnsOf s host options cwd groups session).zipIdx first).map fun entry =>
            finishedIn s host options cwd entry.1 entry.2,
          afterTurns s host options cwd groups session) := by
    induction groups with
    | nil => exact fun _ _ => rfl
    | cons group rest ih =>
        intro first session
        have hrest := ih (first + 1) ((group.check s host options cwd).run.run session).2
        rw [turnsOf, afterTurns, List.zipIdx_cons, List.zipIdx_cons, List.mapM_cons, List.map_cons,
          ← (Prod.mk.inj hrest).1, ← (Prod.mk.inj hrest).2]
        rfl
  exact hfrom 0 session

theorem exists_turn {s : Surroundings} {host : ProgramHost} {options : CheckOptions} {cwd : Path}
    {groups : List FileGroup} (session : Session) {group : FileGroup} (h : group ∈ groups) :
    ∃ turn, (group, turn) ∈ turnsOf s host options cwd groups session := by
  induction groups generalizing session with
  | nil => cases h
  | cons head rest ih =>
      rcases List.mem_cons.mp h with rfl | h
      · exact ⟨session, List.mem_cons_self ..⟩
      · obtain ⟨turn, hturn⟩ := ih ((head.check s host options cwd).run.run session).2 h
        exact ⟨turn, List.mem_cons_of_mem _ hturn⟩

theorem mem_checkGroups (s : Surroundings) (host : ProgramHost) (options : CheckOptions) (cwd : Path)
    {groups : List FileGroup} (session : Session) {group : FileGroup} (h : group ∈ groups) :
    ∃ turn position, (group, turn) ∈ turnsOf s host options cwd groups session ∧
      ⟨position, group.configPath, group.patterns, ((group.check s host options cwd).run.run turn).1⟩ ∈
        ((checkGroups s host options cwd groups).run session).1 := by
  obtain ⟨turn, hturn⟩ := exists_turn session h
  obtain ⟨position, hposition⟩ := List.mem_iff_getElem?.mp hturn
  refine ⟨turn, position, hturn, ?_⟩
  rw [run_checkGroups]
  exact List.mem_map.mpr
    ⟨((group, turn), position), List.mem_zipIdx_iff_getElem?.mpr hposition, rfl⟩

/-- Whether a file is a source under a config as it is when the groups of that config have their
turns. -/
def IsSourceInTurn (turns : List (FileGroup × Session)) (path file : Path) : Prop :=
  ∀ turn ∈ turns, turn.1.configPath.same path = true →
    ∀ kept configs, turn.2.configs.load turn.2.tree turn.1.configPath = .ok (kept, configs) →
      file.isSource kept.config.allowsUntyped = true

/-- A file is among the checked ones, or a failure names the pattern that it was asked for by, the file
itself or the config that governs it. -/
def Covers (result : CheckResult) (pattern : String) (config : Except Failure Path) (file : Path) :
    Prop :=
  file.listed result.checkedFiles = true ∨
    ∃ failure ∈ result.failures, pattern ∈ failure.patterns ∨
      (isGlobText pattern = true ∧ file.text ∈ failure.patterns) ∨
        ∃ path governed, config = .ok path ∧ failure.configPath = some governed ∧
          governed.same path = true

theorem mem_inOrder {groups : List FinishedGroup} {group : FinishedGroup} :
    group ∈ FinishedGroup.inOrder groups ↔ group ∈ groups :=
  (List.mergeSort_perm groups _).mem_iff

/-- What a finished group found is part of the result. -/
theorem mem_checkedFiles {finished : List FinishedGroup} {unresolved : List Unresolved}
    {group : FinishedGroup} (hgroup : group ∈ finished) {output : GroupOutput}
    (houtput : group.outcome = .ok (some output)) {file : Path} (hfile : file ∈ output.checkedFiles) :
    file ∈ (CheckResult.collect finished unresolved).checkedFiles := by
  simp only [CheckResult.collect, CheckResult.ofOutputs, List.mem_flatMap, List.mem_filterMap,
    mem_inOrder]
  exact ⟨output, ⟨group, hgroup, by simp [FinishedGroup.output?, houtput]⟩, hfile⟩

/-- The failure of a finished group is part of the result. -/
theorem mem_failures {finished : List FinishedGroup} {unresolved : List Unresolved}
    {group : FinishedGroup} (hgroup : group ∈ finished) {failure : Failure}
    (hfailure : group.outcome = .error failure) :
    ⟨some group.configPath, group.patterns, failure⟩ ∈
      (CheckResult.collect finished unresolved).failures := by
  simp only [CheckResult.collect, CheckResult.ofOutputs, List.mem_append, List.mem_filterMap,
    mem_inOrder]
  exact Or.inl ⟨group, hgroup, by simp [FinishedGroup.failure?, hfailure]⟩

theorem mem_failures_of_unresolved {finished : List FinishedGroup} {unresolved : List Unresolved}
    {left : Unresolved} (h : left ∈ unresolved) :
    ⟨none, [left.pattern], left.failure⟩ ∈ (CheckResult.collect finished unresolved).failures := by
  simp only [CheckResult.collect, CheckResult.ofOutputs, List.mem_append, List.mem_map]
  exact Or.inr ⟨left, h, rfl⟩

/-- A file that was grouped is covered by the result. -/
theorem covers_of_holds {s : Surroundings} {host : ProgramHost} {options : CheckOptions} {cwd : Path}
    {grouping : Grouping} {session : Session} {config : Except Failure Path} {pattern : String}
    {file : Path} (hholds : grouping.Holds config pattern file)
    (hsource : ∀ path, config = .ok path →
      IsSourceInTurn (turnsOf s host options cwd grouping.groups session) path file) :
    Covers
      (CheckResult.collect ((checkGroups s host options cwd grouping.groups).run session).1
        grouping.unresolved)
      pattern config file := by
  cases config with
  | error failure =>
      refine Or.inr ⟨_, mem_failures_of_unresolved hholds, ?_⟩
      by_cases hglob : isGlobText pattern = true
      · exact Or.inr (Or.inl ⟨hglob, by simp [hglob]⟩)
      · exact Or.inl (by simp [hglob])
  | ok path =>
      obtain ⟨group, hgroup, hpath, hpattern, hfile⟩ := hholds
      obtain ⟨turn, position, hturn, hfinished⟩ :=
        mem_checkGroups s host options cwd session hgroup
      rcases houtcome : (group.check s host options cwd).run.run turn with ⟨failure | output, next⟩
      · rw [houtcome] at hfinished
        exact Or.inr ⟨_, mem_failures hfinished rfl, Or.inl hpattern⟩
      · rw [houtcome] at hfinished
        obtain ⟨kept, configs, hload, hchecked⟩ := FileGroup.of_gives_check houtcome
        have hkept := hsource path rfl (group, turn) hturn hpath kept configs hload
        obtain ⟨listed, hlisted, hparts⟩ := Path.listed_iff.mp hfile
        have hmem : listed ∈ group.sources kept.config := by
          rw [FileGroup.sources, List.mem_filter, ← Path.isSource_eq hparts]
          exact ⟨hlisted, hkept⟩
        rw [← hchecked] at hmem
        cases output with
        | none => simp at hmem
        | some output =>
            exact Or.inl (Path.listed_iff.mpr ⟨listed, mem_checkedFiles hfinished rfl hmem, hparts⟩)

/-- The turns that the groups of a check have. -/
def turns (s : Surroundings) (host : ProgramHost) (options : CheckOptions) (patterns : List String)
    (session : Session) : List (FileGroup × Session) :=
  match Grouping.ofPatterns session.tree (workingDir s options) (options.effectiveProject s.project)
      patterns with
  | .ok grouping => turnsOf s host options (workingDir s options) grouping.groups session
  | .error _ => []

/-- Whether a pattern stands for a file: a pattern without glob characters for the one that it names,
and a glob for those that it expands to. -/
def StandsFor (tree : FileTree) (cwd : Path) (pattern : String) (file : Path) : Prop :=
  if isGlobText pattern then
    ∃ expansion, Expansion.ofPatterns tree cwd [pattern] = .ok expansion ∧ file ∈ expansion.files
  else file = cwd.absolutize ⟨pattern⟩

theorem ofPatterns_of_not_glob (tree : FileTree) (cwd : Path) {pattern : String}
    (h : isGlobText pattern = false) :
    Expansion.ofPatterns tree cwd [pattern] = .ok { files := [cwd.absolutize ⟨pattern⟩] } := by
  simp [Expansion.ofPatterns, Expansion.addPattern, h, Expansion.addFiles, Path.listed, pure,
    Except.pure, bind, Except.bind]

theorem eq_of_orStop {stopOnFailure : Bool} {collected result : CheckResult}
    (h : collected.orStop stopOnFailure = .ok result) : collected = result := by
  unfold CheckResult.orStop at h
  split at h
  · cases h
  · exact Except.ok.inj h

/-- A check gives what was collected, or fails as a whole and says so for all patterns. -/
theorem result_of_gives_run {s : Surroundings} {host : ProgramHost} {options : CheckOptions}
    {patterns : List String} {session next : Session} {result : CheckResult}
    (hrun : Gives (run s host options patterns) session result next) :
    (∃ halt, Grouping.ofPatterns session.tree (workingDir s options)
          (options.effectiveProject s.project) patterns = .error halt ∧
        result = CheckResult.ofOutputs [] [⟨none, patterns, halt.failure (s.taskNumber none)⟩]) ∨
      ∃ grouping, Grouping.ofPatterns session.tree (workingDir s options)
          (options.effectiveProject s.project) patterns = .ok grouping ∧
        result = CheckResult.collect
          ((checkGroups s host options (workingDir s options) grouping.groups).run session).1
          grouping.unresolved ∧
        next.invocations =
          (afterTurns s host options (workingDir s options) grouping.groups session).invocations := by
  obtain ⟨_, _, hvalid, hrest⟩ := gives_bind_iff.mp hrun
  obtain ⟨-, rfl⟩ := gives_orFail_iff.mp hvalid
  by_cases hempty : patterns.isEmpty = true
  · simp only [hempty, if_true] at hrest
    obtain ⟨_, _, hthrow, -⟩ := gives_bind_iff.mp hrest
    exact absurd hthrow not_gives_throw
  · simp only [hempty] at hrest
    obtain ⟨_, _, hget, hgrouped⟩ := gives_bind_iff.mp hrest
    obtain ⟨rfl, rfl⟩ := gives_get_iff.mp hget
    cases hgrouping : Grouping.ofPatterns _ (workingDir s options)
        (options.effectiveProject s.project) patterns with
    | error halt =>
        rw [hgrouping] at hgrouped
        obtain ⟨hwhole, -⟩ := gives_orFail_iff.mp hgrouped
        exact Or.inl ⟨halt, rfl, (eq_of_orStop hwhole).symm⟩
    | ok grouping =>
        rw [hgrouping] at hgrouped
        obtain ⟨finished, mid, hfinished, hcollected⟩ := gives_bind_iff.mp hgrouped
        have hvalue := gives_lift_iff.mp hfinished
        obtain ⟨collected, again, hcollect, hrest⟩ := gives_bind_iff.mp hcollected
        obtain ⟨hresult, hagain⟩ := gives_orFail_iff.mp hcollect
        obtain ⟨_, last, htell, hpure⟩ := gives_bind_iff.mp hrest
        obtain ⟨rfl, rfl⟩ := gives_pure_iff.mp hpure
        have htold : again.invocations = next.invocations :=
          congrArg (fun found => found.2.invocations) htell
        refine Or.inr ⟨grouping, rfl, ?_, ?_⟩
        · rw [hvalue]
          exact (eq_of_orStop hresult).symm
        · rw [run_checkGroups] at hvalue
          rw [← htold, hagain, ← (Prod.mk.inj hvalue).2]

/-- A check that does not stop at failures gives what was collected, or fails as a whole and says so
for all patterns. -/
theorem of_gives_run {s : Surroundings} {host : ProgramHost} {options : CheckOptions}
    {patterns : List String} {session next : Session} {result : CheckResult}
    (hrun : Gives (run s host options patterns) session result next)
    (_hstop : options.stopOnFailure = false) :
    (∃ failure ∈ result.failures, failure.patterns = patterns) ∨
      ∃ grouping, Grouping.ofPatterns session.tree (workingDir s options)
          (options.effectiveProject s.project) patterns = .ok grouping ∧
        result = CheckResult.collect
          ((checkGroups s host options (workingDir s options) grouping.groups).run session).1
          grouping.unresolved := by
  rcases result_of_gives_run hrun with ⟨halt, -, rfl⟩ | ⟨grouping, hgrouping, hresult, -⟩
  · exact Or.inl ⟨_, List.mem_singleton_self _, rfl⟩
  · exact Or.inr ⟨grouping, hgrouping, hresult⟩

/-- No file that was asked for is lost: if a check that does not stop at failures gives a result, every
file that a pattern stands for and that is a source under the config that governs it is checked, or a
failure says why not. -/
theorem requested_file_is_covered {s : Surroundings} {host : ProgramHost} {options : CheckOptions}
    {patterns : List String} {session next : Session} {result : CheckResult}
    (hrun : Gives (run s host options patterns) session result next)
    (hstop : options.stopOnFailure = false) {pattern : String} (hpattern : pattern ∈ patterns)
    {file : Path} (hfile : StandsFor session.tree (workingDir s options) pattern file)
    (hsource : ∀ path,
      Grouping.governing session.tree (workingDir s options) (options.effectiveProject s.project) file =
        .ok path →
      IsSourceInTurn (turns s host options patterns session) path file) :
    Covers result pattern
      (Grouping.governing session.tree (workingDir s options) (options.effectiveProject s.project) file)
      file := by
  rcases of_gives_run hrun hstop with ⟨failure, hfailure, hpatterns⟩ | ⟨grouping, hgrouping, rfl⟩
  · exact Or.inr ⟨failure, hfailure, Or.inl (hpatterns ▸ hpattern)⟩
  · simp only [turns, hgrouping] at hsource
    rcases Grouping.of_ofPatterns hgrouping hpattern with
      ⟨failure, hleft⟩ | ⟨expansion, hexpansion, hholds⟩
    · exact Or.inr ⟨_, mem_failures_of_unresolved hleft, Or.inl (by simp)⟩
    · have hmem : file ∈ expansion.files := by
        unfold StandsFor at hfile
        split at hfile
        · obtain ⟨other, hother, hmem⟩ := hfile
          rw [← Except.ok.inj (hother.symm.trans hexpansion)]
          exact hmem
        · rename_i hglob
          have hliteral :=
            ofPatterns_of_not_glob session.tree (workingDir s options) (by simpa using hglob)
          rw [← Except.ok.inj (hliteral.symm.trans hexpansion), hfile]
          simp
      exact covers_of_holds (hholds file hmem) hsource

/-- A project with a plainly named source, a source whose name looks like a glob, and a compiler that
finds nothing. -/
def bracketProject : FileTree :=
  ⟨[("p".toList, .dir [("tsconfig.json".toList, .file { content := .text "\x7b\x7d" }),
    ("a.ts".toList, .file { content := .text "" }),
    ("[id].ts".toList, .file { content := .text "" }),
    ("tsc".toList, .file { content := .text "", mode := 0o755, program := some {} })])]⟩

/-- A project with a source, a compiler that finds nothing, and another source below a config that is
broken. -/
def mixedProject : FileTree :=
  ⟨[("p".toList, .dir [("tsconfig.json".toList, .file { content := .text "\x7b\x7d" }),
    ("a.ts".toList, .file { content := .text "" }),
    ("tsc".toList, .file { content := .text "", mode := 0o755, program := some {} }),
    ("q".toList, .dir [("tsconfig.json".toList, .file { content := .text "\x7b" }),
      ("b.ts".toList, .file { content := .text "" })])])]⟩

/-- Checks in the directory of these projects. -/
def bracketSurroundings : Surroundings := { currentDir := ⟨"/p"⟩, tempDir := ⟨"/tmp"⟩ }

/-- Checks with that compiler, which go on after failures. -/
def bracketOptions : CheckOptions where
  stopOnFailure := false
  compilers := some { primary := some ⟨"/p/tsc"⟩, standard := some ⟨"/p/tsc"⟩ }
  heuristics := ⟨[], [], [], []⟩

theorem gives_of_result {patterns : List String} {session : Session} {files : List Path}
    {failures : List GroupFailure}
    (h : ((run bracketSurroundings .native bracketOptions patterns).run.run session).1.toOption.map
      (fun result => (result.checkedFiles, result.failures)) = some (files, failures)) :
    ∃ result next, Gives (run bracketSurroundings .native bracketOptions patterns) session result next ∧
      result.checkedFiles = files ∧ result.failures = failures := by
  obtain ⟨result, hrun, hresult⟩ := exists_gives h
  exact ⟨result, _, hrun, Prod.mk.inj hresult⟩

/-- In that project a file with a plain name is checked. -/
theorem exists_gives_of_plain_name :
    ∃ result next,
      Gives (run bracketSurroundings .native bracketOptions ["a.ts"]) { tree := bracketProject } result
        next ∧
      result.checkedFiles = [⟨"/p/a.ts"⟩] := by
  obtain ⟨result, next, hrun, hfiles, -⟩ := gives_of_result
    (show ((run bracketSurroundings .native bracketOptions ["a.ts"]).run.run
        { tree := bracketProject }).1.toOption.map
          (fun result => (result.checkedFiles, result.failures)) = some ([⟨"/p/a.ts"⟩], []) by
      decide +kernel)
  exact ⟨result, next, hrun, hfiles⟩

theorem requested_file_is_covered_in_bracketProject :
    ∃ result next,
      Gives (run bracketSurroundings .native bracketOptions ["a.ts"]) { tree := bracketProject } result
        next ∧
      bracketOptions.stopOnFailure = false ∧ "a.ts" ∈ ["a.ts"] ∧
      StandsFor bracketProject (workingDir bracketSurroundings bracketOptions) "a.ts" ⟨"/p/a.ts"⟩ ∧
      Covers result "a.ts" (.ok ⟨"/p/tsconfig.json"⟩) ⟨"/p/a.ts"⟩ ∧
      result.checkedFiles = [⟨"/p/a.ts"⟩] := by
  obtain ⟨result, next, hrun, hfiles⟩ := exists_gives_of_plain_name
  have hstands : StandsFor bracketProject (workingDir bracketSurroundings bracketOptions) "a.ts"
      ⟨"/p/a.ts"⟩ := by
    have hplain : isGlobText "a.ts" = false := by decide
    simp only [StandsFor, hplain, Bool.false_eq_true, if_false]
    decide +kernel
  have hgoverning : Grouping.governing bracketProject (workingDir bracketSurroundings bracketOptions)
      (bracketOptions.effectiveProject bracketSurroundings.project) ⟨"/p/a.ts"⟩ =
        .ok ⟨"/p/tsconfig.json"⟩ := by
    decide +kernel
  have hcovers := requested_file_is_covered hrun rfl (List.mem_singleton_self _) hstands
    (fun path _ turn _ _ kept configs _ => by
      have htyped : (⟨"/p/a.ts"⟩ : Path).endsInOneOf Path.typedExtensions = true := by decide +kernel
      simp [Path.isSource, htyped])
  rw [hgoverning] at hcovers
  exact ⟨result, next, hrun, rfl, List.mem_singleton_self _, hstands, hcovers, hfiles⟩

/-- A file whose name looks like a glob is lost: it is there, its config governs it and takes it for a
source, and a check that asks for it by its name neither checks it nor says why not. -/
theorem bracketed_name_is_lost :
    ∃ result next,
      Gives (run bracketSurroundings .native bracketOptions ["[id].ts"]) { tree := bracketProject }
        result next ∧
      bracketProject.isFile ((workingDir bracketSurroundings bracketOptions).absolutize ⟨"[id].ts"⟩) =
        true ∧
      Grouping.governing bracketProject (workingDir bracketSurroundings bracketOptions)
        (bracketOptions.effectiveProject bracketSurroundings.project) ⟨"/p/[id].ts"⟩ =
          .ok ⟨"/p/tsconfig.json"⟩ ∧
      (∀ config : Config, (⟨"/p/[id].ts"⟩ : Path).isSource config.allowsUntyped = true) ∧
      ¬Covers result "[id].ts" (.ok ⟨"/p/tsconfig.json"⟩) ⟨"/p/[id].ts"⟩ := by
  obtain ⟨result, next, hrun, hfiles, hfailures⟩ := gives_of_result
    (show ((run bracketSurroundings .native bracketOptions ["[id].ts"]).run.run
        { tree := bracketProject }).1.toOption.map
          (fun result => (result.checkedFiles, result.failures)) = some ([], []) by
      decide +kernel)
  refine ⟨result, next, hrun, by decide +kernel, by decide +kernel, fun config => ?_, ?_⟩
  · have htyped : (⟨"/p/[id].ts"⟩ : Path).endsInOneOf Path.typedExtensions = true := by
      decide +kernel
    simp [Path.isSource, htyped]
  · rintro (hlisted | ⟨failure, hfailure, -⟩)
    · rw [hfiles] at hlisted
      simp [Path.listed] at hlisted
    · rw [hfailures] at hfailure
      simp at hfailure

end Check

end ScopedCheck
