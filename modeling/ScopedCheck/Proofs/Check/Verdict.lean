import ScopedCheck.Proofs.Check.Completion
import ScopedCheck.Proofs.Compiler.Execute
import ScopedCheck.Proofs.Report
/-! # One verdict

The flag of a result, its exit code and the last line of its report are computed from different parts of
the result. They agree, whatever mixture of groups was content, had findings, had no sources or failed,
and whatever stayed behind. -/

namespace ScopedCheck

namespace FileGroup

open Checking

variable {s : Surroundings} {host : ProgramHost} {options : CheckOptions} {cwd : Path}
  {group : FileGroup} {session : Session}

/-! ## How the check of a group ends -/

/-- Compilers were run on a group that was made ready in its turn. -/
def Executes (s : Surroundings) (host : ProgramHost) (options : CheckOptions) (cwd : Path)
    (group : FileGroup) (session : Session) (e : Execution) : Prop :=
  ∃ p ready done, Gives (group.prepare s host options cwd) session (some p) ready ∧
    Gives (compile options cwd p) ready e done

/-- How the check of a group ends, together with the run of the compilers if there was one. A run without
a failure of the system is either content, and then reports no errors, or has findings. -/
inductive EndsIn : Except Failure (Option GroupOutput) → Option Execution → Prop
  | failed (failure : Failure) : EndsIn (.error failure) none
  | blank : EndsIn (.ok none) none
  | broken {e : Execution} {failure : Failure} (h : e.systemFailure? = some failure) :
      EndsIn (.error failure) (some e)
  | checked (p : PreparedGroup) {e : Execution} (h : e.systemFailure? = none)
      (hcontent : e.outcome = .success → e.findings.errors = []) :
      EndsIn (.ok (some (outputOf p e))) (some e)

theorem errors_of_gives_compile {p : PreparedGroup} {ready done : Session} {e : Execution}
    (h : Gives (compile options cwd p) ready e done) (hcontent : e.outcome = .success) :
    e.findings.errors = [] := by
  obtain ⟨execution, _, hrun, hrelease⟩ := gives_bind_iff.mp h
  obtain ⟨started, hstarted, -⟩ := of_gives_runCompilers hrun
  obtain ⟨_, _, -, hpure⟩ := gives_bind_iff.mp hrelease
  obtain ⟨rfl, -⟩ := gives_pure_iff.mp hpure
  obtain rfl := (Prod.mk.inj hstarted).1
  exact Execution.errors_ofRuns hcontent

/-- The check of a group ends with the run of the compilers, unless it ends before it. -/
theorem exists_endsIn (s : Surroundings) (host : ProgramHost) (options : CheckOptions) (cwd : Path)
    (group : FileGroup) (session : Session) :
    ∃ execution, EndsIn ((group.check s host options cwd).run.run session).1 execution ∧
      ∀ e, execution = some e ↔ group.Executes s host options cwd session e := by
  rw [check, run_bind]
  rcases hprepare : (group.prepare s host options cwd).run.run session with ⟨failure | prepared, ready⟩
  · refine ⟨none, .failed failure, fun e => ⟨fun h => (by cases h), ?_⟩⟩
    rintro ⟨p, _, _, hready, -⟩
    exact absurd hready (not_gives_of_run_error hprepare)
  have hready : Gives (group.prepare s host options cwd) session prepared ready := hprepare
  cases prepared with
  | none =>
      refine ⟨none, .blank, fun e => ⟨fun h => (by cases h), ?_⟩⟩
      rintro ⟨p, mid, _, hother, -⟩
      cases (hready.unique hother).1
  | some p =>
      simp only
      rw [run_bind]
      rcases hcompile : (compile options cwd p).run.run ready with ⟨failure | e, done⟩
      · refine ⟨none, .failed failure, fun e => ⟨fun h => (by cases h), ?_⟩⟩
        rintro ⟨other, mid, _, hother, hrun⟩
        obtain ⟨hsame, rfl⟩ := hready.unique hother
        obtain rfl := Option.some.inj hsame
        exact absurd hrun (not_gives_of_run_error hcompile)
      · have hdone : Gives (compile options cwd p) ready e done := hcompile
        refine ⟨some e, ?_, fun other => ⟨fun h => ?_, ?_⟩⟩
        · cases hfailure : e.systemFailure? with
          | some failure =>
              simp only [hfailure]
              exact .broken hfailure
          | none =>
              simp only [hfailure]
              exact .checked p hfailure (errors_of_gives_compile hdone)
        · obtain rfl := Option.some.inj h
          exact ⟨p, ready, done, hready, hdone⟩
        · rintro ⟨q, mid, _, hother, hrun⟩
          obtain ⟨hsame, rfl⟩ := hready.unique hother
          obtain rfl := Option.some.inj hsame
          rw [(hdone.unique hrun).1]

end FileGroup

/-! ## What a result is judged by -/

/-- A run without a failure of the system is content or has findings. -/
theorem Execution.outcome_of_systemFailure? {e : Execution} (h : e.systemFailure? = none) :
    e.outcome = .success ∨ e.outcome = .typeErrors := by
  unfold systemFailure? at h
  cases houtcome : e.outcome <;> simp [houtcome] at h ⊢

/-- Whether the verdicts of a result agree, with each other and with what the compilers came to that were
run: the counts are those of the lists, the flag and the exit code 0 say that nothing failed and all
compilers were content, the other exit codes say what stands in the way of that, and the last line of the
report says that there are no type errors just when the exit code is 0. -/
structure CheckResult.IsCoherent (result : CheckResult) (executed : Execution → Prop) : Prop where
  errorCount : result.errorCount = result.errors.length
  warningCount : result.warningCount = result.warnings.length
  zero_iff : result.exitCode.code = 0 ↔ result.success = true
  success_iff : result.success = true ↔
    result.failures = [] ∧ ∀ e, executed e → e.outcome = .success
  one_iff : result.exitCode.code = 1 ↔
    result.failures = [] ∧ ∃ e, executed e ∧ e.outcome = .typeErrors
  two_iff : result.exitCode.code = 2 ↔ ∃ f ∈ result.failures, f.failure.isConfigError = true
  three_iff : result.exitCode.code = 3 ↔
    result.failures ≠ [] ∧ ∀ f ∈ result.failures, f.failure.isConfigError = false
  lastLine : ∀ verbose milliseconds, ∃ line,
    (Text.lines ((Reporter.plain verbose).render { result with milliseconds }).toList).getLast? =
      some line ∧ ("No type errors".toList <+: line ↔ result.exitCode.code = 0)

namespace CheckResult

open FileGroup (outputOf EndsIn)

/-- The exit code tells failures of the configuration from others, and without any failure it tells
whether the check was a success. -/
theorem code_exitCode (result : CheckResult) :
    (result.exitCode.code = 0 ↔ result.failures = [] ∧ result.success = true) ∧
    (result.exitCode.code = 1 ↔ result.failures = [] ∧ result.success = false) ∧
    (result.exitCode.code = 2 ↔ ∃ f ∈ result.failures, f.failure.isConfigError = true) ∧
    (result.exitCode.code = 3 ↔
      result.failures ≠ [] ∧ ∀ f ∈ result.failures, f.failure.isConfigError = false) := by
  unfold exitCode
  by_cases hconfig : ∃ f ∈ result.failures, f.failure.isConfigError = true
  · have hany : result.failures.any (·.failure.isConfigError) = true := List.any_eq_true.mpr hconfig
    obtain ⟨f, hf, hat⟩ := hconfig
    have hne : result.failures ≠ [] := List.ne_nil_of_mem hf
    simp only [hany, if_true, ExitCode.code, hne, false_and, ne_eq, not_false_eq_true, true_and]
    refine ⟨by decide, by decide, by simpa using ⟨f, hf, hat⟩, ?_⟩
    simp only [Nat.reduceEqDiff, false_iff, not_forall]
    exact ⟨f, hf, by simp [hat]⟩
  · have hany : result.failures.any (·.failure.isConfigError) = false := by
      rw [Bool.eq_false_iff]
      exact fun h => hconfig (List.any_eq_true.mp h)
    have hnone : ∀ f ∈ result.failures, f.failure.isConfigError = false :=
      fun f hf => Bool.eq_false_iff.mpr fun h => hconfig ⟨f, hf, h⟩
    by_cases hempty : result.failures = []
    · cases hsuccess : result.success <;> simp [hempty, ExitCode.code]
    · have hsome : (!result.failures.isEmpty) = true := by simpa using hempty
      simp only [hany, Bool.false_eq_true, if_false, hsome, if_true, ExitCode.code, hempty, false_and,
        hconfig, ne_eq, not_false_eq_true, true_and, true_iff, Nat.reduceEqDiff]
      exact hnone

/-- The verdicts agree on outputs of compilers that were run, if every run without an output has its
failure among the others. -/
theorem isCoherent_ofOutputs {outputs : List GroupOutput} {failures : List GroupFailure}
    {executed : Execution → Prop}
    (houtputs : ∀ output ∈ outputs, ∃ p e, executed e ∧ output = outputOf p e ∧
      (e.outcome = .success → e.findings.errors = []))
    (hexecuted : failures = [] → ∀ e, executed e →
      e.systemFailure? = none ∧ ∃ p, outputOf p e ∈ outputs) :
    (ofOutputs outputs failures).IsCoherent executed := by
  have hsuccess : (ofOutputs outputs failures).success = true ↔
      failures = [] ∧ ∀ e, executed e → e.outcome = .success := by
    simp only [ofOutputs, Bool.and_eq_true, List.all_eq_true, List.isEmpty_iff, List.flatMap_eq_nil_iff]
    constructor
    · rintro ⟨⟨hall, hnone⟩, -⟩
      refine ⟨hnone, fun e he => ?_⟩
      obtain ⟨-, p, hp⟩ := hexecuted hnone e he
      simpa [outputOf] using hall _ hp
    · rintro ⟨hnone, hall⟩
      refine ⟨⟨fun output houtput => ?_, hnone⟩, fun output houtput => ?_⟩ <;>
        obtain ⟨p, e, he, rfl, herrors⟩ := houtputs output houtput
      · simp [outputOf, hall e he]
      · exact herrors (hall e he)
  obtain ⟨hzero, hone, htwo, hthree⟩ := code_exitCode (ofOutputs outputs failures)
  have hcode : (ofOutputs outputs failures).exitCode.code = 0 ↔
      (ofOutputs outputs failures).success = true :=
    hzero.trans ⟨fun h => h.2, fun h => ⟨(hsuccess.mp h).1, h⟩⟩
  refine ⟨rfl, rfl, hcode, hsuccess, ?_, htwo, hthree, fun verbose milliseconds => ?_⟩
  · rw [hone, Bool.eq_false_iff, ne_eq, hsuccess]
    constructor
    · rintro ⟨hnone, hfailed⟩
      obtain ⟨e, he, hcontent⟩ : ∃ e, executed e ∧ e.outcome ≠ .success := by
        by_contra hall
        exact hfailed ⟨hnone, fun e he => by_contra fun h => hall ⟨e, he, h⟩⟩
      exact ⟨hnone, e, he,
        (Execution.outcome_of_systemFailure? (hexecuted hnone e he).1).resolve_left hcontent⟩
    · rintro ⟨hnone, e, he, hfound⟩
      refine ⟨hnone, fun h => ?_⟩
      have hcontent := h.2 e he
      rw [hfound] at hcontent
      cases hcontent
  · refine ⟨_, Reporter.getLast?_lines_render verbose _, ?_⟩
    rw [← List.isPrefixOf_iff_prefix]
    refine (Reporter.startsWith_summary_iff verbose _).trans ⟨fun h => hcode.mpr h.2.2, fun h => ?_⟩
    have hcontent := hcode.mp h
    refine ⟨?_, (hsuccess.mp hcontent).1, hcontent⟩
    simp only [ofOutputs, Bool.and_eq_true, List.isEmpty_iff] at hcontent
    simp only [ofOutputs, hcontent.2, List.length_nil]

/-- The verdicts agree for all groups that have come to an end in some way, and everything that stayed
behind. -/
theorem isCoherent_collect {ends : List (FinishedGroup × Option Execution)}
    (hends : ∀ entry ∈ ends, EndsIn entry.1.outcome entry.2) (unresolved : List Unresolved) :
    (collect (ends.map (·.1)) unresolved).IsCoherent fun e => ∃ entry ∈ ends, entry.2 = some e := by
  refine isCoherent_ofOutputs (fun output houtput => ?_) fun hnone e he => ?_
  · simp only [List.mem_filterMap, Check.mem_inOrder, List.mem_map] at houtput
    obtain ⟨_, ⟨entry, hentry, rfl⟩, houtput⟩ := houtput
    have hend := hends entry hentry
    rw [FinishedGroup.output?] at houtput
    generalize entry.1.outcome = outcome at hend houtput
    cases hexecution : entry.2 with
    | none =>
        rw [hexecution] at hend
        cases hend <;> cases houtput
    | some e =>
        rw [hexecution] at hend
        cases hend with
        | broken h => cases houtput
        | checked p h hcontent =>
            exact ⟨p, e, ⟨entry, hentry, hexecution⟩, (Option.some.inj houtput).symm, hcontent⟩
  · obtain ⟨entry, hentry, hexecution⟩ := he
    have hend := hends entry hentry
    rw [hexecution] at hend
    have hmem : entry.1 ∈ ends.map (·.1) := List.mem_map_of_mem hentry
    cases houtcome : entry.1.outcome with
    | error failure =>
        have hfailure : ⟨some entry.1.configPath, entry.1.patterns, failure⟩ ∈
            (collect (ends.map (·.1)) unresolved).failures := Check.mem_failures hmem houtcome
        simp only [collect, ofOutputs] at hfailure
        rw [hnone] at hfailure
        cases hfailure
    | ok output =>
        rw [houtcome] at hend
        cases hend with
        | checked p h hcontent =>
            refine ⟨h, p, List.mem_filterMap.mpr ⟨entry.1, Check.mem_inOrder.mpr hmem, ?_⟩⟩
            rw [FinishedGroup.output?, houtcome]

end CheckResult

namespace Check

open Checking
open FileGroup (EndsIn Executes)

/-- The groups that come to an end in their turns, each with the run of its compilers if there is one. -/
theorem exists_ends (s : Surroundings) (host : ProgramHost) (options : CheckOptions) (cwd : Path)
    (groups : List FileGroup) (session : Session) :
    ∃ ends : List (FinishedGroup × Option Execution),
      ends.map (·.1) = ((checkGroups s host options cwd groups).run session).1 ∧
      (∀ entry ∈ ends, EndsIn entry.1.outcome entry.2) ∧
      ∀ e, (∃ entry ∈ ends, entry.2 = some e) ↔
        ∃ turn ∈ turnsOf s host options cwd groups session, turn.1.Executes s host options cwd turn.2 e := by
  choose execution hends hexecutes using FileGroup.exists_endsIn s host options cwd
  refine ⟨(turnsOf s host options cwd groups session).zipIdx.map fun entry =>
    (finishedIn s host options cwd entry.1 entry.2, execution entry.1.1 entry.1.2), ?_, ?_, fun e => ?_⟩
  · rw [run_checkGroups, List.map_map]
    rfl
  · intro entry hentry
    obtain ⟨⟨turn, position⟩, -, rfl⟩ := List.mem_map.mp hentry
    exact hends turn.1 turn.2
  · constructor
    · rintro ⟨entry, hentry, he⟩
      obtain ⟨⟨turn, position⟩, hturn, rfl⟩ := List.mem_map.mp hentry
      exact ⟨turn, List.mem_of_getElem? (List.mem_zipIdx_iff_getElem?.mp hturn),
        (hexecutes turn.1 turn.2 e).mp he⟩
    · rintro ⟨turn, hturn, he⟩
      obtain ⟨position, hposition⟩ := List.mem_iff_getElem?.mp hturn
      exact ⟨_, List.mem_map.mpr ⟨(turn, position), List.mem_zipIdx_iff_getElem?.mpr hposition, rfl⟩,
        (hexecutes turn.1 turn.2 e).mpr he⟩

/-- Compilers were run in the turn of some group of a check. -/
def Executed (s : Surroundings) (host : ProgramHost) (options : CheckOptions) (patterns : List String)
    (session : Session) (e : Execution) : Prop :=
  ∃ turn ∈ turns s host options patterns session,
    turn.1.Executes s host options (workingDir s options) turn.2 e

/-- Whatever a check comes to, if it gives a result: the verdicts agree, with each other and with what the
compilers came to that were run. -/
theorem isCoherent_of_gives_run {s : Surroundings} {host : ProgramHost} {options : CheckOptions}
    {patterns : List String} {session next : Session} {result : CheckResult}
    (hrun : Gives (run s host options patterns) session result next) :
    result.IsCoherent (Executed s host options patterns session) := by
  rcases result_of_gives_run hrun with ⟨failure, hgrouping, rfl⟩ | ⟨grouping, hgrouping, rfl, -⟩
  · refine CheckResult.isCoherent_ofOutputs (fun _ h => (by cases h)) fun hnone => ?_
    cases hnone
  · obtain ⟨ends, hfinished, hends, hexecutes⟩ :=
      exists_ends s host options (workingDir s options) grouping.groups session
    have hexecuted : Executed s host options patterns session =
        fun e => ∃ entry ∈ ends, entry.2 = some e := by
      funext e
      simp only [Executed, turns, hgrouping, ← hexecutes e]
    rw [hexecuted, ← hfinished]
    exact CheckResult.isCoherent_collect hends grouping.unresolved

/-- The config of one group is broken, and the other one is checked and finds nothing. -/
theorem isCoherent_in_mixedProject :
    ∃ result next,
      Gives (run bracketSurroundings .native bracketOptions ["q/b.ts", "a.ts"]) { tree := mixedProject }
        result next ∧
      result.groups.map (·.configPath) = [⟨"/p/tsconfig.json"⟩] ∧
      result.failures.map (·.configPath) = [some ⟨"/p/q/tsconfig.json"⟩] ∧
      result.exitCode = .configError ∧
      result.IsCoherent (Executed bracketSurroundings .native bracketOptions ["q/b.ts", "a.ts"]
        { tree := mixedProject }) := by
  have hgrouping : Grouping.ofPatterns ({ tree := mixedProject } : Session).tree
      (workingDir bracketSurroundings bracketOptions)
      (bracketOptions.effectiveProject bracketSurroundings.project) ["q/b.ts", "a.ts"] =
        .ok ⟨[⟨⟨"/p/q/tsconfig.json"⟩, ["q/b.ts"], [⟨"/p/q/b.ts"⟩]⟩,
          ⟨⟨"/p/tsconfig.json"⟩, ["a.ts"], [⟨"/p/a.ts"⟩]⟩], []⟩ := by
    decide +kernel
  have hvalue := value_run_of_goes_on .native (by decide +kernel) hgrouping rfl
  obtain ⟨result, hrun, hresult⟩ := exists_gives
    (show ((run bracketSurroundings .native bracketOptions ["q/b.ts", "a.ts"]).run.run
        { tree := mixedProject }).1.toOption.map (fun result =>
          (result.groups.map (·.configPath), result.failures.map (·.configPath), result.exitCode)) =
        some ([⟨"/p/tsconfig.json"⟩], [some ⟨"/p/q/tsconfig.json"⟩], .configError) by
      rw [hvalue]
      decide +kernel)
  obtain ⟨hgroups, hrest⟩ := Prod.mk.inj hresult
  obtain ⟨hfailures, hcode⟩ := Prod.mk.inj hrest
  exact ⟨result, _, hrun, hgroups, hfailures, hcode, isCoherent_of_gives_run hrun⟩

end Check

end ScopedCheck
