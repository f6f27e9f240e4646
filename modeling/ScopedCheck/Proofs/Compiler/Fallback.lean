import ScopedCheck.Proofs.Compiler.Execute
/-! # When the standard compiler steps in

Whatever the two compilers do, at most two runs are asked for. The second one is that of the standard
compiler, and it is only asked for where the primary compiler failed without a single finding; the
result is then that of the standard compiler in every part. -/

namespace ScopedCheck

/-! ## Failed runs -/

/-- A run that came to its end has failed as a system exactly if it neither ended well nor reported
anything. -/
theorem Outcome.isSystemFailure_classify (succeeded : Bool) (exitCode : Option Int)
    (findings : Findings) (raw : String) :
    (classify succeeded exitCode findings raw).isSystemFailure = true ↔
      succeeded = false ∧ findings.errors = [] ∧ findings.warnings = [] := by
  unfold classify
  rcases findings with ⟨errors, warnings⟩
  cases errors with
  | cons first rest => simp [isSystemFailure]
  | nil =>
      cases succeeded with
      | true => simp [isSystemFailure]
      | false =>
          cases warnings with
          | cons first rest => simp [isSystemFailure]
          | nil => cases looksLikeDiagnostics raw <;> simp [isSystemFailure]

namespace Execution

variable {request : ExecutionRequest} {runs : CompilerKind → ProgramRun}

/-- The result of the compiler that was chosen. -/
def ofChosen (request : ExecutionRequest) (runs : CompilerKind → ProgramRun) : Execution :=
  ofRun request.paths request.selection.kind request.selection.reason (runs request.selection.kind)

/-- The result of the standard compiler in the place of the one that was chosen. -/
def ofStandard (request : ExecutionRequest) (runs : CompilerKind → ProgramRun) : Execution :=
  ofRun request.paths .standard (fallbackReason request (ofChosen request runs)) (runs .standard)

/-- Whether an outcome calls for the other compiler: a failure of the system does, and so does an output
that could not be read, if the config was not thought to suit the primary compiler. -/
def CallsForOther (request : ExecutionRequest) (outcome : Outcome) : Prop :=
  (∃ message, outcome = .systemError message) ∨
    outcome = .unrecognizedOutput ∧
      ∃ verdict, request.selection.compatibility = some verdict ∧ verdict.compatible = false

theorem CallsForOther.isSystemFailure {outcome : Outcome} (h : CallsForOther request outcome) :
    outcome.isSystemFailure = true := by
  rcases h with ⟨message, rfl⟩ | ⟨rfl, -⟩ <;> rfl

theorem wantsFallback_iff {e : Execution} :
    wantsFallback request e = true ↔
      request.selection.kind = .primary ∧ request.fallback = true ∧
        request.paths.standard.isSome = true ∧ CallsForOther request e.outcome := by
  have hverdict : request.selection.compatibility.any (!·.compatible) = true ↔
      ∃ verdict, request.selection.compatibility = some verdict ∧ verdict.compatible = false := by
    rw [Option.any_eq_true]
    simp
  simp only [wantsFallback, Bool.and_eq_true, decide_eq_true_eq, and_assoc, CallsForOther]
  refine and_congr_right fun _ => and_congr_right fun _ => and_congr_right fun _ => ?_
  cases e.outcome <;> simp [hverdict]

/-- A compiler that ended well or reported anything does not call for the other one. -/
theorem not_callsForOther_of_ended {kind : CompilerKind} {reason : String} {binary : Path}
    (hbinary : request.paths.get? kind = some binary) {stdout stderr : Content} {ending : Ending}
    (h : ending = .code 0 ∨ (Findings.ofOutput (outputOf stdout stderr)).errors ≠ [] ∨
      (Findings.ofOutput (outputOf stdout stderr)).warnings ≠ []) :
    ¬CallsForOther request
      (ofRun request.paths kind reason (.ended stdout stderr ending)).outcome := by
  intro hcalls
  have hfailed := hcalls.isSystemFailure
  simp only [ofRun, CompilerPaths.require, hbinary, ofEnding] at hfailed
  obtain ⟨hending, herrors, hwarnings⟩ := (Outcome.isSystemFailure_classify ..).mp hfailed
  rcases h with h | h | h
  · exact of_decide_eq_false hending h
  · exact h herrors
  · exact h hwarnings

/-! ## The result of both compilers -/

/-- How the result of running compilers comes about, given how each of them would run. -/
structure IsSettled (request : ExecutionRequest) (runs : CompilerKind → ProgramRun)
    (result : Execution) : Prop where
  /-- At most two compilers are run. -/
  bounded : result.attempts.length ≤ 2
  /-- When a second one is run. -/
  retried_iff : result.attempts.length = 2 ↔
    request.selection.kind = .primary ∧ request.fallback = true ∧
      request.paths.standard.isSome = true ∧ (ofChosen request runs).outcome ≠ .timedOut ∧
      CallsForOther request (ofChosen request runs).outcome
  /-- Without a second run the result is that of the first one. -/
  own : result.attempts.length ≠ 2 → result = ofChosen request runs
  /-- A compiler that ended well or reported anything gives the result. -/
  kept : ∀ binary stdout stderr ending, request.paths.get? request.selection.kind = some binary →
    runs request.selection.kind = .ended stdout stderr ending →
      (ending = .code 0 ∨ (Findings.ofOutput (outputOf stdout stderr)).errors ≠ [] ∨
        (Findings.ofOutput (outputOf stdout stderr)).warnings ≠ []) →
          result = ofChosen request runs
  /-- With a second run everything that is reported comes from this run. -/
  replaced : result.attempts.length = 2 →
    result.compiler = .standard ∧ result.outcome = (ofStandard request runs).outcome ∧
      result.findings = (ofStandard request runs).findings ∧
      result.output = (ofStandard request runs).output ∧
      result.exitCode = (ofStandard request runs).exitCode

theorem value_ofRuns (request : ExecutionRequest) (runs : CompilerKind → ProgramRun) :
    (ofRuns request runs).value =
      if wantsFallback request (ofChosen request runs) then
        { ofStandard request runs with attempts := [request.selection.kind, .standard] }
      else ofChosen request runs := by
  have hchosen : (ofChosen request runs).attempts = [request.selection.kind] := (compiler_ofRun ..).2
  have hstandard : (ofStandard request runs).attempts = [.standard] := (compiler_ofRun ..).2
  by_cases hfallback : wantsFallback request (ofChosen request runs) = true
  · rw [if_pos hfallback, ← List.singleton_append, ← hchosen, ← hstandard]
    rw [ofChosen] at hfallback
    simp only [ofRuns]
    rw [if_pos hfallback]
    rfl
  · rw [if_neg hfallback]
    rw [ofChosen] at hfallback
    simp only [ofRuns]
    rw [if_neg hfallback]
    rfl

theorem isSettled_value_ofRuns (request : ExecutionRequest) (runs : CompilerKind → ProgramRun) :
    IsSettled request runs (ofRuns request runs).value := by
  have hchosen : (ofChosen request runs).attempts = [request.selection.kind] := (compiler_ofRun ..).2
  have htimely : CallsForOther request (ofChosen request runs).outcome →
      (ofChosen request runs).outcome ≠ .timedOut := by
    rintro (⟨message, h⟩ | ⟨h, -⟩) <;> rw [h] <;> simp
  rw [value_ofRuns]
  by_cases hfallback : wantsFallback request (ofChosen request runs) = true
  · rw [if_pos hfallback]
    obtain ⟨hprimary, hallowed, hknown, hcalls⟩ := wantsFallback_iff.mp hfallback
    constructor
    · exact Nat.le_refl 2
    · exact iff_of_true rfl ⟨hprimary, hallowed, hknown, htimely hcalls, hcalls⟩
    · intro hone
      exact absurd rfl hone
    · intro binary stdout stderr ending hbinary hrun hsaid
      rw [ofChosen, hrun] at hcalls
      exact absurd hcalls (not_callsForOther_of_ended hbinary hsaid)
    · intro _
      exact ⟨(compiler_ofRun ..).1, rfl, rfl, rfl, rfl⟩
  · rw [if_neg hfallback]
    have hone : (ofChosen request runs).attempts.length ≠ 2 := by simp [hchosen]
    constructor
    · simp [hchosen]
    · refine iff_of_false hone ?_
      rintro ⟨hprimary, hallowed, hknown, -, hcalls⟩
      exact hfallback (wantsFallback_iff.mpr ⟨hprimary, hallowed, hknown, hcalls⟩)
    · intro _
      rfl
    · intro _ _ _ _ _ _ _
      rfl
    · intro htwo
      exact absurd htwo hone

end Execution

theorem Invocation.length_upToSignal_le (started : List Invocation) :
    (upToSignal started).length ≤ started.length := by
  induction started with
  | nil => exact Nat.le_refl 0
  | cons first rest ih =>
      rw [upToSignal]
      split
      · simp
      · simpa using ih

open Execution in
/-- However the two compilers run, at most two runs are asked for, and a finding is never given up for a
second run. In a file tree no more compilers are started than that. -/
theorem falls_back_only_without_findings (request : ExecutionRequest) :
    (∀ runs, IsSettled request runs (ofRuns request runs).value) ∧
      ∀ tree workingDir config, ∃ started,
        (execute tree workingDir config request).value =
          ((ofRuns request (Invocation.runOf tree workingDir config request.paths
            request.timeoutMs)).value, started) ∧ started.length ≤ 2 := by
  constructor
  · exact isSettled_value_ofRuns request
  · intro tree workingDir config
    let runs := Invocation.runOf tree workingDir config request.paths request.timeoutMs
    let asked := (ofRuns request runs).value.attempts
    let begun := asked.filterMap (Invocation.of? tree workingDir config request.paths)
    refine ⟨Invocation.upToSignal begun, rfl, ?_⟩
    calc (Invocation.upToSignal begun).length ≤ begun.length := Invocation.length_upToSignal_le begun
      _ ≤ asked.length := List.length_filterMap_le ..
      _ ≤ 2 := (isSettled_value_ofRuns request runs).bounded

end ScopedCheck
