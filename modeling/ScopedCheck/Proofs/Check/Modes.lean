import ScopedCheck.Proofs.Check.Outcome
/-! # Two ways to treat failures

A check either stops at failures or lists them in its result. Both ways check the same groups in the same
manner, and only the last step differs: a check that stops fails with the first failure that the other
one lists. -/

namespace ScopedCheck

namespace CheckResult

theorem orStop_of_goes_on {stop : Bool} {result : CheckResult}
    (h : stop = false ∨ result.failures = []) : result.orStop stop = .ok result := by
  unfold orStop
  rcases h with rfl | hnone
  · rfl
  · rw [hnone]
    cases stop <;> rfl

theorem orStop_of_stops {result : CheckResult} {first : GroupFailure} {rest : List GroupFailure}
    (h : result.failures = first :: rest) : result.orStop true = .error first.failure := by
  unfold orStop
  rw [h]

end CheckResult

namespace Check

open Checking

variable {s : Surroundings} {host : ProgramHost} {options : CheckOptions} {patterns : List String}
  {session : Session}

/-! ## What a check comes to -/

/-- A check that leaves it to something else to check the groups. -/
def runBy (checkAll : Path → List FileGroup → StateM Session (List FinishedGroup)) (s : Surroundings)
    (options : CheckOptions) (patterns : List String) : Checking CheckResult := do
  orFail options.validate
  if patterns.isEmpty then throw (.invalidOptions "no files to check")
  let cwd := workingDir s options
  match Grouping.ofPatterns (← get).tree cwd (options.effectiveProject s.project) patterns with
  | .error halt => orFail (wholeFailure options patterns (halt.failure (s.taskNumber none)))
  | .ok grouping =>
      let finished ← checkAll cwd grouping.groups
      let result ← orFail
        ((CheckResult.collect finished grouping.unresolved).orStop options.stopOnFailure)
      tell (finishedEvents result options.verbose)
      return result

/-- A check takes care of its groups itself. -/
theorem run_eq_runBy (s : Surroundings) (host : ProgramHost) (options : CheckOptions)
    (patterns : List String) :
    run s host options patterns = runBy (checkGroups s host options) s options patterns := rfl

/-- Why a check is not even begun. -/
def refusal? (options : CheckOptions) (patterns : List String) : Option Failure :=
  match options.validate with
  | .error failure => some failure
  | .ok () => if patterns.isEmpty then some (.invalidOptions "no files to check") else none

/-- All that a check finds and all that fails, whether it stops at failures or not. -/
def tally (checkAll : Path → List FileGroup → StateM Session (List FinishedGroup)) (s : Surroundings)
    (options : CheckOptions) (patterns : List String) (session : Session) : CheckResult :=
  match Grouping.ofPatterns session.tree (workingDir s options) (options.effectiveProject s.project)
      patterns with
  | .error halt => CheckResult.ofOutputs [] [⟨none, patterns, halt.failure (s.taskNumber none)⟩]
  | .ok grouping =>
      CheckResult.collect ((checkAll (workingDir s options) grouping.groups).run session).1
        grouping.unresolved

/-- A check that is begun comes to its tally, and stops with the first failure of it or not. -/
theorem value_runBy (checkAll : Path → List FileGroup → StateM Session (List FinishedGroup))
    (s : Surroundings) (options : CheckOptions) (patterns : List String) (session : Session) :
    ((runBy checkAll s options patterns).run.run session).1 =
      match refusal? options patterns with
      | some failure => .error failure
      | none => (tally checkAll s options patterns session).orStop options.stopOnFailure := by
  unfold runBy refusal? tally
  rw [run_bind, run_orFail]
  cases hvalid : options.validate with
  | error failure => rfl
  | ok _ =>
      by_cases hempty : patterns.isEmpty = true
      · simp only [hempty, if_true]
        rfl
      · simp only [hempty, Bool.false_eq_true, if_false]
        rw [run_bind, run_get]
        simp only
        cases Grouping.ofPatterns session.tree (workingDir s options)
            (options.effectiveProject s.project) patterns with
        | error halt => rfl
        | ok grouping =>
            simp only
            rw [run_bind, run_lift]
            simp only
            rw [run_bind, run_orFail]
            cases (CheckResult.collect ((checkAll (workingDir s options) grouping.groups).run session).1
                grouping.unresolved).orStop options.stopOnFailure with
            | error failure => rfl
            | ok result => rfl

/-! ## With and without stopping -/

/-- What becomes of a check that lists failures and of one that stops at them, if there is a reason to
refuse them or none. -/
inductive Agree (refusal : Option Failure) :
    Except Failure CheckResult → Except Failure CheckResult → Prop
  /-- Neither is begun. -/
  | refused {failure : Failure} (h : refusal = some failure) :
      Agree refusal (.error failure) (.error failure)
  /-- Nothing failed. -/
  | content {result : CheckResult} (h : refusal = none) (hfailures : result.failures = []) :
      Agree refusal (.ok result) (.ok result)
  /-- The one lists failures, the other one ends with the first of them. -/
  | stopped {result : CheckResult} {first : GroupFailure} {rest : List GroupFailure}
      (h : refusal = none) (hfailures : result.failures = first :: rest) :
      Agree refusal (.ok result) (.error first.failure)

/-- In both modes a check comes to the same tally, since only its last step asks for the mode. -/
theorem value_run_stopOnFailure (s : Surroundings) (host : ProgramHost) (options : CheckOptions)
    (patterns : List String) (session : Session) (stop : Bool) :
    ((run s host { options with stopOnFailure := stop } patterns).run.run session).1 =
      match refusal? options patterns with
      | some failure => .error failure
      | none => (tally (checkGroups s host options) s options patterns session).orStop stop :=
  value_runBy (checkGroups s host { options with stopOnFailure := stop }) s
    { options with stopOnFailure := stop } patterns session

/-- A check that stops at failures agrees with the one that lists them: it is refused for the same reason,
it gives the same result if nothing fails, and otherwise it fails as the first failure of the list says. -/
theorem agree_of_modes (s : Surroundings) (host : ProgramHost) (options : CheckOptions)
    (patterns : List String) (session : Session) :
    Agree (refusal? options patterns)
      ((run s host { options with stopOnFailure := false } patterns).run.run session).1
      ((run s host { options with stopOnFailure := true } patterns).run.run session).1 := by
  rw [value_run_stopOnFailure, value_run_stopOnFailure]
  cases refusal? options patterns with
  | some failure => exact .refused rfl
  | none =>
      simp only [CheckResult.orStop_of_goes_on (Or.inl rfl)]
      cases hfailures : (tally (checkGroups s host options) s options patterns session).failures with
      | nil =>
          rw [CheckResult.orStop_of_goes_on (Or.inr hfailures)]
          exact .content rfl hfailures
      | cons first rest =>
          rw [CheckResult.orStop_of_stops hfailures]
          exact .stopped rfl hfailures

end Check

end ScopedCheck
