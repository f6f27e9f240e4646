import ScopedCheck.Check.Collect
/-! # Checks

A check sorts the files that it was asked for into groups and checks every group, also after a
failure in another one. -/

namespace ScopedCheck.Check

open Checking

/-- The directory that the paths of a check are seen from. -/
def workingDir (s : Surroundings) (options : CheckOptions) : Path :=
  match options.cwd with
  | some cwd => s.currentDir.absolutize cwd
  | none => s.currentDir

/-- Check groups one after the other; a failure of one group stays with it. -/
def checkGroups (s : Surroundings) (host : ProgramHost) (options : CheckOptions) (cwd : Path)
    (groups : List FileGroup) : StateM Session (List FinishedGroup) :=
  groups.zipIdx.mapM fun (group, position) => do
    let outcome ← (group.check s host options cwd).run
    return ⟨position, group.configPath, group.patterns, outcome⟩

/-- What is told about a finished check. -/
def finishedEvents (result : CheckResult) (verbose : Bool) : List LogEvent :=
  LogEvent.ifVerbose verbose .info "check finished"
    [("errors", toString result.errorCount), ("warnings", toString result.warningCount),
      ("files", toString result.checkedFiles.length)]

/-- The result of a check that fails as a whole. -/
def wholeFailure (options : CheckOptions) (patterns : List String) (failure : Failure) :
    Except Failure CheckResult :=
  (CheckResult.ofOutputs [] [⟨none, patterns, failure⟩]).orStop options.stopOnFailure

/-- Check what patterns stand for. -/
def run (s : Surroundings) (host : ProgramHost) (options : CheckOptions)
    (patterns : List String) : Checking CheckResult := do
  orFail options.validate
  if patterns.isEmpty then throw (.invalidOptions "no files to check")
  let cwd := workingDir s options
  let project := options.effectiveProject s.project
  match Grouping.ofPatterns (← get).tree cwd project patterns with
  | .error halt => orFail (wholeFailure options patterns (halt.failure (s.taskNumber none)))
  | .ok grouping =>
      let finished ← checkGroups s host options cwd grouping.groups
      let result ← orFail
        ((CheckResult.collect finished grouping.unresolved).orStop options.stopOnFailure)
      tell (finishedEvents result options.verbose)
      return result

end ScopedCheck.Check
