import ScopedCheck.Check.Group
/-! # Collecting results

Groups may be finished in any order. Their results are put together in the order of the groups, so
that the whole does not depend on who was first. -/

namespace ScopedCheck

/-- A group whose check has come to an end. -/
structure FinishedGroup where
  /-- The position of the group among all groups. -/
  position : Nat
  configPath : Path
  patterns : List String
  outcome : Except Failure (Option GroupOutput)

namespace FinishedGroup

/-- What was found in the group, if it could be checked and had sources. -/
def output? (g : FinishedGroup) : Option GroupOutput :=
  match g.outcome with
  | .ok output => output
  | .error _ => none

/-- The failure of the group, if it could not be checked. -/
def failure? (g : FinishedGroup) : Option GroupFailure :=
  match g.outcome with
  | .ok _ => none
  | .error failure => some ⟨some g.configPath, g.patterns, failure⟩

/-- The groups in their order. -/
def inOrder (groups : List FinishedGroup) : List FinishedGroup :=
  groups.mergeSort fun g h => g.position ≤ h.position

end FinishedGroup

/-- What stayed behind as a group that could not be checked. -/
def Unresolved.toFailure (u : Unresolved) : GroupFailure := ⟨none, [u.pattern], u.failure⟩

namespace CheckResult

/-- Put together what was found in groups, in the order of the list, and what failed. -/
def ofOutputs (outputs : List GroupOutput) (failures : List GroupFailure) : CheckResult :=
  let errors := outputs.flatMap (·.findings.errors)
  let warnings := outputs.flatMap (·.findings.warnings)
  { success := outputs.all (·.success) && failures.isEmpty && errors.isEmpty
    errorCount := errors.length
    warningCount := warnings.length
    errors, warnings
    checkedFiles := outputs.flatMap (·.checkedFiles)
    setupFiles := Path.sortedUnique (outputs.flatMap (·.setupFiles))
    groups := outputs.map (·.summary)
    failures }

/-- Put together the results of groups and what stayed behind. -/
def collect (finished : List FinishedGroup) (unresolved : List Unresolved) : CheckResult :=
  let groups := FinishedGroup.inOrder finished
  ofOutputs (groups.filterMap (·.output?))
    (groups.filterMap (·.failure?) ++ unresolved.map Unresolved.toFailure)

/-- The result, or its first failure if failures end the check. -/
def orStop (stopOnFailure : Bool) (result : CheckResult) : Except Failure CheckResult :=
  match stopOnFailure, result.failures with
  | true, first :: _ => .error first.failure
  | _, _ => .ok result

end CheckResult

end ScopedCheck
