import ScopedCheck.Compiler.Diagnostic
import ScopedCheck.Compiler.Selection
/-! # Results

What a check found: the diagnostics of all groups that could be checked, and the failures of those
that could not. -/

namespace ScopedCheck

/-- How a group was checked. -/
structure GroupSummary where
  configPath : Path
  compiler : CompilerKind
  reason : String
  /-- The number of files that were handed to the compiler. -/
  closureSize : Nat
  /-- Whether these files were found by following imports. -/
  discovered : Bool
  deriving DecidableEq, Repr, Inhabited

/-- A group that could not be checked. -/
structure GroupFailure where
  /-- The config of the group, if it has one. -/
  configPath : Option Path
  patterns : List String
  failure : Failure
  deriving DecidableEq, Repr

/-- What a check found. -/
structure CheckResult where
  success : Bool := true
  errorCount : Nat := 0
  warningCount : Nat := 0
  errors : List Diagnostic := []
  warnings : List Diagnostic := []
  /-- How long the check took, in whole milliseconds. -/
  milliseconds : Nat := 0
  /-- The files that were asked for and handed to a compiler. -/
  checkedFiles : List Path := []
  setupFiles : List Path := []
  groups : List GroupSummary := []
  failures : List GroupFailure := []
  deriving DecidableEq, Repr, Inhabited

namespace CheckResult

/-- The exit code of a result: failures of the configuration outrank those of the system, and these
outrank type errors. -/
def exitCode (result : CheckResult) : ExitCode :=
  if result.failures.any (·.failure.isConfigError) then .configError
  else if !result.failures.isEmpty then .systemError
  else if result.success then .success
  else .typeErrors

end CheckResult

end ScopedCheck
