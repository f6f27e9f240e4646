import ScopedCheck.Closure.Heuristics
import ScopedCheck.Compiler.Selection
import ScopedCheck.TempConfig.Content
/-! # Options of a check -/

namespace ScopedCheck

/-- What the caller of a check may decide. -/
structure CheckOptions where
  /-- The config to check against, or the directory that holds it. -/
  project : Option Path := none
  /-- The directory that relative paths are seen from. -/
  cwd : Option Path := none
  noEmit : Bool := true
  skipLibCheck : Option Bool := none
  cacheDir : Option Path := none
  forceStandard : Bool := false
  forcePrimary : Bool := false
  /-- Whether the standard compiler may step in for the primary one. -/
  fallback : Bool := true
  /-- More files to check; with them, imports are followed no further than the compiler does. -/
  includes : Option (List String) := none
  verbose : Bool := false
  /-- Whether the first failure ends the check. -/
  stopOnFailure : Bool := true
  timeoutMs : Nat := 30000
  limits : Limits := {}
  heuristics : Heuristics := default
  /-- The compilers, if they need not be looked for. -/
  compilers : Option CompilerPaths := none
  deriving DecidableEq, Repr, Inhabited

namespace CheckOptions

/-- Options that contradict each other or make no sense are refused. -/
def validate (options : CheckOptions) : Except Failure Unit :=
  if options.forceStandard && options.forcePrimary then .error Selection.conflict
  else if options.timeoutMs = 0 then
    .error (.invalidOptions "timeout must be greater than zero")
  else .ok ()

/-- The config to check against: as the options say, or else as the environment says, unless that is
empty. -/
def effectiveProject (options : CheckOptions) (fromEnvironment : Option String) : Option Path :=
  match options.project with
  | some project => some project
  | none => (fromEnvironment.filter (!·.isEmpty)).map Path.mk

/-- What the options change about temporary configs. -/
def synthesis (options : CheckOptions) : Synthesis :=
  ⟨options.noEmit, options.skipLibCheck, options.cacheDir⟩

end CheckOptions

end ScopedCheck
