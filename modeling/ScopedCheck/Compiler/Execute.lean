import ScopedCheck.Compiler.Outcome
import ScopedCheck.Compiler.Selection
import ScopedCheck.FileTree.Basic
import ScopedCheck.Log
import ScopedCheck.Text.Quoted
/-! # Running compilers

The chosen compiler is run. Where the primary compiler fails for reasons that say nothing about the
sources, the standard one is run in its place, once, and the result is then wholly its own. A run
with findings is never replaced. -/

namespace ScopedCheck

/-- How the run of a program went. -/
inductive ProgramRun
  /-- The program could not be started. -/
  | refused (fault : FileTree.Fault)
  /-- The program was started, but its end could not be waited for. -/
  | lost (words : String)
  /-- The program took too long and was stopped. -/
  | overdue
  /-- The program came to its end. -/
  | ended (stdout stderr : Content) (ending : Ending)
  deriving DecidableEq, Repr, Inhabited

/-- How a program runs that is stopped after a time. -/
def Program.run (program : Program) (timeoutMs : Nat) : ProgramRun :=
  if timeoutMs < program.milliseconds then .overdue
  else .ended program.stdout program.stderr program.ending

/-- What is asked of the compilers. -/
structure ExecutionRequest where
  selection : Selection
  paths : CompilerPaths
  fallback : Bool := true
  timeoutMs : Nat := 30000
  verbose : Bool := false
  deriving DecidableEq, Repr, Inhabited

/-- What came of running compilers. -/
structure Execution where
  outcome : Outcome
  findings : Findings := {}
  /-- What the compiler wrote. -/
  output : String := ""
  /-- The exit code, unless a signal ended the compiler or it never ended. -/
  exitCode : Option Nat := none
  compiler : CompilerKind
  /-- Why this compiler was run. -/
  reason : String
  /-- The compilers whose run was asked for, in order. -/
  attempts : List CompilerKind
  deriving DecidableEq, Repr

namespace Execution

/-- What a program wrote: its output, and behind it what it wrote about errors, if anything. -/
def outputOf (stdout stderr : Content) : String :=
  if Text.isBlankText stderr.lossyText then stdout.lossyText
  else stdout.lossyText ++ "\n" ++ stderr.lossyText

/-- The result of a run that says no more than its outcome. -/
def bare (kind : CompilerKind) (reason : String) (outcome : Outcome) : Execution :=
  { outcome, compiler := kind, reason, attempts := [kind] }

/-- The result of a program that came to its end. -/
def ofEnding (kind : CompilerKind) (reason : String) (stdout stderr : Content) (ending : Ending) :
    Execution :=
  let output := outputOf stdout stderr
  let findings := Findings.ofOutput output
  let exitCode :=
    match ending with
    | .code code => some code
    | .signal _ => none
  { outcome := Outcome.classify (ending = .code 0) (exitCode.map Int.ofNat) findings output
    findings, output, exitCode, compiler := kind, reason, attempts := [kind] }

/-- The result of one run. A compiler that is not installed cannot be run. -/
def ofRun (paths : CompilerPaths) (kind : CompilerKind) (reason : String) (run : ProgramRun) :
    Execution :=
  match paths.require kind with
  | .error failure => bare kind reason (.systemError failure.message)
  | .ok binary =>
      match run with
      | .refused fault =>
          bare kind reason
            (.systemError ("failed to start " ++ binary.text ++ ": " ++ fault.message))
      | .lost words =>
          bare kind reason (.systemError ("failed to wait for " ++ binary.text ++ ": " ++ words))
      | .overdue => bare kind reason .timedOut
      | .ended stdout stderr ending => ofEnding kind reason stdout stderr ending

/-- The failure of the system that a result shows, if any. -/
def systemFailure? (e : Execution) : Option Failure :=
  let failure (message : String) : Option Failure :=
    some (.compilerFailed e.compiler.binaryName message e.output)
  match e.outcome with
  | .success | .typeErrors => none
  | .systemError message => failure message
  | .unrecognizedOutput =>
      failure "exited with an error but its output could not be parsed"
  | .timedOut => failure "timed out and was terminated"

/-- Whether the standard compiler shall step in after a run of the chosen one. -/
def wantsFallback (request : ExecutionRequest) (first : Execution) : Bool :=
  request.selection.kind = .primary && request.fallback && request.paths.standard.isSome
    && match first.outcome with
      | .systemError _ => true
      | .unrecognizedOutput => request.selection.compatibility.any (!·.compatible)
      | _ => false

/-- What went wrong, as a part of a reason. -/
def outcomeWords : Outcome → String
  | .systemError message => "failed: " ++ message
  | .unrecognizedOutput => "produced unrecognized output"
  | .timedOut => "timed out"
  | .success | .typeErrors => "succeeded"

/-- The reason for running the standard compiler after the chosen one. -/
def fallbackReason (request : ExecutionRequest) (first : Execution) : String :=
  "fallback to tsc after tsgo " ++ outcomeWords first.outcome ++ " (initially: "
    ++ request.selection.reason ++ ")"

/-- A time in seconds, with at least one and at most three decimal places. -/
def secondsText (milliseconds : Nat) : String :=
  let places := (toString (1000 + milliseconds % 1000)).toList.tail
  let kept := Text.dropTail (· == '0') places
  toString (milliseconds / 1000) ++ "." ++ String.ofList (if kept.isEmpty then ['0'] else kept)

/-- What is told about one run. -/
def runEvents (request : ExecutionRequest) (e : Execution) : List LogEvent :=
  if e.outcome = .timedOut then
    LogEvent.ifVerbose request.verbose .info "compiler timed out"
      [("binary", e.compiler.binaryName), ("timeout_secs", secondsText request.timeoutMs)]
  else []

/-- An outcome as it is told. -/
def outcomeText : Outcome → String
  | .success => "Success"
  | .typeErrors => "TypeErrors"
  | .systemError message => "SystemError \x7b message: " ++ Text.quoted message ++ " \x7d"
  | .unrecognizedOutput => "UnrecognizedOutput"
  | .timedOut => "TimedOut"

/-- What is told before the standard compiler steps in. -/
def fallbackEvents (request : ExecutionRequest) (first : Execution) : List LogEvent :=
  LogEvent.ifVerbose request.verbose .info "tsgo failed without diagnostics, retrying with tsc"
    [("outcome", outcomeText first.outcome), ("output", Text.trimmed first.output)]

/-- The result of running the compilers, given how each of them would run. -/
def ofRuns (request : ExecutionRequest) (runs : CompilerKind → ProgramRun) : Told Execution := do
  let kind := request.selection.kind
  let first := ofRun request.paths kind request.selection.reason (runs kind)
  Told.tell (runEvents request first)
  if wantsFallback request first then
    Told.tell (fallbackEvents request first)
    let second :=
      ofRun request.paths .standard (fallbackReason request first) (runs .standard)
    Told.tell (runEvents request second)
    return { second with attempts := first.attempts ++ second.attempts }
  else return first

end Execution

end ScopedCheck
