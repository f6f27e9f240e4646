import ScopedCheck.Compiler.Diagnostic
/-! # Outcomes of a compiler run

What an exit status and an output together say about a run. Findings come first: an error makes a
failed check whatever the status is. Only a run that failed without any finding is a failure of the
system. -/

namespace ScopedCheck

/-- How a compiler run ended. -/
inductive Outcome
  | success
  /-- Findings were reported. -/
  | typeErrors
  /-- No finding, and nothing that looks like one. -/
  | systemError (message : String)
  /-- No finding, but something that looks like one. -/
  | unrecognizedOutput
  | timedOut
  deriving DecidableEq, Repr

namespace Outcome

/-- Whether the compiler failed to do its work. -/
def isSystemFailure : Outcome → Bool
  | systemError _ | unrecognizedOutput | timedOut => true
  | success | typeErrors => false

/-- The first line of an output that is not blank, without the blanks around it. -/
def firstLine? (raw : String) : Option String :=
  (((Text.lines raw.toList).map Text.trim).find? (!·.isEmpty)).map String.ofList

/-- The words for a run that failed without findings; a run without an exit code was ended by a
signal. -/
def failureWords (exitCode : Option Int) (detail : Option String) : String :=
  match exitCode, detail with
  | some code, some detail => "exited with code " ++ toString code ++ ": " ++ detail
  | some code, none => "exited with code " ++ toString code ++ " without output"
  | none, some detail => "terminated by signal: " ++ detail
  | none, none => "terminated by signal"

/-- The outcome of a run that came to an end. -/
def classify (succeeded : Bool) (exitCode : Option Int) (findings : Findings) (raw : String) :
    Outcome :=
  if !findings.errors.isEmpty then typeErrors
  else if succeeded then success
  else if !findings.warnings.isEmpty then typeErrors
  else if looksLikeDiagnostics raw then unrecognizedOutput
  else systemError (failureWords exitCode (firstLine? raw))

end Outcome

end ScopedCheck
