import ScopedCheck.Check.Run
import ScopedCheck.CommandLine.Help
import ScopedCheck.Report
/-! # The program

The command line is read, the check that it asks for is carried out, and what came of it is printed:
results on standard output, a failure of the whole on standard error. A run that is stopped by a
signal prints nothing and leaves no temporary config behind. -/

namespace ScopedCheck

/-- What a run of the program came to. -/
inductive Conclusion
  /-- There was no check to carry out. -/
  | stopped (stop : Arguments.Stop)
  /-- A signal ended the run. -/
  | signalled (number : Nat)
  /-- The check failed as a whole. -/
  | failed (reporter : Reporter) (failure : Failure)
  | finished (reporter : Reporter) (result : CheckResult)
  deriving DecidableEq, Repr

namespace Conclusion

/-- The exit code of the program. -/
def exitCode : Conclusion → Nat
  | stopped stop => stop.exitCode.code
  | signalled number => 128 + number
  | failed _ failure => failure.exitCode.code
  | finished _ result => result.exitCode.code

/-- What is printed on standard output. -/
def stdout : Conclusion → String
  | stopped .helpWanted => Arguments.helpText
  | stopped .versionWanted => Arguments.versionText
  | finished reporter result => reporter.render result
  | _ => ""

/-- What is printed on standard error. -/
def stderr : Conclusion → String
  | stopped .helpWanted | stopped .versionWanted => ""
  | stopped stop =>
      "error: " ++ stop.message ++ "\n\n" ++ Arguments.usageText
        ++ "\nFor more information, try '--help'.\n"
  | failed reporter failure => reporter.failure failure ++ "\n"
  | _ => ""

/-- The conclusion of a check that took some time. -/
def after (milliseconds : Nat) : Conclusion → Conclusion
  | finished reporter result => finished reporter { result with milliseconds }
  | other => other

/-- How results are printed. Colours are for terminals only. -/
def reporterOf (args : Arguments) (isTerminal : Bool) : Reporter :=
  ⟨isTerminal && args.pretty.getD true, args.verbose⟩

/-- The conclusion of a check, given what it left behind. -/
def ofCheck (reporter : Reporter) (result : Except Failure CheckResult) (session : Session) :
    Conclusion :=
  match session.invocations.findSome? (·.signal) with
  | some number => signalled number
  | none =>
      match result with
      | .ok result => finished reporter result
      | .error failure => failed reporter failure

/-- Remove all temporary configs of a session. -/
def sweep (session : Session) : Session :=
  let (_, temps, tree) := session.temps.sweep session.tree
  { session with temps, tree }

/-- Run the program on a file tree. -/
def ofArguments (s : Surroundings) (tree : FileTree) (isTerminal : Bool)
    (arguments : List String) : Conclusion × Session :=
  match Arguments.parse arguments with
  | .error stop => (stopped stop, { tree })
  | .ok args =>
      let (result, session) := Id.run <|
        ((Check.run s .native args.options args.files).run).run { tree }
      (ofCheck (reporterOf args isTerminal) result session, sweep session)

end Conclusion

end ScopedCheck
