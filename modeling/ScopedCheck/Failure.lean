import ScopedCheck.Path.Basic
import ScopedCheck.Glob.Union
import ScopedCheck.Text.Quoted
/-! # Failures

Why a check could not be carried out. Type errors are not failures: they are what a check finds.
A failure is either the fault of the configuration or one of the system, and this decides the exit
code. Work that panics does not fail: it ends at once, with all of the task that it is a part of, and
only the end of the task is a failure. -/

namespace ScopedCheck

/-- The exit codes of the program. -/
inductive ExitCode
  | success
  | typeErrors
  | configError
  | systemError
  deriving DecidableEq, Repr

namespace ExitCode

/-- The number of an exit code. -/
def code : ExitCode → Nat
  | success => 0
  | typeErrors => 1
  | configError => 2
  | systemError => 3

end ExitCode

/-- Why a check could not be carried out. -/
inductive Failure
  /-- No config in a directory or above it, or none at the given path. -/
  | configNotFound (path : Path) (searchedUpward : Bool)
  /-- A config document that cannot be read as one. -/
  | configInvalid (path : Path) (message : String)
  /-- Documents that build on each other; the last one is the first one again. -/
  | circularExtends (chain : List Path)
  /-- Options that contradict each other or make no sense. -/
  | invalidOptions (message : String)
  /-- A compiler that gave no diagnostics at all. -/
  | compilerFailed (binary message output : String)
  /-- A temporary config that could not be written. -/
  | tempConfig (dir : Path) (cause : String)
  /-- Anything else that the system refused. -/
  | io (context cause : String)
  deriving DecidableEq, Repr

namespace Failure

/-- The failure in words. -/
def message : Failure → String
  | configNotFound path true =>
      "no tsconfig.json found in " ++ path.text
        ++ " or any parent directory (pass --project to point at one explicitly)"
  | configNotFound path false =>
      "tsconfig not found at " ++ path.text ++ " (check the --project path)"
  | configInvalid path message => "failed to parse tsconfig " ++ path.text ++ ": " ++ message
  | circularExtends chain =>
      "circular tsconfig extends: " ++ " -> ".intercalate (chain.map Path.text)
  | invalidOptions message => "invalid options: " ++ message
  | compilerFailed binary message _ => binary ++ " failed: " ++ message
  | tempConfig dir cause => "failed to write temporary tsconfig in " ++ dir.text ++ ": " ++ cause
  | io context cause => context ++ ": " ++ cause

/-- Whether the configuration is at fault. -/
def isConfigError : Failure → Bool
  | configNotFound .. | configInvalid .. | circularExtends .. | invalidOptions .. => true
  | compilerFailed .. | tempConfig .. | io .. => false

/-- The exit code that a failure leads to. -/
def exitCode (failure : Failure) : ExitCode :=
  if failure.isConfigError then .configError else .systemError

/-- A glob that cannot be read. -/
def badGlob (pattern : String) (fault : GlobFault) : Failure :=
  .invalidOptions ("invalid glob pattern '" ++ pattern ++ "': " ++ Glob.faultMessage pattern fault)

/-- Globs that cannot be put together. -/
def badGlobUnion (fault : GlobUnionFault) : Failure :=
  .invalidOptions ("invalid glob pattern: " ++ fault.message)

end Failure

/-- How work ends that comes to nothing. -/
inductive Halt
  /-- It says why, and whoever asked for it can go on. -/
  | failed (failure : Failure)
  /-- The task that it is a part of ends with it. -/
  | panicked (message : String)
  deriving DecidableEq, Repr

/-- The failure of a task, which has a number, with work that comes to nothing. -/
def Halt.failure (task : Nat) : Halt → Failure
  | failed failure => failure
  | panicked message =>
      .io "blocking task failed"
        ("task " ++ toString task ++ " panicked with message " ++ Text.quoted message)

end ScopedCheck
