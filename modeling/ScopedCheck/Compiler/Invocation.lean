import ScopedCheck.Compiler.Execute
/-! # Invocations

How a compiler is started: in a directory, with the config as its last argument, and with its output
in the plain layout. -/

namespace ScopedCheck

/-- A compiler that was started. -/
structure Invocation where
  binary : Path
  /-- The directory it was started in. -/
  workingDir : Path
  arguments : List String
  /-- The config it was given. -/
  config : Path
  /-- What the config said at that time. -/
  document : String
  /-- The signal that it sent to whoever started it, if any. -/
  signal : Option Nat := none
  deriving DecidableEq, Repr, Inhabited

namespace Invocation

/-- The arguments in front of the config. -/
def leadingArguments : List String := ["--pretty", "false", "--project"]

/-- Start a file as a program in a directory, with a config as its last argument. No path may have a
zero byte, the directory must be there, and the file must be one that may be started and that is a
program. -/
def programOf (tree : FileTree) (workingDir config binary : Path) :
    Except FileTree.Fault Program := do
  if [binary, workingDir, config].any FileTree.hasZero then throw .zeroInProgram
  if !(← tree.node workingDir).isDir then throw .notDirectory
  match ← tree.node binary with
  | .file file =>
      if !file.isExecutable then throw .permissionDenied
      match file.program with
      | some program => return program
      | none => throw .notExecutable
  | _ => throw .permissionDenied

/-- How a compiler would run, started in a directory. -/
def runOf (tree : FileTree) (workingDir config : Path) (paths : CompilerPaths) (timeoutMs : Nat)
    (kind : CompilerKind) : ProgramRun :=
  match paths.get? kind with
  | none => .refused .notFound
  | some binary =>
      match programOf tree workingDir config binary with
      | .ok program => program.run timeoutMs
      | .error fault => .refused fault

/-- The invocation of a compiler, if it can be started. -/
def of? (tree : FileTree) (workingDir config : Path) (paths : CompilerPaths)
    (kind : CompilerKind) : Option Invocation := do
  let binary ← paths.get? kind
  let program ← (programOf tree workingDir config binary).toOption
  return {
    binary
    workingDir := tree.canonical workingDir
    arguments := leadingArguments
    config
    document := (tree.readText config).toOption.getD ""
    signal := program.signalsParent }

/-- Invocations up to the first one that stops whoever started it. -/
def upToSignal : List Invocation → List Invocation
  | [] => []
  | i :: rest => if i.signal.isSome then [i] else i :: upToSignal rest

end Invocation

/-- Run the compilers on a config, and note which of them were started. -/
def execute (tree : FileTree) (workingDir config : Path) (request : ExecutionRequest) :
    Told (Execution × List Invocation) := do
  let runs := Invocation.runOf tree workingDir config request.paths request.timeoutMs
  let e ← Execution.ofRuns request runs
  let started := e.attempts.filterMap (Invocation.of? tree workingDir config request.paths)
  return (e, Invocation.upToSignal started)

end ScopedCheck
