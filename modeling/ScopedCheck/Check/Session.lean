import ScopedCheck.Check.Options
import ScopedCheck.Check.Result
import ScopedCheck.Closure.Discover
import ScopedCheck.Compiler.Invocation
import ScopedCheck.Config.Locate
import ScopedCheck.TempConfig.Registry
/-! # Sessions

What lasts from one check to the next: the file tree, the kept configs and closures, and the
temporary configs that are held; beside it what was told and which compilers were started. A check
that fails leaves behind what it did until then. -/

namespace ScopedCheck

/-- The state of checks. -/
structure Session where
  tree : FileTree
  configs : ConfigCache := {}
  closures : ClosureCache := {}
  temps : TempConfig.Registry := {}
  log : List LogEvent := []
  invocations : List Invocation := []
  deriving Repr, Inhabited

/-- A step of a check, which may fail. -/
abbrev Checking := ExceptT Failure (StateM Session)

namespace Checking

/-- Tell events. -/
def tell (events : List LogEvent) : Checking Unit :=
  modify fun session => { session with log := session.log ++ events }

/-- Take a value and tell what was told on the way to it. -/
def hear {α : Type} (told : Told α) : Checking α := do
  tell told.log
  return told.value

/-- Go on with a result, or fail. -/
def orFail {α : Type} (result : Except Failure α) : Checking α := ExceptT.mk (pure result)

/-- The config at a path, kept or loaded. -/
def loadConfig (path : Path) : Checking Config := do
  let session ← get
  let (kept, configs) ← orFail (session.configs.load session.tree path)
  set { session with configs }
  return kept.config

/-- The closure of a request, kept or found. -/
def discover (host : ProgramHost) (request : ClosureRequest) : Checking Closure := do
  let session ← get
  let (closure, closures) ← hear (session.closures.discover session.tree host request)
  modify fun session => { session with closures }
  return closure

/-- Write a temporary config. -/
def createConfig (s : Surroundings) (config : Config) (selection : FileSelection)
    (setupFiles : List Path) (synthesis : Synthesis) : Checking TempConfig.Handle := do
  let session ← get
  let (handle, temps, tree) ←
    orFail (session.temps.create session.tree s config selection setupFiles synthesis)
  set { session with temps, tree }
  return handle

/-- Release a temporary config. -/
def release (handle : TempConfig.Handle) : Checking Unit :=
  modify fun session =>
    let (_, temps, tree) := handle.release session.temps session.tree
    { session with temps, tree }

/-- Run the compilers on a config. -/
def runCompilers (workingDir config : Path) (request : ExecutionRequest) : Checking Execution := do
  let session ← get
  let (execution, started) ← hear (execute session.tree workingDir config request)
  modify fun session => { session with invocations := session.invocations ++ started }
  return execution

end Checking

end ScopedCheck
