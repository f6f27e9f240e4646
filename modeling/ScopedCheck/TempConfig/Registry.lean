import ScopedCheck.Failure
import ScopedCheck.FileTree.Change
import ScopedCheck.Json.Printer
import ScopedCheck.Path.Kind
import ScopedCheck.TempConfig.Content
/-! # The life of temporary configs

A temporary config is a file that belongs to a handle until the handle is released. A registry knows
all files that still belong to a handle, so that they can be swept away together when the program is
stopped. A file that is gone already, or that cannot be removed, is no failure. Where the files go is
decided by the surroundings of a run as well. -/

namespace ScopedCheck

/-- What a run is told from outside and cannot choose. -/
structure Surroundings where
  /-- The directory that relative paths are seen from. -/
  currentDir : Path
  /-- The directory for files that have no better place. -/
  tempDir : Path
  /-- The directories in which programs are looked for. -/
  searchPath : List Path := []
  /-- A project named in the environment. -/
  project : Option String := none
  /-- The number of the task that prepares the group of a config, or that does the grouping. -/
  taskNumber : Option Path → Nat := fun _ => 0
  deriving Inhabited

/-- The signals that stop the program in an orderly way. -/
inductive StopSignal
  | hangup
  | interrupt
  | terminate
  deriving DecidableEq, Repr

namespace StopSignal

/-- The number of a signal. -/
def number : StopSignal → Nat
  | hangup => 1
  | interrupt => 2
  | terminate => 15

/-- The exit code after a signal, by the convention of shells. -/
def exitCode (signal : StopSignal) : Nat := 128 + signal.number

end StopSignal

namespace TempConfig

/-- A temporary config. -/
structure Handle where
  path : Path
  /-- The setup files that the config lists. -/
  setupFiles : List Path := []
  /-- Whether the file has yet to be removed. -/
  isHeld : Bool := true
  deriving DecidableEq, Repr, Inhabited

/-- The files of all temporary configs that are held, and a number above those of all names. -/
structure Registry where
  live : List Path := []
  nextNumber : Nat := 0
  deriving DecidableEq, Repr, Inhabited

/-- The name of the file with a number. -/
def fileName (number : Nat) : String := "tsconfig." ++ toString number ++ ".json"

/-- The permission bits of the files: only the owner may read and write them. -/
def fileMode : Nat := 0o600

/-- The first number from a given one on whose name is not taken. Among one more numbers than there
are names one is free. -/
def freeNumber (taken : List FileTree.Name) (first : Nat) : Nat :=
  (((List.range (taken.length + 1)).map (first + ·)).find? fun number =>
    !taken.contains (fileName number).toList).getD first

/-- The names in a directory. -/
def namesIn (tree : FileTree) (dir : Path) : List FileTree.Name :=
  match tree.node dir with
  | .ok node => node.entries.map (·.1)
  | .error _ => []

/-- The directory for the temporary configs of a project, which is made if it is missing. The chosen
directory must be possible; the default one gives way to the directory for temporary files. -/
def prepareDir (tree : FileTree) (s : Surroundings) (projectDir : Path) (chosen : Option Path) :
    Except Failure (Path × FileTree) :=
  match chosen with
  | some dir =>
      match tree.makeDirs (s.currentDir.join dir) with
      | .ok tree => .ok (dir, tree)
      | .error fault => .error (.tempConfig dir fault.message)
  | none =>
      match tree.makeDirs projectDir.defaultCacheDir with
      | .ok tree => .ok (projectDir.defaultCacheDir, tree)
      | .error _ => .ok (s.tempDir, tree)

/-- The file of a temporary config with the given content. -/
def fileOf (document : Json) : File := { content := .text document.pretty, mode := fileMode }

namespace Registry

/-- Write a temporary config. -/
def create (registry : Registry) (tree : FileTree) (s : Surroundings) (config : Config)
    (selection : FileSelection) (setupFiles : List Path) (synthesis : Synthesis) :
    Except Failure (Handle × Registry × FileTree) := do
  let (named, tree) ← prepareDir tree s config.dir synthesis.cacheDir
  let dir := s.currentDir.join named
  let number := freeNumber (namesIn tree dir) registry.nextNumber
  let path := dir.child (fileName number)
  match tree.createFile path (fileOf (content config selection synthesis config.dir)) with
  | .ok tree => return (⟨path, setupFiles, true⟩, ⟨path :: registry.live, number + 1⟩, tree)
  | .error fault => throw (.tempConfig named fault.message)

/-- The number of files that are held. -/
def size (registry : Registry) : Nat := registry.live.length

/-- Forget a file. -/
def forget (registry : Registry) (path : Path) : Registry :=
  { registry with live := registry.live.filter (· != path) }

end Registry

/-- The tree without a file, and whether there was one to remove. -/
def removed (tree : FileTree) (path : Path) : FileTree × Bool :=
  match tree.removeFile path with
  | .ok tree => (tree, true)
  | .error _ => (tree, false)

/-- Release a handle: its file is removed and forgotten. To release it again changes nothing. -/
def Handle.release (handle : Handle) (registry : Registry) (tree : FileTree) :
    Handle × Registry × FileTree :=
  if handle.isHeld then
    ({ handle with isHeld := false }, registry.forget handle.path, (removed tree handle.path).1)
  else (handle, registry, tree)

/-- Remove files; the number says how many there were. -/
def removeAll (tree : FileTree) : List Path → FileTree × Nat
  | [] => (tree, 0)
  | path :: rest =>
      let (tree, wasThere) := removed tree path
      let (tree, count) := removeAll tree rest
      (tree, if wasThere then count + 1 else count)

/-- Remove and forget all files that are held. -/
def Registry.sweep (registry : Registry) (tree : FileTree) : Nat × Registry × FileTree :=
  let (tree, count) := removeAll tree registry.live
  (count, { registry with live := [] }, tree)

end TempConfig

end ScopedCheck
