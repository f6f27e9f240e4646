import ScopedCheck.Config.Locate
import ScopedCheck.Glob.Expansion
/-! # Grouping

The files that were asked for, grouped by the config that governs them. A file belongs to the
nearest config above it, a glob that matches nothing to the config of the working directory. If a
project is named, everything belongs to its config. A pattern that cannot be expanded, or a file
without a config, stays behind with the reason. A pattern whose expansion panics takes all of the
grouping with it. -/

namespace ScopedCheck

/-- Files that share a config. -/
structure FileGroup where
  configPath : Path
  /-- The patterns that contributed to the group, in order. -/
  patterns : List String := []
  files : List Path := []
  deriving DecidableEq, Repr, Inhabited

/-- A pattern or a file that belongs to no group. -/
structure Unresolved where
  pattern : String
  failure : Failure
  deriving DecidableEq, Repr

/-- The groups, in the order in which they were met. -/
structure Grouping where
  groups : List FileGroup := []
  unresolved : List Unresolved := []
  deriving DecidableEq, Repr, Inhabited

namespace FileGroup

/-- Remember a pattern. -/
def addPattern (group : FileGroup) (pattern : String) : FileGroup :=
  if group.patterns.contains pattern then group
  else { group with patterns := group.patterns ++ [pattern] }

/-- Add a file. -/
def addFile (group : FileGroup) (file : Path) : FileGroup :=
  if file.listed group.files then group else { group with files := group.files ++ [file] }

end FileGroup

namespace Grouping

/-- Change the group of a config; it is added if it is missing. -/
def changeGroup (groups : List FileGroup) (configPath : Path) (change : FileGroup → FileGroup) :
    List FileGroup :=
  match groups with
  | [] => [change ⟨configPath, [], []⟩]
  | group :: rest =>
      if group.configPath.same configPath then change group :: rest
      else group :: changeGroup rest configPath change

/-- Leave something behind. -/
def leave (grouping : Grouping) (pattern : String) (failure : Failure) : Grouping :=
  { grouping with unresolved := grouping.unresolved ++ [⟨pattern, failure⟩] }

/-- Note that a pattern belongs to the group of a config, if there is one. -/
def bindPattern (grouping : Grouping) (config : Except Failure Path) (pattern : String) : Grouping :=
  match config with
  | .ok path =>
      { grouping with groups := changeGroup grouping.groups path (·.addPattern pattern) }
  | .error failure => grouping.leave pattern failure

/-- Put a file into the group of its config, if there is one. A file that a glob matched stays behind
under its own name. -/
def bindFile (grouping : Grouping) (config : Except Failure Path) (pattern : String) (file : Path) :
    Grouping :=
  match config with
  | .ok path =>
      { grouping with
        groups := changeGroup grouping.groups path fun group =>
          (group.addPattern pattern).addFile file }
  | .error failure => grouping.leave (if isGlobText pattern then file.text else pattern) failure

/-- Group what a pattern has been expanded to. -/
def addExpansion (cwd : Path) (configOf : Path → Except Failure Path) (grouping : Grouping)
    (pattern : String) (expansion : Expansion) : Grouping :=
  if expansion.unmatched.isEmpty then
    expansion.files.foldl
      (fun grouping file => grouping.bindFile (configOf (file.parent?.getD cwd)) pattern file)
      grouping
  else grouping.bindPattern (configOf cwd) pattern

/-- Group what one pattern stands for. -/
def addPattern (tree : FileTree) (cwd : Path) (configOf : Path → Except Failure Path)
    (grouping : Grouping) (pattern : String) : Except Halt Grouping :=
  match Expansion.ofPatterns tree cwd [pattern] with
  | .error (.panicked message) => .error (.panicked message)
  | .error (.failed failure) => .ok (grouping.leave pattern failure)
  | .ok expansion => .ok (grouping.addExpansion cwd configOf pattern expansion)

/-- Group what patterns stand for. Only a named project without a config is a failure of the
whole, and only a panic ends it on the way. -/
def ofPatterns (tree : FileTree) (cwd : Path) (project : Option Path) (patterns : List String) :
    Except Halt Grouping := do
  let configOf : Path → Except Failure Path ←
    match project with
    | some project => do
        let path ← (Config.ofProject tree cwd project).mapError .failed
        pure fun _ => .ok path
    | none => pure fun dir => Config.locate tree dir none
  patterns.foldlM (addPattern tree cwd configOf) {}

end Grouping

end ScopedCheck
