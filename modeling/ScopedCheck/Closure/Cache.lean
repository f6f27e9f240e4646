import ScopedCheck.Closure.Heuristics
import ScopedCheck.Config.Resolved
import ScopedCheck.FileTree.Basic
import ScopedCheck.Json.Printer
/-! # Kept closures

A closure is kept under what it was asked for. It is used again as long as the config and all
documents that it was made of are the same, the number of declarations of the project is the same,
and every file of the closure has the time at which it was written then. -/

namespace ScopedCheck

/-- The files that a compiler has to see. -/
structure Closure where
  /-- The files in ascending order, or the roots if discovery failed. -/
  files : List Path
  /-- Whether the files were discovered; otherwise the patterns have to do. -/
  discovered : Bool
  setupFiles : List Path
  includePatterns : List String
  /-- The number of declarations of the project. -/
  ambientCount : Nat
  deriving DecidableEq, Repr, Inhabited

/-- What a closure is asked for. -/
structure ClosureRequest where
  config : Config
  roots : List Path
  projectDir : Path
  verbose : Bool := true
  /-- The files that a caller chose to add. -/
  includes : Option (List Path) := none
  limits : Limits := {}
  heuristics : Heuristics := default
  deriving Repr, Inhabited

/-- A place, whatever the spelling of its path. -/
abbrev Place := List Path.Part

/-- What tells closures apart: the config, the roots as a set, the added files in any order, the
bounds and the heuristics. -/
structure ClosureKey where
  config : Place
  roots : List Place
  includes : Option (List Place)
  limits : Limits
  heuristics : Heuristics
  deriving DecidableEq, Repr

/-- The key of a request. -/
def ClosureRequest.key (request : ClosureRequest) : ClosureKey where
  config := request.config.configPath.parts
  roots := (Path.sortedUnique request.roots).map Path.parts
  includes := request.includes.map fun paths => (Path.sorted paths).map Path.parts
  limits := request.limits
  heuristics := request.heuristics

/-- Patterns and the place that they are relative to. -/
def FilePatterns.placed (specs : FilePatterns) : Place × List String :=
  (specs.baseDir.parts, specs.patterns)

/-- When files were last written. -/
def FileTree.times (tree : FileTree) (files : List Path) : List (Place × Option Nat) :=
  files.map fun file => (file.parts, tree.modified? file)

/-- What a closure owes to its config: the documents with their times, and what they say. -/
structure ConfigStamp where
  documents : List (Place × Option Nat)
  options : String
  includes : Option (Place × List String)
  excludes : Option (Place × List String)
  files : Option (Place × List String)
  references : List Place
  deriving DecidableEq, Repr

/-- The stamp of a config. -/
def ConfigStamp.ofConfig (tree : FileTree) (config : Config) : ConfigStamp where
  documents := tree.times config.chain
  options := (Json.object config.options.toEntries).compact
  includes := config.includes.map FilePatterns.placed
  excludes := config.excludes.map FilePatterns.placed
  files := config.files.map FilePatterns.placed
  references := config.references.map Path.parts

/-- A closure that is kept. -/
structure KeptClosure where
  key : ClosureKey
  stamp : ConfigStamp
  times : List (Place × Option Nat)
  closure : Closure
  deriving DecidableEq, Repr

/-- Why a kept closure cannot be used again. -/
inductive Staleness
  | config
  | ambientCount (before after : Nat)
  | files
  deriving DecidableEq, Repr

/-- The reason in words. -/
def Staleness.message : Staleness → String
  | config => "tsconfig changed"
  | ambientCount before after =>
      "ambient declaration count changed (" ++ toString before ++ " -> " ++ toString after ++ ")"
  | files => "file modification detected"

/-- What is known about a request. -/
inductive KeptAnswer
  | hit (closure : Closure)
  | stale (reason : Staleness)
  | miss
  deriving DecidableEq, Repr

/-- The kept closures, at most one for each key. -/
structure ClosureCache where
  kept : List KeptClosure := []
  deriving DecidableEq, Repr, Inhabited

namespace ClosureCache

/-- The kept closure of a key. -/
def get? (cache : ClosureCache) (key : ClosureKey) : Option KeptClosure :=
  cache.kept.find? (·.key == key)

/-- What is known about a key, now that the config has a stamp and the project a number of
declarations. -/
def lookup (cache : ClosureCache) (tree : FileTree) (key : ClosureKey) (stamp : ConfigStamp)
    (ambientCount : Nat) : KeptAnswer :=
  match cache.get? key with
  | none => .miss
  | some kept =>
      if kept.stamp ≠ stamp then .stale .config
      else if kept.closure.ambientCount ≠ ambientCount then
        .stale (.ambientCount kept.closure.ambientCount ambientCount)
      else if kept.times ≠ tree.times kept.closure.files then .stale .files
      else .hit kept.closure

/-- Keep a closure in the place of the one that was kept for its key. -/
def store (cache : ClosureCache) (tree : FileTree) (key : ClosureKey) (stamp : ConfigStamp)
    (closure : Closure) : ClosureCache :=
  ⟨⟨key, stamp, tree.times closure.files, closure⟩ :: cache.kept.filter (·.key != key)⟩

/-- The number of kept closures. -/
def size (cache : ClosureCache) : Nat := cache.kept.length

end ClosureCache

end ScopedCheck
