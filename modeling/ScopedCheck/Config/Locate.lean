import ScopedCheck.Config.Load
/-! # Locating configs

The config of a directory is the nearest one in the directory or above it, unless a project is named:
a config document or a directory that holds one.

Loaded configs are kept. A kept config is used again as long as every document that it was made of
still has the time at which it was written then. -/

namespace ScopedCheck

namespace Config

/-- The nearest config in a directory or above it. -/
def findUpward? (tree : FileTree) (dir : Path) : Option Path :=
  ((dir.ancestors.map (·.child fileName)).find? tree.isFile).map tree.canonical

/-- The config that a project stands for. -/
def ofProject (tree : FileTree) (dir project : Path) : Except Failure Path :=
  let named := dir.join project
  let candidate := if tree.isDir named then named.child fileName else named
  if tree.isFile candidate then .ok (tree.canonical candidate)
  else .error (missing candidate.normalize)

/-- The config of a directory, or the one that a project stands for. -/
def locate (tree : FileTree) (dir : Path) (project : Option Path) : Except Failure Path :=
  match project with
  | some project => ofProject tree dir project
  | none =>
      match findUpward? tree dir with
      | some path => .ok path
      | none => .error (.configNotFound dir true)

end Config

/-- A config that is kept, with the documents that it was made of and when they were written. -/
structure KeptConfig where
  path : Path
  stamps : List (Path × Option Nat)
  config : Config
  /-- Tells this config from all others that were ever kept. -/
  serial : Nat
  deriving Repr, Inhabited

/-- Whether every document still has its time. -/
def KeptConfig.isFresh (kept : KeptConfig) (tree : FileTree) : Bool :=
  kept.stamps.all fun stamp => tree.modified? stamp.1 == stamp.2

/-- The kept configs, at most one for each path. -/
structure ConfigCache where
  kept : List KeptConfig := []
  /-- The number of configs that were ever kept. -/
  loads : Nat := 0
  deriving Repr, Inhabited

namespace ConfigCache

/-- The kept config of a path. -/
def get? (cache : ConfigCache) (path : Path) : Option KeptConfig :=
  cache.kept.find? (path.same ·.path)

/-- Keep a config in the place of the one that was kept for its path. -/
def keep (cache : ConfigCache) (kept : KeptConfig) : ConfigCache :=
  { kept := kept :: cache.kept.filter (!kept.path.same ·.path), loads := cache.loads + 1 }

/-- Load a config and keep it. -/
def reload (cache : ConfigCache) (tree : FileTree) (path : Path) :
    Except Failure (KeptConfig × ConfigCache) := do
  let config ← Config.load tree path
  let stamps := config.chain.map fun document => (document, tree.modified? document)
  let kept : KeptConfig := ⟨path, stamps, config, cache.loads⟩
  return (kept, cache.keep kept)

/-- The config at a path, kept or loaded. -/
def load (cache : ConfigCache) (tree : FileTree) (path : Path) :
    Except Failure (KeptConfig × ConfigCache) :=
  let path := tree.canonical path
  match cache.get? path with
  | some kept => if kept.isFresh tree then .ok (kept, cache) else cache.reload tree path
  | none => cache.reload tree path

/-- The number of kept configs. -/
def size (cache : ConfigCache) : Nat := cache.kept.length

end ConfigCache

end ScopedCheck
