import ScopedCheck.Closure.Heuristics
import ScopedCheck.Closure.Setback
import ScopedCheck.Import.Resolve
import ScopedCheck.Import.Scan
/-! # Following imports

A breadth-first walk over the imports of source files. It starts at the roots and takes in every
file that an import of a taken file leads to, within bounds on the number of steps and of files. Only
an import of a new file that is out of bounds counts as a limit. -/

namespace ScopedCheck

/-- The bound that cut a walk short. -/
inductive LimitHit
  | depth (limit : Nat)
  | files (limit : Nat)
  deriving DecidableEq, Repr

/-- The bound in words. -/
def LimitHit.message : LimitHit → String
  | .depth limit => "max depth (" ++ toString limit ++ ")"
  | .files limit => "max file count (" ++ toString limit ++ ")"

/-- A walk: the files taken so far in order, those whose imports have yet to be followed with their
distance from the roots, and the first bound that was hit. -/
structure ImportWalk where
  taken : List Path := []
  queue : List (Path × Nat) := []
  limit : Option LimitHit := none
  deriving DecidableEq, Repr, Inhabited

namespace ImportWalk

/-- Take a file, unless it is taken already. -/
def start (walk : ImportWalk) (root : Path) : ImportWalk :=
  if root.listed walk.taken then walk
  else { walk with taken := walk.taken ++ [root], queue := walk.queue ++ [(root, 0)] }

/-- Hit a bound. -/
def hit (walk : ImportWalk) (limit : LimitHit) : ImportWalk :=
  { walk with limit := walk.limit <|> some limit }

/-- Take the files that the imports of a file lead to, up to the first one out of bounds. -/
def followAll (limits : Limits) (depth : Nat) (walk : ImportWalk) : List Path → ImportWalk
  | [] => walk
  | target :: rest =>
      if target.listed walk.taken then walk.followAll limits depth rest
      else if limits.maxDepth ≤ depth then walk.hit (.depth limits.maxDepth)
      else if limits.maxFiles ≤ walk.taken.length then walk.hit (.files limits.maxFiles)
      else
        ImportWalk.followAll limits depth
          { walk with
            taken := walk.taken ++ [target]
            queue := walk.queue ++ [(target, depth + 1)] }
          rest

/-- The text of a source. -/
def sourceText (tree : FileTree) (path : Path) : Except Setback String :=
  match tree.readText path with
  | .ok text => .ok text
  | .error fault => .error (.unreadable path fault)

/-- The files that the imports of a file lead to. A file that is not there imports nothing. -/
def targetsOf (tree : FileTree) (resolver : Import.Resolver) (follows : Import.Kind → Bool)
    (file : Path) : Except Setback (List Path) := do
  if tree.isFile file then
    let imports := Import.scan (← sourceText tree file)
    return (imports.filter (follows ·.kind)).filterMap fun i =>
      (resolver.resolve tree file i.specifier).file?
  else return []

/-- Follow the queue to its end. Every queued file was taken once, so that the fuel is enough if it
is the greatest number of files that can be taken. -/
def run (targets : Path → Except Setback (List Path)) (limits : Limits) :
    Nat → ImportWalk → Except Setback ImportWalk
  | 0, walk => .ok walk
  | fuel + 1, walk =>
      match walk.queue with
      | [] => .ok walk
      | (file, depth) :: queue => do
          let found ← targets file
          run targets limits fuel ({ walk with queue }.followAll limits depth found)

/-- Walk from roots. -/
def ofRoots (tree : FileTree) (resolver : Import.Resolver) (roots : List Path) (limits : Limits)
    (follows : Import.Kind → Bool) : Except Setback ImportWalk :=
  run (targetsOf tree resolver follows) limits (max roots.length limits.maxFiles)
    (roots.foldl start {})

/-- The files taken, in ascending order. -/
def files (walk : ImportWalk) : List Path := Path.sorted walk.taken

end ImportWalk

end ScopedCheck
