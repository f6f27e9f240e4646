import ScopedCheck.FileTree.Change
import ScopedCheck.Path.Kind
/-! # Walks

A walk meets everything at and below a path. Links are met but not followed, except that a walk may
start at a link. A directory that is not admitted is left out with all that is below it. -/

namespace ScopedCheck.FileTree

/-- The kinds of nodes that a walk meets. -/
inductive NodeKind
  | file
  | link
  | dir
  deriving DecidableEq, Repr

/-- The kind of a node. -/
def Node.kind : Node → NodeKind
  | .file _ => .file
  | .link _ => .link
  | .dir _ => .dir

/-- What a walk meets: a path, how far it is below the start, the last name, and the kind. -/
structure Visit where
  path : Path
  depth : Nat
  name : Name
  kind : NodeKind
  deriving DecidableEq, Repr

/-- A visit one step below a path. -/
def Visit.below (path : Path) (depth : Nat) (name : Name) (kind : NodeKind) : Visit :=
  ⟨path.child (String.ofList name), depth, name, kind⟩

mutual

/-- Everything that is admitted at a visited node and below it. -/
def walkNode (admits : Visit → Bool) (visit : Visit) : Node → List Visit
  | .dir entries =>
      if admits visit then visit :: walkEntries admits visit.path (visit.depth + 1) entries else []
  | _ => if admits visit then [visit] else []

/-- Everything that is admitted among the entries of a directory and below them. -/
def walkEntries (admits : Visit → Bool) (path : Path) (depth : Nat) :
    List (Name × Node) → List Visit
  | [] => []
  | (name, node) :: rest =>
      walkNode admits (.below path depth name node.kind) node ++ walkEntries admits path depth rest

end

/-- Everything that is admitted at a path and below it. The place behind a link at the start is
walked even if the link itself is not admitted. -/
def walk (tree : FileTree) (admits : Visit → Bool) (start : Path) : List Visit :=
  match tree.unfollowed start with
  | .error _ => []
  | .ok (.link target) =>
      let visit : Visit := ⟨start, 0, start.name.toList, (Node.link target).kind⟩
      let below :=
        match tree.node start with
        | .ok (.dir entries) => walkEntries admits start 1 entries
        | _ => []
      walkNode admits visit (.link target) ++ below
  | .ok node => walkNode admits ⟨start, 0, start.name.toList, node.kind⟩ node

/-- Directories below the start that every walk through a project passes by: installed packages and
hidden directories. -/
def Visit.isPassedBy (visit : Visit) : Bool :=
  visit.kind == .dir && visit.depth != 0
    && (visit.name == Path.packagesName.toList || visit.name.head? == some '.')

/-- The visited files of a walk that passes by installed packages and hidden directories. -/
def walkSources (tree : FileTree) (start : Path) : List Visit :=
  (tree.walk (!·.isPassedBy) start).filter (·.kind == .file)

end ScopedCheck.FileTree
