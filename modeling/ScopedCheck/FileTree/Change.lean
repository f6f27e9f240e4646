import ScopedCheck.FileTree.Basic
import ScopedCheck.Text.Blank
/-! # Changes to file trees

Making directories, writing files and removing them, by the rules of the file system. -/

namespace ScopedCheck.FileTree

/-- The directory that holds the last name of a path, and that name. A path that ends in a slash, a
`.` or a `..` has no last name. -/
def holder (tree : FileTree) (path : Path) : Except Fault (Location × Option Name) := do
  let segments ← segmentsOf path
  match segments.getLast? with
  | none => .error .notFound
  | some last =>
      if last = [] || last = ['.'] || last = ['.', '.'] then
        return (← tree.follow maxLinks [] segments, none)
      else
        let dir ← tree.follow maxLinks [] segments.dropLast
        match tree.nodeAt? dir with
        | some (.dir _) => if isTooLong last then .error .nameTooLong else return (dir, some last)
        | _ => .error .notDirectory

/-- The node that a path leads to, where a link at the end stands for itself. -/
def unfollowed (tree : FileTree) (path : Path) : Except Fault Node := do
  let (dir, name) ← tree.holder path
  match tree.nodeAt? (dir ++ name.toList) with
  | some node => .ok node
  | none => .error .notFound

/-- The tree with a node at a location, in a directory that is there. -/
def put (tree : FileTree) (location : Location) (node : Node) : FileTree :=
  ⟨(tree.rootNode.alter location fun _ => some node).entries⟩

/-- The tree without the node at a location. -/
def without (tree : FileTree) (location : Location) : FileTree :=
  ⟨(tree.rootNode.alter location fun _ => none).entries⟩

/-- A path without slashes at its end. -/
def trimmedEnd (path : Path) : Path :=
  ⟨String.ofList (Text.dropTail (· == '/') path.chars)⟩

/-- Make one directory. -/
def makeDir (tree : FileTree) (path : Path) : Except Fault FileTree := do
  match ← tree.holder (trimmedEnd path) with
  | (_, none) => .error .alreadyExists
  | (dir, some name) =>
      match tree.nodeAt? (dir ++ [name]) with
      | some _ => .error .alreadyExists
      | none => return tree.put (dir ++ [name]) (.dir [])

/-- Make a directory, unless it is there already. -/
def ensureDir (tree : FileTree) (path : Path) : Except Fault FileTree :=
  match tree.makeDir path with
  | .ok tree => .ok tree
  | .error fault => if tree.isDir path then .ok tree else .error fault

/-- Make the directories along a list of paths, each above the one before it, as far as they are
missing. -/
def ensureDirs (tree : FileTree) : List Path → Except Fault FileTree
  | [] => .error .notFound
  | path :: above =>
      match tree.ensureDir path with
      | .error .notFound => do
          let tree ← tree.ensureDirs above
          tree.ensureDir path
      | other => other

/-- Make a directory and all directories above it, as far as they are missing. -/
def makeDirs (tree : FileTree) (path : Path) : Except Fault FileTree :=
  tree.ensureDirs path.ancestors

/-- Put a node at a path, in the place of whatever is there; a file goes where a link leads to. The
directory of the path is made if it is missing. -/
def write (tree : FileTree) (path : Path) (node : Node) : Except Fault FileTree := do
  let tree ← tree.makeDirs path.parent
  match node, tree.locate path with
  | .file _, .ok location => return tree.put location node
  | _, _ =>
      match ← tree.holder path with
      | (_, none) => .error .isDirectory
      | (dir, some name) => return tree.put (dir ++ [name]) node

/-- Create a file in a directory that is there. Whatever is at the path already is left as it is, and
the file is not created. -/
def createFile (tree : FileTree) (path : Path) (file : File) : Except Fault FileTree := do
  match ← tree.holder path with
  | (_, none) => .error .isDirectory
  | (dir, some name) =>
      match tree.nodeAt? (dir ++ [name]) with
      | some _ => .error .alreadyExists
      | none => return tree.put (dir ++ [name]) (.file file)

/-- Remove a file or a link. -/
def removeFile (tree : FileTree) (path : Path) : Except Fault FileTree := do
  match ← tree.holder path with
  | (_, none) => .error .isDirectory
  | (dir, some name) =>
      match tree.nodeAt? (dir ++ [name]) with
      | none => .error .notFound
      | some (.dir _) => .error .isDirectory
      | some _ => return tree.without (dir ++ [name])

/-- Remove whatever is at a path. -/
def remove (tree : FileTree) (path : Path) : FileTree :=
  match tree.holder path with
  | .ok (dir, some name) => tree.without (dir ++ [name])
  | _ => tree

/-- Change the file that a path leads to. -/
def changeFile (tree : FileTree) (path : Path) (change : File → File) : FileTree :=
  match tree.locate path with
  | .ok location =>
      match tree.nodeAt? location with
      | some (.file file) => tree.put location (.file (change file))
      | _ => tree
  | .error _ => tree

end ScopedCheck.FileTree
