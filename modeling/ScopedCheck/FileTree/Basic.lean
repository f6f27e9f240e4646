import ScopedCheck.Path.Basic
import ScopedCheck.Text.Utf8
import ScopedCheck.FileTree.Fault
/-! # File trees

A file tree is a value: directories with named entries, files and symbolic links. A lookup goes
through a path step by step and follows every link that it meets; a path to a file must not go on
behind it, not even with a slash.

Files remember when they were last written. These times are only compared for being the same. An
executable file may have a program, which says what happens when it is started. -/

namespace ScopedCheck

/-- What a file holds. -/
inductive Content
  | text (text : String)
  | bytes (bytes : List UInt8)
  deriving DecidableEq, Repr, Inhabited

namespace Content

/-- The content as a text, if it is one. -/
def text? : Content → Option String
  | text s => some s
  | bytes bs => Text.Utf8.decode? bs

/-- The content as a text, with replacement characters for what is none. -/
def lossyText : Content → String
  | text s => s
  | bytes bs => Text.Utf8.lossy bs

end Content

/-- How a program ends. -/
inductive Ending
  | code (code : Nat)
  | signal (number : Nat)
  deriving DecidableEq, Repr, Inhabited

/-- What happens when a program is started: it writes its output, sends a signal to whoever started
it, takes its time and ends. -/
structure Program where
  stdout : Content := .text ""
  stderr : Content := .text ""
  signalsParent : Option Nat := none
  milliseconds : Nat := 0
  ending : Ending := .code 0
  deriving DecidableEq, Repr, Inhabited

/-- A file. -/
structure File where
  content : Content
  modified : Nat := 0
  /-- The permission bits. -/
  mode : Nat := 0o644
  program : Option Program := none
  deriving DecidableEq, Repr, Inhabited

/-- Whether a file may be started. -/
def File.isExecutable (file : File) : Bool := file.mode &&& 0o111 != 0

namespace FileTree

/-- The name of an entry. -/
abbrev Name := List Char

/-- A place in a file tree, by the names that lead there from the root. -/
abbrev Location := List Name

/-- What a name in a directory stands for. -/
inductive Node
  | file (file : File)
  | link (target : Path)
  | dir (entries : List (Name × Node))
  deriving Repr, Inhabited

namespace Node

/-- The entries of a directory. -/
def entries : Node → List (Name × Node)
  | dir entries => entries
  | _ => []

/-- Whether the node is a directory. -/
def isDir : Node → Bool
  | dir _ => true
  | _ => false

/-- The entry of a name. -/
def entry? (node : Node) (name : Name) : Option Node :=
  (node.entries.find? (·.1 == name)).map (·.2)

/-- The node at a location below. -/
def get? (node : Node) : Location → Option Node
  | [] => some node
  | name :: names => (node.entry? name).bind fun below => below.get? names

/-- Entries with another node for a name, or without one. -/
def setEntry (entries : List (Name × Node)) (name : Name) (node : Option Node) :
    List (Name × Node) :=
  match entries, node with
  | [], none => []
  | [], some node => [(name, node)]
  | entry :: rest, node =>
      if entry.1 = name then (node.map fun node => (name, node)).toList ++ rest
      else entry :: setEntry rest name node

mutual

/-- The number of files at a node and below it. -/
def fileCount : Node → Nat
  | file _ => 1
  | link _ => 0
  | dir entries => fileCounts entries

/-- The number of files in entries and below them. -/
def fileCounts : List (Name × Node) → Nat
  | [] => 0
  | (_, node) :: rest => node.fileCount + fileCounts rest

end

/-- The node with another node at a location below it, or without one. Directories that are missing
on the way are not made. -/
def alter (node : Node) (names : Location) (change : Option Node → Option Node) : Node :=
  match names with
  | [] => node
  | [name] =>
      match node with
      | dir entries => dir (setEntry entries name (change (node.entry? name)))
      | other => other
  | name :: names =>
      match node with
      | dir entries =>
          match node.entry? name with
          | some below => dir (setEntry entries name (some (below.alter names change)))
          | none => node
      | other => other

end Node

end FileTree

/-- A file tree, by the entries of its root. -/
structure FileTree where
  root : List (FileTree.Name × FileTree.Node) := []
  deriving Repr, Inhabited

namespace FileTree

/-- The root as a node. -/
def rootNode (tree : FileTree) : Node := .dir tree.root

/-- The node at a location. -/
def nodeAt? (tree : FileTree) (location : Location) : Option Node := tree.rootNode.get? location

/-- The number of files. -/
def fileCount (tree : FileTree) : Nat := tree.rootNode.fileCount

/-- The number of links that one lookup may follow. -/
def maxLinks : Nat := 40

/-- The most bytes of a name. -/
def maxNameBytes : Nat := 255

/-- The most bytes of a path. -/
def maxPathBytes : Nat := 4095

/-- Whether a name has too many bytes to be one. -/
def isTooLong (name : Name) : Bool := (String.ofList name).utf8ByteSize > maxNameBytes

/-- Whether a path has a zero byte, which ends paths. -/
def hasZero (path : Path) : Bool := path.chars.contains '\x00'

/-- The pieces of a path that may be looked up. -/
def segmentsOf (path : Path) : Except Fault (List Name) :=
  if hasZero path then .error .zeroInPath
  else if path.text.utf8ByteSize > maxPathBytes then .error .nameTooLong
  else .ok path.segments

/-- Follow the pieces of a path from a directory on. What happens at a link is given: it gets the
place where the link is seen from and the pieces that are still to be followed. -/
def followBy (tree : FileTree) (jump : Location → List Name → Except Fault Location)
    (here : Location) (segments : List Name) : Except Fault Location :=
  match segments with
  | [] => .ok here
  | segment :: rest =>
      match tree.nodeAt? here with
      | some (.dir _) =>
          if segment = [] || segment = ['.'] then tree.followBy jump here rest
          else if segment = ['.', '.'] then tree.followBy jump here.dropLast rest
          else if isTooLong segment then .error .nameTooLong
          else
            match tree.nodeAt? (here ++ [segment]) with
            | none => .error .notFound
            | some (.link target) =>
                jump (if target.isAbsolute then [] else here) (target.segments ++ rest)
            | some _ => tree.followBy jump (here ++ [segment]) rest
      | _ => .error .notDirectory

/-- Follow the pieces of a path from a directory on, through as many links as may be followed. What is
found is never a link. -/
def follow (tree : FileTree) : Nat → Location → List Name → Except Fault Location
  | 0 => tree.followBy fun _ _ => .error .tooManyLinks
  | links + 1 => tree.followBy (tree.follow links)

/-- The location that a path leads to, through all links. -/
def locate (tree : FileTree) (path : Path) : Except Fault Location :=
  if path.text.isEmpty then .error .notFound
  else do
    let segments ← segmentsOf path
    tree.follow maxLinks [] segments

/-- A location as a path. -/
def pathOf (location : Location) : Path := Path.ofSegments true location

/-- The path without any links and `..`, if it leads somewhere. -/
def canonical? (tree : FileTree) (path : Path) : Option Path :=
  (tree.locate path).toOption.map pathOf

/-- The path without any links and `..`, or the normal form of a path that leads nowhere. -/
def canonical (tree : FileTree) (path : Path) : Path :=
  (tree.canonical? path).getD path.normalize

/-- The node that a path leads to. -/
def node (tree : FileTree) (path : Path) : Except Fault Node := do
  let location ← tree.locate path
  match tree.nodeAt? location with
  | some node => .ok node
  | none => .error .notFound

/-- The file that a path leads to. -/
def file? (tree : FileTree) (path : Path) : Option File :=
  match tree.node path with
  | .ok (.file file) => some file
  | _ => none

/-- Whether a path leads to a file. -/
def isFile (tree : FileTree) (path : Path) : Bool := (tree.file? path).isSome

/-- Whether a path leads to a directory. -/
def isDir (tree : FileTree) (path : Path) : Bool :=
  match tree.node path with
  | .ok node => node.isDir
  | .error _ => false

/-- When the file that a path leads to was last written. All directories count as written at the
same time, although a new entry changes the time of a real one; this matters only where a root of a
closure is a directory. -/
def modified? (tree : FileTree) (path : Path) : Option Nat :=
  match tree.node path with
  | .ok (.file file) => some file.modified
  | .ok _ => some 0
  | .error _ => none

/-- The text in a file. -/
def readText (tree : FileTree) (path : Path) : Except Fault String := do
  match ← tree.node path with
  | .file file =>
      match file.content.text? with
      | some text => .ok text
      | none => .error .notText
  | _ => .error .isDirectory

end FileTree

end ScopedCheck
