import ScopedCheck.CommandLine.Conclusion
/-! # The command

A run takes a picture of the working directory, and of the documents in the directories above it,
and works on that. There are no programs in the picture: a compiler that is found is a file that
cannot be started from here. -/

namespace ScopedCheck.Command

/-- The names of files whose content can matter: sources and documents. -/
def isRead (name : String) : Bool :=
  let ends := ".json" :: (Path.typedExtensions ++ Path.untypedExtensions)
  (⟨name⟩ : Path).endsInOneOf ends

/-- A time as a number. -/
def timeOf (time : IO.FS.SystemTime) : Nat := time.sec.toNat * 1000000000 + time.nsec.toNat

/-- Whether an entry is a document, such as a config. -/
def isDocument (entry : IO.FS.DirEntry) : Bool := Text.endsWith entry.fileName ".json"

/-- What an entry of a directory stands for, with all that is below it. A link leads to the place
behind it. -/
partial def nodeOf (entry : IO.FS.DirEntry) : IO (List (FileTree.Name × FileTree.Node)) := do
  let name := entry.fileName.toList
  let data ← entry.path.symlinkMetadata
  match data.type with
  | .dir =>
      let below ← (← entry.path.readDir).toList.mapM nodeOf
      return [(name, .dir below.flatten)]
  | .symlink =>
      return [(name, .link ⟨(← IO.FS.realPath entry.path).toString⟩)]
  | .file =>
      let bytes ← if isRead entry.fileName then IO.FS.readBinFile entry.path else pure .empty
      return [(name, .file { content := .bytes bytes.toList, modified := timeOf data.modified })]
  | .other => return []

/-- What an entry stands for, or nothing if it cannot be looked at. -/
def nodeOrNone (entry : IO.FS.DirEntry) : IO (List (FileTree.Name × FileTree.Node)) := do
  try nodeOf entry catch _ => return []

/-- The entries of a directory that are wanted. -/
def entriesOf (dir : Path) (wanted : IO.FS.DirEntry → Bool) :
    IO (List (FileTree.Name × FileTree.Node)) := do
  let place ← IO.FS.realPath dir.text
  let found ← ((← place.readDir).toList.filter wanted).mapM nodeOrNone
  return found.flatten

/-- The tree with a directory and its entries. -/
def place (tree : FileTree) (dir : Path) (entries : List (FileTree.Name × FileTree.Node)) :
    FileTree :=
  let made := (tree.makeDirs dir).toOption.getD tree
  entries.foldl (fun tree entry =>
    ((tree.locate dir).toOption.map fun location =>
      tree.put (location ++ [entry.1]) entry.2).getD tree) made

/-- A picture of a directory and of the documents above it. -/
def picture (dir : Path) : IO FileTree := do
  let above ← (dir.ancestors.tail.reverse).mapM fun outer => do
    return (outer, ← entriesOf outer isDocument)
  let inside ← entriesOf dir fun _ => true
  return place (above.foldl (fun tree (outer, entries) => place tree outer entries) {}) dir inside

/-- The directories that a search path lists. -/
def searchPathOf (value : String) : List Path :=
  (Text.splitOn ':' value.toList).map fun piece => ⟨String.ofList piece⟩

/-- What the run is told by its environment. -/
def surroundings (dir : Path) : IO Surroundings := do
  return {
    currentDir := dir
    tempDir := ⟨(← IO.getEnv "TMPDIR").getD "/tmp"⟩
    searchPath := ((← IO.getEnv "PATH").map searchPathOf).getD []
    project := ← IO.getEnv "TSC_FILES_PROJECT" }

end ScopedCheck.Command

open ScopedCheck in
/-- Run the program. -/
def main (arguments : List String) : IO UInt32 := do
  let dir : Path := ⟨(← IO.currentDir).toString⟩
  let isTerminal ← (← IO.getStdout).isTty
  let start ← IO.monoMsNow
  let (conclusion, _) :=
    Conclusion.ofArguments (← Command.surroundings dir) (← Command.picture dir) isTerminal arguments
  let code := conclusion.exitCode
  let elapsed := (← IO.monoMsNow) - start
  IO.print (conclusion.after elapsed).stdout
  IO.eprint (conclusion.after elapsed).stderr
  return UInt32.ofNat code
