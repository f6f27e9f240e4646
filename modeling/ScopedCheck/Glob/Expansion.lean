import ScopedCheck.FileTree.Walk
import ScopedCheck.Glob.Filter
/-! # Expanding patterns

A pattern without glob characters stands for the one path that it names, whether or not there is
something. A glob stands for the files that a walk from its literal front meets and that match it;
the walk passes by installed packages and hidden directories. A glob that cannot be read is a failure,
but one whose expression is nested too deep is a panic. -/

namespace ScopedCheck

/-- The files below a path that some include pattern matches, that no exclude pattern matches, nor
any directory on the way to them, and that are accepted. -/
def FileTree.walkMatching (tree : FileTree) (start : Path) (includes excludes : PathFilter)
    (accepts : Path → Bool) : List Path :=
  let visits := tree.walk (fun visit => !visit.isPassedBy && !excludes.isMatch visit.path) start
  let found := visits.filter fun visit =>
    visit.kind == .file && includes.isMatch visit.path && accepts visit.path
  Path.sorted (found.map (·.path.normalize))

/-- What patterns stand for: files in the order of the patterns, and globs that match nothing. -/
structure Expansion where
  files : List Path := []
  unmatched : List String := []
  deriving DecidableEq, Repr, Inhabited

namespace Expansion

/-- A pattern as an absolute one, as it is written. -/
def absolutePattern (cwd : Path) (pattern : String) : String :=
  if (⟨pattern⟩ : Path).isAbsolute then Text.forwardSlashes pattern
  else (cwd.child pattern).slashed

/-- What is said of a glob whose expression is nested too deep. -/
def panicMessage (glob : Glob) : String :=
  "regex compilation shouldn't fail: Error \x7b glob: Some(" ++ Text.quoted glob.expressionText
    ++ "), kind: Regex(" ++ Text.quoted "error parsing pattern 0" ++ ") \x7d"

/-- The glob of an absolute pattern. It is tried as a regular expression, whatever its shape is. -/
def globOf (absolute : String) : Except Halt Glob :=
  match PathFilter.globOf (⟨absolute⟩ : Path).normalize.slashed with
  | .error failure => .error (.failed failure)
  | .ok glob =>
      if GlobUnion.isTooDeep glob then .error (.panicked (panicMessage glob)) else .ok glob

/-- The pieces of an absolute pattern in front of the first one with glob characters, as a path. -/
def literalFront (absolute : String) : Path :=
  let pieces := (Text.splitOn '/' absolute.toList).map String.ofList
  (pieces.takeWhile (!isGlobText ·)).foldl push ⟨""⟩
where
  /-- Go one piece further; the piece in front of the first slash is the root. -/
  push (front : Path) (piece : String) : Path :=
    if piece.isEmpty then if front.text.isEmpty then ⟨"/"⟩ else front else front.child piece

/-- Where the walk for an absolute pattern starts. -/
def walkStart (tree : FileTree) (absolute : String) : Path :=
  let front := literalFront absolute
  if tree.isFile front then front.parent else front

/-- The files that an absolute pattern matches, in ascending order. -/
def matchedFiles (tree : FileTree) (absolute : String) (glob : Glob) : List Path :=
  let visits := tree.walkSources (walkStart tree absolute)
  Path.sorted ((visits.filter (glob.isMatch ·.path)).map (·.path.normalize))

/-- Add files that are not there yet. -/
def addFiles (expansion : Expansion) (paths : List Path) : Expansion :=
  { expansion with
    files := paths.foldl (fun files path => if path.listed files then files else files ++ [path])
      expansion.files }

/-- Add what one pattern stands for. -/
def addPattern (tree : FileTree) (cwd : Path) (expansion : Expansion) (pattern : String) :
    Except Halt Expansion :=
  if isGlobText pattern then do
    let absolute := absolutePattern cwd pattern
    let glob ← globOf absolute
    let matched := matchedFiles tree absolute glob
    let expansion :=
      if matched.isEmpty then { expansion with unmatched := expansion.unmatched ++ [pattern] }
      else expansion
    return expansion.addFiles matched
  else .ok (expansion.addFiles [cwd.absolutize ⟨pattern⟩])

/-- What patterns stand for. -/
def ofPatterns (tree : FileTree) (cwd : Path) (patterns : List String) : Except Halt Expansion :=
  patterns.foldlM (addPattern tree cwd) {}

end Expansion

end ScopedCheck
