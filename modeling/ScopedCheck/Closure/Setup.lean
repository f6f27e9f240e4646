import ScopedCheck.Closure.Heuristics
import ScopedCheck.Closure.Walk
import ScopedCheck.Glob.Expansion
/-! # Tests, setup files and generated files

Tests and generated files are recognized by their names. Setup files are those that the configs of
test runners name and those at conventional places. The configs are programs, which are read as mere
texts. -/

namespace ScopedCheck

/-- Heuristics with their globs read. -/
structure Recognizer where
  heuristics : Heuristics
  testGlobs : GlobUnion
  setupGlobs : GlobUnion
  deriving Repr

namespace Recognizer

/-- Read a glob of the heuristics. -/
def globOf (pattern : String) : Except Setback Glob :=
  match Glob.ofText pattern with
  | .ok glob => .ok glob
  | .error fault => .error (.badGlob pattern fault)

/-- Read several globs of the heuristics and put them together. -/
def unionOf (patterns : List String) : Except Setback GlobUnion := do
  let globs ← patterns.mapM globOf
  (GlobUnion.ofGlobs globs).mapError .badGlobUnion

/-- Read the globs of heuristics. -/
def ofHeuristics (heuristics : Heuristics) : Except Setback Recognizer := do
  let testGlobs ← unionOf heuristics.testGlobs
  let setupGlobs ← unionOf heuristics.setupGlobs
  return ⟨heuristics, testGlobs, setupGlobs⟩

/-- A path seen from a project, or from the root if it lies elsewhere. -/
def seenFrom (project path : Path) : Path :=
  (path.relativeTo? project <|> path.relativeTo? ⟨"/"⟩).getD path

/-- Whether a file of a project is a test. -/
def isTest (r : Recognizer) (project path : Path) : Bool :=
  r.testGlobs.isMatch (seenFrom project path)

/-- Whether a file of a project is at a conventional place for setup files. -/
def isConventionalSetup (r : Recognizer) (project path : Path) : Bool :=
  r.setupGlobs.isMatch (seenFrom project path)

/-- Whether a file is generated. -/
def isGenerated (r : Recognizer) (path : Path) : Bool :=
  r.heuristics.generatedEnds.any (Text.endsWith path.name)

end Recognizer

namespace SetupFiles

open Text Text.Pattern

/-- Any kind of quote. -/
def isQuote (c : Char) : Bool := c == '"' || c == '\'' || c == '`'

/-- A quote, or nothing. -/
def maybeQuote : Pattern := optional (char fun c => c == '"' || c == '\'')

/-- A text between quotes, remembered as the first group. -/
def quotedText : Pattern :=
  all [char isQuote, capture 1 (some .more (!isQuote ·)), char isQuote]

/-- The key of the setup files and the colon behind it. -/
def keyPattern : Pattern :=
  all [maybeQuote, text "setupFiles", optional (text "AfterEnv"), maybeQuote, blanks, text ":",
    blanks]

/-- A list of setup files, remembered as the first group. -/
def listPattern : Pattern :=
  all [keyPattern, text "[", capture 1 (many .more (· != ']')), text "]"]

/-- A single setup file. -/
def singlePattern : Pattern := all [keyPattern, quotedText]

/-- The texts between quotes in a text. -/
def quotedTexts (cs : List Char) : List String :=
  (quotedText.findAll cs).map (·.group 1)

/-- The setup files that the text of a config names: those in lists, then single ones. -/
def ofSource (source : String) : List String :=
  (listPattern.findAll source.toList).flatMap (fun found => quotedTexts (found.group 1).toList)
    ++ (singlePattern.findAll source.toList).map (·.group 1)

/-- The setup files that the description of a package names. -/
def ofPackage (source : String) : List String :=
  match (Json.parse source).toOption.bind (·.get? "jest") with
  | .none => []
  | .some jest =>
      ["setupFiles", "setupFilesAfterEnv"].flatMap fun key =>
        (((jest.get? key).bind Json.array?).getD []).filterMap Json.string?

/-- The name of the description of a package. -/
def packageFile : String := "package.json"

/-- The setup files that a config of the given name names. -/
def entriesOf (name source : String) : List String :=
  if endsWith name packageFile then ofPackage source else ofSource source

/-- What stands for the directory of the project. -/
def rootMark : String := "<rootDir>"

/-- The endings that a named setup file may lack. -/
def endings : List String := [".ts", ".tsx", ".mts", ".cts", ".js", ".jsx"]

/-- The file that a named setup file stands for. -/
def fileOf? (tree : FileTree) (project : Path) (entry : String) : Option Path :=
  let entry := String.ofList (replaceAll rootMark.toList project.text.toList entry.toList)
  let path := (project.join ⟨entry⟩).normalize
  (path :: endings.map fun ending => ⟨path.text ++ ending⟩).find? tree.isFile

/-- The setup files that one config of a test runner names. -/
def namedBy (tree : FileTree) (project : Path) (name : String) : Except Setback (List Path) := do
  let config := project.child name
  if tree.isFile config then
    let source ← ImportWalk.sourceText tree config
    return (entriesOf name source).filterMap (fileOf? tree project)
  else return []

/-- How far below a project setup files are looked for. -/
def maxDepth : Nat := 4

/-- The files of a project at conventional places for setup files. -/
def conventional (tree : FileTree) (r : Recognizer) (project : Path) : List Path :=
  ((tree.walkSources project).filter fun visit =>
    visit.depth ≤ maxDepth && r.isConventionalSetup project visit.path).map (·.path.normalize)

/-- The setup files of a project that a compiler takes as sources. -/
def find (tree : FileTree) (r : Recognizer) (project : Path) (allowUntyped : Bool) :
    Except Setback (List Path) := do
  let named ← r.heuristics.runnerConfigs.mapM (namedBy tree project)
  let found := named.flatten ++ conventional tree r project
  return Path.sortedUnique
    (found.filter fun path => !path.isInPackages && path.isSource allowUntyped)

end SetupFiles

end ScopedCheck
