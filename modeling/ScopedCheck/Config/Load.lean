import ScopedCheck.Config.Resolved
import ScopedCheck.Failure
import ScopedCheck.FileTree.Basic
import ScopedCheck.Text.Affix
/-! # Loading configs

A document may build on others, which may build on others in turn. Each document makes its relative
paths absolute by its own directory before it is laid over what it builds on. Single options
override one by one, file patterns as a whole, and references are never inherited. A document that
builds on itself, directly or not, is refused. -/

namespace ScopedCheck

namespace Config

/-! ## Layers -/

/-- A document together with what it builds on. -/
structure Layer where
  options : Options := {}
  includes : Option FilePatterns := none
  excludes : Option FilePatterns := none
  files : Option FilePatterns := none
  pathsBaseDir : Option Path := none
  references : List String := []
  deriving Repr, Inhabited

/-- A path in a document of a directory as an absolute one. -/
def anchored (dir : Path) (value : String) : String :=
  let value := Text.forwardSlashes value
  if (⟨value⟩ : Path).isAbsolute then value else (dir.child value).normalize.slashed

/-- The options that hold one path. -/
def pathOptions : List String :=
  ["rootDir", "outDir", "outFile", "declarationDir", "tsBuildInfoFile"]

/-- The option that holds a list of paths. -/
def pathListOption : String := "rootDirs"

/-- A path value made absolute, unless it is blank. -/
def anchoredValue (dir : Path) : Json → Json
  | .string value =>
      if Text.isBlankText value then .string value
      else .string (anchored dir (Text.trimmed value))
  | other => other

/-- A list of path values made absolute. -/
def anchoredList (dir : Path) : Json → Json
  | .array items =>
      .array <| items.map fun item =>
        match item with
        | .string value => .string (anchored dir (Text.trimmed value))
        | other => other
  | other => other

/-- The other options with their paths made absolute. -/
def anchoredOthers (dir : Path) (other : Entries Json) : Entries Json :=
  (pathOptions.foldl (fun entries key => entries.change key (anchoredValue dir)) other).change
    pathListOption (anchoredList dir)

/-- The options of a document with their paths made absolute. A blank base directory does not
count. -/
def anchoredOptions (dir : Path) (options : Options) : Options :=
  { options with
    baseUrl := (options.baseUrl.filter (!Text.isBlankText ·)).map fun value =>
      anchored dir (Text.trimmed value)
    typeRoots := options.typeRoots.map fun roots =>
      ((roots.map Text.trimmed).filter (!·.isEmpty)).map (anchored dir)
    other := anchoredOthers dir options.other }

/-- The layer of one document alone. -/
def ownLayer (document : Document) (dir : Path) : Layer :=
  let options := document.options.getD {}
  { options := anchoredOptions dir options
    includes := document.includes.map (⟨dir, ·⟩)
    excludes := document.excludes.map (⟨dir, ·⟩)
    files := document.files.map (⟨dir, ·⟩)
    pathsBaseDir := options.paths.map fun _ => dir
    references := document.references.getD [] }

/-- Options laid over others. -/
def mergeOptions (base child : Options) : Options where
  paths := child.paths <|> base.paths
  baseUrl := child.baseUrl <|> base.baseUrl
  moduleResolution := child.moduleResolution <|> base.moduleResolution
  moduleKind := child.moduleKind <|> base.moduleKind
  allowJs := child.allowJs <|> base.allowJs
  checkJs := child.checkJs <|> base.checkJs
  skipLibCheck := child.skipLibCheck <|> base.skipLibCheck
  noEmit := child.noEmit <|> base.noEmit
  typeRoots := child.typeRoots <|> base.typeRoots
  types := child.types <|> base.types
  other := base.other.setAll child.other

/-- A layer laid over another one. -/
def mergeLayers (base child : Layer) : Layer where
  options := mergeOptions base.options child.options
  includes := child.includes <|> base.includes
  excludes := child.excludes <|> base.excludes
  files := child.files <|> base.files
  pathsBaseDir := if child.options.paths.isSome then child.pathsBaseDir else base.pathsBaseDir
  references := child.references

/-! ## What a document builds on -/

/-- The failure that there is no document at a path. -/
def missing (path : Path) : Failure := .configNotFound path false

/-- Whether a specifier is a path rather than the name of a package. -/
def isPathSpecifier (specifier : String) : Bool :=
  Text.startsWith specifier "./" || Text.startsWith specifier "../"
    || Text.startsWith specifier ".\\" || Text.startsWith specifier "..\\"
    || (⟨specifier⟩ : Path).isAbsolute

/-- A path with more text behind it. -/
def withEnd (path : Path) (ending : String) : Path := ⟨path.text ++ ending⟩

/-- The document that a path stands for; the ending of its name may be left out. -/
def documentAt? (tree : FileTree) (path : Path) (specifier : String) : Option Path :=
  if tree.isFile path then some path
  else if !Text.endsWith specifier ".json" && tree.isFile (withEnd path ".json") then
    some (withEnd path ".json")
  else none

open Json.Decoder in
/-- What matters in the description of a package: the config that it offers. -/
def packageShape : Record (Option (Option String)) (Option String) where
  expected := "struct PackageJsonTsconfig"
  start := none
  field _ met key :=
    if key = "tsconfig" then Options.fieldOnce met key (optional string)
    else do colon; skip; return met
  finish met := return met.join
  items := some fun _ => return (← nextItem true (optional string)).join

/-- The config that a package offers, if its description can be read. -/
def offeredConfig? (tree : FileTree) (description : Path) : Option String := do
  let text ← (tree.readText description).toOption
  let offered ← (Json.Decoder.run (Json.Decoder.record · packageShape) text).toOption
  offered

/-- The places of a package's config in a directory of packages. -/
def packageCandidates (tree : FileTree) (packages : Path) (specifier : String) : List Path :=
  let target := packages.child specifier
  if Text.endsWith specifier ".json" then [target]
  else
    withEnd target ".json"
      :: ((offeredConfig? tree (target.child "package.json")).map target.child).toList
      ++ [target.child fileName]

/-- The config of a package, looked for in every directory of packages upwards. -/
def packageConfig? (tree : FileTree) (dir : Path) (specifier : String) : Option Path :=
  dir.ancestors.findSome? fun above =>
    let packages := above.child Path.packagesName
    if tree.isDir packages then
      ((packageCandidates tree packages specifier).find? tree.isFile).map tree.canonical
    else none

/-- The document that a specifier in another document stands for. -/
def baseOf (tree : FileTree) (path : Path) (specifier : String) : Except Failure Path :=
  let specifier := Text.trimmed specifier
  let dir := path.parent
  if isPathSpecifier specifier then
    let candidate := (dir.child specifier).normalize
    match documentAt? tree candidate specifier with
    | some found => .ok found
    | none => .error (missing candidate)
  else
    match packageConfig? tree dir specifier with
    | some found => .ok found
    | none => .error (missing ((dir.child Path.packagesName).child specifier))

/-! ## Loading -/

/-- Read the document at a path. -/
def readDocument (tree : FileTree) (path : Path) : Except Failure Document := do
  match tree.readText path with
  | .error .notFound => .error (missing path)
  | .error fault => .error (.io ("failed to read tsconfig " ++ path.text) fault.message)
  | .ok text =>
      match Document.parse text with
      | .ok document => .ok document
      | .error e => .error (.configInvalid path e.message)

/-- The part of a stack from a path on, if the path is there. -/
def cycleFrom? (path : Path) (stack : List Path) : Option (List Path) :=
  match stack.dropWhile (!path.same ·) with
  | [] => none
  | cycle => some cycle

/-- The layer of a document laid over all that it builds on, and the documents that were read, in
order. The stack holds the documents that led here; it never holds a document twice, so that there
is room for it as long as the fuel was the number of files at the start. -/
def loadLayer (tree : FileTree) : Nat → List Path → Path → Except Failure (Layer × List Path)
  | 0, stack, _ => .error (.circularExtends stack)
  | fuel + 1, stack, path => do
      let path := tree.canonical path
      match cycleFrom? path stack with
      | some cycle => .error (.circularExtends (cycle ++ [path]))
      | none =>
          let document ← readDocument tree path
          let specifiers := (document.extends?.map Extends.specifiers).getD []
          let bases ← specifiers.mapM fun specifier => do
            let base ← baseOf tree path specifier
            loadLayer tree fuel (stack ++ [path]) base
          let base := (bases.map (·.1)).foldl mergeLayers {}
          return (mergeLayers base (ownLayer document path.parent),
            path :: (bases.map (·.2)).flatten)

/-- The config of a referenced project. -/
def referencedConfig (configPath : Path) (reference : String) : Path :=
  let candidate := (configPath.parent.child reference).normalize
  if candidate.extension? = some "json" then candidate else candidate.child fileName

/-- Load the config at a path. -/
def load (tree : FileTree) (path : Path) : Except Failure Config := do
  let configPath := tree.canonical path
  let (layer, chain) ← loadLayer tree (tree.fileCount + 1) [] configPath
  return {
    configPath
    options := layer.options
    includes := layer.includes
    excludes := layer.excludes
    files := layer.files
    references := layer.references.map (referencedConfig configPath)
    pathsBaseDir := layer.pathsBaseDir
    chain }

end Config

end ScopedCheck
