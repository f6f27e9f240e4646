import ScopedCheck.Config.Resolved
/-! # The content of temporary configs

A temporary config builds on nothing: its options are flat and every path in it is absolute, so that
it means the same wherever it lies. -/

namespace ScopedCheck

/-- The files that a temporary config lists. -/
inductive FileSelection
  /-- Exactly these. -/
  | exact (files : List Path)
  /-- The files that were asked for, and all that the include patterns find. -/
  | patterns (includes : List String) (files : List Path)
  deriving DecidableEq, Repr

/-- What a caller may change about a temporary config. -/
structure Synthesis where
  /-- Whether nothing may be emitted. -/
  noEmit : Bool := true
  /-- Takes the place of the config's own setting. -/
  skipLibCheck : Option Bool := none
  cacheDir : Option Path := none
  deriving DecidableEq, Repr, Inhabited

namespace TempConfig

/-- A target of an import pattern, as an absolute path. Absolute targets and targets in installed
packages are kept as they are. -/
def anchoredTarget (anchor : Path) (target : String) : String :=
  let plain : Path := ⟨Text.forwardSlashes (Text.trimmed target)⟩
  if plain.isAbsolute || plain.isInPackages then target
  else (anchor.join plain).normalize.slashed

/-- The import patterns with their targets anchored. -/
def anchoredPaths (anchor : Path) (paths : Entries (List String)) : Json :=
  .object (Entries.setAll [] (paths.map fun entry =>
    (entry.1, Json.strings (entry.2.map (anchoredTarget anchor)))))

/-- The directory that targets are anchored at. -/
def targetAnchor (config : Config) (projectDir : Path) : Path :=
  match config.options.baseUrl with
  | some baseUrl => ⟨baseUrl⟩
  | none => config.pathsBaseDir.getD projectDir

/-- Forbid to emit anything, if asked to. -/
def withoutEmit (s : Synthesis) (options : Entries Json) : Entries Json :=
  if s.noEmit then Entries.remove (options.set "noEmit" (.bool true)) "emitDeclarationOnly"
  else options

/-- The compiler options of a temporary config. -/
def compilerOptions (config : Config) (s : Synthesis) (projectDir : Path) : Entries Json :=
  let options := withoutEmit s config.options.toEntries
  let options :=
    match s.skipLibCheck with
    | some skip => options.set "skipLibCheck" (.bool skip)
    | none => options
  let options :=
    match config.options.paths with
    | some paths => options.set "paths" (anchoredPaths (targetAnchor config projectDir) paths)
    | none => options
  let options :=
    if !config.isBundler && config.options.baseUrl.isNone then
      options.set "baseUrl" (.string projectDir.slashed)
    else options
  if config.options.typeRoots.isNone then
    options.set "typeRoots" (Json.strings [(projectDir.child "node_modules/@types").slashed])
  else options

/-- Paths as values. -/
def pathsJson (files : List Path) : Json := Json.strings (files.map Path.slashed)

/-- The files of a temporary config. -/
def fileEntries (config : Config) : FileSelection → Entries Json
  | .exact files => [("files", pathsJson files)]
  | .patterns includes files =>
      [("files", pathsJson files), ("include", Json.strings includes),
        ("exclude", Json.strings config.excludePatterns)]

/-- The referenced projects of a temporary config. -/
def referenceEntries (config : Config) : Entries Json :=
  if config.references.isEmpty then []
  else
    [("references", .array (config.references.map fun reference =>
      .object [("path", .string reference.slashed)]))]

/-- The content of a temporary config. -/
def content (config : Config) (selection : FileSelection) (s : Synthesis) (projectDir : Path) :
    Json :=
  .object (("compilerOptions", .object (compilerOptions config s projectDir))
    :: fileEntries config selection ++ referenceEntries config)

end TempConfig

end ScopedCheck
