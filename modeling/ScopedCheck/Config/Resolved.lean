import ScopedCheck.Config.Document
import ScopedCheck.Path.Kind
/-! # Resolved configs

A config with everything that it builds on applied. File patterns remember the directory of the
document that they were written in, because that is what they are relative to. -/

namespace ScopedCheck

/-- Patterns and the directory that they are relative to. -/
structure FilePatterns where
  baseDir : Path
  patterns : List String
  deriving DecidableEq, Repr, Inhabited

namespace FilePatterns

/-- One pattern as an absolute one. -/
def absolutePattern (baseDir : Path) (pattern : String) : String :=
  let pattern := Text.forwardSlashes (Text.trimmed pattern)
  if (⟨pattern⟩ : Path).isAbsolute then pattern
  else (baseDir.child pattern).normalize.slashed

/-- The patterns as absolute ones. -/
def absolute (specs : FilePatterns) : List String :=
  specs.patterns.map (absolutePattern specs.baseDir)

end FilePatterns

/-- A config with everything that it builds on applied. -/
structure Config where
  configPath : Path
  options : Options := {}
  includes : Option FilePatterns := none
  excludes : Option FilePatterns := none
  files : Option FilePatterns := none
  /-- The configs of referenced projects. -/
  references : List Path := []
  /-- The directory of the document that the import patterns were written in. -/
  pathsBaseDir : Option Path := none
  /-- Every document that was read, the config itself first. -/
  chain : List Path := []
  deriving Repr, Inhabited

namespace Config

/-- The name of a config document. -/
def fileName : String := "tsconfig.json"

/-- The directory of the config. -/
def dir (config : Config) : Path := config.configPath.parent

/-- How modules are resolved: as the config says, or as its kind of modules asks for. -/
def moduleResolution (config : Config) : ModuleResolution :=
  match config.options.moduleResolution.bind ModuleResolution.ofText? with
  | some kind => kind
  | none =>
      match config.options.moduleKind with
      | some value => ModuleResolution.ofModuleOption value
      | none => .node

/-- Whether modules are resolved as bundlers do. -/
def isBundler (config : Config) : Bool := config.moduleResolution == .bundler

/-- Whether untyped sources are allowed. -/
def allowsUntyped (config : Config) : Bool :=
  config.options.allowJs.getD false || config.options.checkJs.getD false

/-- The directory that the targets of import patterns are relative to. -/
def pathsAnchor (config : Config) : Path :=
  match config.options.baseUrl with
  | some baseUrl => ⟨baseUrl⟩
  | none => config.pathsBaseDir.getD config.dir

/-- Everything below the directory of the config. -/
def everything (config : Config) : String := (config.dir.child "**/*").slashed

/-- What is left out unless the config says otherwise: installed packages and the output. -/
def defaultExcludes (config : Config) : List String :=
  let packages := [Path.packagesName, "bower_components", "jspm_packages"].map fun name =>
    (config.dir.child name).slashed
  match config.options.other.get? "outDir" with
  | some (.string outDir) => packages ++ [Text.forwardSlashes outDir]
  | _ => packages

/-- The patterns of what is left out. -/
def excludePatterns (config : Config) : List String :=
  match config.excludes with
  | some specs => specs.absolute
  | none => config.defaultExcludes

/-- The patterns of what is taken in: as the config says, nothing if it lists files, and everything
otherwise. -/
def includePatterns (config : Config) : List String :=
  match config.includes with
  | some specs => specs.absolute
  | none => if config.files.isSome then [] else [config.everything]

/-- The patterns of what is taken in, or everything if there are none. -/
def searchPatterns (config : Config) : List String :=
  if config.includePatterns.isEmpty then [config.everything] else config.includePatterns

end Config

end ScopedCheck
