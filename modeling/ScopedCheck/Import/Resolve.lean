import ScopedCheck.Config.Resolved
import ScopedCheck.FileTree.Basic
import ScopedCheck.Text.Affix
/-! # Resolving imports

What a module specifier stands for: a file, something of an installed package, or nothing at all. A
specifier that is a path is resolved against the importing file. Any other one is tried against the
most specific import pattern that it matches, then against the base directory, and belongs to a
package if neither leads to a file. -/

namespace ScopedCheck

namespace Import

/-- What a specifier stands for. -/
inductive Target
  | file (path : Path)
  /-- Something of an installed package. -/
  | external
  | unresolved
  deriving DecidableEq, Repr

/-- The file of a target that is one. -/
def Target.file? : Target → Option Path
  | file path => some path
  | _ => none

/-- An import pattern: the texts around its first star, or its whole text if it has none, and what
it stands for. -/
structure Alias where
  pattern : String
  before : String
  behind : String
  targets : List String
  deriving DecidableEq, Repr

namespace Alias

/-- A pattern or a target as it counts. -/
def plain (text : String) : String := Text.forwardSlashes (Text.trimmed text)

/-- The texts before and behind the first star. -/
def aroundStar (pattern : List Char) : List Char × List Char :=
  match pattern.span (· != '*') with
  | (before, _ :: behind) => (before, behind)
  | (before, []) => (before, [])

/-- An import pattern and its targets. -/
def ofEntry (entry : String × List String) : Alias :=
  let pattern := plain entry.1
  let around := aroundStar pattern.toList
  ⟨pattern, String.ofList around.1, String.ofList around.2, entry.2.map plain⟩

/-- Whether the pattern has a star. -/
def hasStar (a : Alias) : Bool := a.pattern.toList.contains '*'

/-- What stands for the star in a specifier that matches; nothing if there is no star. -/
def match? (a : Alias) (specifier : String) : Option String :=
  if a.hasStar then
    (Text.between? specifier.toList a.before.toList a.behind.toList).map String.ofList
  else if a.pattern = specifier then some ""
  else none

/-- The number of bytes that a pattern lays down. -/
def specificity (a : Alias) : Nat := a.before.utf8ByteSize + a.behind.utf8ByteSize

/-- More specific patterns come first, then longer ones, then by their texts. -/
def order (a b : Alias) : Ordering :=
  (compare b.specificity a.specificity).then
    ((compare b.pattern.utf8ByteSize a.pattern.utf8ByteSize).then (compare a.pattern b.pattern))

/-- The import patterns of a config that stand for something, in the order in which they are
tried. -/
def ofPaths (paths : Entries (List String)) : List Alias :=
  ((paths.filter (!·.2.isEmpty)).map ofEntry).mergeSort fun a b => (order a b).isLE

/-- The first import pattern that a specifier matches, and what stands for its star. -/
def select (aliases : List Alias) (specifier : String) : Option (Alias × String) :=
  aliases.findSome? fun a => (a.match? specifier).map fun wildcard => (a, wildcard)

end Alias

/-- What is needed to resolve imports under a config. -/
structure Resolver where
  baseUrl : Option Path
  anchor : Path
  aliases : List Alias
  allowsUntyped : Bool
  deriving DecidableEq, Repr

namespace Resolver

/-- The resolver of a config. -/
def ofConfig (config : Config) : Resolver where
  baseUrl := config.options.baseUrl.map Path.mk
  anchor := config.pathsAnchor
  aliases := (config.options.paths.map Alias.ofPaths).getD []
  allowsUntyped := config.allowsUntyped

/-- The endings that are tried behind a path, in order. -/
def endings (allowUntyped : Bool) : List String :=
  [".ts", ".tsx", ".d.ts", ".mts", ".cts", ".d.mts", ".d.cts"]
    ++ if allowUntyped then Path.untypedExtensions else []

/-- The endings of the typed sources that an untyped ending may stand for. -/
def typedEndings : List (String × List String) :=
  [(".js", [".ts", ".tsx", ".d.ts"]), (".jsx", [".tsx", ".d.ts"]), (".mjs", [".mts", ".d.mts"]),
    (".cjs", [".cts", ".d.cts"])]

/-- The typed sources that a path with an untyped ending may stand for. -/
def typedSources? (name : String) : Option (List Path) :=
  typedEndings.findSome? fun entry =>
    (Text.withoutEnd? name entry.1).map fun stem =>
      entry.2.map fun ending => ⟨stem ++ ending⟩

/-- The path itself, or what its ending stands for. -/
def ownCandidates (r : Resolver) (base : Path) : List Path :=
  if Path.typedExtensions.any (Text.endsWith base.text) then [base]
  else
    match typedSources? base.text with
    | some sources => sources ++ if r.allowsUntyped then [base] else []
    | none => []

/-- The files that a path may stand for, in order. -/
def candidates (r : Resolver) (path : Path) : List Path :=
  let base := path.normalize
  let index := base.child "index"
  r.ownCandidates base
    ++ (endings r.allowsUntyped).map (fun ending => ⟨base.text ++ ending⟩)
    ++ (endings r.allowsUntyped).map fun ending => ⟨index.text ++ ending⟩

/-- What a path stands for: the first of its candidates that is there. -/
def atPath (r : Resolver) (tree : FileTree) (path : Path) : Target :=
  match (r.candidates path).find? tree.isFile with
  | some found => if found.isInPackages then .external else .file found
  | none => .unresolved

/-- Whether a specifier is a path relative to the importing file. -/
def isRelative (specifier : String) : Bool :=
  Text.startsWith specifier "./" || Text.startsWith specifier "../" || specifier = "."
    || specifier = ".."

/-- A target of an import pattern with its star filled in. -/
def filled (r : Resolver) (target wildcard : String) : Path :=
  r.anchor.join ⟨Text.substitute '*' wildcard target⟩

/-- The file that a specifier stands for by the import patterns. -/
def byAlias (r : Resolver) (tree : FileTree) (specifier : String) : Option Path :=
  (Alias.select r.aliases specifier).bind fun found =>
    found.1.targets.findSome? fun target => (r.atPath tree (r.filled target found.2)).file?

/-- The file that a specifier stands for by the base directory. -/
def byBaseUrl (r : Resolver) (tree : FileTree) (specifier : String) : Option Path :=
  r.baseUrl.bind fun baseUrl => (r.atPath tree (baseUrl.child specifier)).file?

/-- What a specifier stands for in a file. -/
def resolve (r : Resolver) (tree : FileTree) (fromFile : Path) (specifier : String) : Target :=
  let specifier := Alias.plain specifier
  if specifier.isEmpty then .unresolved
  else if Text.startsWith specifier "#" then .external
  else if (⟨specifier⟩ : Path).isAbsolute then r.atPath tree ⟨specifier⟩
  else if isRelative specifier then r.atPath tree (fromFile.parent.child specifier)
  else
    match r.byAlias tree specifier <|> r.byBaseUrl tree specifier with
    | some found => .file found
    | none => .external

end Resolver

end Import

end ScopedCheck
