import ScopedCheck.Closure.Setup
/-! # Scanning projects

Files of a project that following imports does not lead to, or not in every way: declarations, which
count for the whole project, and generated files. The directories of referenced projects are scanned
as well. -/

namespace ScopedCheck

/-- What a scan of a project finds. -/
structure ProjectScan where
  /-- Declaration files. -/
  ambient : List Path := []
  /-- Generated files that are no declarations. -/
  generated : List Path := []
  deriving DecidableEq, Repr, Inhabited

namespace ProjectScan

/-- The directories of referenced projects. -/
def referenceDirs (config : Config) : List Path := config.references.filterMap Path.parent?

/-- The patterns of what is scanned. -/
def patterns (config : Config) : List String :=
  config.searchPatterns ++ (referenceDirs config).map fun dir => (dir.child "**/*").slashed

/-- The directories among others that lie in none of the others. -/
def outermost (dirs : List Path) : List Path :=
  dirs.filter fun dir => !dirs.any fun other => !other.same dir && dir.isWithin other

/-- The directories that are scanned. -/
def roots (config : Config) : List Path :=
  outermost (Path.sortedUnique (config.dir :: referenceDirs config))

/-- Scan a project. -/
def ofConfig (tree : FileTree) (config : Config) (r : Recognizer) :
    Except Failure ProjectScan := do
  let includes ← PathFilter.ofPatterns (patterns config)
  let excludes ← PathFilter.ofPatterns config.excludePatterns
  let found := (roots config).flatMap fun root =>
    tree.walkMatching root includes excludes fun path => path.isDeclaration || r.isGenerated path
  return ⟨Path.sortedUnique (found.filter (·.isDeclaration)),
    Path.sortedUnique (found.filter (!·.isDeclaration))⟩

end ProjectScan

end ScopedCheck
