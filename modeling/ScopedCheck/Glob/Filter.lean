import ScopedCheck.Failure
import ScopedCheck.Glob.Union
/-! # Filters of paths

The include and exclude patterns of a config. A pattern whose last segment has neither a dot nor a
star also stands for everything below what it names. A filter without patterns matches nothing. -/

namespace ScopedCheck

/-- The globs of a list of patterns. -/
structure PathFilter where
  union : GlobUnion
  /-- Whether there were no patterns. -/
  isEmpty : Bool
  deriving Repr, Inhabited

namespace PathFilter

/-- A pattern without trailing slashes. -/
def withoutTrailingSlashes (pattern : List Char) : List Char :=
  (pattern.reverse.dropWhile (· == '/')).reverse

/-- The globs that a pattern stands for. -/
def expansions (pattern : String) : List String :=
  let pattern := withoutTrailingSlashes pattern.toList
  let last := (Text.splitOn '/' pattern).getLastD []
  let text := String.ofList pattern
  if last.contains '.' || last.contains '*' then [text] else [text, text ++ "/**/*"]

/-- Read one glob. -/
def globOf (pattern : String) : Except Failure Glob :=
  match Glob.ofText pattern with
  | .ok glob => .ok glob
  | .error fault => .error (.badGlob pattern fault)

/-- Read the patterns of a filter. -/
def ofPatterns (patterns : List String) : Except Failure PathFilter := do
  let globs ← (patterns.flatMap expansions).mapM globOf
  match GlobUnion.ofGlobs globs with
  | .ok union => return ⟨union, patterns.isEmpty⟩
  | .error fault => .error (.badGlobUnion fault)

/-- Whether some pattern matches a path, as it is written. -/
def isMatch (filter : PathFilter) (path : Path) : Bool :=
  !filter.isEmpty && filter.union.isMatch path

end PathFilter

end ScopedCheck
