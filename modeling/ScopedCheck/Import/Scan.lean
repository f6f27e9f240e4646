import ScopedCheck.Import.Mask
import ScopedCheck.Text.Lines
import ScopedCheck.Text.Search
/-! # Imports of a source

The module specifiers in a source, found by their shape alone: the path directives in front of the
code first, then the statements and calls, one kind after the other. What starts inside a literal
or a comment does not count. -/

namespace ScopedCheck.Import

/-- The ways in which a source names another one. -/
inductive Kind
  /-- An import of names. -/
  | static
  /-- An import or export of types alone. -/
  | typeOnly
  /-- An import of nothing but effects. -/
  | sideEffect
  /-- An export of another module's names. -/
  | reExport
  /-- A call of `import`. -/
  | dynamic
  /-- A call of `require`. -/
  | require
  /-- A path directive. -/
  | reference
  deriving DecidableEq, Repr

/-- Whether a compiler follows such an edge itself when it starts from typed sources. -/
def Kind.followedByCompiler (kind : Kind) : Bool := kind != .require

end Import

/-- A module specifier and the way it is used. -/
structure Import where
  kind : Import.Kind
  specifier : String
  deriving DecidableEq, Repr

namespace Import

open Text Text.Pattern

/-- Either kind of quote. -/
def isQuote (c : Char) : Bool := c == '"' || c == '\''

/-- A character of a name. -/
def isNameChar (c : Char) : Bool := isWordChar c || c == '$'

/-- A character between `import` and `from`. -/
def isClauseChar (c : Char) : Bool :=
  isNameChar c || c == '*' || c == '{' || c == '}' || isBlank c || c == ','

/-- A specifier on one line between quotes, remembered as the second group. -/
def quotedSpecifier : Pattern :=
  all [char isQuote, capture 2 (some .more fun c => !isQuote c && c != '\n'), char isQuote]

/-- The word `type`, remembered as the first group, or nothing. -/
def typeMark : Pattern := optional (capture 1 (all [text "type", blank]))

/-- An import of names; the clause takes the blanks before `from` as well. -/
def staticPattern : Pattern :=
  all [boundary, text "import", blank, typeMark, some .fewer isClauseChar, boundary, text "from",
    blanks, quotedSpecifier]

/-- An import of effects. -/
def sideEffectPattern : Pattern := all [boundary, text "import", blanks, quotedSpecifier]

/-- What an export of another module's names exports. -/
def exportClause : Pattern :=
  either
    (all [text "*", optional (all [blank, text "as", blank, some .more isNameChar])])
    (all [text "\x7b", many .more (· != '}'), text "\x7d"])

/-- An export of another module's names. -/
def exportPattern : Pattern :=
  all [boundary, text "export", blank, typeMark, exportClause, blanks, text "from", blanks,
    quotedSpecifier]

/-- A call of `import` with a specifier in front. -/
def dynamicPattern : Pattern :=
  all [boundary, text "import", blanks, text "(", blanks, quotedSpecifier]

/-- A call of `require` with a specifier alone. -/
def requirePattern : Pattern :=
  all [boundary, text "require", blanks, text "(", blanks, quotedSpecifier, blanks, text ")"]

/-- A path directive at the start of a line. -/
def referencePattern : Pattern :=
  all [atStart, text "///", blanks, text "<reference", blank, text "path", blanks, text "=", blanks,
    char isQuote, capture 2 (some .more fun c => !isQuote c), char isQuote]

/-- The path directives in the lines of a source. Empty lines and comments may stand between them;
the first line of any other kind ends them. -/
def references : List (List Char) → List Import
  | [] => []
  | line :: rest =>
      let line := trimStart line
      if line.take 3 = ['/', '/', '/'] then
        match referencePattern.matchAt? (Place.start line) with
        | .some found => ⟨.reference, found.group 2⟩ :: references rest
        | .none => references rest
      else if line.isEmpty || line.take 2 = ['/', '/'] then references rest
      else []

/-- The matches of a pattern that start in code. -/
def matchesInCode (masked : Masked) (pattern : Pattern) : List Found :=
  (pattern.findAll masked.code).filter fun found => masked.isCode found.start.offset

/-- The imports of one shape; those with the word `type` are imports of types. -/
def ofShape (masked : Masked) (pattern : Pattern) (kind : Kind) : List Import :=
  (matchesInCode masked pattern).map fun found =>
    ⟨if (found.group? 1).isSome then .typeOnly else kind, found.group 2⟩

/-- The imports of a masked source, one shape after the other. -/
def ofMasked (masked : Masked) : List Import :=
  ofShape masked staticPattern .static
    ++ ofShape masked sideEffectPattern .sideEffect
    ++ ofShape masked exportPattern .reExport
    ++ ofShape masked dynamicPattern .dynamic
    ++ ofShape masked requirePattern .require

/-- The imports of a source. -/
def scan (source : String) : List Import :=
  references (lines source.toList) ++ ofMasked (mask source.toList)

end Import

end ScopedCheck
