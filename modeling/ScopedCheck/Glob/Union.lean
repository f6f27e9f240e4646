import ScopedCheck.Glob.Matching
/-! # Unions of globs

A union of globs matches whatever one of its globs matches. Most globs have a shape by which they
are looked up: by the name of the file, by an end of the path or by the whole of it. The others are
tried as regular expressions, and the depth of these is bounded.

A path that ends in `..` has no file name. So a glob that is looked up by the name does not match
it, even where its expression would. -/

namespace ScopedCheck

/-- How a glob is looked up in a union. -/
inductive GlobShape
  /-- By the name of the file, which the glob gives. -/
  | name
  /-- By the whole path, which the glob gives. -/
  | whole
  /-- By the ending of the name, and nothing else is asked. -/
  | ending
  /-- By the start of the path, and nothing else is asked. -/
  | front
  /-- By the last pieces of the path, which the glob gives. -/
  | rear
  /-- By the ending of the name first, then as a regular expression. -/
  | endingFirst
  /-- As a regular expression. -/
  | general
  deriving DecidableEq, Repr

namespace GlobToken

/-- The character of a literal. -/
def literal? : GlobToken → Option Char
  | .literal c => some c
  | _ => none

/-- Whether tokens are literals, none of them one of the given characters. -/
def areLiterals (tokens : List GlobToken) (except : List Char) : Bool :=
  tokens.all fun token => token.literal?.any (!except.contains ·)

/-- Whether tokens, read from the last one on, start with the ending of a name: literals up to a
dot, none of them a slash. -/
def startWithEnding : List GlobToken → Bool
  | .literal c :: rest => c == '.' || (c != '/' && startWithEnding rest)
  | _ => false

/-- The shape of a glob with the given tokens. -/
def shapeOf (tokens : List GlobToken) : GlobShape :=
  match tokens with
  | [] | [.leadingDirs] => .general
  | .leadingDirs :: .star :: .literal '.' :: rest =>
      if areLiterals rest ['.', '/'] then .ending else other tokens
  | .leadingDirs :: rest =>
      if areLiterals rest ['/'] then .name
      else if areLiterals rest [] then .rear
      else other tokens
  | tokens => if areLiterals tokens [] then .whole else other tokens
where
  /-- The shape of a glob that gives no more than a start or an ending. -/
  other (tokens : List GlobToken) : GlobShape :=
    match tokens.reverse with
    | .trailingAll :: front => if areLiterals front [] then .front else .general
    | tokens => if startWithEnding tokens then .endingFirst else .general

end GlobToken

namespace Glob

/-- The shape of a glob. -/
def shape (glob : Glob) : GlobShape := GlobToken.shapeOf glob.tokens

/-- Whether the name of the file is looked at first. -/
def asksForName (glob : Glob) : Bool :=
  glob.shape matches .name | .ending | .endingFirst

end Glob

/-- Why globs cannot be put together: the regular expression of one of them is nested too deep. -/
inductive GlobUnionFault
  /-- The expression of a glob that is kept apart, as text. -/
  | apart (expression : String)
  /-- The place of a glob among those that are tried together. -/
  | together (place : Nat)
  deriving DecidableEq, Repr

/-- The fault in words. -/
def GlobUnionFault.message : GlobUnionFault → String
  | apart expression => "error parsing glob '" ++ expression ++ "': error parsing pattern 0"
  | together place => "error parsing pattern " ++ toString place

/-- Globs, any of which may match. -/
structure GlobUnion where
  globs : List Glob
  deriving Repr, Inhabited

namespace GlobUnion

/-- How deep the expression of a glob may be nested. -/
def maxDepth : Nat := 250

/-- Whether the expression of a glob is nested too deep. -/
def isTooDeep (glob : Glob) : Bool := glob.depth > maxDepth

/-- Put globs together. Only the expressions that are tried have to keep the bound on their depth:
those that are kept apart first, then those that are tried together. -/
def ofGlobs (globs : List Glob) : Except GlobUnionFault GlobUnion :=
  match globs.find? fun glob => glob.shape = .endingFirst && isTooDeep glob with
  | some glob => .error (.apart glob.expressionText)
  | none =>
      match (globs.filter (·.shape = .general)).findIdx? isTooDeep with
      | some place => .error (.together place)
      | none => .ok ⟨globs⟩

/-- Whether a path ends in a step to the parent, and so in no name. -/
def isNameless (path : Path) : Bool :=
  (Text.splitOn '/' path.text.toList).getLastD [] = ['.', '.']

/-- The globs that may match a path: all of them, unless it has no file name. -/
def globsFor (union : GlobUnion) (path : Path) : List Glob :=
  if isNameless path then union.globs.filter (!·.asksForName) else union.globs

/-- Whether some glob matches a path, as it is written. -/
def isMatch (union : GlobUnion) (path : Path) : Bool :=
  (union.globsFor path).any (·.isMatch path)

end GlobUnion

end ScopedCheck
