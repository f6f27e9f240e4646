import ScopedCheck.Text.Blank
import ScopedCheck.Text.Letter
/-! # Masked sources

A source without its comments, in which every character is known to be code or to belong to a
literal: a quoted string, a template or a regular expression. A block comment leaves its newlines
and one blank, a line comment leaves nothing.

A slash starts a regular expression only where no operand ends: at the start, behind an operator or
an opening bracket, and behind a keyword that wants an operand. -/

namespace ScopedCheck.Import

/-- A piece of a masked source. -/
inductive Piece
  | code (c : Char)
  | literal (text : List Char)
  deriving DecidableEq, Repr

namespace Piece

/-- The characters of a piece. -/
def chars : Piece → List Char
  | code c => [c]
  | literal text => text

end Piece

/-- What decides whether a slash starts a regular expression: the last two characters that are no
blanks, the letters of the word that ends there, the last first, and the last character. -/
structure Behind where
  last : Option Char := none
  beforeLast : Option Char := none
  word : List Char := []
  lastRaw : Char := '\n'

/-- Whether a character may be part of an identifier. -/
def isIdentifierChar (c : Char) : Bool := Text.isAlphanumeric c || c == '_' || c == '$'

/-- The keywords that want an operand. -/
def operandKeywords : List String :=
  ["return", "typeof", "instanceof", "in", "of", "new", "delete", "void", "throw", "case", "do",
    "else", "yield", "await"]

/-- The characters behind which an operand starts. -/
def operatorChars : List Char := "(,=:[!&|?\x7b\x7d;+-*%~^".toList

namespace Behind

/-- Whether a slash starts a regular expression here. A closing angle bracket lets it only as part
of an arrow. -/
def allowsRegex (b : Behind) : Bool :=
  match b.last with
  | none => true
  | some c =>
      if isIdentifierChar c then operandKeywords.contains (String.ofList b.word.reverse)
      else if c = '>' then b.beforeLast == some '='
      else operatorChars.contains c

/-- Go past a literal that starts with the given character. -/
def afterLiteral (b : Behind) (c : Char) : Behind := ⟨some c, b.last, [], c⟩

/-- Go past a character of code. -/
def afterChar (b : Behind) (c : Char) : Behind :=
  if isIdentifierChar c then
    ⟨some c, b.last, c :: (if isIdentifierChar b.lastRaw then b.word else []), c⟩
  else if Text.isBlank c then { b with lastRaw := c }
  else ⟨some c, b.last, [], c⟩

end Behind

/-- The number of characters of a string behind its opening quote, the closing quote included. A
quoted string ends before a newline at the latest, a template only at its quote. -/
def stringLength (quote : Char) : List Char → Nat
  | [] => 0
  | ['\\'] => 1
  | '\\' :: _ :: cs => stringLength quote cs + 2
  | c :: cs =>
      if c = '\n' && quote != '`' then 0
      else if c = quote then 1
      else stringLength quote cs + 1

/-- The number of characters of a regular expression behind its opening slash, with its flags, if
it is closed on its line. -/
def regexLength? (inClass : Bool) : List Char → Option Nat
  | [] | ['\\'] => none
  | '\\' :: _ :: cs => (regexLength? inClass cs).map (· + 2)
  | c :: cs =>
      if c = '\n' then none
      else if c = '/' && !inClass then some ((cs.takeWhile Char.isAlpha).length + 1)
      else (regexLength? (if c = '[' then true else if c = ']' then false else inClass) cs).map
        (· + 1)

/-- The number of characters of a block comment behind its opening, its closing included. -/
def commentLength : List Char → Nat
  | [] => 0
  | '*' :: '/' :: _ => 2
  | _ :: cs => commentLength cs + 1

/-- What starts at a character, and how many characters belong to it behind that one. -/
inductive Opening
  | plain
  | literal (length : Nat)
  | lineComment (length : Nat)
  | blockComment (length : Nat)

/-- What a character starts. -/
def openingAt (b : Behind) (c : Char) (cs : List Char) : Opening :=
  if c = '"' || c = '\'' || c = '`' then .literal (stringLength c cs)
  else if c = '/' then
    match cs with
    | '/' :: _ => .lineComment (cs.takeWhile (· != '\n')).length
    | '*' :: rest => .blockComment (commentLength rest + 1)
    | _ =>
        if b.allowsRegex then
          match regexLength? false cs with
          | some length => .literal length
          | none => .plain
        else .plain
  else .plain

/-- What a block comment leaves: its newlines and a blank. -/
def commentTrace (comment : List Char) : List Piece :=
  (comment.filter (· == '\n')).map .code ++ [.code ' ']

/-- Mask the rest of a source. -/
def maskFrom (b : Behind) : List Char → List Piece
  | [] => []
  | c :: cs =>
      match openingAt b c cs with
      | .plain => .code c :: maskFrom (b.afterChar c) cs
      | .literal length =>
          .literal (c :: cs.take length) :: maskFrom (b.afterLiteral c) (cs.drop length)
      | .lineComment length => maskFrom b (cs.drop length)
      | .blockComment length =>
          commentTrace (cs.take length) ++ maskFrom { b with lastRaw := ' ' } (cs.drop length)
termination_by cs => cs.length
decreasing_by all_goals simp only [List.length_drop, List.length_cons]; omega

/-- A range of offsets: the first one in it and the first one behind it. -/
structure OffsetRange where
  start : Nat
  stop : Nat
  deriving DecidableEq, Repr

/-- Whether an offset lies in a range. -/
def OffsetRange.has (range : OffsetRange) (offset : Nat) : Bool :=
  range.start ≤ offset && offset < range.stop

/-- The ranges of the literals among pieces that start at an offset. -/
def literalRanges (offset : Nat) : List Piece → List OffsetRange
  | [] => []
  | .code _ :: rest => literalRanges (offset + 1) rest
  | .literal text :: rest =>
      ⟨offset, offset + text.length⟩ :: literalRanges (offset + text.length) rest

/-- A source without comments, and where its literals are. -/
structure Masked where
  code : List Char
  literals : List OffsetRange
  deriving Repr

/-- Mask a source. -/
def mask (source : List Char) : Masked :=
  let pieces := maskFrom {} source
  ⟨pieces.flatMap Piece.chars, literalRanges 0 pieces⟩

/-- Whether an offset lies in code, outside of every literal. -/
def Masked.isCode (masked : Masked) (offset : Nat) : Bool :=
  !masked.literals.any (·.has offset)

end ScopedCheck.Import
