import ScopedCheck.Glob.Basic
/-! # Globs as regular expressions

What a glob asks of the bytes of a path, as a regular expression. Messages show the expression as
text, and its depth is bounded where globs are put together. -/

namespace ScopedCheck

/-- The bytes of a character. -/
def charBytes (c : Char) : List UInt8 := c.toString.toUTF8.toList

/-- The byte of a slash. -/
def slashByte : UInt8 := 47

/-- A set of bytes: those in some of the closed ranges, or all the others. -/
structure ByteSet where
  negated : Bool
  ranges : List (UInt8 × UInt8)
  deriving DecidableEq, Repr, Inhabited

namespace ByteSet

/-- Whether a byte belongs to a set. -/
def has (set : ByteSet) (b : UInt8) : Bool :=
  (set.ranges.any fun range => range.1 ≤ b && b ≤ range.2) != set.negated

/-- All bytes but the slash. -/
def notSlash : ByteSet := ⟨true, [(slashByte, slashByte)]⟩

/-- The byte ranges of a range of characters. A range of characters with several bytes means all
bytes of its first character but the last, the byte range from there to the first byte of its last
character, and the other bytes of that one. -/
def rangesBetween (first last : Char) : List (UInt8 × UInt8) :=
  let singles := List.map fun b : UInt8 => (b, b)
  if first = last then singles (charBytes first)
  else
    singles (charBytes first).dropLast
      ++ ((charBytes first).getLastD 0, (charBytes last).headD 0)
      :: singles (charBytes last).tail

/-- The bytes of some ranges of characters, or all the others. -/
def ofCharRanges (negated : Bool) (ranges : List (Char × Char)) : ByteSet :=
  ⟨negated, ranges.flatMap fun range => rangesBetween range.1 range.2⟩

end ByteSet

/-- Regular expressions over bytes; a list of them asks for one after the other. -/
inductive Expression
  /-- The byte itself. -/
  | byte (b : UInt8)
  /-- The byte or nothing. -/
  | maybe (b : UInt8)
  /-- Any bytes. -/
  | anything
  /-- One byte of a set. -/
  | one (set : ByteSet)
  /-- Any number of bytes of a set. -/
  | many (set : ByteSet)
  /-- One of several branches. -/
  | choice (branches : List (List Expression))
  deriving Repr, Inhabited

namespace GlobToken

mutual

/-- What a token asks for. A group without a branch that asks for something asks for nothing. -/
def expressions : GlobToken → List Expression
  | .literal c => (charBytes c).map .byte
  | .anyByte => [.one .notSlash]
  | .star => [.many .notSlash]
  | .leadingDirs => [.choice [[.maybe slashByte], [.anything, .byte slashByte]]]
  | .trailingAll => [.byte slashByte, .anything]
  | .innerDirs =>
      [.choice [[.byte slashByte], [.byte slashByte, .anything, .byte slashByte]]]
  | .byteClass negated ranges => [.one (.ofCharRanges negated ranges)]
  | .oneOf branches =>
      match branchExpressions branches with
      | [] => []
      | branches => [.choice branches]

/-- What the tokens of a list ask for one after the other. -/
def allExpressions : List GlobToken → List Expression
  | [] => []
  | token :: rest => token.expressions ++ allExpressions rest

/-- What the branches of a group ask for; branches that ask for nothing are left out. -/
def branchExpressions : List (List GlobToken) → List (List Expression)
  | [] => []
  | branch :: rest =>
      match allExpressions branch with
      | [] => branchExpressions rest
      | parts => parts :: branchExpressions rest

end

end GlobToken

/-- What a glob asks for. A glob that is nothing but two stars asks for anything. -/
def Glob.expressions (glob : Glob) : List Expression :=
  match glob.tokens with
  | [.leadingDirs] => [.anything]
  | tokens => GlobToken.allExpressions tokens

namespace Expression

/-- Characters with a meaning of their own. -/
def isSpecial (c : Char) : Bool :=
  ['\\', '.', '+', '*', '?', '(', ')', '|', '[', ']', '{', '}', '^', '$', '#', '&', '-',
    '~'].contains c

/-- A byte as text. -/
def byteText (b : UInt8) : String :=
  if b < 0x80 then
    let c := Char.ofNat b.toNat
    if isSpecial c then "\\" ++ c.toString else c.toString
  else "\\x" ++ String.ofList (Nat.toDigits 16 b.toNat)

/-- A range of bytes as text. -/
def rangeText (range : UInt8 × UInt8) : String :=
  if range.1 = range.2 then byteText range.1 else byteText range.1 ++ "-" ++ byteText range.2

/-- A set of bytes as text. -/
def setText (set : ByteSet) : String :=
  (if set.negated then "[^" else "[") ++ String.join (set.ranges.map rangeText) ++ "]"

mutual

/-- An expression as text. -/
def text : Expression → String
  | byte b => byteText b
  | maybe b => byteText b ++ "?"
  | anything => ".*"
  | one set => setText set
  | many set => setText set ++ "*"
  | choice branches => "(?:" ++ "|".intercalate (branchTexts branches) ++ ")"

/-- Expressions one after the other as text. -/
def allText : List Expression → String
  | [] => ""
  | part :: rest => part.text ++ allText rest

/-- Each of several branches as text. -/
def branchTexts : List (List Expression) → List String
  | [] => []
  | branch :: rest => allText branch :: branchTexts rest

end

/-- How deep the ranges of a set are nested: two or more are a union. -/
def setDepth (set : ByteSet) : Nat := if set.ranges.length ≤ 1 then 1 else 2

/-- Expressions one after the other are nested in a sequence, unless there is just one. -/
def sequenceDepth (parts : List Expression) : Nat := if parts.length = 1 then 0 else 1

mutual

/-- How deep an expression is nested: a repetition, a set, a sequence of two or more, a choice
between two or more, and the parentheses around branches each count one. -/
def depth : Expression → Nat
  | byte _ => 0
  | maybe _ | anything => 1
  | one set => setDepth set
  | many set => setDepth set + 1
  | choice branches => (if branches.length = 1 then 1 else 2) + branchDepth branches

/-- The depth of the deepest of several expressions. -/
def partDepth : List Expression → Nat
  | [] => 0
  | part :: rest => max part.depth (partDepth rest)

/-- The depth of the deepest of several branches. -/
def branchDepth : List (List Expression) → Nat
  | [] => 0
  | branch :: rest => max (sequenceDepth branch + partDepth branch) (branchDepth rest)

end

end Expression

namespace Glob

/-- The expression of a glob as text: over bytes, from the start to the end. -/
def expressionText (glob : Glob) : String :=
  "(?-u)^" ++ Expression.allText glob.expressions ++ "$"

/-- How deep the expression of a glob is nested; its start and its end make it a sequence. -/
def depth (glob : Glob) : Nat := 1 + Expression.partDepth glob.expressions

end Glob

end ScopedCheck
