import ScopedCheck.Proofs.Json.Numeral
import ScopedCheck.Proofs.Json.StringText
import ScopedCheck.Json.Commented
/-! # Strict documents and their decorations

A strict document is a value, written as tokens with white space around them. A decoration of it has
comments among the white space, a comma behind the last part of some containers, and may start with a
byte-order mark. -/

namespace ScopedCheck.Json.Grammar

open Lexeme

/-! ## Tokens -/

/-- The marks of a document. -/
inductive Mark
  | openArray
  | closeArray
  | openObject
  | closeObject
  | colon
  | comma
  deriving DecidableEq, Repr

namespace Mark

/-- How a mark is written. -/
def char : Mark → Char
  | openArray => '['
  | closeArray => ']'
  | openObject => '\x7b'
  | closeObject => '\x7d'
  | colon => ':'
  | comma => ','

/-- Whether a mark closes a container. -/
def closes : Mark → Bool
  | closeArray | closeObject => true
  | _ => false

end Mark

/-- A power of ten as it is written. -/
structure Power where
  /-- Whether the letter in front of it is a capital one. -/
  isCapital : Bool
  /-- Whether the power is negative, if it has a sign. -/
  sign : Option Bool
  digits : List Char
  areDigits : AreDigits digits

/-- A number as it is written. -/
structure Number where
  isNegative : Bool
  whole : List Char
  fraction : Option (List Char)
  power : Option Power
  isWhole : IsWhole whole
  areDigits : ∀ digits ∈ fraction, AreDigits digits

namespace Power

/-- The letter. -/
def letter (p : Power) : Char := if p.isCapital then 'E' else 'e'

/-- The sign, if there is one. -/
def signChars (p : Power) : List Char :=
  match p.sign with
  | none => []
  | some isNegative => [signChar isNegative]

/-- A power with its letter. -/
def chars (p : Power) : List Char := p.letter :: (p.signChars ++ p.digits)

end Power

namespace Number

/-- The power with its letter, if there is one. -/
def powerChars (n : Number) : List Char :=
  match n.power with
  | none => []
  | some power => power.chars

/-- The number without its sign. -/
def sizeChars (n : Number) : List Char := n.whole ++ (pointed n.fraction ++ n.powerChars)

/-- How a number is written. -/
def chars (n : Number) : List Char := (if n.isNegative then ['-'] else []) ++ n.sizeChars

end Number

/-- A hexadecimal digit with letters of either size. -/
def IsHexDigit (c : Char) : Prop := c.isDigit = true ∨ ('a' ≤ c ∧ c ≤ 'f') ∨ ('A' ≤ c ∧ c ≤ 'F')

/-- A part of a string between its quotes. -/
inductive StringPart
  | plain (c : Char) (h : IsShownPlainly c)
  /-- A backslash and a letter. -/
  | short (letter : Char) (h : letter ∈ ['"', '\\', '/', 'b', 'f', 'n', 'r', 't'])
  /-- A code unit by its number. -/
  | unit (a b c d : Char) (h : ∀ digit ∈ [a, b, c, d], IsHexDigit digit)

/-- How a part of a string is written. -/
def StringPart.chars : StringPart → List Char
  | plain c _ => [c]
  | short letter _ => ['\\', letter]
  | unit a b c d _ => ['\\', 'u', a, b, c, d]

/-- A token of a document. -/
inductive Token
  | mark (mark : Mark)
  | word (word : Word)
  | number (number : Number)
  | string (parts : List StringPart)

namespace Token

/-- How a token is written. -/
def chars : Token → List Char
  | mark m => [m.char]
  | word w => w.letters
  | number n => n.chars
  | string parts => '"' :: (parts.flatMap StringPart.chars ++ ['"'])

/-- Whether a token is a mark. -/
def isMark : Token → Bool
  | mark _ => true
  | _ => false

/-- Whether a token closes a container. -/
def closes : Token → Bool
  | mark m => m.closes
  | _ => false

/-- Whether a token is a comma. -/
def isComma : Token → Bool
  | mark .comma => true
  | _ => false

end Token

/-! ## Values -/

/-- A value as it is written. A container knows whether a decoration puts a comma behind its last part. -/
inductive Value
  | word (word : Word)
  | number (number : Number)
  | string (parts : List StringPart)
  | array (items : List Value) (trailing : Bool)
  | object (entries : List (List StringPart × Value)) (trailing : Bool)

/-- Groups of tokens with commas between them, and behind the last one if there is a trailing comma. -/
def listed (trailing : Bool) : List (List Token) → List Token
  | [] => []
  | [group] => group ++ if trailing then [.mark .comma] else []
  | group :: rest => group ++ .mark .comma :: listed trailing rest

mutual

/-- The tokens of a value. Trailing commas belong to decorations only. -/
def Value.tokens (decorated : Bool) : Value → List Token
  | .word word => [.word word]
  | .number number => [.number number]
  | .string parts => [.string parts]
  | .array items trailing =>
      .mark .openArray
        :: (listed (decorated && trailing) (itemTokens decorated items) ++ [.mark .closeArray])
  | .object entries trailing =>
      .mark .openObject
        :: (listed (decorated && trailing) (entryTokens decorated entries) ++ [.mark .closeObject])

/-- The tokens of the items of an array. -/
def itemTokens (decorated : Bool) : List Value → List (List Token)
  | [] => []
  | item :: rest => item.tokens decorated :: itemTokens decorated rest

/-- The tokens of the entries of an object. -/
def entryTokens (decorated : Bool) : List (List StringPart × Value) → List (List Token)
  | [] => []
  | (key, value) :: rest =>
      (.string key :: .mark .colon :: value.tokens decorated) :: entryTokens decorated rest

end

/-! ## Texts -/

/-- White space. -/
def IsWhite (cs : List Char) : Prop := ∀ c ∈ cs, c = ' ' ∨ c = '\n' ∨ c = '\t' ∨ c = '\r'

/-- What may stand between the tokens of a decoration. -/
inductive Filler
  | white (cs : List Char) (h : IsWhite cs)
  /-- A comment up to the end of its line. -/
  | line (body : List Char) (h : '\n' ∉ body)
  /-- A comment up to the mark that closes it. -/
  | block (body : List Char) (h : ¬['*', '/'] <:+: body)

/-- How a filler is written. -/
def Filler.chars : Filler → List Char
  | white cs _ => cs
  | line body _ => '/' :: '/' :: (body ++ ['\n'])
  | block body _ => '/' :: '*' :: (body ++ ['*', '/'])

/-- White space and comments. -/
def IsFilled (cs : List Char) : Prop := ∃ fillers : List Filler, cs = fillers.flatMap Filler.chars

/-- Tokens with gaps around them. -/
inductive Spaced (isGap : List Char → Prop) : List Token → List Char → Prop
  | nil {gap : List Char} (hgap : isGap gap) : Spaced isGap [] gap
  | cons {gap cs : List Char} {token : Token} {tokens : List Token} (hgap : isGap gap)
      (rest : Spaced isGap tokens cs) : Spaced isGap (token :: tokens) (gap ++ (token.chars ++ cs))

/-- A text of a value. -/
def Value.IsStrictText (value : Value) (text : String) : Prop :=
  Spaced IsWhite (value.tokens false) text.toList

/-- A decorated text of a value. -/
def Value.IsDecoratedText (value : Value) (text : String) : Prop :=
  ∃ cs, Spaced IsFilled (value.tokens true) cs ∧
    (text.toList = cs ∨ text.toList = Commented.byteOrderMark :: cs)

end ScopedCheck.Json.Grammar
