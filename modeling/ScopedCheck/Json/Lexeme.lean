import ScopedCheck.Json.Fault
/-! # Lexemes of JSON documents

A document is a sequence of lexemes with blanks between them. Every lexeme knows the spots where it
starts and stops. A string or a number is scanned once in two ways: to be read, which gives its
value, and to be passed over, which accepts a little more. Nothing behind a lexeme that cannot be
passed over is ever looked at.

Columns count bytes. -/

namespace ScopedCheck

/-- A spot in a document: its line, from one, and the number of bytes before it in that line. -/
structure Spot where
  line : Nat
  column : Nat
  deriving DecidableEq, Repr, Inhabited

namespace Spot

/-- The spot at the start of a document. -/
def first : Spot := ⟨1, 0⟩

/-- The spot behind a character. -/
def next (spot : Spot) (c : Char) : Spot :=
  if c = '\n' then ⟨spot.line + 1, 0⟩ else ⟨spot.line, spot.column + c.utf8Size⟩

/-- The spot behind several characters. -/
def after (spot : Spot) (cs : List Char) : Spot := cs.foldl next spot

/-- The spot behind a number of bytes, which may stop inside a character. -/
def afterBytes (spot : Spot) : Nat → List Char → Spot
  | 0, _ => spot
  | _, [] => spot
  | count, c :: cs =>
      if c.utf8Size ≤ count then afterBytes (spot.next c) (count - c.utf8Size) cs
      else ⟨spot.line, spot.column + count⟩

/-- The spot behind one byte. -/
def ahead (spot : Spot) (cs : List Char) : Spot := spot.afterBytes 1 cs

end Spot

/-- A fault and where it is; the spot is missing until it is known. -/
structure JsonError where
  fault : JsonFault
  spot : Option Spot
  deriving DecidableEq, Repr

namespace JsonError

/-- The error in words, with its spot. -/
def message (e : JsonError) : String :=
  match e.spot with
  | none => e.fault.words
  | some spot =>
      e.fault.words ++ " at line " ++ toString spot.line ++ " column " ++ toString spot.column

end JsonError

/-- A fault at a known spot. -/
def JsonFault.at (fault : JsonFault) (spot : Spot) : JsonError := ⟨fault, some spot⟩

namespace Lexeme

/-! ## Strings -/

/-- The value of a hexadecimal digit. -/
def hexValue? (c : Char) : Option Nat :=
  if c.isDigit then some (c.toNat - '0'.toNat)
  else if 'a' ≤ c ∧ c ≤ 'f' then some (c.toNat - 'a'.toNat + 10)
  else if 'A' ≤ c ∧ c ≤ 'F' then some (c.toNat - 'A'.toNat + 10)
  else none

/-- The value of four hexadecimal digits. -/
def hexValue4? (a b c d : Char) : Option Nat := do
  let a ← hexValue? a
  let b ← hexValue? b
  let c ← hexValue? c
  let d ← hexValue? d
  return ((a * 16 + b) * 16 + c) * 16 + d

/-- Why four hexadecimal digits cannot be read: they are not there, or the document ends. -/
def hexFault (spot : Spot) (rest : List Char) : JsonError :=
  if 4 ≤ rest.foldl (fun bytes c => bytes + c.utf8Size) 0 then JsonFault.invalidEscape.at (spot.afterBytes 4 rest)
  else JsonFault.endInString.at (spot.after rest)

/-- What the short escapes stand for. -/
def shortEscape? : Char → Option Char
  | '"' => some '"'
  | '\\' => some '\\'
  | '/' => some '/'
  | 'b' => some '\x08'
  | 'f' => some '\x0c'
  | 'n' => some '\n'
  | 'r' => some '\r'
  | 't' => some '\t'
  | _ => none

/-- Pass over a string behind its opening quote, counting its characters. -/
def skipString (spot : Spot) (count : Nat) : List Char → Except JsonError Nat
  | [] => .error (JsonFault.endInString.at spot)
  | '"' :: _ => .ok (count + 1)
  | ['\\'] => .error (JsonFault.endInString.at (spot.next '\\'))
  | '\\' :: 'u' :: a :: b :: c :: d :: rest =>
      if (hexValue4? a b c d).isSome then
        skipString (spot.after ['\\', 'u', a, b, c, d]) (count + 6) rest
      else .error (hexFault (spot.after ['\\', 'u']) (a :: b :: c :: d :: rest))
  | '\\' :: 'u' :: rest => .error (hexFault (spot.after ['\\', 'u']) rest)
  | '\\' :: c :: rest =>
      if (shortEscape? c).isSome then skipString (spot.after ['\\', c]) (count + 2) rest
      else .error (JsonFault.invalidEscape.at ((spot.next '\\').ahead (c :: rest)))
  | c :: rest =>
      if c.toNat < 0x20 then .error (JsonFault.controlCharacter.at spot)
      else skipString (spot.next c) (count + 1) rest

/-- Whether a code unit is the first half of a pair. -/
def isLeadingHalf (n : Nat) : Bool := 0xD800 ≤ n && n ≤ 0xDBFF

/-- Whether a code unit is the second half of a pair. -/
def isTrailingHalf (n : Nat) : Bool := 0xDC00 ≤ n && n ≤ 0xDFFF

/-- Read a string behind its opening quote. Between the two escapes of a pair, `half` is the first
one. -/
def readString (spot : Spot) (half : Option Nat) (read : List Char) :
    List Char → Except JsonError (List Char)
  | [] => .error (JsonFault.endInString.at spot)
  | ['\\'] => .error (JsonFault.endInString.at (spot.next '\\'))
  | '\\' :: 'u' :: a :: b :: c :: d :: rest =>
      let stop := spot.after ['\\', 'u', a, b, c, d]
      match hexValue4? a b c d, half with
      | none, _ => .error (hexFault (spot.after ['\\', 'u']) (a :: b :: c :: d :: rest))
      | some n, none =>
          if isTrailingHalf n then .error (JsonFault.loneSurrogate.at stop)
          else if isLeadingHalf n then readString stop (some n) read rest
          else readString stop none (Char.ofNat n :: read) rest
      | some n, some first =>
          if isTrailingHalf n then
            let code := (first - 0xD800) * 0x400 + (n - 0xDC00) + 0x10000
            readString stop none (Char.ofNat code :: read) rest
          else .error (JsonFault.loneSurrogate.at stop)
  | '\\' :: 'u' :: rest => .error (hexFault (spot.after ['\\', 'u']) rest)
  | '\\' :: c :: rest =>
      match half with
      | some _ => .error (JsonFault.unfinishedSurrogates.at ((spot.next '\\').ahead (c :: rest)))
      | none =>
          match shortEscape? c with
          | some plain => readString (spot.after ['\\', c]) none (plain :: read) rest
          | none => .error (JsonFault.invalidEscape.at ((spot.next '\\').ahead (c :: rest)))
  | c :: rest =>
      if half.isSome then .error (JsonFault.unfinishedSurrogates.at (spot.ahead (c :: rest)))
      else if c = '"' then .ok read.reverse
      else if c.toNat < 0x20 then .error (JsonFault.controlCharacter.at (spot.ahead (c :: rest)))
      else readString (spot.next c) none (c :: read) rest

/-! ## Numbers -/

/-- The parts of a number as it is written. -/
structure Numeral where
  negative : Bool
  whole : List Char
  fraction : Option (List Char)
  /-- Whether the power is negative, and its digits. -/
  power : Option (Bool × List Char)
  /-- The number of characters up to the digits of the power. -/
  beforePower : Nat
  /-- The number of all characters. -/
  length : Nat

/-- The digits at the start of a text, and the rest. -/
def digits (cs : List Char) : List Char × List Char := cs.span Char.isDigit

/-- Which fault a number has where the document ends. -/
def endFault (reading : Bool) : JsonFault :=
  if reading then .endInValue else .invalidNumber

/-- Scan the power behind its letter. -/
def scanPower (reading : Bool) (spot : Spot) (cs : List Char) :
    Except JsonError (Nat × Bool × List Char) :=
  let (signed, negative, rest) :=
    match cs with
    | '+' :: rest => (1, false, rest)
    | '-' :: rest => (1, true, rest)
    | _ => (0, false, cs)
  let here := spot.after (cs.take signed)
  match rest with
  | [] => .error ((endFault reading).at here)
  | c :: _ =>
      if c.isDigit then .ok (signed, negative, (digits rest).1)
      else .error (JsonFault.invalidNumber.at (here.ahead rest))

/-- Scan the fraction behind its point. -/
def scanFraction (reading : Bool) (spot : Spot) (cs : List Char) :
    Except JsonError (List Char) :=
  match cs with
  | [] => .error ((endFault reading).at spot)
  | c :: _ =>
      if c.isDigit then .ok (digits cs).1
      else .error (JsonFault.invalidNumber.at (spot.ahead cs))

/-- Scan the digits before the point. -/
def scanWhole (reading : Bool) (spot : Spot) (cs : List Char) : Except JsonError (List Char) :=
  match cs with
  | [] => .error ((endFault reading).at spot)
  | '0' :: c :: rest =>
      if c.isDigit then .error (JsonFault.invalidNumber.at ((spot.next '0').ahead (c :: rest)))
      else .ok ['0']
  | c :: _ =>
      if c.isDigit then .ok (digits cs).1
      else .error (JsonFault.invalidNumber.at (spot.ahead cs))

/-- Whether a text starts with a minus sign, and the rest of it. -/
def takeSign : List Char → Bool × List Char
  | '-' :: rest => (true, rest)
  | cs => (false, cs)

/-- Scan the fraction and its point, if there is one. -/
def scanFraction? (reading : Bool) (spot : Spot) : List Char → Except JsonError (Option (List Char))
  | '.' :: rest => (scanFraction reading (spot.next '.') rest).map some
  | _ => .ok none

/-- A fraction with its point. -/
def pointed : Option (List Char) → List Char
  | none => []
  | some digits => '.' :: digits

/-- Scan the power and its letter, if there is one. -/
def scanPower? (reading : Bool) (spot : Spot) :
    List Char → Except JsonError (Option (Nat × Bool × List Char))
  | [] => .ok none
  | c :: rest =>
      if c = 'e' ∨ c = 'E' then (scanPower reading (spot.next c) rest).map some else .ok none

/-- Scan a number. -/
def scanNumber (reading : Bool) (spot : Spot) (cs : List Char) : Except JsonError Numeral := do
  let (negative, unsigned) := takeSign cs
  let signLength := if negative then 1 else 0
  let spot := spot.after (cs.take signLength)
  let whole ← scanWhole reading spot unsigned
  let rest := unsigned.drop whole.length
  let spot := spot.after whole
  let fraction ← scanFraction? reading spot rest
  let rest := rest.drop (pointed fraction).length
  let spot := spot.after (pointed fraction)
  let length := signLength + whole.length + (pointed fraction).length
  match ← scanPower? reading spot rest with
  | some (signed, powerNegative, power) =>
      return ⟨negative, whole, fraction, some (powerNegative, power), length + 1 + signed,
        length + 1 + signed + power.length⟩
  | none => return ⟨negative, whole, fraction, none, length, length⟩

/-- The value of a digit. -/
def digitValue (c : Char) : Nat := c.toNat - '0'.toNat

/-- The greatest significand that is kept exactly. -/
def maxSignificand : Nat := 0xFFFFFFFFFFFFFFFF

/-- The greatest power that is kept exactly. -/
def maxPower : Nat := 0x7FFFFFFF

/-- Read digits into a significand as long as it stays in range; the digits that are left over. -/
def takeDigits (limit significand : Nat) : List Char → Nat × List Char
  | [] => (significand, [])
  | c :: cs =>
      let longer := significand * 10 + digitValue c
      if limit < longer then (significand, c :: cs) else takeDigits limit longer cs

/-- A power of ten as a floating-point number. -/
def tenTo (n : Nat) : Binary64 := (Binary64.ofNat (Nat.pow 10 n)).getD Binary64.zero

/-- Scale a number by a power of ten, in steps of at most three hundred and eight. -/
def scale : Nat → Binary64 → Int → Option Binary64
  | 0, x, _ => some x
  | steps + 1, x, power =>
      if power.natAbs ≤ 308 then
        if 0 ≤ power then x.mul (tenTo power.natAbs) else x.div (tenTo power.natAbs)
      else if x.significand = 0 then some x
      else if 0 ≤ power then none
      else (x.div (tenTo 308)).bind fun x => scale steps x (power + 308)

/-- A significand times a power of ten, as a floating-point number. Four steps are enough: the
third leaves zero. -/
def scaled (negative : Bool) (significand : Nat) (power : Int) : Option Binary64 :=
  ((Binary64.ofNat significand).bind fun x => scale 4 x power).map fun x =>
    { x with negative := negative }

/-- A number that has been read. -/
inductive Number
  | int (value : Int)
  | float (value : Binary64)
  deriving DecidableEq, Repr

namespace Numeral

/-- The value of a numeral, or the number of its characters up to the point where it is known to
be out of range. -/
def value (numeral : Numeral) : Except Nat Number :=
  let (significand, extra) := takeDigits maxSignificand 0 numeral.whole
  let fraction := numeral.fraction.getD []
  let (significand', dropped) := takeDigits maxSignificand significand fraction
  let power : Int := (extra.length : Int) - ((fraction.length - dropped.length : Nat) : Int)
  let float (power : Int) : Except Nat Number :=
    match scaled numeral.negative significand' power with
    | some x => .ok (.float x)
    | none => .error numeral.length
  match numeral.power with
  | some (powerNegative, digits) =>
      let (exponent, tooMany) := takeDigits maxPower 0 digits
      match tooMany with
      | [] => float (if powerNegative then power - exponent else power + exponent)
      | _ :: unread =>
          if significand' ≠ 0 && !powerNegative then .error (numeral.length - unread.length)
          else .ok (.float { Binary64.zero with negative := numeral.negative })
  | none =>
      if numeral.fraction.isSome || !extra.isEmpty then float power
      else if !numeral.negative then .ok (.int significand)
      else if 1 ≤ significand && significand ≤ 0x8000000000000000 then .ok (.int (-(significand : Int)))
      else float 0

end Numeral

/-- Read a number. -/
def readNumber (spot : Spot) (cs : List Char) : Except JsonError Number := do
  let numeral ← scanNumber true spot cs
  match numeral.value with
  | .ok number => return number
  | .error count => throw (JsonFault.numberOutOfRange.at (spot.after (cs.take count)))

/-! ## Cutting a document -/

/-- The words of JSON. -/
inductive Word
  | null
  | true
  | false
  deriving DecidableEq, Repr

namespace Word

/-- The letters of a word. -/
def letters : Word → List Char
  | null => ['n', 'u', 'l', 'l']
  | true => ['t', 'r', 'u', 'e']
  | false => ['f', 'a', 'l', 's', 'e']

end Word

/-- Compare a text with the letters of a word. -/
def checkWord (spot : Spot) : List Char → List Char → Except JsonError Unit
  | [], _ => .ok ()
  | _ :: _, [] => .error (JsonFault.endInValue.at spot)
  | letter :: letters, c :: cs =>
      if letter = c then checkWord (spot.next c) letters cs
      else .error (JsonFault.expectedWord.at (spot.ahead (c :: cs)))

/-- What a lexeme is. -/
inductive Kind
  /-- A single character: punctuation, or one that starts nothing. -/
  | mark (c : Char)
  | word (word : Word)
  | number (value : Except JsonError Number)
  | string (value : Except JsonError String)
  /-- A string, number or word that cannot be passed over: the error when it is to be read, and the
  error when it is to be passed over. A string keeps its opening quote in view. -/
  | broken (isString : Bool) (reading skipping : JsonError)

end Lexeme

/-- A piece of a document: what it is, where it starts, the spot one byte behind its start, and
where it stops. -/
structure Lexeme where
  kind : Lexeme.Kind
  start : Spot
  ahead : Spot
  stop : Spot

namespace Lexeme

/-- The blanks between lexemes. -/
def isSeparator (c : Char) : Bool := c == ' ' || c == '\n' || c == '\t' || c == '\r'

/-- The kind of the lexeme that a character starts, and how many characters follow that one. -/
def kindAt (spot : Spot) (c : Char) (cs : List Char) : Kind × Nat :=
  let word (w : Word) : Kind × Nat :=
    match checkWord spot w.letters (c :: cs) with
    | .ok () => (.word w, w.letters.length - 1)
    | .error e => (.broken false e e, 0)
  if c = '"' then
    let value := (readString (spot.next c) none [] cs).map String.ofList
    match skipString (spot.next c) 0 cs with
    | .ok count => (.string value, count)
    | .error e =>
        match value with
        | .error read => (.broken true read e, 0)
        | .ok _ => (.broken true e e, 0)
  else if c = 'n' then word .null
  else if c = 't' then word .true
  else if c = 'f' then word .false
  else if c = '-' || c.isDigit then
    let value := readNumber spot (c :: cs)
    match scanNumber false spot (c :: cs) with
    | .ok numeral => (.number value, numeral.length - 1)
    | .error e =>
        match value with
        | .error read => (.broken false read e, 0)
        | .ok _ => (.broken false e e, 0)
  else (.mark c, 0)

/-- The lexemes of a document from a spot on, and the spot where the document ends. -/
def cut (spot : Spot) : List Char → List Lexeme × Spot
  | [] => ([], spot)
  | c :: cs =>
      if isSeparator c then cut (spot.next c) cs
      else
        let (kind, count) := kindAt spot c cs
        let stop := (spot.next c).after (cs.take count)
        let lexeme : Lexeme := ⟨kind, spot, spot.ahead (c :: cs), stop⟩
        let (rest, last) := cut stop (cs.drop count)
        (lexeme :: rest, last)
termination_by cs => cs.length
decreasing_by all_goals simp only [List.length_drop, List.length_cons]; omega

end Lexeme

end ScopedCheck
