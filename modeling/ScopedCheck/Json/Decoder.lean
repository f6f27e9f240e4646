import ScopedCheck.Json.Basic
import ScopedCheck.Json.Lexeme
/-! # Decoding documents into typed values

A decoder reads lexemes from the front. An error about what was written has its spot at once. An
error about what a container holds gets the spot behind the container, as far as its closing bracket
can be found. Values that nobody asks for are passed over; they may nest without limit, all others
at most `Json.depthLimit` deep. -/

namespace ScopedCheck.Json

/-- What is left of a document: its lexemes, the spot where reading stands, and its end. -/
structure Rest where
  lexemes : List Lexeme
  spot : Spot
  last : Spot

/-- A step of reading that may fail; where it stood is known either way. -/
abbrev Decoder := EStateM JsonError Rest

/-- How many containers may lie inside each other. -/
def depthLimit : Nat := 127

namespace Decoder

/-- Fail at the spot where reading stands. -/
def failHere {α : Type} (fault : JsonFault) : Decoder α := do
  throw (fault.at (← get).spot)

/-- Go to the next lexeme. -/
def peek : Decoder (Option Lexeme) := do
  let rest ← get
  match rest.lexemes with
  | [] => set { rest with spot := rest.last }; return none
  | lexeme :: _ => set { rest with spot := lexeme.start }; return some lexeme

/-- Fail one byte behind the start of a lexeme. -/
def failAhead {α : Type} (fault : JsonFault) (lexeme : Lexeme) : Decoder α :=
  throw (fault.at lexeme.ahead)

/-- Fail without a spot. -/
def failLoose {α : Type} (fault : JsonFault) : Decoder α := throw ⟨fault, none⟩

/-- Take the next lexeme, which has been looked at. -/
def eat (lexeme : Lexeme) : Decoder Unit :=
  modify fun rest => { rest with lexemes := rest.lexemes.tail, spot := lexeme.stop }

/-- Give an error the spot where reading stands, if it has none. -/
def placed {α : Type} (decoder : Decoder α) : Decoder α := fun rest =>
  match decoder rest with
  | .ok value rest => .ok value rest
  | .error e rest => .error { e with spot := some (e.spot.getD rest.spot) } rest

/-- Decode the inside of a container and then its closing bracket. The bracket is looked for even
if the inside has failed, and errors without a spot are placed behind it. -/
def closed {α : Type} (close : Decoder Unit) (inside : Decoder α) : Decoder α := fun rest =>
  match inside rest with
  | .ok value rest => placed (do close; return value) rest
  | .error e rest =>
      match close rest with
      | .ok _ rest | .error _ rest => .error { e with spot := some (e.spot.getD rest.spot) } rest

/-- The closing bracket of an array. -/
def closeArray : Decoder Unit := do
  match ← peek with
  | none => failHere .endInArray
  | some lexeme =>
      match lexeme.kind with
      | .mark ']' => eat lexeme
      | .mark ',' => do
          eat lexeme
          match ← peek with
          | none => failHere .trailingCharacters
          | some lexeme =>
              match lexeme.kind with
              | .mark ']' => failAhead .trailingComma lexeme
              | _ => failAhead .trailingCharacters lexeme
      | _ => failAhead .trailingCharacters lexeme

/-- The closing brace of an object. -/
def closeObject : Decoder Unit := do
  match ← peek with
  | none => failHere .endInObject
  | some lexeme =>
      match lexeme.kind with
      | .mark '}' => eat lexeme
      | .mark ',' => failAhead .trailingComma lexeme
      | _ => failAhead .trailingCharacters lexeme

/-- The number of lexemes that are left. -/
def count : Decoder Nat := return (← get).lexemes.length

/-! ## Values that are passed over -/

/-- Pass over a lexeme that is a value on its own. -/
def skipScalar (lexeme : Lexeme) : Decoder Unit :=
  match lexeme.kind with
  | .mark _ => failAhead .expectedValue lexeme
  | .broken _ _ e => throw e
  | _ => eat lexeme

/-- Pass over a key and its colon. -/
def skipKey (lexeme : Lexeme) : Decoder Unit := do
  match lexeme.kind with
  | .string _ => eat lexeme
  | .broken true _ e => throw e
  | _ => failAhead .keyMustBeString lexeme
  match ← peek with
  | none => failHere .endInObject
  | some lexeme =>
      match lexeme.kind with
      | .mark ':' => eat lexeme
      | _ => failAhead .expectedColon lexeme

mutual

/-- Pass over a value, with at most as many lexemes as the fuel. -/
def skipValue : Nat → Decoder Unit
  | 0 => failHere .endInValue
  | fuel + 1 => do
      match ← peek with
      | none => failHere .endInValue
      | some lexeme =>
          match lexeme.kind with
          | .mark '[' => do
              eat lexeme
              match ← peek with
              | none => failHere .endInArray
              | some lexeme =>
                  match lexeme.kind with
                  | .mark ']' => eat lexeme
                  | _ => skipItems fuel
          | .mark '{' => do
              eat lexeme
              match ← peek with
              | none => failHere .endInObject
              | some lexeme =>
                  match lexeme.kind with
                  | .mark '}' => eat lexeme
                  | _ => skipFields fuel
          | _ => skipScalar lexeme

/-- Pass over the items of an array and its closing bracket. -/
def skipItems : Nat → Decoder Unit
  | 0 => failHere .endInValue
  | fuel + 1 => do
      skipValue fuel
      match ← peek with
      | none => failHere .endInArray
      | some lexeme =>
          match lexeme.kind with
          | .mark ',' => do eat lexeme; skipItems fuel
          | .mark ']' => eat lexeme
          | _ => failAhead .expectedCommaOrBracket lexeme

/-- Pass over the entries of an object and its closing brace. -/
def skipFields : Nat → Decoder Unit
  | 0 => failHere .endInValue
  | fuel + 1 => do
      match ← peek with
      | none => failHere .endInObject
      | some lexeme => skipKey lexeme
      skipValue fuel
      match ← peek with
      | none => failHere .endInObject
      | some lexeme =>
          match lexeme.kind with
          | .mark ',' => do eat lexeme; skipFields fuel
          | .mark '}' => eat lexeme
          | _ => failAhead .expectedCommaOrBrace lexeme

end

/-- Pass over a value. -/
def skip : Decoder Unit := do skipValue (2 * (← count) + 2)

/-! ## Scalars -/

/-- Read a string lexeme, which has been looked at. -/
def readString (lexeme : Lexeme) : Decoder String := do
  match lexeme.kind with
  | .string (.ok value) => eat lexeme; return value
  | .string (.error e) | .broken _ e _ => throw e
  | _ => failAhead .expectedValue lexeme

/-- Fail because another kind of value was expected. -/
def mismatch {α : Type} (lexeme : Lexeme) (expected : String) : Decoder α := do
  match lexeme.kind with
  | .mark '[' => failHere (.mismatch .array expected)
  | .mark '{' => failHere (.mismatch .object expected)
  | .mark _ => failAhead .expectedValue lexeme
  | .word .null => eat lexeme; failHere (.mismatch .null expected)
  | .word .true => eat lexeme; failHere (.mismatch (.bool true) expected)
  | .word .false => eat lexeme; failHere (.mismatch (.bool false) expected)
  | .number (.ok (.int value)) => eat lexeme; failHere (.mismatch (.int value) expected)
  | .number (.ok (.float value)) => eat lexeme; failHere (.mismatch (.float value) expected)
  | .string (.ok value) => eat lexeme; failHere (.mismatch (.string value) expected)
  | .number (.error e) | .string (.error e) | .broken _ e _ => throw e

/-- Look at the next lexeme of a value. -/
def peekValue : Decoder Lexeme := do
  match ← peek with
  | none => failHere .endInValue
  | some lexeme => return lexeme

/-- A string. -/
def string : Decoder String := do
  let lexeme ← peekValue
  match lexeme.kind with
  | .string _ | .broken true _ _ => readString lexeme
  | _ => mismatch lexeme "a string"

/-- Nothing for null, and a value otherwise. -/
def optional {α : Type} (decoder : Decoder α) : Decoder (Option α) := do
  match ← peek with
  | some lexeme =>
      match lexeme.kind with
      | .word .null => eat lexeme; return none
      | _ => return some (← decoder)
  | none => return some (← decoder)

/-! ## Containers -/

/-- Whether an array has another item; the comma before it is taken. -/
def hasItem (isFirst : Bool) : Decoder Bool := do
  match ← peek with
  | none => failHere .endInArray
  | some lexeme =>
      match lexeme.kind with
      | .mark ']' => return false
      | .mark ',' =>
          if isFirst then return true
          else do
            eat lexeme
            match ← peek with
            | none => failHere .endInValue
            | some lexeme =>
                match lexeme.kind with
                | .mark ']' => failAhead .trailingComma lexeme
                | _ => return true
      | _ => if isFirst then return true else failAhead .expectedCommaOrBracket lexeme

/-- The next item of an array, if there is one. -/
def nextItem {α : Type} (isFirst : Bool) (item : Decoder α) : Decoder (Option α) := do
  if ← hasItem isFirst then return some (← item) else return none

/-- All items of an array. -/
def items {α : Type} (item : Decoder α) (isFirst : Bool) : Nat → Decoder (List α)
  | 0 => return []
  | fuel + 1 => do
      match ← nextItem isFirst item with
      | none => return []
      | some value => return value :: (← items item false fuel)

/-- Whether an object has another key; the comma before it is taken. -/
def nextKey (isFirst : Bool) : Decoder (Option String) := do
  match ← peek with
  | none => failHere .endInObject
  | some lexeme =>
      match lexeme.kind with
      | .mark '}' => return none
      | .mark ',' =>
          if isFirst then failAhead .keyMustBeString lexeme
          else do
            eat lexeme
            match ← peek with
            | none => failHere .endInValue
            | some lexeme =>
                match lexeme.kind with
                | .string _ | .broken true _ _ => return some (← readString lexeme)
                | .mark '}' => failAhead .trailingComma lexeme
                | _ => failAhead .keyMustBeString lexeme
      | .string _ | .broken true _ _ =>
          if isFirst then return some (← readString lexeme)
          else failAhead .expectedCommaOrBrace lexeme
      | _ =>
          if isFirst then failAhead .keyMustBeString lexeme
          else failAhead .expectedCommaOrBrace lexeme

/-- The colon behind a key. -/
def colon : Decoder Unit := do
  match ← peek with
  | none => failHere .endInObject
  | some lexeme =>
      match lexeme.kind with
      | .mark ':' => eat lexeme
      | _ => failAhead .expectedColon lexeme

/-- All entries of an object, each handed to a step that goes on behind the key. -/
def entries {σ : Type} (step : σ → String → Decoder σ) (isFirst : Bool) :
    Nat → σ → Decoder σ
  | 0, state => return state
  | fuel + 1, state => do
      match ← nextKey isFirst with
      | none => return state
      | some key => entries step false fuel (← step state key)

/-- Go into a container, if it does not lie too deep. -/
def enter {α : Type} (room : Nat) (lexeme : Lexeme) (close : Decoder Unit)
    (inside : Nat → Decoder α) : Decoder α :=
  match room with
  | 0 => failAhead .tooDeep lexeme
  | room + 1 => do eat lexeme; closed close (inside room)

/-- An array whose items are decoded alike. -/
def list {α : Type} (room : Nat) (item : Nat → Decoder α) : Decoder (List α) := do
  let lexeme ← peekValue
  match lexeme.kind with
  | .mark '[' =>
      enter room lexeme closeArray fun room => do items (item room) true (← count)
  | _ => mismatch lexeme "a sequence"

/-- An object whose values are decoded alike. A repeated key keeps its place and the last value. -/
def map {α : Type} (room : Nat) (value : Nat → Decoder α) : Decoder (Entries α) := do
  let lexeme ← peekValue
  match lexeme.kind with
  | .mark '{' =>
      enter room lexeme closeObject fun room => do
        let step (state : Entries α) (key : String) : Decoder (Entries α) := do
          colon
          return state.set key (← value room)
        entries step true (← count) []
  | _ => mismatch lexeme "a map"

/-- How a record is decoded: the words for what it is, its fields, and, where it may also be
written as an array, its items. -/
structure Record (σ α : Type) where
  expected : String
  start : σ
  /-- Decode the value behind a key. -/
  field : Nat → σ → String → Decoder σ
  finish : σ → Decoder α
  /-- Decode the fields as the items of an array. -/
  items : Option (Nat → Decoder α)

/-- A record. -/
def record {σ α : Type} (room : Nat) (r : Record σ α) : Decoder α := do
  let lexeme ← peekValue
  match lexeme.kind, r.items with
  | .mark '[', some items => enter room lexeme closeArray items
  | .mark '{', _ =>
      enter room lexeme closeObject fun room => do
        r.finish (← entries (r.field room) true (← count) r.start)
  | _, _ => mismatch lexeme r.expected

/-- Fail if a field has been met before. -/
def onlyOnce {α : Type} (field : Option α) (name : String) : Decoder Unit :=
  if field.isSome then failLoose (.duplicateField name) else pure ()

/-- Any value. -/
def value (room : Nat) : Decoder Json := do
  let lexeme ← peekValue
  match lexeme.kind with
  | .word .null => eat lexeme; return .null
  | .word .true => eat lexeme; return .bool true
  | .word .false => eat lexeme; return .bool false
  | .number (.ok (.int value)) => eat lexeme; return .int value
  | .number (.ok (.float value)) => eat lexeme; return .float value
  | .string (.ok value) => eat lexeme; return .string value
  | .number (.error e) | .string (.error e) | .broken _ e _ => throw e
  | .mark '[' =>
      match room with
      | 0 => failAhead .tooDeep lexeme
      | room + 1 => do
          eat lexeme
          closed closeArray (do return .array (← items (value room) true (← count)))
  | .mark '{' =>
      match room with
      | 0 => failAhead .tooDeep lexeme
      | room + 1 => do
          eat lexeme
          let step (state : Entries Json) (key : String) : Decoder (Entries Json) := do
            colon
            return state.set key (← value room)
          closed closeObject (do return .object (← entries step true (← count) []))
  | .mark _ => failAhead .expectedValue lexeme

/-- The end of the document. -/
def endOfText : Decoder Unit := do
  match ← peek with
  | none => return ()
  | some lexeme => failAhead .trailingCharacters lexeme

/-- Decode a whole document. -/
def run {α : Type} (decoder : Nat → Decoder α) (text : String) : Except JsonError α :=
  let (lexemes, last) := Lexeme.cut Spot.first text.toList
  match (do let value ← decoder depthLimit; endOfText; return value : Decoder α)
      ⟨lexemes, Spot.first, last⟩ with
  | .ok value _ => .ok value
  | .error e _ => .error e

end Decoder

/-- Read a document. -/
def parse (text : String) : Except JsonError Json := Decoder.run Decoder.value text

end ScopedCheck.Json
