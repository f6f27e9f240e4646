import ScopedCheck.Json.Basic
/-! # JSON text

The compact text of a value has no blanks. The pretty text puts every item and every entry on a
line of its own, two spaces deeper than what it belongs to; empty arrays and objects stay on one
line. -/

namespace ScopedCheck.Json

/-- A hexadecimal digit. -/
def hexDigit (n : Nat) : Char := Nat.digitChar n

/-- How a string shows a character. -/
def escapedChar (c : Char) : List Char :=
  if c = '"' then ['\\', '"']
  else if c = '\\' then ['\\', '\\']
  else if c = '\n' then ['\\', 'n']
  else if c = '\r' then ['\\', 'r']
  else if c = '\t' then ['\\', 't']
  else if c.toNat = 8 then ['\\', 'b']
  else if c.toNat = 12 then ['\\', 'f']
  else if c.toNat < 0x20 then
    ['\\', 'u', '0', '0', hexDigit (c.toNat / 16), hexDigit (c.toNat % 16)]
  else [c]

/-- A string between quotes. -/
def stringText (s : String) : String :=
  String.ofList ('"' :: s.toList.flatMap escapedChar ++ ['"'])

mutual

/-- The compact text of a value. -/
def compact : Json → String
  | null => "null"
  | bool value => if value then "true" else "false"
  | int value => toString value
  | float value => value.text
  | string value => stringText value
  | array items => "[" ++ ",".intercalate (compactItems items) ++ "]"
  | object entries => "\x7b" ++ ",".intercalate (compactEntries entries) ++ "\x7d"

/-- The compact texts of the items of an array. -/
def compactItems : List Json → List String
  | [] => []
  | item :: rest => item.compact :: compactItems rest

/-- The compact texts of the entries of an object. -/
def compactEntries : List (String × Json) → List String
  | [] => []
  | (key, value) :: rest => (stringText key ++ ":" ++ value.compact) :: compactEntries rest

end

/-- A new line with the given indentation. -/
def newLine (depth : Nat) : String := "\n" ++ String.ofList (List.replicate (2 * depth) ' ')

mutual

/-- The pretty text of a value at a depth. -/
def prettyAt (depth : Nat) : Json → String
  | null => "null"
  | bool value => if value then "true" else "false"
  | int value => toString value
  | float value => value.text
  | string value => stringText value
  | array [] => "[]"
  | array items =>
      "[" ++ ",".intercalate (prettyItems (depth + 1) items) ++ newLine depth ++ "]"
  | object [] => "\x7b\x7d"
  | object entries =>
      "\x7b" ++ ",".intercalate (prettyEntries (depth + 1) entries) ++ newLine depth ++ "\x7d"

/-- The pretty texts of the items of an array, each on its own line. -/
def prettyItems (depth : Nat) : List Json → List String
  | [] => []
  | item :: rest => (newLine depth ++ item.prettyAt depth) :: prettyItems depth rest

/-- The pretty texts of the entries of an object, each on its own line. -/
def prettyEntries (depth : Nat) : List (String × Json) → List String
  | [] => []
  | (key, value) :: rest =>
      (newLine depth ++ stringText key ++ ": " ++ value.prettyAt depth) :: prettyEntries depth rest

end

/-- The pretty text of a value. -/
def pretty (value : Json) : String := value.prettyAt 0

end ScopedCheck.Json
