import ScopedCheck.Json.Binary64
import ScopedCheck.Text.Quoted
/-! # Faults of JSON documents

What can be wrong with the text of a document, or with the shape of its values, and how it is
put in words. -/

namespace ScopedCheck

/-- A kind of value that was met where another one was expected. -/
inductive JsonMet
  | null
  | bool (value : Bool)
  | int (value : Int)
  | float (value : Binary64)
  | string (value : String)
  | array
  | object
  deriving DecidableEq, Repr

namespace JsonMet

/-- What was met, in words. -/
def words : JsonMet → String
  | null => "null"
  | bool value => "boolean `" ++ (if value then "true" else "false") ++ "`"
  | int value => "integer `" ++ toString value ++ "`"
  | float value => "floating point `" ++ value.text ++ "`"
  | string value => "string " ++ Text.quoted value
  | array => "sequence"
  | object => "map"

end JsonMet

/-- What can be wrong with a document. -/
inductive JsonFault
  | endInArray
  | endInObject
  | endInString
  | endInValue
  | expectedColon
  | expectedCommaOrBracket
  | expectedCommaOrBrace
  | expectedWord
  | expectedValue
  | invalidEscape
  | invalidNumber
  | numberOutOfRange
  | controlCharacter
  | keyMustBeString
  | loneSurrogate
  | unfinishedSurrogates
  | trailingComma
  | trailingCharacters
  | tooDeep
  | mismatch (met : JsonMet) (expected : String)
  | duplicateField (name : String)
  | missingField (name : String)
  | tooFewItems (count : Nat) (expected : String)
  | noVariant (name : String)
  | invalidSwitch (text : String)
  deriving DecidableEq, Repr

namespace JsonFault

/-- The fault in words. -/
def words : JsonFault → String
  | endInArray => "EOF while parsing a list"
  | endInObject => "EOF while parsing an object"
  | endInString => "EOF while parsing a string"
  | endInValue => "EOF while parsing a value"
  | expectedColon => "expected `:`"
  | expectedCommaOrBracket => "expected `,` or `]`"
  | expectedCommaOrBrace => "expected `,` or `\x7d`"
  | expectedWord => "expected ident"
  | expectedValue => "expected value"
  | invalidEscape => "invalid escape"
  | invalidNumber => "invalid number"
  | numberOutOfRange => "number out of range"
  | controlCharacter =>
      "control character (\\u0000-\\u001F) found while parsing a string"
  | keyMustBeString => "key must be a string"
  | loneSurrogate => "lone leading surrogate in hex escape"
  | unfinishedSurrogates => "unexpected end of hex escape"
  | trailingComma => "trailing comma"
  | trailingCharacters => "trailing characters"
  | tooDeep => "recursion limit exceeded"
  | mismatch met expected => "invalid type: " ++ met.words ++ ", expected " ++ expected
  | duplicateField name => "duplicate field `" ++ name ++ "`"
  | missingField name => "missing field `" ++ name ++ "`"
  | tooFewItems count expected =>
      "invalid length " ++ toString count ++ ", expected " ++ expected
  | noVariant name => "data did not match any variant of untagged enum " ++ name
  | invalidSwitch text =>
      "invalid boolean value: '" ++ text ++ "'. Expected true, false, 'true', or 'false'"

end JsonFault

end ScopedCheck
