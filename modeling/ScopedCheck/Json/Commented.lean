import ScopedCheck.Text.Blank
/-! # JSON with comments

Two passes turn a document with comments and trailing commas into a plain one. The first drops line
comments and block comments, the second drops every comma whose next character that is no blank
closes a container. Neither looks into strings, and both keep every newline, so that a line of the
result is the line it was written on. -/

namespace ScopedCheck.Json.Commented

/-- Where a character stands. -/
inductive Mode
  | code
  /-- Inside a string. -/
  | string
  /-- Behind a backslash inside a string. -/
  | escape
  | lineComment
  | blockComment
  deriving DecidableEq, Repr

/-- Drop the comments. -/
def stripComments : Mode → List Char → List Char
  | _, [] => []
  | .lineComment, c :: cs =>
      if c = '\n' then c :: stripComments .code cs else stripComments .lineComment cs
  | .blockComment, '*' :: '/' :: cs => stripComments .code cs
  | .blockComment, c :: cs =>
      if c = '\n' then c :: stripComments .blockComment cs else stripComments .blockComment cs
  | .escape, c :: cs => c :: stripComments .string cs
  | .string, c :: cs =>
      c :: stripComments (if c = '\\' then .escape else if c = '"' then .code else .string) cs
  | .code, '/' :: '/' :: cs => stripComments .lineComment cs
  | .code, '/' :: '*' :: cs => stripComments .blockComment cs
  | .code, c :: cs => c :: stripComments (if c = '"' then .string else .code) cs

/-- Whether a text, after blanks, closes a container. -/
def closesNext (cs : List Char) : Bool :=
  match cs.dropWhile Text.isBlank with
  | '}' :: _ | ']' :: _ => true
  | _ => false

/-- Drop the commas in front of closing brackets. -/
def dropTrailingCommas : Mode → List Char → List Char
  | _, [] => []
  | .escape, c :: cs => c :: dropTrailingCommas .string cs
  | .string, c :: cs =>
      c :: dropTrailingCommas (if c = '\\' then .escape else if c = '"' then .code else .string) cs
  | .code, c :: cs =>
      if c = ',' && closesNext cs then dropTrailingCommas .code cs
      else c :: dropTrailingCommas (if c = '"' then .string else .code) cs
  | .lineComment, c :: cs => c :: dropTrailingCommas .lineComment cs
  | .blockComment, c :: cs => c :: dropTrailingCommas .blockComment cs

/-- Both passes. -/
def plain (cs : List Char) : List Char :=
  dropTrailingCommas .code (stripComments .code cs)

/-- The mark that may stand at the start of a file. -/
def byteOrderMark : Char := '\ufeff'

/-- The plain document in a text, without the marks in front of it. -/
def document (text : String) : List Char :=
  (plain text.toList).dropWhile (· == byteOrderMark)

end ScopedCheck.Json.Commented
