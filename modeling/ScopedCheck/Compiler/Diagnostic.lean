import ScopedCheck.Text.Lines
import ScopedCheck.Text.Search
/-! # Diagnostics

What a compiler reports: one line of output for each finding, with the place, the severity, a code
and a message. All other lines are passed over. -/

namespace ScopedCheck

/-- How bad a finding is. -/
inductive Severity
  | error
  | warning
  deriving DecidableEq, Repr, Inhabited

/-- The word for a severity. -/
def Severity.word : Severity → String
  | .error => "error"
  | .warning => "warning"

/-- A finding of the compiler; lines and columns count from one. -/
structure Diagnostic where
  file : String
  line : Nat
  column : Nat
  severity : Severity
  code : String
  message : String
  deriving DecidableEq, Repr, Inhabited

/-- The findings in an output, by severity. -/
structure Findings where
  errors : List Diagnostic := []
  warnings : List Diagnostic := []
  deriving DecidableEq, Repr, Inhabited

namespace Diagnostic

open Text Text.Pattern

/-- A letter or digit of ASCII. -/
def isCodeChar (c : Char) : Bool := c.isAlphanum

/-- A line of output with a finding. The groups are the file, the line, the column, the severity,
the code and the message. -/
def linePattern : Pattern :=
  all [atStart, capture 1 (some .fewer (· != '\n')), text "(",
    capture 2 (some .more isDecimalDigit), text ",", capture 3 (some .more isDecimalDigit),
    text "):", blank, capture 4 (either (text "error") (text "warning")), blank,
    capture 5 (some .more isCodeChar), text ":", blanks, capture 6 (many .more (· != '\n')),
    atEnd]

/-- The greatest line or column. -/
def maxPosition : Nat := 0xFFFFFFFF

/-- A line or column in ASCII digits. -/
def position? (digits : String) : Option Nat := do
  guard (digits.toList.all Char.isDigit)
  let n := digits.toList.foldl (fun n c => n * 10 + (c.toNat - '0'.toNat)) 0
  guard (n ≤ maxPosition)
  return n

/-- The finding in a line of output, if there is one. -/
def ofLine? (line : List Char) : Option Diagnostic := do
  let found ← linePattern.matchAt? (Place.start line)
  let lineNumber ← position? (found.group 2)
  let column ← position? (found.group 3)
  let severity := if found.group 4 = "error" then Severity.error else Severity.warning
  return {
    file := trimmed (found.group 1), line := lineNumber, column, severity,
    code := found.group 5,
    message := String.ofList (trimEnd (found.group 6).toList) }

/-- The findings in an output, in order. -/
def ofOutput (raw : String) : List Diagnostic :=
  (lines raw.toList).filterMap fun line => ofLine? (dropTail (· == '\r') line)

/-- What an output looks like that was meant to hold findings. -/
def hintPattern : Pattern :=
  either (all [boundary, text "error", blank, text "TS", some .more isDecimalDigit])
    (either (all [atLineStart, text "error:"]) (all [boundary, text "error["]))

end Diagnostic

namespace Findings

/-- The findings in an output. -/
def ofOutput (raw : String) : Findings :=
  let all := Diagnostic.ofOutput raw
  ⟨all.filter (·.severity = .error), all.filter (·.severity = .warning)⟩

end Findings

/-- Whether an output looks as if it was meant to hold findings. -/
def looksLikeDiagnostics (raw : String) : Bool := Diagnostic.hintPattern.occursIn raw.toList

end ScopedCheck
