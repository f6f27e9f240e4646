import ScopedCheck.Text.Blank
/-! # Lines

A line ends after a newline; a carriage return right before that newline belongs to the ending.
The last line may lack its newline, and then a carriage return there is part of the line. -/

namespace ScopedCheck.Text

/-- Cut after every newline. The pieces, put together, are the text again. -/
def rawLines : List Char → List (List Char)
  | [] => []
  | c :: cs =>
      if c = '\n' then [c] :: rawLines cs
      else
        match rawLines cs with
        | [] => [[c]]
        | line :: rest => (c :: line) :: rest

/-- Remove one trailing character if it is the given one. -/
def dropLast? (c : Char) (cs : List Char) : Option (List Char) :=
  if cs.getLast? = some c then some cs.dropLast else none

/-- A piece without its line ending. -/
def withoutEnding (piece : List Char) : List Char :=
  match dropLast? '\n' piece with
  | none => piece
  | some line => (dropLast? '\r' line).getD line

/-- The lines of a text, without their endings. -/
def lines (cs : List Char) : List (List Char) :=
  (rawLines cs).map withoutEnding

theorem flatten_rawLines (cs : List Char) : (rawLines cs).flatten = cs := by
  induction cs with
  | nil => rfl
  | cons c cs ih =>
      by_cases h : c = '\n'
      · simp [rawLines, h, ih]
      · cases hl : rawLines cs with
        | nil => simp [rawLines, h, hl] at ih ⊢; exact ih
        | cons line rest => simp [rawLines, h, hl] at ih ⊢; exact ih

end ScopedCheck.Text
