/-! # Styled text

A styled text starts with the sequence that turns its style on and ends with the one that turns
every style off. Where a styled text holds another one, the outer style is turned on again behind
the inner one. -/

namespace ScopedCheck.Text

/-- How a text is shown on a terminal, by the codes that turn it on. -/
structure Style where
  codes : List Nat
  deriving DecidableEq, Repr

namespace Style

/-- Bold text. -/
def bold : Style := ⟨[1]⟩

/-- Dimmed text. -/
def dimmed : Style := ⟨[2]⟩

/-- Bold red text. -/
def boldRed : Style := ⟨[1, 31]⟩

/-- Bold yellow text. -/
def boldYellow : Style := ⟨[1, 33]⟩

/-- Green text. -/
def green : Style := ⟨[32]⟩

/-- Cyan text. -/
def cyan : Style := ⟨[36]⟩

/-- Bright blue text. -/
def brightBlue : Style := ⟨[94]⟩

/-- The sequence for a list of codes. -/
def sequenceOf (codes : List Nat) : List Char :=
  '\x1b' :: '[' :: (";".intercalate (codes.map toString)).toList ++ ['m']

/-- The sequence that turns a style on. -/
def opening (style : Style) : List Char := sequenceOf style.codes

/-- The sequence that turns every style off. -/
def reset : List Char := ['\x1b', '[', '0', 'm']

/-- A text with a style turned on again behind every reset. -/
def reopened (style : Style) : List Char → List Char
  | '\x1b' :: '[' :: '0' :: 'm' :: cs => reset ++ style.opening ++ reopened style cs
  | c :: cs => c :: reopened style cs
  | [] => []

/-- A text in a style. -/
def apply (style : Style) (text : String) : String :=
  String.ofList (style.opening ++ style.reopened text.toList ++ reset)

end Style

end ScopedCheck.Text
