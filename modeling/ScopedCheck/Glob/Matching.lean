import ScopedCheck.Glob.Expression
import ScopedCheck.Path.Basic
/-! # Which paths a glob matches

A glob works on the bytes of a path as it is written. The places that an expression can lead to,
from any of some given places of a text, are found in one pass over the text; a glob matches a text
when it leads from the start of the text to its end. -/

namespace ScopedCheck

/-- For each place of a text, from its start to its end, whether it is marked. -/
abbrev Marks := List Bool

namespace Marks

/-- The start of a text is marked. -/
def start (text : List UInt8) : Marks := true :: text.map fun _ => false

/-- Whether the end of the text is marked. -/
def atEnd (marks : Marks) : Bool := marks.getLastD false

/-- The places marked in one of two ways. -/
def union (marks others : Marks) : Marks := List.zipWith (· || ·) marks others

/-- The places behind an accepted byte at a marked place. -/
def step (accepts : UInt8 → Bool) (text : List UInt8) (marks : Marks) : Marks :=
  false :: List.zipWith (fun mark b => mark && accepts b) marks text

/-- The places behind any number of accepted bytes from a marked place on. -/
def run (accepts : UInt8 → Bool) (text : List UInt8) (marks : Marks) : Marks :=
  go false text marks
where
  /-- Go on, given whether the next place is behind accepted bytes from a marked place. -/
  go (isReached : Bool) : List UInt8 → Marks → Marks
    | b :: text, mark :: marks =>
        let isReached := isReached || mark
        isReached :: go (isReached && accepts b) text marks
    | [], mark :: _ => [isReached || mark]
    | _, [] => []

end Marks

namespace Expression

mutual

/-- The places of a text behind an expression from a marked place on. -/
def reach (text : List UInt8) : Expression → Marks → Marks
  | byte b, marks => marks.step (· == b) text
  | maybe b, marks => marks.union (marks.step (· == b) text)
  | anything, marks => marks.run (fun _ => true) text
  | one set, marks => marks.step set.has text
  | many set, marks => marks.run set.has text
  | choice branches, marks => reachSome text branches marks

/-- The places behind expressions one after the other. -/
def reachAll (text : List UInt8) : List Expression → Marks → Marks
  | [], marks => marks
  | part :: rest, marks => reachAll text rest (part.reach text marks)

/-- The places behind some branch. -/
def reachSome (text : List UInt8) : List (List Expression) → Marks → Marks
  | [], marks => marks.map fun _ => false
  | branch :: rest, marks => (reachAll text branch marks).union (reachSome text rest marks)

end

/-- Whether a text as a whole is what expressions ask for one after the other. -/
def matchesAll (parts : List Expression) (text : List UInt8) : Bool :=
  (reachAll text parts (Marks.start text)).atEnd

end Expression

namespace Glob

/-- Whether a glob matches a text as a whole. -/
def matchesText (glob : Glob) (text : String) : Bool :=
  Expression.matchesAll glob.expressions text.toUTF8.toList

/-- Whether a glob matches a path, as it is written. -/
def isMatch (glob : Glob) (path : Path) : Bool := glob.matchesText path.text

end Glob

end ScopedCheck
