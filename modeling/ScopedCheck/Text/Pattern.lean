import ScopedCheck.Text.Letter
import ScopedCheck.Text.Blank
/-! # Patterns

Text patterns with an order of preference among their matches. The matches of a pattern at a place
of a text are tried one after the other, the preferred one first, until what comes behind the
pattern matches as well: a repetition prefers either more or fewer characters, and a choice prefers
its left branch. -/

namespace ScopedCheck.Text

/-- A place in a text: the character before it, the number of characters before it, and the text
after it. -/
structure Place where
  before : Option Char
  offset : Nat
  rest : List Char

namespace Place

/-- The start of a text. -/
def start (cs : List Char) : Place := ⟨none, 0, cs⟩

/-- The place after the next character. -/
def next? (place : Place) : Option (Char × Place) :=
  match place.rest with
  | [] => none
  | c :: cs => some (c, ⟨some c, place.offset + 1, cs⟩)

/-- Whether exactly one of the two neighbouring characters is a word character. -/
def isBoundary (place : Place) : Bool :=
  place.before.any isWordChar != place.rest.head?.any isWordChar

/-- Whether the place starts a line. -/
def isLineStart (place : Place) : Bool :=
  place.before.all (· == '\n')

/-- The text between a place and a later one. -/
def textUpTo (place stop : Place) : List Char :=
  place.rest.take (stop.offset - place.offset)

/-- Whether the next character is one of a class. -/
def nextIs (place : Place) (accepts : Char → Bool) : Bool := place.rest.head?.any accepts

end Place

/-- Which number of characters a repetition tries first. -/
inductive Preference
  | more
  | fewer
  deriving DecidableEq

/-- Patterns; repetition is of single characters of a class. -/
inductive Pattern
  /-- One character of a class. -/
  | char (accepts : Char → Bool)
  /-- Any number of characters of a class. -/
  | many (prefer : Preference) (accepts : Char → Bool)
  /-- A place that satisfies a condition. -/
  | place (holds : Place → Bool)
  /-- The empty text. -/
  | nothing
  /-- One pattern after the other. -/
  | seq (first second : Pattern)
  /-- The left pattern, or else the right one. -/
  | either (left right : Pattern)
  /-- A pattern whose text is remembered under a number. -/
  | capture (group : Nat) (inner : Pattern)

/-- What a match remembers, the latest first: the number of a group, and the places where its text
starts and stops. -/
abbrev Groups := List (Nat × Place × Place)

namespace Pattern

/-- The first result of going on behind zero or more characters of a class, the nearest place
first. -/
def fewest? {α : Type} (accepts : Char → Bool) (goOn : Place → Option α) (before : Option Char)
    (offset : Nat) : List Char → Option α
  | [] => goOn ⟨before, offset, []⟩
  | c :: cs =>
      match goOn ⟨before, offset, c :: cs⟩ with
      | some result => some result
      | none =>
          if accepts c then fewest? accepts goOn (some c) (offset + 1) cs else none

/-- The places behind zero or more characters of a class, the farthest first, in front of places
that are known already. -/
def placesAlong (accepts : Char → Bool) (known : List Place) (before : Option Char)
    (offset : Nat) : List Char → List Place
  | [] => ⟨before, offset, []⟩ :: known
  | c :: cs =>
      let known := ⟨before, offset, c :: cs⟩ :: known
      if accepts c then placesAlong accepts known (some c) (offset + 1) cs else known

/-- The first result of going on behind zero or more characters of a class, the farthest place
first. -/
def most? {α : Type} (accepts : Char → Bool) (goOn : Place → Option α) (here : Place) :
    Option α :=
  (placesAlong accepts [] here.before here.offset here.rest).findSome? goOn

/-- What a match at a place leads to: the first result of going on behind the pattern, over all its
matches there in order of preference. -/
def first? {α : Type} :
    Pattern → (Place → Groups → Option α) → Place → Groups → Option α
  | char accepts, goOn, here, groups =>
      match here.next? with
      | some (c, there) => if accepts c then goOn there groups else none
      | none => none
  | many .fewer accepts, goOn, here, groups =>
      fewest? accepts (goOn · groups) here.before here.offset here.rest
  | many .more accepts, goOn, here, groups => most? accepts (goOn · groups) here
  | place holds, goOn, here, groups => if holds here then goOn here groups else none
  | nothing, goOn, here, groups => goOn here groups
  | seq first second, goOn, here, groups => first.first? (second.first? goOn) here groups
  | either left right, goOn, here, groups =>
      match left.first? goOn here groups with
      | some result => some result
      | none => right.first? goOn here groups
  | capture group inner, goOn, here, groups =>
      inner.first? (fun stop groups => goOn stop ((group, here, stop) :: groups)) here groups

/-- A match: where it starts, where it stops and what it remembers. -/
structure Found where
  start : Place
  stop : Place
  groups : Groups

/-- The text of a group, if the match went through it. -/
def Found.group? (found : Found) (group : Nat) : Option (List Char) :=
  (found.groups.find? (·.1 == group)).map fun (_, start, stop) => start.textUpTo stop

/-- The text of a group that every match goes through. -/
def Found.group (found : Found) (group : Nat) : String :=
  String.ofList ((found.group? group).getD [])

/-- The preferred match at a place. -/
def matchAt? (pattern : Pattern) (here : Place) : Option Found :=
  pattern.first? (fun stop groups => some ⟨here, stop, groups⟩) here []

/-- One pattern after the other, in the order of the list. -/
def all (parts : List Pattern) : Pattern :=
  parts.foldr seq nothing

/-- Exactly the given text. -/
def text (s : String) : Pattern :=
  all (s.toList.map fun c => char (· == c))

/-- At least one character of a class. -/
def some (prefer : Preference) (accepts : Char → Bool) : Pattern :=
  seq (char accepts) (many prefer accepts)

/-- The pattern if it matches, else the empty text. -/
def optional (inner : Pattern) : Pattern :=
  either inner nothing

/-- Any number of blanks. -/
def blanks : Pattern := many .more isBlank

/-- At least one blank. -/
def blank : Pattern := some .more isBlank

/-- A place where a word starts or stops. -/
def boundary : Pattern := place Place.isBoundary

/-- The start of the text. -/
def atStart : Pattern := place (·.offset == 0)

/-- The end of the text. -/
def atEnd : Pattern := place (·.rest.isEmpty)

/-- The start of a line. -/
def atLineStart : Pattern := place Place.isLineStart

end Pattern

end ScopedCheck.Text
