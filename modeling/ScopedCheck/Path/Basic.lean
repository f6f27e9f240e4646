import ScopedCheck.Text.Split
/-! # Paths

A path is kept as it was written. Its parts are what it means: repeated and trailing slashes and
inner `.` steps carry no meaning, a leading `.` does. Two paths are the same place when they have
the same parts, and paths are ordered part by part. The normal form resolves every `.` and `..`
without looking at a file tree. -/

namespace ScopedCheck

/-- A path, as written. -/
structure Path where
  text : String
  deriving DecidableEq, Repr, Inhabited, Hashable

instance : ToString Path := ⟨Path.text⟩

namespace Path

/-- One step of a path. -/
inductive Part
  /-- The leading slash. -/
  | root
  /-- A leading `.`. -/
  | here
  /-- A step `..`. -/
  | up
  /-- A step to an entry of the given name. -/
  | name (text : List Char)
  deriving DecidableEq, Repr

namespace Part

/-- The root comes before `.`, this before `..`, and this before all names. -/
def rank : Part → Nat
  | root => 0
  | here => 1
  | up => 2
  | name _ => 3

/-- The name of a part that is a name. -/
def nameText : Part → List Char
  | name text => text
  | _ => []

/-- Parts compare by rank, and names by their characters. -/
def order : Part → Part → Ordering :=
  compareLex (compareOn rank) (compareOn nameText)

/-- What a part looks like in a path. -/
def chars : Part → List Char
  | root => ['/']
  | here => ['.']
  | up => ['.', '.']
  | name text => text

end Part

/-- The characters of the path. -/
def chars (p : Path) : List Char := p.text.toList

/-- Whether the path starts at the root. -/
def isAbsolute (p : Path) : Bool := p.chars.head? == some '/'

/-- The pieces between the slashes, without the leading slash. -/
def segments (p : Path) : List (List Char) :=
  Text.splitOn '/' (if p.isAbsolute then p.chars.tail else p.chars)

/-- Whether a piece that does not lead a relative path is a step. -/
def isStep (segment : List Char) : Bool :=
  segment != [] && segment != ['.']

/-- A piece read as a step. -/
def stepOf (segment : List Char) : Part :=
  if segment = ['.', '.'] then .up else .name segment

/-- The steps of pieces that do not lead a relative path. -/
def stepsOf (segments : List (List Char)) : List Part :=
  (segments.filter isStep).map stepOf

/-- What the path means, step by step. -/
def parts (p : Path) : List Part :=
  if p.isAbsolute then .root :: stepsOf p.segments
  else
    match p.segments with
    | ['.'] :: rest => .here :: stepsOf rest
    | segments => stepsOf segments

/-- Whether two paths mean the same place. -/
def same (p q : Path) : Bool := p.parts == q.parts

/-- The order of paths, part by part. -/
def order (p q : Path) : Ordering := List.compareLex Part.order p.parts q.parts

/-- Whether a path does not come after another. -/
def le (p q : Path) : Bool := (order p q).isLE

/-- Whether a list of paths holds the place of a path. -/
def listed (p : Path) (paths : List Path) : Bool := paths.any (same p)

/-- A path from its root and its pieces. -/
def ofSegments (absolute : Bool) (segments : List (List Char)) : Path :=
  let body := Text.joinWith '/' segments
  ⟨String.ofList (if absolute then '/' :: body else body)⟩

/-- A second path seen from the first: an absolute one stays as it is. -/
def join (p q : Path) : Path :=
  if q.isAbsolute then q
  else if p.text.isEmpty || p.chars.getLast? == some '/' then ⟨p.text ++ q.text⟩
  else ⟨p.text ++ "/" ++ q.text⟩

instance : Div Path := ⟨join⟩

/-- A path with one more step. -/
def child (p : Path) (name : String) : Path := p.join ⟨name⟩

/-- The pieces of a path up to its last step, if there is a step. A leading `.` of a relative path
is one. -/
def upToLastStep (absolute : Bool) : List (List Char) → List (List Char)
  | [] => []
  | first :: rest =>
      let kept := (rest.reverse.dropWhile (!isStep ·)).reverse
      if kept.isEmpty then
        if isStep first || (!absolute && first == ['.']) then [first] else []
      else first :: kept

/-- The path without its last step; the root and the empty path have none. -/
def parent? (p : Path) : Option Path :=
  match upToLastStep p.isAbsolute p.segments with
  | [] => none
  | steps => some (ofSegments p.isAbsolute (upToLastStep p.isAbsolute steps.dropLast))

/-- The directory of a path; the root for a path without one. -/
def parent (p : Path) : Path := p.parent?.getD ⟨"/"⟩

/-- The path and the paths above it, the nearest first. -/
def ancestors (p : Path) : List Path :=
  go p.segments.length p
where
  /-- At most `count` paths above a path, after the path itself. -/
  go : Nat → Path → List Path
    | 0, p => [p]
    | count + 1, p =>
        match p.parent? with
        | none => [p]
        | some above => p :: go count above

/-- The last step, if it is a name. -/
def name? (p : Path) : Option String :=
  match p.parts.getLast? with
  | some (.name text) => some (String.ofList text)
  | _ => none

/-- The last step if it is a name, and the empty text otherwise. -/
def name (p : Path) : String := p.name?.getD ""

/-- The text behind the last dot of a name that does not start with its only dot. -/
def extension? (p : Path) : Option String :=
  match Text.splitOn '.' p.name.toList with
  | [] | [_] | [[], _] => none
  | pieces => (pieces.getLast?).map String.ofList

/-- Take one step from a stack of names; the stack holds the latest name first. -/
def take (stack : List (List Char)) : Part → List (List Char)
  | .name text => text :: stack
  | .up => stack.tail
  | .root | .here => stack

/-- The names that are left when every `..` has taken back the name before it. A `..` with no name
before it is dropped. -/
def names (parts : List Part) : List (List Char) :=
  (parts.foldl take []).reverse

/-- The normal form of a path: no `.`, no `..`, no needless slash. -/
def normalize (p : Path) : Path :=
  ofSegments p.isAbsolute (names p.parts)

/-- The normal form of a path seen from a directory. -/
def absolutize (cwd p : Path) : Path :=
  if p.isAbsolute then p.normalize else (cwd.join p).normalize

/-- The parts that are left when the parts of a directory are taken from the front. -/
def dropParts : List Part → List Part → Option (List Part)
  | rest, [] => some rest
  | [], _ :: _ => none
  | p :: ps, q :: qs => if p = q then dropParts ps qs else none

/-- Whether a path is a directory or lies somewhere below it. -/
def isWithin (p dir : Path) : Bool := (dropParts p.parts dir.parts).isSome

/-- Drop pieces until a number of steps is gone, and then those that are no steps. -/
def dropSteps : Nat → List (List Char) → List (List Char)
  | 0, segments => segments.dropWhile (!isStep ·)
  | _ + 1, [] => []
  | count + 1, segment :: rest =>
      if isStep segment then dropSteps count rest else dropSteps (count + 1) rest

/-- A path seen from a directory that it lies in. -/
def relativeTo? (p dir : Path) : Option Path :=
  if p.isWithin dir then
    let steps := dir.parts.countP (· != .root)
    if p.isAbsolute || steps = 0 then
      some (ofSegments false (upToLastStep true (dropSteps steps p.segments)))
    else
      match p.segments with
      | ['.'] :: rest => some (ofSegments false (upToLastStep true (dropSteps (steps - 1) rest)))
      | segments => some (ofSegments false (upToLastStep true (dropSteps steps segments)))
  else none

/-- The path with forward slashes in the place of backslashes. -/
def slashed (p : Path) : String := Text.forwardSlashes p.text

/-- Whether one of the steps has the given name. -/
def hasStep (p : Path) (name : String) : Bool :=
  p.parts.contains (.name name.toList)

/-- Drop every element that follows one that means the same place. -/
def dropRepeats : List Path → List Path
  | [] => []
  | [p] => [p]
  | p :: q :: rest => if same p q then dropRepeats (p :: rest) else p :: dropRepeats (q :: rest)
termination_by paths => paths.length

/-- The paths in ascending order. -/
def sorted (paths : List Path) : List Path := paths.mergeSort le

/-- The paths in ascending order, each place once. Of several spellings the first is kept. -/
def sortedUnique (paths : List Path) : List Path := dropRepeats (sorted paths)

end Path

end ScopedCheck
