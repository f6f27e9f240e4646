/-! # Globs

A glob is a list of tokens. Reading a glob goes through its characters once and keeps a stack of
the groups that are still open.

`**` stands for any number of directories only as a whole segment, where a segment is bounded by a
slash, by an end of the glob or, inside a group, by the group's own punctuation. Everywhere else it
is two single stars. -/

namespace ScopedCheck

/-- A piece of a glob. -/
inductive GlobToken
  /-- The character itself. -/
  | literal (c : Char)
  /-- One byte that is no slash. -/
  | anyByte
  /-- Any number of bytes that are no slashes. -/
  | star
  /-- Any number of leading directories. -/
  | leadingDirs
  /-- A slash and everything behind it. -/
  | trailingAll
  /-- A slash, with any number of directories behind it. -/
  | innerDirs
  /-- One byte inside, or outside, of the given character ranges. -/
  | byteClass (negated : Bool) (ranges : List (Char × Char))
  /-- One of several branches. -/
  | oneOf (branches : List (List GlobToken))
  deriving Repr, Inhabited

/-- A parsed glob together with its text. -/
structure Glob where
  text : String
  tokens : List GlobToken
  deriving Repr, Inhabited

/-- What can be wrong with the text of a glob. -/
inductive GlobFault
  | unclosedClass
  | invalidRange (first last : Char)
  | unopenedGroup
  | unclosedGroup
  | danglingEscape
  deriving DecidableEq, Repr

namespace GlobFault

/-- The fault in words. -/
def message : GlobFault → String
  | unclosedClass => "unclosed character class; missing ']'"
  | invalidRange first last =>
      "invalid range; '" ++ first.toString ++ "' > '" ++ last.toString ++ "'"
  | unopenedGroup =>
      "unopened alternate group; missing '\x7b' (maybe escape '\x7d' with '[\x7d]'?)"
  | unclosedGroup =>
      "unclosed alternate group; missing '\x7d' (maybe escape '\x7b' with '[\x7b]'?)"
  | danglingEscape => "dangling '\\'"

end GlobFault

/-- Whether a text needs expansion at all. -/
def isGlobText (text : String) : Bool :=
  text.toList.any fun c => c == '*' || c == '?' || c == '[' || c == '{'

namespace Glob

/-- A group that is still open: the tokens before it, the latest first, and its finished branches,
the latest first. -/
structure OpenGroup where
  before : List GlobToken
  branches : List (List GlobToken)

/-- The tokens of the current branch, the latest first, and the groups around it, the innermost
first. -/
structure Reading where
  current : List GlobToken := []
  groups : List OpenGroup := []

namespace Reading

/-- Add a token to the current branch. -/
def push (r : Reading) (token : GlobToken) : Reading :=
  { r with current := token :: r.current }

/-- Open a group. -/
def openGroup (r : Reading) : Reading :=
  ⟨[], ⟨r.current, []⟩ :: r.groups⟩

/-- Start the next branch of the innermost group, if there is one; a comma elsewhere is itself. -/
def comma (r : Reading) : Reading :=
  match r.groups with
  | [] => r.push (.literal ',')
  | group :: outer => ⟨[], { group with branches := r.current.reverse :: group.branches } :: outer⟩

/-- Close the innermost group. -/
def closeGroup (r : Reading) : Except GlobFault Reading :=
  match r.groups with
  | [] => .error .unopenedGroup
  | group :: outer =>
      let branches := (r.current.reverse :: group.branches).reverse
      .ok ⟨.oneOf branches :: group.before, outer⟩

/-- Two stars that are no whole segment. -/
def twoStars (r : Reading) : Reading := (r.push .star).push .star

/-- Put a token for directories in the place of the latest token, unless that one already stands
for directories at an end of the glob. -/
def deepen (r : Reading) (token : GlobToken) : Reading :=
  match r.current with
  | .leadingDirs :: _ | .trailingAll :: _ => r
  | _ :: earlier => { r with current := token :: earlier }
  | [] => r

/-- The tokens, once everything has been read. -/
def finish (r : Reading) : Except GlobFault (List GlobToken) :=
  if r.groups.isEmpty then .ok r.current.reverse else .error .unclosedGroup

end Reading

/-- A character class that is being read. -/
structure ClassReading where
  negated : Bool
  isFirst : Bool := true
  inRange : Bool := false
  /-- The ranges so far, the latest first. -/
  ranges : List (Char × Char) := []

namespace ClassReading

/-- Let the latest range end at a character. -/
def extend (k : ClassReading) (c : Char) : Except GlobFault ClassReading :=
  match k.ranges with
  | [] => .ok k
  | (first, _) :: earlier =>
      if c < first then .error (.invalidRange first c)
      else .ok { k with isFirst := false, inRange := false, ranges := (first, c) :: earlier }

/-- Add a character. -/
def add (k : ClassReading) (c : Char) : ClassReading :=
  { k with isFirst := false, inRange := false, ranges := (c, c) :: k.ranges }

/-- Take the next character, which does not close the class. -/
def take (k : ClassReading) (c : Char) : Except GlobFault ClassReading :=
  if c = '-' && !k.isFirst && !k.inRange then .ok { k with inRange := true }
  else if k.inRange then k.extend c
  else .ok (k.add c)

/-- The class as a token. A dash at its end stands for itself. -/
def token (k : ClassReading) : GlobToken :=
  .byteClass k.negated ((if k.inRange then k.add '-' else k).ranges.reverse)

end ClassReading

/-- Whether a character bounds a segment for the two stars behind it. -/
def boundsSegment (r : Reading) (before : Option Char) : Bool :=
  match before with
  | some '/' => true
  | some c => !r.groups.isEmpty && (c == ',' || c == '{')
  | none => false

mutual

/-- Read the rest of a glob, given the character before it. -/
def read (r : Reading) (before : Option Char) : List Char → Except GlobFault (List GlobToken)
  | [] => r.finish
  | '?' :: rest => read (r.push .anyByte) (some '?') rest
  | '*' :: '*' :: rest =>
      if r.current.isEmpty then
        match rest with
        | [] => read (r.push .leadingDirs) (some '*') []
        | '/' :: rest => read (r.push .leadingDirs) (some '/') rest
        | c :: rest => read r.twoStars (some '*') (c :: rest)
      else if boundsSegment r before then
        match rest with
        | [] => read (r.deepen .trailingAll) (some '*') []
        | '/' :: rest => read (r.deepen .innerDirs) (some '/') rest
        | c :: rest =>
            if !r.groups.isEmpty && (c == ',' || c == '}') then
              read (r.deepen .trailingAll) (some '*') (c :: rest)
            else read r.twoStars (some '*') (c :: rest)
      else read r.twoStars (some '*') rest
  | '*' :: rest => read (r.push .star) (some '*') rest
  | '[' :: '!' :: rest => readClass r { negated := true } rest
  | '[' :: '^' :: rest => readClass r { negated := true } rest
  | '[' :: rest => readClass r { negated := false } rest
  | '{' :: rest => read r.openGroup (some '{') rest
  | '}' :: rest =>
      match r.closeGroup with
      | .ok r => read r (some '}') rest
      | .error fault => .error fault
  | ',' :: rest => read r.comma (some ',') rest
  | ['\\'] => .error .danglingEscape
  | '\\' :: c :: rest => read (r.push (.literal c)) (some c) rest
  | c :: rest => read (r.push (.literal c)) (some c) rest
termination_by chars => chars.length

/-- Read the rest of a glob inside a character class. -/
def readClass (r : Reading) (k : ClassReading) : List Char → Except GlobFault (List GlobToken)
  | [] => .error .unclosedClass
  | c :: rest =>
      if c = ']' && !k.isFirst then read (r.push k.token) (some ']') rest
      else
        match k.take c with
        | .ok k => readClass r k rest
        | .error fault => .error fault
termination_by chars => chars.length

end

/-- Read a glob. -/
def ofText (text : String) : Except GlobFault Glob :=
  (read {} none text.toList).map fun tokens => ⟨text, tokens⟩

/-- A fault together with the glob it was found in. -/
def faultMessage (text : String) (fault : GlobFault) : String :=
  "error parsing glob '" ++ text ++ "': " ++ fault.message

end Glob

end ScopedCheck
