/-! # Starts and ends of texts -/

namespace ScopedCheck.Text

/-- Whether a text starts in a given way. -/
def startsWith (s start : String) : Bool := start.toList.isPrefixOf s.toList

/-- Whether a text ends in a given way. -/
def endsWith (s ending : String) : Bool := ending.toList.isSuffixOf s.toList

/-- The text before an ending, if it has that ending. -/
def withoutEnd? (s ending : String) : Option String :=
  if endsWith s ending then some (String.ofList (s.toList.take (s.toList.length - ending.toList.length)))
  else none

/-- The part of a text between a start and an end that do not overlap. -/
def between? (s start ending : List Char) : Option (List Char) :=
  if start.isPrefixOf s && ending.isSuffixOf s && start.length + ending.length ≤ s.length then
    some ((s.drop start.length).take (s.length - start.length - ending.length))
  else none

/-- A text with another one in the place of every occurrence of a character. -/
def substitute (c : Char) (new s : String) : String :=
  String.ofList (s.toList.flatMap fun d => if d = c then new.toList else [d])

/-- A text with another one in the place of every occurrence of a part that is not empty, from left
to right. -/
def replaceAll (old new : List Char) : List Char → List Char
  | [] => []
  | c :: cs =>
      if old.isPrefixOf (c :: cs) && !old.isEmpty then
        new ++ replaceAll old new ((c :: cs).drop (max 1 old.length))
      else c :: replaceAll old new cs
termination_by cs => cs.length
decreasing_by
  all_goals simp only [List.length_drop, List.length_cons]; omega

end ScopedCheck.Text
