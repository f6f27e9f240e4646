import ScopedCheck.Text.Pattern
/-! # Searches

A search for a pattern takes the leftmost place with a match and the preferred match at that place,
and goes on where that match stops.

Before a search tries any match, it finds in one pass over the text from its end to its start, for
each part of the pattern, the places from which there is a match at all (`startsIn`). No other place
is tried, which changes nothing of what is found (`findAll_eq`). -/

namespace ScopedCheck.Text

/-- A place and all later places of its text, in order. -/
def Place.onward (here : Place) : List Place :=
  (Pattern.placesAlong (fun _ => true) [] here.before here.offset here.rest).reverse

namespace Pattern

/-- Of places that follow one another up to the end of a text, given which ones are wanted, those
from which a pattern leads to a wanted one. -/
def leads : Pattern → List Place → List Bool → List Bool
  | char accepts, places, wanted =>
      List.zipWith (fun here isNextWanted => here.nextIs accepts && isNextWanted) places
        (wanted.drop 1 ++ [false])
  | many _ accepts, places, wanted =>
      (places.zip wanted).foldr
        (fun (here, isWanted) later =>
          (isWanted || (here.nextIs accepts && later.headD false)) :: later) []
  | place holds, places, wanted =>
      List.zipWith (fun here isWanted => holds here && isWanted) places wanted
  | nothing, _, wanted => wanted
  | seq first second, places, wanted => first.leads places (second.leads places wanted)
  | either left right, places, wanted =>
      List.zipWith (· || ·) (left.leads places wanted) (right.leads places wanted)
  | capture _ inner, places, wanted => inner.leads places wanted

/-- The places of a text at which there is a match. -/
def startsIn (pattern : Pattern) (cs : List Char) : List Place :=
  let places := (Place.start cs).onward
  let starts := pattern.leads places (places.map fun _ => true)
  ((places.zip starts).filter (·.2)).map (·.1)

/-- The matches at places in order, each starting where the one before it stopped or later. A match
of the empty text is passed over. -/
def findAmong (pattern : Pattern) (stop : Nat) : List Place → List Found
  | [] => []
  | here :: later =>
      if here.offset < stop then pattern.findAmong stop later
      else
        match pattern.matchAt? here with
        | .some found =>
            if here.offset < found.stop.offset then
              found :: pattern.findAmong found.stop.offset later
            else pattern.findAmong stop later
        | .none => pattern.findAmong stop later

/-- All matches in a text, from left to right, none overlapping another. -/
def findAll (pattern : Pattern) (cs : List Char) : List Found :=
  pattern.findAmong 0 (pattern.startsIn cs)

/-- Whether the pattern matches anywhere. -/
def occursIn (pattern : Pattern) (cs : List Char) : Bool := !(pattern.startsIn cs).isEmpty

end Pattern

end ScopedCheck.Text
