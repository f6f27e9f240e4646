import ScopedCheck.Text.Blank
/-! # The log

What a run tells about its decisions. An event has a level, a message and named fields with their
texts. A run that is not verbose keeps its decisions to itself. -/

namespace ScopedCheck

/-- The levels of log events that are shown. -/
inductive LogLevel
  | info
  | warn
  deriving DecidableEq, Repr

/-- Something that a run has to tell. -/
structure LogEvent where
  level : LogLevel
  message : String
  fields : List (String × String)
  deriving DecidableEq, Repr

namespace LogEvent

/-- An event of a verbose run. -/
def ifVerbose (verbose : Bool) (level : LogLevel) (message : String)
    (fields : List (String × String)) : List LogEvent :=
  if verbose then [⟨level, message, fields⟩] else []

end LogEvent

/-- A value, and what was told on the way to it. -/
structure Told (α : Type) where
  value : α
  log : List LogEvent := []
  deriving Repr

namespace Told

/-- Go on with a value; what is told then comes after what was told before. -/
def andThen {α β : Type} (told : Told α) (next : α → Told β) : Told β :=
  ⟨(next told.value).value, told.log ++ (next told.value).log⟩

instance : Monad Told where
  pure value := ⟨value, []⟩
  bind := andThen

/-- Tell events. -/
def tell (events : List LogEvent) : Told Unit := ⟨(), events⟩

end Told

/-- How the log is laid out. -/
inductive LogFormat
  | text
  | tree
  | json
  deriving DecidableEq, Repr

namespace LogFormat

/-- The layout that a text names, and flat text for every other text. Letters outside ASCII fold
into none of the names, so that folding ASCII is enough. -/
def ofText (value : String) : LogFormat :=
  match String.ofList ((Text.trim value.toList).map Char.toLower) with
  | "tree" => tree
  | "json" => json
  | _ => text

end LogFormat

end ScopedCheck
