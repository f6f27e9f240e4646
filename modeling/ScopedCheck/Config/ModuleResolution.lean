import ScopedCheck.Text.Blank
/-! # Kinds of module resolution

A kind is written in any case and with dashes, underscores and blanks anywhere. -/

namespace ScopedCheck

/-- The ways in which a compiler looks for imported modules. -/
inductive ModuleResolution
  | classic
  | node
  | node16
  | nodeNext
  | bundler
  deriving DecidableEq, Repr

/-- The spelling of an option that counts: ASCII letters in lower case, no dashes, underscores and
blanks. -/
def optionKey (value : String) : String :=
  String.ofList <| (value.toList.filter fun c => c != '-' && c != '_' && !Text.isBlank c).map
    Char.toLower

namespace ModuleResolution

/-- The kind that a text names. -/
def ofText? (value : String) : Option ModuleResolution :=
  match optionKey value with
  | "classic" => some classic
  | "node" | "node10" => some node
  | "node16" => some node16
  | "nodenext" => some nodeNext
  | "bundler" => some bundler
  | _ => none

/-- The kind that a module option stands for when no kind is named. -/
def ofModuleOption (value : String) : ModuleResolution :=
  match optionKey value with
  | "node16" => node16
  | "nodenext" => nodeNext
  | "preserve" => bundler
  | _ => node

end ModuleResolution

end ScopedCheck
