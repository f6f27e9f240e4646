import ScopedCheck.Json.Decoder
import ScopedCheck.Config.ModuleResolution
/-! # Compiler options

The options that matter here have fields of their own; all others are carried along as they are.
As a value, the fields come first in a fixed order and the other options after them. -/

namespace ScopedCheck

/-- The options of a compiler. -/
structure Options where
  /-- Import patterns and what they stand for. -/
  paths : Option (Entries (List String)) := none
  baseUrl : Option String := none
  moduleResolution : Option String := none
  moduleKind : Option String := none
  allowJs : Option Bool := none
  checkJs : Option Bool := none
  skipLibCheck : Option Bool := none
  noEmit : Option Bool := none
  typeRoots : Option (List String) := none
  types : Option (List String) := none
  /-- All other options, in order. -/
  other : Entries Json := []
  deriving Repr, Inhabited

namespace Options

/-- One entry for a field that is set. -/
def entry {α : Type} (key : String) (toJson : α → Json) (field : Option α) : Entries Json :=
  match field with
  | some value => [(key, toJson value)]
  | none => []

/-- Import patterns as a value. -/
def pathsJson (paths : Entries (List String)) : Json :=
  .object (paths.map fun entry => (entry.1, Json.strings entry.2))

/-- The fields that are set, in order. -/
def fields (o : Options) : Entries Json :=
  entry "paths" pathsJson o.paths
    ++ entry "baseUrl" .string o.baseUrl
    ++ entry "moduleResolution" .string o.moduleResolution
    ++ entry "module" .string o.moduleKind
    ++ entry "allowJs" .bool o.allowJs
    ++ entry "checkJs" .bool o.checkJs
    ++ entry "skipLibCheck" .bool o.skipLibCheck
    ++ entry "noEmit" .bool o.noEmit
    ++ entry "typeRoots" Json.strings o.typeRoots
    ++ entry "types" Json.strings o.types

/-- All options, in order. -/
def toEntries (o : Options) : Entries Json := Entries.setAll o.fields o.other

/-! ## Reading -/

/-- A switch that is written as a text. Letters outside ASCII fold into none of the words, so that
folding ASCII is enough. -/
def switchOfText? (text : String) : Option Bool :=
  let word := String.ofList ((Text.trim text.toList).map Char.toLower)
  if ["true", "1", "yes", "on"].contains word then some true
  else if ["false", "0", "no", "off"].contains word then some false
  else none

open Json.Decoder in
/-- A switch, written as a boolean or as a text. -/
def switch (room : Nat) : Json.Decoder (Option Bool) := do
  match ← optional (value room) with
  | none => return none
  | some (.bool b) => return some b
  | some (.string text) =>
      match switchOfText? text with
      | some b => return some b
      | none => failLoose (.invalidSwitch text)
  | some _ => failLoose (.noVariant "BoolOrString")

/-- The fields met so far; a field may be met without being set. -/
structure Draft where
  paths : Option (Option (Entries (List String))) := none
  baseUrl : Option (Option String) := none
  moduleResolution : Option (Option String) := none
  moduleKind : Option (Option String) := none
  allowJs : Option (Option Bool) := none
  checkJs : Option (Option Bool) := none
  skipLibCheck : Option (Option Bool) := none
  noEmit : Option (Option Bool) := none
  typeRoots : Option (Option (List String)) := none
  types : Option (Option (List String)) := none
  other : Entries Json := []

/-- The options of a draft. -/
def Draft.options (d : Draft) : Options where
  paths := d.paths.join
  baseUrl := d.baseUrl.join
  moduleResolution := d.moduleResolution.join
  moduleKind := d.moduleKind.join
  allowJs := d.allowJs.join
  checkJs := d.checkJs.join
  skipLibCheck := d.skipLibCheck.join
  noEmit := d.noEmit.join
  typeRoots := d.typeRoots.join
  types := d.types.join
  other := d.other

open Json.Decoder in
/-- A field that may be met only once. -/
def fieldOnce {α : Type} (met : Option α) (key : String) (decoder : Json.Decoder α) :
    Json.Decoder (Option α) := do
  onlyOnce met key
  colon
  return some (← decoder)

open Json.Decoder in
/-- A list of strings. -/
def stringList (room : Nat) : Json.Decoder (List String) := list room fun _ => string

open Json.Decoder in
/-- Read the value behind a key. -/
def Draft.field (room : Nat) (d : Draft) (key : String) : Json.Decoder Draft := do
  match key with
  | "paths" =>
      return { d with paths := ← fieldOnce d.paths key (optional (map room stringList)) }
  | "baseUrl" => return { d with baseUrl := ← fieldOnce d.baseUrl key (optional string) }
  | "moduleResolution" =>
      return { d with moduleResolution := ← fieldOnce d.moduleResolution key (optional string) }
  | "module" => return { d with moduleKind := ← fieldOnce d.moduleKind key (optional string) }
  | "allowJs" => return { d with allowJs := ← fieldOnce d.allowJs key (switch room) }
  | "checkJs" => return { d with checkJs := ← fieldOnce d.checkJs key (switch room) }
  | "skipLibCheck" =>
      return { d with skipLibCheck := ← fieldOnce d.skipLibCheck key (switch room) }
  | "noEmit" => return { d with noEmit := ← fieldOnce d.noEmit key (switch room) }
  | "typeRoots" =>
      return { d with typeRoots := ← fieldOnce d.typeRoots key (optional (stringList room)) }
  | "types" => return { d with types := ← fieldOnce d.types key (optional (stringList room)) }
  | _ => do
      colon
      return { d with other := d.other.set key (← value room) }

/-- The options as a record. -/
def shape : Json.Decoder.Record Draft Options where
  expected := "struct CompilerOptions"
  start := {}
  field := Draft.field
  finish d := return d.options
  items := none

/-- Decode options. -/
def decode (room : Nat) : Json.Decoder Options := Json.Decoder.record room shape

/-- The options in a text. -/
def ofText (text : String) : Except JsonError Options := Json.Decoder.run decode text

end Options

end ScopedCheck
