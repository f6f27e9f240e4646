import ScopedCheck.Config.Options
import ScopedCheck.Json.Commented
/-! # Config documents

A config document as it is written: JSON with comments and trailing commas. An empty document is
one without any field. -/

namespace ScopedCheck

/-- The documents that a document builds on. -/
inductive Extends
  | one (specifier : String)
  | many (specifiers : List String)
  deriving DecidableEq, Repr

namespace Extends

/-- The specifiers, in order. -/
def specifiers : Extends → List String
  | one specifier => [specifier]
  | many specifiers => specifiers

end Extends

/-- A config document. -/
structure Document where
  extends? : Option Extends := none
  options : Option Options := none
  includes : Option (List String) := none
  excludes : Option (List String) := none
  files : Option (List String) := none
  /-- The paths of referenced projects. -/
  references : Option (List String) := none
  deriving Repr, Inhabited

namespace Document

open Json.Decoder

/-- The strings of an array that holds nothing else. -/
def onlyStrings? (items : List Json) : Option (List String) := items.mapM Json.string?

/-- One specifier or a list of them. -/
def extendsDecoder (room : Nat) : Json.Decoder (Option Extends) := do
  match ← optional (value room) with
  | none => return none
  | some (.string specifier) => return some (.one specifier)
  | some (.array items) =>
      match onlyStrings? items with
      | some specifiers => return some (.many specifiers)
      | none => failLoose (.noVariant "Extends")
  | some _ => failLoose (.noVariant "Extends")

/-- A referenced project: an object with a path, or an array that holds it. -/
def referenceShape : Record (Option String) String where
  expected := "struct ProjectReference"
  start := none
  field _ path key :=
    if key = "path" then Options.fieldOnce path key string
    else do colon; skip; return path
  finish path :=
    match path with
    | some path => return path
    | none => failLoose (.missingField "path")
  items := some fun _ => do
    match ← nextItem true string with
    | some path => return path
    | none => failLoose (.tooFewItems 0 "struct ProjectReference with 1 element")

/-- The fields met so far; a field may be met without being set. -/
structure Draft where
  extends? : Option (Option Extends) := none
  options : Option (Option Options) := none
  includes : Option (Option (List String)) := none
  excludes : Option (Option (List String)) := none
  files : Option (Option (List String)) := none
  references : Option (Option (List String)) := none

/-- The document of a draft. -/
def Draft.document (d : Draft) : Document where
  extends? := d.extends?.join
  options := d.options.join
  includes := d.includes.join
  excludes := d.excludes.join
  files := d.files.join
  references := d.references.join

/-- A list of strings, or null. -/
def patterns (room : Nat) : Json.Decoder (Option (List String)) :=
  optional (Options.stringList room)

/-- A list of referenced projects, or null. -/
def referencesDecoder (room : Nat) : Json.Decoder (Option (List String)) :=
  optional (list room fun room => record room referenceShape)

/-- Read the value behind a key; a key without a meaning is passed over. -/
def Draft.field (room : Nat) (d : Draft) (key : String) : Json.Decoder Draft := do
  match key with
  | "extends" =>
      return { d with extends? := ← Options.fieldOnce d.extends? key (extendsDecoder room) }
  | "compilerOptions" =>
      return { d with
        options := ← Options.fieldOnce d.options key (optional (Options.decode room)) }
  | "include" => return { d with includes := ← Options.fieldOnce d.includes key (patterns room) }
  | "exclude" => return { d with excludes := ← Options.fieldOnce d.excludes key (patterns room) }
  | "files" => return { d with files := ← Options.fieldOnce d.files key (patterns room) }
  | "references" =>
      return { d with
        references := ← Options.fieldOnce d.references key (referencesDecoder room) }
  | _ => do colon; skip; return d

/-- The fields as items of an array, in order; the last ones may be missing. -/
def items (room : Nat) : Json.Decoder Document := do
  let extends? ← nextItem true (extendsDecoder room)
  let options ← nextItem false (optional (Options.decode room))
  let includes ← nextItem false (patterns room)
  let excludes ← nextItem false (patterns room)
  let files ← nextItem false (patterns room)
  let references ← nextItem false (referencesDecoder room)
  return Draft.document ⟨extends?, options, includes, excludes, files, references⟩

/-- A document as a record. -/
def shape : Record Draft Document where
  expected := "struct TsConfig"
  start := {}
  field := Draft.field
  finish d := return d.document
  items := some items

/-- Decode a document. -/
def decode (room : Nat) : Json.Decoder Document := record room shape

/-- Read a document. -/
def parse (text : String) : Except JsonError Document :=
  let plain := Json.Commented.document text
  if plain.all Text.isBlank then .ok {} else Json.Decoder.run decode (String.ofList plain)

end Document

end ScopedCheck
