import ScopedCheck.Json.Binary64
/-! # JSON values

Objects keep the order of their keys. Setting a key that is there keeps its place; a new key goes
to the end. Removing a key moves the last entry into its place. -/

namespace ScopedCheck

/-- A JSON value. Whole numbers stay exact as long as they fit 64 bits. -/
inductive Json
  | null
  | bool (value : Bool)
  | int (value : Int)
  | float (value : Binary64)
  | string (value : String)
  | array (items : List Json)
  | object (entries : List (String × Json))
  deriving Repr, Inhabited

/-- Entries with keys, in order. -/
abbrev Entries (α : Type) := List (String × α)

namespace Entries

variable {α : Type}

/-- The value of a key. -/
def get? (entries : Entries α) (key : String) : Option α :=
  (entries.find? (·.1 == key)).map (·.2)

/-- Whether a key is there. -/
def has (entries : Entries α) (key : String) : Bool := entries.any (·.1 == key)

/-- Set the value of a key: in its place if it is there, and at the end otherwise. -/
def set (entries : Entries α) (key : String) (value : α) : Entries α :=
  match entries with
  | [] => [(key, value)]
  | entry :: rest => if entry.1 = key then (key, value) :: rest else entry :: set rest key value

/-- Set the values of several keys, one after the other. -/
def setAll (entries more : Entries α) : Entries α :=
  more.foldl (fun entries entry => entries.set entry.1 entry.2) entries

/-- The entries in front of a key, and those behind it, if it is there. -/
def around? (entries : Entries α) (key : String) : Option (Entries α × Entries α) :=
  match entries with
  | [] => none
  | entry :: rest =>
      if entry.1 = key then some ([], rest)
      else (around? rest key).map fun found => (entry :: found.1, found.2)

/-- Remove a key; the last entry takes its place. -/
def remove (entries : Entries α) (key : String) : Entries α :=
  match entries.around? key with
  | none => entries
  | some (front, back) =>
      match back.getLast? with
      | none => front
      | some last => front ++ last :: back.dropLast

/-- Change the value of a key, if it is there. -/
def change (entries : Entries α) (key : String) (f : α → α) : Entries α :=
  entries.map fun entry => if entry.1 = key then (entry.1, f entry.2) else entry

theorem get?_set_self (entries : Entries α) (key : String) (value : α) :
    (entries.set key value).get? key = some value := by
  induction entries with
  | nil => simp [set, get?]
  | cons entry rest ih =>
      by_cases h : entry.1 = key
      · simp [set, get?, h]
      · simpa [set, get?, h] using ih

theorem get?_set_of_ne (entries : Entries α) {key other : String} (value : α) (h : other ≠ key) :
    (entries.set key value).get? other = entries.get? other := by
  induction entries with
  | nil => simp [set, get?, Ne.symm h]
  | cons entry rest ih =>
      by_cases hk : entry.1 = key
      · simp [set, get?, hk, Ne.symm h]
      · by_cases ho : entry.1 = other
        · subst ho; simp [set, get?, hk]
        · simpa [set, get?, hk, ho] using ih

end Entries

namespace Json

/-- The text of a string value. -/
def string? : Json → Option String
  | string value => some value
  | _ => none

/-- The items of an array value. -/
def array? : Json → Option (List Json)
  | array items => some items
  | _ => none

/-- The entries of an object value. -/
def object? : Json → Option (Entries Json)
  | object entries => some entries
  | _ => none

/-- The value of a key of an object value. -/
def get? (value : Json) (key : String) : Option Json :=
  value.object?.bind fun entries => Entries.get? entries key

/-- An array of strings. -/
def strings (texts : List String) : Json := array (texts.map string)

/-- A value, or null. -/
def ofOption : Option Json → Json
  | some value => value
  | none => null

end Json

end ScopedCheck
