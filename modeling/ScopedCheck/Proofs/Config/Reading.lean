import ScopedCheck.Proofs.Config.Load
import ScopedCheck.Proofs.Json.Reading
/-! # Reading options and documents back

Options and documents that were written as entries are read as these entries say. -/

namespace ScopedCheck

open Json Json.Decoder Lexeme

namespace Json

/-- The strings of an array. -/
def stringsOf (value : Json) : List String := (value.array?.getD []).filterMap string?

theorem stringsOf_strings (texts : List String) : stringsOf (strings texts) = texts := by
  simp [stringsOf, strings, array?, List.filterMap_map, Function.comp_def, string?]

/-- The value of a switch. -/
def bool? : Json → Option Bool
  | bool value => some value
  | _ => none

theorem fits_strings {room : Nat} (hroom : 0 < room) (texts : List String) :
    (strings texts).Fits room := by
  refine ⟨hroom, fitItems_iff.mpr fun item hitem => ?_⟩
  obtain ⟨text, -, rfl⟩ := List.mem_map.mp hitem
  trivial

theorem itemKinds_strings (texts : List String) :
    itemKinds (texts.map string) = texts.map fun text => [.string (.ok text)] := by
  induction texts with
  | nil => rfl
  | cons text texts ih =>
      rw [List.map_cons, itemKinds, ih]
      rfl

end Json

namespace Options

/-! ## Reading typed values -/

theorem goes_stringList {room : Nat} (hroom : 0 < room) (texts : List String) (behind : List Kind) :
    Goes (stringList room) ((Json.strings texts).kinds ++ behind) texts behind := by
  rw [Json.strings, kinds_array_append]
  refine goes_list hroom ?_ behind
  rw [itemKinds_strings]
  induction texts with
  | nil => exact .nil
  | cons text texts ih =>
      exact .cons ⟨⟨_, _, rfl, by simp⟩, fun behind => goes_string text behind⟩ ih

theorem goes_fieldOnce {α : Type} (key : String) {decoder : Json.Decoder α} {before behind : List Kind}
    {value : α} (h : Goes decoder before value behind) :
    Goes (fieldOnce none key decoder) (.mark ':' :: before) (some value) behind := by
  have honce : Goes (onlyOnce (none : Option α) key) (.mark ':' :: before) () (.mark ':' :: before) :=
    goes_pure () _
  exact honce.bind ((goes_colon _).bind (h.bind (goes_pure _ _)))

theorem goes_optional_string (s : String) (behind : List Kind) :
    Goes (optional string) ((Json.string s).kinds ++ behind) (some s) behind :=
  goes_optional (by simp) (goes_string s behind)

theorem goes_optional_stringList {room : Nat} (hroom : 0 < room) (texts : List String)
    (behind : List Kind) :
    Goes (optional (stringList room)) ((Json.strings texts).kinds ++ behind) (some texts) behind :=
  goes_optional (by simp) (goes_stringList hroom texts behind)

theorem goes_switch (room : Nat) (b : Bool) (behind : List Kind) :
    Goes (switch room) ((Json.bool b).kinds ++ behind) (some b) behind := by
  have hvalue := goes_value room (.bool b) trivial behind
  refine (goes_optional ?_ hvalue).bind (goes_pure _ _)
  cases b <;> simp

/-- The import patterns of a value. -/
def pathsOf (value : Json) : Entries (List String) :=
  (value.object?.getD []).map fun entry => (entry.1, stringsOf entry.2)

theorem pathsOf_pathsJson (paths : Entries (List String)) : pathsOf (pathsJson paths) = paths := by
  simp [pathsOf, pathsJson, object?, List.map_map, Function.comp_def, stringsOf_strings]

theorem steps_paths {room : Nat} (hroom : 0 < room) {paths : Entries (List String)}
    (h : paths.keys.Nodup) :
    Steps (fun (state : Entries (List String)) key => do
      colon
      return state.set key (← stringList room)) []
        (entryKinds (paths.map fun entry => (entry.1, Json.strings entry.2))) paths := by
  have hkeys : ∀ done : Entries Json,
      Entries.keys (done.map fun entry => (entry.1, stringsOf entry.2)) = done.keys := by
    intro done
    simp [Entries.keys, Function.comp_def]
  have hsteps := Steps.of_entries
    (fun (state : Entries (List String)) key => do
      colon
      return state.set key (← stringList room))
    (fun done => done.map fun entry => (entry.1, stringsOf entry.2))
    (fun _ value => ∃ texts, value = Json.strings texts)
    (fun done key value hnew hvalue behind => ?_)
    (show ∀ entry ∈ paths.map fun entry => (entry.1, Json.strings entry.2), _ from
      fun entry hentry => ?_) ?_
  · simpa [Function.comp_def, stringsOf_strings] using hsteps
  · obtain ⟨texts, rfl⟩ := hvalue
    rw [← hkeys] at hnew
    have hset := Entries.set_of_notMem hnew texts
    rw [List.map_append, List.map_singleton, stringsOf_strings, ← hset]
    exact (goes_colon _).bind ((goes_stringList hroom texts behind).bind (goes_pure _ _))
  · obtain ⟨own, -, rfl⟩ := List.mem_map.mp hentry
    exact ⟨own.2, rfl⟩
  · simpa [Entries.keys, Function.comp_def] using h

theorem goes_optional_paths {room : Nat} (hroom : 1 < room) {paths : Entries (List String)}
    (h : paths.keys.Nodup) (behind : List Kind) :
    Goes (optional (map room stringList)) ((pathsJson paths).kinds ++ behind) (some paths) behind := by
  refine goes_optional (by simp) ?_
  have hsteps := steps_paths (show 0 < room - 1 by omega) h
  have hmap := goes_map (show 0 < room by omega) hsteps behind
  simpa [pathsJson, Json.kinds] using hmap

/-! ## Reading entries -/

/-- Whether the value of an option has the shape of its field, or fits if it has no field. -/
def EntryFits (room : Nat) (key : String) (value : Json) : Prop :=
  match key with
  | "paths" => ∃ paths, value = pathsJson paths ∧ (Entries.keys paths).Nodup
  | "baseUrl" | "moduleResolution" | "module" => ∃ text, value = .string text
  | "allowJs" | "checkJs" | "skipLibCheck" | "noEmit" => ∃ b, value = .bool b
  | "typeRoots" | "types" => ∃ texts, value = Json.strings texts
  | _ => value.Fits room

/-- The draft that entries are read as. -/
def draftOf (entries : Entries Json) : Draft where
  paths := (entries.get? "paths").map fun value => some (pathsOf value)
  baseUrl := (entries.get? "baseUrl").map string?
  moduleResolution := (entries.get? "moduleResolution").map string?
  moduleKind := (entries.get? "module").map string?
  allowJs := (entries.get? "allowJs").map bool?
  checkJs := (entries.get? "checkJs").map bool?
  skipLibCheck := (entries.get? "skipLibCheck").map bool?
  noEmit := (entries.get? "noEmit").map bool?
  typeRoots := (entries.get? "typeRoots").map fun value => some (stringsOf value)
  types := (entries.get? "types").map fun value => some (stringsOf value)
  other := entries.filter fun entry => !fieldKeys.contains entry.1

/-- The options that entries are read as. -/
def ofEntries (entries : Entries Json) : Options := (draftOf entries).options

theorem get?_concat_self {entries : Entries Json} {key : String} (h : key ∉ entries.keys)
    (value : Json) : Entries.get? (entries ++ [(key, value)]) key = some value := by
  rw [Entries.get?_append, Entries.get?_eq_none_iff.mpr h, Option.none_or, Entries.get?_cons,
    if_pos rfl]

theorem get?_concat_of_ne (entries : Entries Json) {key other : String} (h : key ≠ other)
    (value : Json) : Entries.get? (entries ++ [(key, value)]) other = entries.get? other := by
  rw [Entries.get?_append, Entries.get?_cons, if_neg h]
  exact Option.or_none

theorem goes_set {α σ : Type} {met : Option α} (hmet : met = none) {key : String}
    {decoder : Json.Decoder α} {before behind : List Kind} {found : α}
    (h : Goes decoder before found behind) {set : Option α → σ} {next : σ}
    (hnext : set (some found) = next) :
    Goes (do return set (← fieldOnce met key decoder)) (.mark ':' :: before) next behind := by
  rw [hmet, ← hnext]
  exact (goes_fieldOnce key h).bind (goes_pure _ _)

/-- One more entry is read into the draft. -/
theorem goes_field {room : Nat} (hroom : 1 < room) {done : Entries Json} {key : String} {value : Json}
    (hkey : key ∉ done.keys) (h : EntryFits room key value) (behind : List Kind) :
    Goes (Draft.field room (draftOf done) key) (.mark ':' :: (value.kinds ++ behind))
      (draftOf (done ++ [(key, value)])) behind := by
  have hmissing := Entries.get?_eq_none_iff.mpr hkey
  have hself := fun value => get?_concat_self hkey value
  unfold EntryFits at h
  unfold Draft.field
  split
  case h_1 =>
    obtain ⟨paths, rfl, hnodup⟩ := h
    exact goes_set (by simp [draftOf, hmissing]) (goes_optional_paths hroom hnodup behind)
      (by simp [draftOf, hself, get?_concat_of_ne, pathsOf_pathsJson, fieldKeys])
  case h_2 | h_3 | h_4 =>
    obtain ⟨text, rfl⟩ := h
    exact goes_set (by simp [draftOf, hmissing]) (goes_optional_string text behind)
      (by simp [draftOf, hself, get?_concat_of_ne, string?, fieldKeys])
  case h_5 | h_6 | h_7 | h_8 =>
    obtain ⟨b, rfl⟩ := h
    exact goes_set (by simp [draftOf, hmissing]) (goes_switch room b behind)
      (by simp [draftOf, hself, get?_concat_of_ne, bool?, fieldKeys])
  case h_9 | h_10 =>
    obtain ⟨texts, rfl⟩ := h
    exact goes_set (by simp [draftOf, hmissing]) (goes_optional_stringList (by omega) texts behind)
      (by simp [draftOf, hself, get?_concat_of_ne, stringsOf_strings, fieldKeys])
  case h_11 =>
    have hfits : value.Fits room := by simpa [*] using h
    have hother : key ∉ fieldKeys := by simp_all [fieldKeys]
    have hnew : key ∉ (draftOf done).other.keys := by
      intro hmem
      obtain ⟨entry, hentry, rfl⟩ := List.mem_map.mp hmem
      exact hkey (Entries.mem_keys_of_mem (List.mem_of_mem_filter hentry))
    have hnext : { draftOf done with other := (draftOf done).other.set key value } =
        draftOf (done ++ [(key, value)]) := by
      rw [Entries.set_of_notMem hnew]
      have hfield : ∀ field ∈ fieldKeys, Entries.get? (done ++ [(key, value)]) field =
          done.get? field := by
        intro field hfield
        refine get?_concat_of_ne done ?_ value
        rintro rfl
        exact hother hfield
      simp only [fieldKeys, List.forall_mem_cons] at hfield
      simp [draftOf, hfield, hother]
    rw [← hnext]
    exact (goes_colon _).bind ((goes_value room value hfits behind).bind (goes_pure _ _))

/-- Entries are read as the options that they say. -/
theorem goes_decode {room : Nat} (hroom : 2 < room) {entries : Entries Json}
    (hfits : ∀ entry ∈ entries, EntryFits (room - 1) entry.1 entry.2) (hnodup : entries.keys.Nodup)
    (behind : List Kind) :
    Goes (decode room) ((Json.object entries).kinds ++ behind) (ofEntries entries) behind := by
  have hsteps := Steps.of_entries (Draft.field (room - 1)) draftOf _
    (fun done key value hnew hfits => goes_field (by omega) hnew hfits) hfits hnodup
  have hrecord := goes_record (r := shape) (by omega) hsteps (fun kinds => goes_pure _ kinds) behind
  rwa [kinds_object_append]

end Options

namespace Document

/-! ## Reading documents -/

/-- The entries of a document that names nothing it builds on. -/
def EntryFits (room : Nat) (key : String) (value : Json) : Prop :=
  match key with
  | "compilerOptions" => ∃ entries : Entries Json, value = .object entries ∧ entries.keys.Nodup ∧
      ∀ entry ∈ entries, Options.EntryFits (room - 1) entry.1 entry.2
  | "include" | "exclude" | "files" => ∃ texts, value = Json.strings texts
  | "references" => ∃ paths : List String,
      value = .array (paths.map fun path => .object [("path", .string path)])
  | _ => False

/-- The paths of referenced projects in a value. -/
def referencesOf (value : Json) : List String :=
  (value.array?.getD []).filterMap fun item => (item.get? "path").bind string?

theorem referencesOf_paths (paths : List String) :
    referencesOf (.array (paths.map fun path => .object [("path", .string path)])) = paths := by
  have hitem : ∀ path : String, ((Json.object [("path", .string path)]).get? "path").bind string? =
      some path := fun _ => rfl
  simp [referencesOf, array?, List.filterMap_map, hitem]

/-- The draft that entries are read as. -/
def draftOf (entries : Entries Json) : Draft where
  options := (entries.get? "compilerOptions").map fun value => value.object?.map Options.ofEntries
  includes := (entries.get? "include").map fun value => some (stringsOf value)
  excludes := (entries.get? "exclude").map fun value => some (stringsOf value)
  files := (entries.get? "files").map fun value => some (stringsOf value)
  references := (entries.get? "references").map fun value => some (referencesOf value)

/-- The document that entries are read as. -/
def ofEntries (entries : Entries Json) : Document := (draftOf entries).document

theorem goes_reference {room : Nat} (hroom : 0 < room) (path : String) (behind : List Kind) :
    Goes (record room referenceShape) ((Json.object [("path", .string path)]).kinds ++ behind) path
      behind := by
  have hfield : ∀ behind, Goes (referenceShape.field (room - 1) none "path")
      (.mark ':' :: .string (.ok path) :: behind) (some path) behind :=
    fun behind => Options.goes_fieldOnce "path" (goes_string path behind)
  have hsteps : Steps (referenceShape.field (room - 1)) referenceShape.start
      (entryKinds [("path", .string path)]) (some path) := .cons hfield (.nil _)
  rw [kinds_object_append]
  exact goes_record hroom hsteps (fun kinds => goes_pure path kinds) behind

theorem goes_references {room : Nat} (hroom : 1 < room) (paths : List String) (behind : List Kind) :
    Goes (referencesDecoder room)
      ((Json.array (paths.map fun path => .object [("path", .string path)])).kinds ++ behind)
      (some paths) behind := by
  rw [kinds_array_append]
  refine goes_optional (by simp) (goes_list (by omega) ?_ behind)
  induction paths with
  | nil => exact .nil
  | cons path paths ih =>
      exact .cons ⟨head_kinds _, goes_reference (by omega) path⟩ ih

theorem goes_field {room : Nat} (hroom : 3 < room) {done : Entries Json} {key : String} {value : Json}
    (hkey : key ∉ done.keys) (h : EntryFits room key value) (behind : List Kind) :
    Goes (Draft.field room (draftOf done) key) (.mark ':' :: (value.kinds ++ behind))
      (draftOf (done ++ [(key, value)])) behind := by
  have hmissing := Entries.get?_eq_none_iff.mpr hkey
  have hself := fun value => Options.get?_concat_self hkey value
  unfold EntryFits at h
  unfold Draft.field
  split
  case h_1 => exact h.elim
  case h_2 =>
    obtain ⟨entries, rfl, hnodup, hfits⟩ := h
    have hoptions := Options.goes_decode (show 2 < room by omega) hfits hnodup behind
    exact Options.goes_set (by simp [draftOf, hmissing]) (goes_optional (by simp) hoptions)
      (by simp [draftOf, hself, Options.get?_concat_of_ne, object?])
  case h_3 | h_4 | h_5 =>
    obtain ⟨texts, rfl⟩ := h
    exact Options.goes_set (by simp [draftOf, hmissing])
      (Options.goes_optional_stringList (by omega) texts behind)
      (by simp [draftOf, hself, Options.get?_concat_of_ne, stringsOf_strings])
  case h_6 =>
    obtain ⟨paths, rfl⟩ := h
    exact Options.goes_set (by simp [draftOf, hmissing]) (goes_references (by omega) paths behind)
      (by simp [draftOf, hself, Options.get?_concat_of_ne, referencesOf_paths])
  case h_7 => simp [*] at h

/-- Entries are read as the document that they say. -/
theorem goes_decode {room : Nat} (hroom : 4 < room) {entries : Entries Json}
    (hfits : ∀ entry ∈ entries, EntryFits (room - 1) entry.1 entry.2) (hnodup : entries.keys.Nodup) :
    Goes (decode room) (Json.object entries).kinds (ofEntries entries) [] := by
  have hsteps := Steps.of_entries (Draft.field (room - 1)) draftOf _
    (fun done key value hnew hfits => goes_field (by omega) hnew hfits) hfits hnodup
  have hrecord := goes_record (r := shape) (by omega) hsteps (fun kinds => goes_pure _ kinds) []
  rwa [← kinds_object_append, List.append_nil] at hrecord

end Document

/-! ## Printing and reading -/

namespace Json

theorem get?_rereadEntries (entries : Entries Json) (key : String) :
    Entries.get? (rereadEntries entries) key = (entries.get? key).map reread := by
  induction entries with
  | nil => rfl
  | cons first rest ih =>
      obtain ⟨found, value⟩ := first
      rw [rereadEntries, Entries.get?_cons, Entries.get?_cons, ih]
      split <;> rfl

theorem mem_rereadEntries {entries : Entries Json} {entry : String × Json}
    (h : entry ∈ rereadEntries entries) : ∃ value, (entry.1, value) ∈ entries ∧ entry.2 = value.reread := by
  induction entries with
  | nil => cases h
  | cons first rest ih =>
      obtain ⟨key, value⟩ := first
      rcases List.mem_cons.mp h with rfl | hmem
      · exact ⟨value, List.mem_cons_self .., rfl⟩
      · obtain ⟨found, hfound, hsame⟩ := ih hmem
        exact ⟨found, List.mem_cons_of_mem _ hfound, hsame⟩

theorem reread_strings (texts : List String) : (strings texts).reread = strings texts := by
  rw [strings, reread]
  congr 1
  induction texts with
  | nil => rfl
  | cons text texts ih =>
      rw [List.map_cons, rereadItems, ih]
      rfl

end Json

namespace Options

theorem reread_pathsJson (paths : Entries (List String)) :
    (pathsJson paths).reread = pathsJson paths := by
  rw [pathsJson, reread]
  congr 1
  induction paths with
  | nil => rfl
  | cons first rest ih => rw [List.map_cons, rereadEntries, ih, reread_strings]

theorem fits_pathsJson {room : Nat} (hroom : 1 < room) {paths : Entries (List String)}
    (h : paths.keys.Nodup) : (pathsJson paths).Fits room := by
  refine ⟨by omega, by simpa [Entries.keys, Function.comp_def] using h, ?_⟩
  refine fitEntries_iff.mpr fun entry hentry => ?_
  obtain ⟨own, -, rfl⟩ := List.mem_map.mp hentry
  exact fits_strings (by omega) own.2

/-- An entry of options is one of options that are read, too. -/
theorem EntryFits.reread {room : Nat} {key : String} {value : Json} (h : EntryFits room key value) :
    EntryFits room key value.reread := by
  unfold EntryFits at h ⊢
  split at h
  case h_1 =>
    obtain ⟨paths, rfl, hnodup⟩ := h
    exact ⟨paths, reread_pathsJson paths, hnodup⟩
  case h_2 | h_3 | h_4 =>
    obtain ⟨text, rfl⟩ := h
    exact ⟨text, rfl⟩
  case h_5 | h_6 | h_7 | h_8 =>
    obtain ⟨b, rfl⟩ := h
    exact ⟨b, rfl⟩
  case h_9 | h_10 =>
    obtain ⟨texts, rfl⟩ := h
    exact ⟨texts, reread_strings texts⟩
  case h_11 => simpa [*] using Fits.reread value h

theorem EntryFits.fits {room : Nat} (hroom : 1 < room) {key : String} {value : Json}
    (h : EntryFits room key value) : value.Fits room := by
  unfold EntryFits at h
  split at h
  case h_1 =>
    obtain ⟨paths, rfl, hnodup⟩ := h
    exact fits_pathsJson hroom hnodup
  case h_2 | h_3 | h_4 =>
    obtain ⟨text, rfl⟩ := h
    trivial
  case h_5 | h_6 | h_7 | h_8 =>
    obtain ⟨b, rfl⟩ := h
    trivial
  case h_9 | h_10 =>
    obtain ⟨texts, rfl⟩ := h
    exact fits_strings (by omega) texts
  case h_11 => exact h

end Options

namespace Document

theorem reread_references (paths : List String) :
    (Json.array (paths.map fun path => .object [("path", .string path)])).reread =
      .array (paths.map fun path => .object [("path", .string path)]) := by
  rw [reread]
  congr 1
  induction paths with
  | nil => rfl
  | cons path paths ih =>
      rw [List.map_cons, rereadItems, ih]
      rfl

theorem fits_references {room : Nat} (hroom : 1 < room) (paths : List String) :
    (Json.array (paths.map fun path => .object [("path", .string path)])).Fits room := by
  refine ⟨by omega, fitItems_iff.mpr fun item hitem => ?_⟩
  obtain ⟨path, -, rfl⟩ := List.mem_map.mp hitem
  exact ⟨by omega, by simp [Entries.keys], trivial, trivial⟩

theorem EntryFits.reread {room : Nat} {key : String} {value : Json} (h : EntryFits room key value) :
    EntryFits room key value.reread := by
  unfold EntryFits at h ⊢
  split at h
  · obtain ⟨entries, rfl, hnodup, hfits⟩ := h
    refine ⟨rereadEntries entries, rfl, by rwa [keys_rereadEntries], fun entry hentry => ?_⟩
    obtain ⟨own, hown, hsame⟩ := mem_rereadEntries hentry
    rw [hsame]
    exact (hfits _ hown).reread
  · obtain ⟨texts, rfl⟩ := h
    exact ⟨texts, reread_strings texts⟩
  · obtain ⟨texts, rfl⟩ := h
    exact ⟨texts, reread_strings texts⟩
  · obtain ⟨texts, rfl⟩ := h
    exact ⟨texts, reread_strings texts⟩
  · obtain ⟨paths, rfl⟩ := h
    exact ⟨paths, reread_references paths⟩
  · exact h.elim

theorem EntryFits.fits {room : Nat} (hroom : 2 < room) {key : String} {value : Json}
    (h : EntryFits room key value) : value.Fits room := by
  unfold EntryFits at h
  split at h
  · obtain ⟨entries, rfl, hnodup, hfits⟩ := h
    refine ⟨by omega, hnodup, fitEntries_iff.mpr fun entry hentry => ?_⟩
    exact (hfits entry hentry).fits (by omega)
  · obtain ⟨texts, rfl⟩ := h
    exact fits_strings (by omega) texts
  · obtain ⟨texts, rfl⟩ := h
    exact fits_strings (by omega) texts
  · obtain ⟨texts, rfl⟩ := h
    exact fits_strings (by omega) texts
  · obtain ⟨paths, rfl⟩ := h
    exact fits_references (by omega) paths
  · exact h.elim

/-- A document that is printed is read as its entries say. -/
theorem parse_pretty {entries : Entries Json} (hnodup : entries.keys.Nodup)
    (hfits : ∀ entry ∈ entries, EntryFits (depthLimit - 1) entry.1 entry.2) :
    parse (object entries).pretty = .ok (ofEntries (rereadEntries entries)) := by
  have hall : (object entries).Fits depthLimit := by
    refine ⟨by decide, hnodup, fitEntries_iff.mpr fun entry hentry => ?_⟩
    exact (hfits entry hentry).fits (by decide)
  have hgoes : Goes (decode depthLimit) (object entries).reread.kinds
      (ofEntries (rereadEntries entries)) [] := by
    refine goes_decode (by decide) (fun entry hentry => ?_) (by rwa [keys_rereadEntries])
    obtain ⟨own, hown, hsame⟩ := mem_rereadEntries hentry
    rw [hsame]
    exact (hfits _ hown).reread
  obtain ⟨cs, hcs⟩ := pretty_object entries
  have hblank : (object entries).pretty.toList.all Text.isBlank = false := by
    rw [hcs]
    rfl
  unfold parse
  simp only [document_pretty hall, hblank, Bool.false_eq_true, if_false, String.ofList_toList]
  exact run_eq_ok (cut_pretty hall Spot.first) hgoes

end Document

end ScopedCheck
