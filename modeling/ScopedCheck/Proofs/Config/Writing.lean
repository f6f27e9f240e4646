import ScopedCheck.Proofs.Config.Reading
/-! # Writing options

Sound options are written as entries that can be read back. -/

namespace ScopedCheck.Options

open Json

/-- Whether entries are options that could be written where there is room for their values. -/
structure AreOptions (room : Nat) (entries : Entries Json) : Prop where
  nodup : entries.keys.Nodup
  fits : ∀ entry ∈ entries, EntryFits room entry.1 entry.2

theorem AreOptions.set {room : Nat} {entries : Entries Json} (h : AreOptions room entries)
    {key : String} {value : Json} (hvalue : EntryFits room key value) :
    AreOptions room (entries.set key value) := by
  refine ⟨Entries.nodup_set h.nodup key value, fun entry hentry => ?_⟩
  rcases Entries.mem_set hentry with rfl | hmem
  · exact hvalue
  · exact h.fits entry hmem

theorem AreOptions.remove {room : Nat} {entries : Entries Json} (h : AreOptions room entries)
    (key : String) : AreOptions room (entries.remove key) :=
  ⟨Entries.nodup_remove h.nodup key, fun found hfound =>
    h.fits found ((Entries.mem_remove h.nodup).mp hfound).1⟩

theorem keys_entry {α : Type} (key : String) (toJson : α → Json) (field : Option α) :
    (Entries.keys (entry key toJson field)).Sublist [key] := by
  cases field with
  | none => exact List.nil_sublist _
  | some value => exact List.Sublist.refl _

theorem keys_fields (o : Options) : (Entries.keys o.fields).Sublist fieldKeys := by
  simp only [fields, Entries.keys_append]
  exact ((((((((((keys_entry _ _ _).append (keys_entry _ _ _)).append (keys_entry _ _ _)).append
    (keys_entry _ _ _)).append (keys_entry _ _ _)).append (keys_entry _ _ _)).append
      (keys_entry _ _ _)).append (keys_entry _ _ _)).append (keys_entry _ _ _)).append
        (keys_entry _ _ _))

theorem mem_entry {α : Type} {key : String} {toJson : α → Json} {field : Option α}
    {found : String × Json} (h : found ∈ entry key toJson field) :
    ∃ value ∈ field, found = (key, toJson value) := by
  cases field with
  | none => cases h
  | some value => exact ⟨value, rfl, List.mem_singleton.mp h⟩

/-- The fields of sound options are options. -/
theorem areOptions_fields {room : Nat} {o : Options} (h : o.IsSound room) :
    AreOptions room o.fields := by
  refine ⟨(keys_fields o).nodup (by decide), fun found hfound => ?_⟩
  simp only [fields, List.mem_append] at hfound
  rcases hfound with ((((((((hpaths | hbase) | hresolution) | hmodule) | hallow) | hcheck) | hskip) |
    hemit) | hroots) | htypes
  · obtain ⟨paths, hmem, rfl⟩ := mem_entry hpaths
    exact ⟨paths, rfl, h.paths paths hmem⟩
  · obtain ⟨text, -, rfl⟩ := mem_entry hbase
    exact ⟨text, rfl⟩
  · obtain ⟨text, -, rfl⟩ := mem_entry hresolution
    exact ⟨text, rfl⟩
  · obtain ⟨text, -, rfl⟩ := mem_entry hmodule
    exact ⟨text, rfl⟩
  · obtain ⟨b, -, rfl⟩ := mem_entry hallow
    exact ⟨b, rfl⟩
  · obtain ⟨b, -, rfl⟩ := mem_entry hcheck
    exact ⟨b, rfl⟩
  · obtain ⟨b, -, rfl⟩ := mem_entry hskip
    exact ⟨b, rfl⟩
  · obtain ⟨b, -, rfl⟩ := mem_entry hemit
    exact ⟨b, rfl⟩
  · obtain ⟨texts, -, rfl⟩ := mem_entry hroots
    exact ⟨texts, rfl⟩
  · obtain ⟨texts, -, rfl⟩ := mem_entry htypes
    exact ⟨texts, rfl⟩

theorem entryFits_of_notMem {room : Nat} {key : String} {value : Json} (hkey : key ∉ fieldKeys)
    (h : value.Fits room) : EntryFits room key value := by
  simp only [fieldKeys, List.mem_cons, List.not_mem_nil, or_false, not_or] at hkey
  unfold EntryFits
  split <;> simp_all

/-- Sound options are options as entries. -/
theorem areOptions_toEntries {room : Nat} {o : Options} (h : o.IsSound room) :
    AreOptions room o.toEntries := by
  have hfields := areOptions_fields h
  refine ⟨Entries.nodup_setAll hfields.nodup o.other, fun found hfound => ?_⟩
  rcases Entries.mem_setAll hfound with hmem | hmem
  · exact hfields.fits found hmem
  · exact entryFits_of_notMem (h.others _ (Entries.mem_keys_of_mem hmem)) (h.fits found hmem)

theorem get?_entry {α : Type} (key : String) (toJson : α → Json) (field : Option α) (other : String) :
    Entries.get? (entry key toJson field) other = if key = other then field.map toJson else none := by
  cases field with
  | none => simp [entry, Entries.get?]
  | some value =>
      rw [entry, Entries.get?_cons, Option.map_some]
      rfl

/-- The value of an option, in its field or among the others. -/
def value? (o : Options) (key : String) : Option Json :=
  match key with
  | "paths" => o.paths.map pathsJson
  | "baseUrl" => o.baseUrl.map .string
  | "moduleResolution" => o.moduleResolution.map .string
  | "module" => o.moduleKind.map .string
  | "allowJs" => o.allowJs.map .bool
  | "checkJs" => o.checkJs.map .bool
  | "skipLibCheck" => o.skipLibCheck.map .bool
  | "noEmit" => o.noEmit.map .bool
  | "typeRoots" => o.typeRoots.map Json.strings
  | "types" => o.types.map Json.strings
  | _ => o.other.get? key

theorem value?_of_notMem {o : Options} {key : String} (hkey : key ∉ fieldKeys) :
    o.value? key = o.other.get? key := by
  simp only [fieldKeys, List.mem_cons, List.not_mem_nil, or_false, not_or] at hkey
  unfold value?
  split <;> simp_all

theorem get?_fields (o : Options) (key : String) :
    o.fields.get? key = if key ∈ fieldKeys then o.value? key else none := by
  by_cases hkey : key ∈ fieldKeys
  · rw [if_pos hkey]
    simp only [fieldKeys, List.mem_cons, List.not_mem_nil, or_false] at hkey
    simp only [fields, Entries.get?_append, get?_entry]
    rcases hkey with rfl | rfl | rfl | rfl | rfl | rfl | rfl | rfl | rfl | rfl <;> simp [value?]
  · rw [if_neg hkey, Entries.get?_eq_none_iff]
    exact fun hmem => hkey ((keys_fields o).subset hmem)

/-- Every option is an entry, and there are no other entries. -/
theorem get?_toEntries_eq_value? {room : Nat} {o : Options} (h : o.IsSound room) (key : String) :
    o.toEntries.get? key = o.value? key := by
  rw [toEntries, Entries.get?_setAll _ h.keys, get?_fields]
  by_cases hkey : key ∈ fieldKeys
  · have hmissing : o.other.get? key = none :=
      Entries.get?_eq_none_iff.mpr fun hmem => h.others key hmem hkey
    rw [if_pos hkey, hmissing, Option.none_or]
  · rw [if_neg hkey, value?_of_notMem hkey, Option.or_none]

/-- The fields that say how modules are resolved, as entries. -/
theorem get?_toEntries {room : Nat} {o : Options} (h : o.IsSound room) :
    o.toEntries.get? "paths" = o.paths.map pathsJson ∧
      o.toEntries.get? "baseUrl" = o.baseUrl.map Json.string ∧
      o.toEntries.get? "moduleResolution" = o.moduleResolution.map Json.string ∧
      o.toEntries.get? "module" = o.moduleKind.map Json.string ∧
      o.toEntries.get? "allowJs" = o.allowJs.map Json.bool ∧
      o.toEntries.get? "checkJs" = o.checkJs.map Json.bool := by
  have hvalue := get?_toEntries_eq_value? h
  exact ⟨hvalue _, hvalue _, hvalue _, hvalue _, hvalue _, hvalue _⟩

end ScopedCheck.Options
