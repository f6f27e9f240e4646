import ScopedCheck.Json.Basic
import Mathlib.Data.List.Basic
import Mathlib.Data.List.Nodup
/-! # Entries with different keys

If the keys differ, to look a key up and to hold an entry is the same, and every change of entries
keeps the keys different. -/

namespace ScopedCheck.Entries

variable {α : Type}

/-- The keys of entries. -/
def keys (entries : Entries α) : List String := entries.map Prod.fst

theorem keys_append (entries more : Entries α) : (entries ++ more).keys = entries.keys ++ more.keys :=
  List.map_append

theorem mem_keys_of_mem {entries : Entries α} {entry : String × α} (h : entry ∈ entries) :
    entry.1 ∈ entries.keys := List.mem_map_of_mem h

/-! ## Looking a key up -/

theorem get?_cons (key : String) (value : α) (rest : Entries α) (other : String) :
    get? ((key, value) :: rest) other = if key = other then some value else rest.get? other := by
  by_cases h : key = other <;> simp [get?, h]

theorem get?_eq_none_iff {entries : Entries α} {key : String} :
    entries.get? key = none ↔ key ∉ entries.keys := by
  induction entries with
  | nil => simp [get?, keys]
  | cons first rest ih =>
      obtain ⟨found, value⟩ := first
      rw [get?_cons, keys, List.map_cons, List.mem_cons, not_or, ← keys]
      by_cases h : found = key
      · simp [h]
      · rw [if_neg h, ih]
        simp [Ne.symm h]

theorem get?_eq_some_iff {entries : Entries α} (h : entries.keys.Nodup) {key : String} {value : α} :
    entries.get? key = some value ↔ (key, value) ∈ entries := by
  induction entries with
  | nil => simp [get?]
  | cons first rest ih =>
      obtain ⟨found, other⟩ := first
      rw [keys, List.map_cons, List.nodup_cons, ← keys] at h
      rw [get?_cons, List.mem_cons, Prod.mk.injEq]
      by_cases hkey : found = key
      · subst hkey
        have hnotMem : (found, value) ∉ rest := by
          intro hmem
          have hkey := mem_keys_of_mem hmem
          exact h.1 hkey
        simp [hnotMem, eq_comm]
      · rw [if_neg hkey, ih h.2]
        simp [Ne.symm hkey]

theorem get?_append (entries more : Entries α) (key : String) :
    get? (entries ++ more) key = (entries.get? key).or (more.get? key) := by
  induction entries with
  | nil => rfl
  | cons first rest ih =>
      obtain ⟨found, value⟩ := first
      rw [List.cons_append, get?_cons, get?_cons, ih]
      by_cases hkey : found = key
      · rw [if_pos hkey, if_pos hkey, Option.some_or]
      · rw [if_neg hkey, if_neg hkey]

/-! ## Setting keys -/

theorem set_of_notMem {entries : Entries α} {key : String} (h : key ∉ entries.keys) (value : α) :
    entries.set key value = entries ++ [(key, value)] := by
  induction entries with
  | nil => rfl
  | cons entry rest ih =>
      rw [keys, List.map_cons, List.mem_cons, not_or, ← keys] at h
      rw [set, if_neg (Ne.symm h.1), ih h.2, List.cons_append]

theorem keys_set_of_mem {entries : Entries α} {key : String} (h : key ∈ entries.keys) (value : α) :
    (entries.set key value).keys = entries.keys := by
  induction entries with
  | nil => cases h
  | cons entry rest ih =>
      rw [keys, List.map_cons, List.mem_cons, ← keys] at h
      rw [set]
      by_cases hkey : entry.1 = key
      · rw [if_pos hkey, keys, keys, List.map_cons, List.map_cons, hkey]
      · rw [if_neg hkey, keys, List.map_cons, ← keys, ih (h.resolve_left (Ne.symm hkey)), keys, keys,
          List.map_cons]

theorem nodup_set {entries : Entries α} (h : entries.keys.Nodup) (key : String) (value : α) :
    (entries.set key value).keys.Nodup := by
  by_cases hmem : key ∈ entries.keys
  · rwa [keys_set_of_mem hmem]
  · rw [set_of_notMem hmem, keys_append]
    refine List.nodup_append.mpr ⟨h, by simp [keys], ?_⟩
    intro found hfound other hother
    obtain rfl : other = key := by simpa [keys] using hother
    rintro rfl
    exact hmem hfound

theorem mem_set {entries : Entries α} {key : String} {value : α} {entry : String × α}
    (h : entry ∈ entries.set key value) : entry = (key, value) ∨ entry ∈ entries := by
  induction entries with
  | nil => exact Or.inl (List.mem_singleton.mp h)
  | cons first rest ih =>
      rw [set] at h
      split at h
      · exact (List.mem_cons.mp h).imp_right (List.mem_cons_of_mem _)
      · rcases List.mem_cons.mp h with rfl | hmem
        · exact Or.inr (List.mem_cons_self ..)
        · exact (ih hmem).imp_right (List.mem_cons_of_mem _)

theorem mem_keys_set {entries : Entries α} {key : String} {value : α} {other : String}
    (h : other ∈ (entries.set key value).keys) : other = key ∨ other ∈ entries.keys := by
  obtain ⟨entry, hentry, rfl⟩ := List.mem_map.mp h
  rcases mem_set hentry with rfl | hmem
  · exact Or.inl rfl
  · exact Or.inr (mem_keys_of_mem hmem)

theorem setAll_cons (entries : Entries α) (key : String) (value : α) (more : Entries α) :
    entries.setAll ((key, value) :: more) = (entries.set key value).setAll more := rfl

theorem nodup_setAll {entries : Entries α} (h : entries.keys.Nodup) (more : Entries α) :
    (entries.setAll more).keys.Nodup := by
  induction more generalizing entries with
  | nil => exact h
  | cons entry more ih => exact ih (nodup_set h entry.1 entry.2)

theorem mem_setAll {entries more : Entries α} {entry : String × α} (h : entry ∈ entries.setAll more) :
    entry ∈ entries ∨ entry ∈ more := by
  induction more generalizing entries with
  | nil => exact Or.inl h
  | cons first more ih =>
      rcases ih h with hset | hmore
      · rcases mem_set hset with rfl | hmem
        · exact Or.inr (List.mem_cons_self ..)
        · exact Or.inl hmem
      · exact Or.inr (List.mem_cons_of_mem _ hmore)

theorem setAll_eq_append {entries more : Entries α} (h : (keys (entries ++ more)).Nodup) :
    entries.setAll more = entries ++ more := by
  induction more generalizing entries with
  | nil => exact (List.append_nil _).symm
  | cons first more ih =>
      obtain ⟨key, value⟩ := first
      have hnew : key ∉ entries.keys := by
        rw [keys, List.map_append, List.map_cons, List.nodup_middle] at h
        exact fun hmem => h.notMem (List.mem_append_left _ hmem)
      rw [setAll_cons, set_of_notMem hnew, ih (by simpa using h), List.append_assoc]
      rfl

/-- Of several entries for a key, those that are set last count. -/
theorem get?_setAll (entries : Entries α) {more : Entries α} (h : more.keys.Nodup) (key : String) :
    (entries.setAll more).get? key = (more.get? key).or (entries.get? key) := by
  induction more generalizing entries with
  | nil => rfl
  | cons first more ih =>
      obtain ⟨found, value⟩ := first
      rw [keys, List.map_cons, List.nodup_cons, ← keys] at h
      rw [setAll_cons, ih _ h.2, get?_cons]
      by_cases hkey : found = key
      · subst hkey
        rw [if_pos rfl, get?_eq_none_iff.mpr h.1, get?_set_self]
        rfl
      · rw [if_neg hkey, get?_set_of_ne _ _ (Ne.symm hkey)]

/-! ## Removing and changing -/

theorem around?_spec (entries : Entries α) (key : String) :
    (entries.around? key = none ∧ key ∉ entries.keys) ∨ ∃ front value back,
      entries.around? key = some (front, back) ∧ entries = front ++ (key, value) :: back := by
  induction entries with
  | nil => exact Or.inl ⟨rfl, by simp [keys]⟩
  | cons entry rest ih =>
      rw [around?]
      by_cases hkey : entry.1 = key
      · rw [if_pos hkey, ← hkey]
        exact Or.inr ⟨[], entry.2, rest, rfl, rfl⟩
      · rw [if_neg hkey]
        rcases ih with ⟨hnone, hnotMem⟩ | ⟨front, value, back, hsome, hrest⟩
        · refine Or.inl ⟨by rw [hnone]; rfl, ?_⟩
          rw [keys, List.map_cons, List.mem_cons, not_or]
          exact ⟨Ne.symm hkey, hnotMem⟩
        · exact Or.inr ⟨entry :: front, value, back, by rw [hsome]; rfl, by rw [hrest]; rfl⟩

/-- What is left when a key is removed. -/
theorem remove_perm (entries : Entries α) (key : String) :
    (key ∉ entries.keys ∧ entries.remove key = entries) ∨ ∃ front value back,
      entries = front ++ (key, value) :: back ∧ (entries.remove key).Perm (front ++ back) := by
  rcases around?_spec entries key with
    ⟨hnone, hnotMem⟩ | ⟨front, value, back, hsome, hentries⟩
  · exact Or.inl ⟨hnotMem, by rw [remove, hnone]⟩
  · refine Or.inr ⟨front, value, back, hentries, ?_⟩
    rw [remove, hsome]
    simp only
    cases hlast : back.getLast? with
    | none =>
        rw [List.getLast?_eq_none_iff] at hlast
        simp [hlast]
    | some last =>
        obtain ⟨init, rfl⟩ := List.getLast?_eq_some_iff.mp hlast
        simp only [List.dropLast_concat]
        refine List.Perm.append_left front ?_
        exact (List.perm_append_singleton last init).symm

theorem nodup_remove {entries : Entries α} (h : entries.keys.Nodup) (key : String) :
    (entries.remove key).keys.Nodup := by
  rcases remove_perm entries key with ⟨-, hsame⟩ | ⟨front, value, back, hentries, hperm⟩
  · rwa [hsame]
  · have hkeys : (entries.remove key).keys.Perm (keys (front ++ back)) := hperm.map Prod.fst
    rw [hkeys.nodup_iff]
    rw [hentries] at h
    refine h.sublist ?_
    exact ((List.Sublist.refl front).append (List.sublist_cons_self _ back)).map Prod.fst

theorem mem_remove {entries : Entries α} (h : entries.keys.Nodup) {key : String}
    {entry : String × α} : entry ∈ entries.remove key ↔ entry ∈ entries ∧ entry.1 ≠ key := by
  rcases remove_perm entries key with ⟨hnotMem, hsame⟩ | ⟨front, value, back, hentries, hperm⟩
  · rw [hsame]
    refine ⟨fun hmem => ⟨hmem, ?_⟩, And.left⟩
    rintro rfl
    exact hnotMem (mem_keys_of_mem hmem)
  · rw [hperm.mem_iff, hentries]
    rw [hentries, keys, List.map_append, List.map_cons, List.nodup_middle, List.nodup_cons,
      ← List.map_append] at h
    constructor
    · intro hmem
      refine ⟨?_, ?_⟩
      · rw [List.mem_append] at hmem ⊢
        exact hmem.imp_right (List.mem_cons_of_mem _)
      · rintro rfl
        have hkey := mem_keys_of_mem hmem
        exact h.1 hkey
    · rintro ⟨hmem, hne⟩
      rw [List.mem_append, List.mem_cons] at hmem
      rw [List.mem_append]
      rcases hmem with hfront | rfl | hback
      · exact Or.inl hfront
      · exact absurd rfl hne
      · exact Or.inr hback

theorem get?_remove_of_ne {entries : Entries α} (h : entries.keys.Nodup) {key other : String}
    (hne : other ≠ key) : (entries.remove key).get? other = entries.get? other := by
  ext value
  rw [get?_eq_some_iff (nodup_remove h key), get?_eq_some_iff h, mem_remove h]
  exact and_iff_left hne

theorem keys_change (entries : Entries α) (key : String) (f : α → α) :
    (entries.change key f).keys = entries.keys := by
  rw [change, keys, List.map_map, keys]
  refine List.map_congr_left fun entry _ => ?_
  simp only [Function.comp]
  split <;> rfl

theorem get?_change (entries : Entries α) (key : String) (f : α → α) (other : String) :
    (entries.change key f).get? other =
      if key = other then (entries.get? other).map f else entries.get? other := by
  induction entries with
  | nil => simp [change, get?]
  | cons first rest ih =>
      obtain ⟨found, value⟩ := first
      have hcons : Entries.change ((found, value) :: rest) key f =
          (found, if found = key then f value else value) :: Entries.change rest key f := by
        rw [change, List.map_cons, ← change]
        split <;> rfl
      rw [hcons, get?_cons, get?_cons, ih]
      by_cases hfound : found = other
      · subst hfound
        by_cases hkey : found = key
        · simp [hkey]
        · simp [hkey, Ne.symm hkey]
      · simp [hfound]

theorem mem_change {entries : Entries α} {key : String} {f : α → α} {entry : String × α}
    (h : entry ∈ entries.change key f) :
    entry ∈ entries ∨ ∃ value, (entry.1, value) ∈ entries ∧ entry.2 = f value := by
  obtain ⟨old, hold, rfl⟩ := List.mem_map.mp h
  split
  · exact Or.inr ⟨old.2, hold, rfl⟩
  · exact Or.inl hold

end ScopedCheck.Entries
