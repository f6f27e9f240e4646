import ScopedCheck.Proofs.FileTree.Place
/-! # Normal forms

A normal form is put together from names that may stand in directories. Another ending of its text, or
one more name, leaves it a normal form. -/

namespace ScopedCheck.Path

open FileTree (Name Location isName isName_iff)

/-! ## What is put together from names -/

/-- What is put together from names is its own normal form. -/
theorem normalize_ofSegments (absolute : Bool) {location : Location} (h : AreNames location) :
    (ofSegments absolute location).normalize = ofSegments absolute location := by
  have hhead : absolute = false → location.head? ≠ some [] := by
    intro _ hempty
    exact (isName_iff.mp (h [] (List.mem_of_mem_head? hempty))).1 rfl
  obtain ⟨habs, hsteps⟩ := steps_ofSegments h.notMem hhead
  have hkept := names_append_names [] location
  rw [normalize_eq, habs, hsteps, stepsOf_names h]
  congr 1

/-- A normal form has no other normal form. -/
theorem normalize_normalize (p : Path) : p.normalize.normalize = p.normalize := by
  rw [normalize_eq p]
  exact normalize_ofSegments _ (areNames_steps p)

/-- Every normal form is put together from names. -/
theorem exists_ofSegments {p : Path} (h : p.normalize = p) :
    ∃ absolute location, AreNames location ∧ p = ofSegments absolute location :=
  ⟨p.isAbsolute, names (stepsOf p.segments), areNames_steps p, by rw [← normalize_eq, h]⟩

/-- Normal forms of the same place are spelled alike. -/
theorem eq_of_parts_eq {p q : Path} (hp : p.normalize = p) (hq : q.normalize = q)
    (h : p.parts = q.parts) : p = q := by
  obtain ⟨habs, hsteps⟩ := steps_of_parts_eq h
  rw [← hp, ← hq, normalize_eq, normalize_eq, habs, hsteps]

/-- A normal form that starts at the root is the path of a location. -/
theorem exists_pathOf {p : Path} (habs : p.isAbsolute = true) (h : p.normalize = p) :
    ∃ location, AreNames location ∧ p = FileTree.pathOf location :=
  ⟨names p.parts, areNames_names habs, by rw [← normalize_of_isAbsolute habs, h]⟩

/-! ## What is above a normal form -/

theorem upToLastStep_names (absolute : Bool) {location : Location} (h : AreNames location) :
    upToLastStep absolute location = location := by
  rcases List.eq_nil_or_concat' location with rfl | ⟨front, last, rfl⟩
  · rfl
  · obtain ⟨hblank, hdot, hup, -⟩ := isName_iff.mp (h last (by simp))
    exact FileTree.upToLastStep_concat absolute front (FileTree.isStep_of_isLastName ⟨hblank, hdot, hup⟩)

theorem parent?_pathOf {location : Location} (h : AreNames location) (hne : location ≠ []) :
    (FileTree.pathOf location).parent? = some (FileTree.pathOf location.dropLast) := by
  have hfront : AreNames location.dropLast := fun name hname => h name (List.dropLast_subset _ hname)
  rw [parent?, isAbsolute_pathOf, segments_pathOf hne h, upToLastStep_names true h]
  cases location with
  | nil => exact absurd rfl hne
  | cons first rest => exact congrArg (fun names => some (FileTree.pathOf names)) (upToLastStep_names true hfront)

/-- What is above the path of a location is the path of a location. -/
theorem exists_pathOf_of_parent? {location : Location} (h : AreNames location) {above : Path}
    (habove : (FileTree.pathOf location).parent? = some above) :
    ∃ front, AreNames front ∧ above = FileTree.pathOf front := by
  by_cases hne : location = []
  · subst hne
    cases habove
  · rw [parent?_pathOf h hne] at habove
    exact ⟨_, fun name hname => h name (List.dropLast_subset _ hname), (Option.some.inj habove).symm⟩

theorem exists_pathOf_parent {location : Location} (h : AreNames location) :
    ∃ front, AreNames front ∧ (FileTree.pathOf location).parent = FileTree.pathOf front := by
  rw [parent]
  cases habove : (FileTree.pathOf location).parent? with
  | none => exact ⟨[], by simp [AreNames], rfl⟩
  | some above => exact exists_pathOf_of_parent? h habove

/-! ## The last name of a normal form -/

/-- The last part of a path with steps is its last step. -/
theorem getLast?_parts {p : Path} (h : stepsOf p.segments ≠ []) :
    p.parts.getLast? = (stepsOf p.segments).getLast? := by
  have hbehind : ∀ first, (first :: stepsOf p.segments).getLast? = (stepsOf p.segments).getLast? :=
    fun first => by rw [← List.singleton_append, List.getLast?_append_of_ne_nil _ h]
  unfold parts
  split
  · exact hbehind .root
  · split
    · rename_i rest hsegments
      have hrest : stepsOf p.segments = stepsOf rest := by rw [hsegments]; rfl
      rw [← hrest]
      exact hbehind .here
    · rfl

theorem name_ofSegments_concat (absolute : Bool) {front : Location} (hfront : AreNames front) {last : Name}
    (hlast : isName last = true) : (ofSegments absolute (front ++ [last])).name = String.ofList last := by
  have hnames : AreNames (front ++ [last]) := hfront.append (List.forall_mem_singleton.mpr hlast)
  have hhead : absolute = false → (front ++ [last]).head? ≠ some [] := fun _ hempty =>
    (isName_iff.mp (hnames [] (List.mem_of_mem_head? hempty))).1 rfl
  obtain ⟨-, hsteps⟩ := steps_ofSegments hnames.notMem hhead
  rw [stepsOf_names hnames, List.map_append, List.map_singleton] at hsteps
  rw [name, name?, getLast?_parts (by simp [hsteps]), hsteps, List.getLast?_concat]
  rfl

theorem name_pathOf_concat {front : Location} (hfront : AreNames front) {last : Name}
    (hlast : isName last = true) : (FileTree.pathOf (front ++ [last])).name = String.ofList last :=
  name_ofSegments_concat true hfront hlast

/-- Names lead to the same last name from any directory. -/
theorem name_pathOf_append {place next : Location} (hplace : AreNames place) (hnext : AreNames next) {names : Location}
    (hnames : AreNames names) (hsome : names ≠ []) :
    (FileTree.pathOf (next ++ names)).name = (FileTree.pathOf (place ++ names)).name := by
  obtain ⟨front, last, rfl⟩ := (List.eq_nil_or_concat' names).resolve_left hsome
  have hfront : AreNames front := fun name hname => hnames name (List.mem_append_left _ hname)
  have hlast := hnames last (by simp)
  rw [← List.append_assoc, ← List.append_assoc, name_pathOf_concat (hnext.append hfront) hlast,
    name_pathOf_concat (hplace.append hfront) hlast]

/-- An ending without a slash is one of the last name. -/
theorem exists_of_ending {front last start ending : List Char}
    (hfront : front = [] ∨ front.getLast? = some '/') (hslash : '/' ∉ ending)
    (h : front ++ last = start ++ ending) : ∃ stem, last = stem ++ ending ∧ start = front ++ stem := by
  rcases List.append_eq_append_iff.mp h with ⟨stem, hstart, hlast⟩ | ⟨stem, hstart, hending⟩
  · exact ⟨stem, hlast, hstart⟩
  · rcases List.eq_nil_or_concat' stem with rfl | ⟨rest, last', rfl⟩
    · exact ⟨[], by simpa using hending.symm, by simpa using hstart.symm⟩
    · rcases hfront with rfl | hfront
      · simp at hstart
      · rw [hstart, ← List.append_assoc, List.getLast?_concat, Option.some.injEq] at hfront
        exact absurd (by simp [hending, hfront]) hslash

/-- Whether a text makes a name of everything that it ends, unless there is a slash in it. -/
def isEnding (ending : List Char) : Bool :=
  ending.getLast?.any (· != '.') && !ending.contains '/'

theorem isEnding_iff {ending : List Char} :
    isEnding ending = true ↔ (∃ c, ending.getLast? = some c ∧ c ≠ '.') ∧ '/' ∉ ending := by
  simp [isEnding, Option.any_eq_true]

theorem isName_of_isEnding {ending : List Char} (h : isEnding ending = true) {stem : List Char}
    (hstem : '/' ∉ stem) : isName (stem ++ ending) = true := by
  obtain ⟨⟨c, hc, hdot⟩, hslash⟩ := isEnding_iff.mp h
  have hlast : (stem ++ ending).getLast? = some c := by rw [List.getLast?_append, hc, Option.some_or]
  -- the last character tells the text from the steps that are no names
  have hne : ∀ other : List Char, other.getLast? ≠ some c → stem ++ ending ≠ other :=
    fun other hother heq => hother (heq ▸ hlast)
  refine isName_iff.mpr ⟨hne _ (by simp), hne _ ?_, hne _ ?_, ?_⟩
  · simpa using hdot.symm
  · simpa using hdot.symm
  · exact fun h => (List.mem_append.mp h).elim hstem hslash

/-- A normal form stays one when its text gets another ending. -/
theorem normalize_of_ending {p : Path} (hp : p.normalize = p) {start old new : List Char}
    (hchars : p.chars = start ++ old) (hold : '/' ∉ old) (hnew : isEnding new = true) :
    (⟨String.ofList (start ++ new)⟩ : Path).normalize = ⟨String.ofList (start ++ new)⟩ := by
  obtain ⟨absolute, location, hnames, rfl⟩ := exists_ofSegments hp
  suffices h : ∃ longer, AreNames longer ∧
      (⟨String.ofList (start ++ new)⟩ : Path) = ofSegments absolute longer by
    obtain ⟨longer, hlonger, heq⟩ := h
    rw [heq, normalize_ofSegments _ hlonger]
  rcases List.eq_nil_or_concat' location with rfl | ⟨before, last, rfl⟩
  · -- nothing but the slash of an absolute path stands before the old ending
    refine ⟨[new], fun name hname => ?_, eq_of_chars_eq ?_⟩
    · rw [List.mem_singleton.mp hname]
      exact isName_of_isEnding hnew (List.not_mem_nil (a := '/'))
    · obtain ⟨front, hfront, hends⟩ := exists_front absolute []
      have hroot : (ofSegments absolute []).chars = front := by
        have := hends []
        rw [List.append_nil] at this
        rw [← this]
        rfl
      have hwhole : front ++ [] = start ++ old := by rw [List.append_nil, ← hroot, hchars]
      obtain ⟨stem, hstem, rfl⟩ := exists_of_ending hfront hold hwhole
      obtain ⟨rfl, -⟩ := List.append_eq_nil_iff.mp hstem.symm
      rw [chars_mk, List.append_nil]
      exact (hends new).symm
  · obtain ⟨front, hfront, hends⟩ := exists_front absolute before
    obtain ⟨stem, rfl, rfl⟩ := exists_of_ending hfront hold ((hends last).symm.trans hchars)
    have hlast := isName_iff.mp (hnames (stem ++ old) (by simp))
    refine ⟨before ++ [stem ++ new], fun name hname => ?_, eq_of_chars_eq ?_⟩
    · rcases List.mem_append.mp hname with h | h
      · exact hnames name (by simp [h])
      · rw [List.mem_singleton.mp h]
        exact isName_of_isEnding hnew fun h => hlast.2.2.2 (List.mem_append_left _ h)
    · rw [hends, chars_mk, List.append_assoc]

theorem normalize_append {p : Path} (hp : p.normalize = p) {ending : String}
    (h : isEnding ending.toList = true) :
    (⟨p.text ++ ending⟩ : Path).normalize = ⟨p.text ++ ending⟩ := by
  have hkept := normalize_of_ending hp (List.append_nil p.chars).symm List.not_mem_nil h
  rwa [String.ofList_append, chars, String.ofList_toList, String.ofList_toList] at hkept

/-- A normal form stays one when a name is added. -/
theorem normalize_child_of_isName {p : Path} (hp : p.normalize = p) {name : Name}
    (hname : isName name = true) :
    (p.child (String.ofList name)).normalize = p.child (String.ofList name) := by
  obtain ⟨absolute, location, hnames, rfl⟩ := exists_ofSegments hp
  rw [child_ofSegments absolute hnames hname]
  refine normalize_ofSegments _ fun other hother => ?_
  rcases List.mem_append.mp hother with h | h
  · exact hnames other h
  · rw [List.mem_singleton.mp h]
    exact hname

end ScopedCheck.Path
