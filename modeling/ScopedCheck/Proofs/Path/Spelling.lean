import Mathlib.Data.List.Basic
import ScopedCheck.FileTree.Basic
/-! # Spellings of a path

A path that goes on from an absolute one through names keeps the steps of that path and adds the
names. Its normal form goes on from the normal form through the same names, so that a directory may
be spelled in any way as far as normal forms are concerned. -/

namespace ScopedCheck

namespace Text

theorem splitOn_of_notMem {sep : Char} {cs : List Char} (h : sep ∉ cs) : splitOn sep cs = [cs] := by
  induction cs with
  | nil => rfl
  | cons c cs ih =>
      have hc : c ≠ sep := fun hc => h (by simp [hc])
      have hcs : sep ∉ cs := fun hcs => h (by simp [hcs])
      simp [splitOn, hc, ih hcs]

theorem splitOn_append_cons (sep : Char) (cs ds : List Char) :
    splitOn sep (cs ++ sep :: ds) = splitOn sep cs ++ splitOn sep ds := by
  induction cs with
  | nil => simp [splitOn]
  | cons c cs ih =>
      by_cases hc : c = sep
      · simp [splitOn, hc, ih]
      · obtain ⟨piece, rest, hs⟩ := List.exists_cons_of_ne_nil (splitOn_ne_nil sep cs)
        simp [splitOn, hc, ih, hs]

theorem splitOn_joinWith {sep : Char} {pieces : List (List Char)} (hne : pieces ≠ [])
    (h : ∀ piece ∈ pieces, sep ∉ piece) : splitOn sep (joinWith sep pieces) = pieces := by
  induction pieces with
  | nil => exact absurd rfl hne
  | cons piece rest ih =>
      have hpiece : sep ∉ piece := h piece (by simp)
      cases rest with
      | nil => exact splitOn_of_notMem hpiece
      | cons next rest =>
          have hrest := ih (by simp) fun p hp => h p (by simp [hp])
          simp [joinWith, splitOn_append_cons, splitOn_of_notMem hpiece, hrest]

theorem joinWith_concat (sep : Char) {pieces : List (List Char)} (hne : pieces ≠ [])
    (last : List Char) :
    joinWith sep (pieces ++ [last]) = joinWith sep pieces ++ sep :: last := by
  induction pieces with
  | nil => exact absurd rfl hne
  | cons piece rest ih =>
      cases rest with
      | nil => rfl
      | cons next rest =>
          have := ih (by simp)
          simp_all [joinWith]

theorem mem_joinWith {sep c : Char} {pieces : List (List Char)} (h : c ∈ joinWith sep pieces) :
    c = sep ∨ ∃ piece ∈ pieces, c ∈ piece := by
  induction pieces with
  | nil => simp [joinWith] at h
  | cons first rest ih =>
      cases rest with
      | nil => exact Or.inr ⟨first, by simp, h⟩
      | cons next rest =>
          simp only [joinWith, List.mem_append, List.mem_cons] at h
          rcases h with h | h | h
          · exact Or.inr ⟨first, by simp, h⟩
          · exact Or.inl h
          · rcases ih h with h | ⟨piece, hpiece, hc⟩
            · exact Or.inl h
            · exact Or.inr ⟨piece, List.mem_cons_of_mem _ hpiece, hc⟩

theorem mem_joinWith_of_mem {sep c : Char} {pieces : List (List Char)} {piece : List Char}
    (hpiece : piece ∈ pieces) (hc : c ∈ piece) : c ∈ joinWith sep pieces := by
  induction pieces with
  | nil => simp at hpiece
  | cons first rest ih =>
      rcases List.mem_cons.mp hpiece with rfl | hrest
      · cases rest <;> simp [joinWith, hc]
      · cases rest with
        | nil => simp at hrest
        | cons next rest => simp [joinWith, ih hrest]

theorem mem_of_mem_splitOn {sep c : Char} {cs piece : List Char} (hpiece : piece ∈ splitOn sep cs)
    (hc : c ∈ piece) : c ∈ cs := by
  rw [← joinWith_splitOn sep cs]
  exact mem_joinWith_of_mem hpiece hc

theorem notMem_forwardSlashes (s : String) : '\\' ∉ (forwardSlashes s).toList := by
  simp only [forwardSlashes, replaceChar, String.toList_ofList, List.mem_map, not_exists, not_and]
  intro c _
  split
  · decide
  · assumption

theorem forwardSlashes_eq {s : String} (h : '\\' ∉ s.toList) : forwardSlashes s = s := by
  have hkept : ∀ c ∈ s.toList, (if c = '\\' then '/' else c) = id c :=
    fun c hc => if_neg fun heq : c = '\\' => h (heq ▸ hc)
  apply String.toList_inj.mp
  rw [forwardSlashes, replaceChar, String.toList_ofList, List.map_congr_left hkept, List.map_id]

theorem head?_forwardSlashes {s : String} (h : s.toList.head? = some '/') :
    (forwardSlashes s).toList.head? = some '/' := by
  simp [forwardSlashes, replaceChar, h]

end Text

namespace FileTree

/-- Whether a name may stand in a directory. -/
def isName (name : Name) : Bool :=
  name != [] && name != ['.'] && name != ['.', '.'] && !name.contains '/'

theorem isName_iff {name : Name} :
    isName name = true ↔ name ≠ [] ∧ name ≠ ['.'] ∧ name ≠ ['.', '.'] ∧ '/' ∉ name := by
  simp [isName, and_assoc]

end FileTree

namespace Path

open FileTree (Name Location isName isName_iff pathOf)

/-- The path that goes on from a path through names. -/
def through (p : Path) (names : Location) : Path :=
  names.foldl (fun p name => p.child (String.ofList name)) p

@[simp] theorem through_nil (p : Path) : p.through [] = p := rfl

theorem through_cons (p : Path) (name : Name) (names : Location) :
    p.through (name :: names) = (p.child (String.ofList name)).through names := rfl

/-! ## The same place -/

theorem same_iff {p q : Path} : p.same q = true ↔ p.parts = q.parts := by
  simp [same]

theorem listed_iff {p : Path} {paths : List Path} :
    p.listed paths = true ↔ ∃ q ∈ paths, p.parts = q.parts := by
  simp [listed, same]

theorem listed_of_mem {p : Path} {paths : List Path} (h : p ∈ paths) : p.listed paths = true :=
  listed_iff.mpr ⟨p, h, rfl⟩

/-! ## Steps of a path -/

@[simp] theorem chars_mk (cs : List Char) : chars ⟨String.ofList cs⟩ = cs := by simp [chars]

theorem chars_eq_of_isAbsolute {p : Path} (h : p.isAbsolute = true) : ∃ cs, p.chars = '/' :: cs := by
  simp only [isAbsolute, beq_iff_eq] at h
  cases hc : p.chars with
  | nil => simp [hc] at h
  | cons c cs => simp [hc] at h; exact ⟨cs, by rw [h]⟩

theorem isAbsolute_of_chars {p : Path} {cs : List Char} (h : p.chars = '/' :: cs) :
    p.isAbsolute = true := by
  simp [isAbsolute, h]

theorem segments_of_chars {p : Path} {cs : List Char} (h : p.chars = '/' :: cs) :
    p.segments = Text.splitOn '/' cs := by
  simp [segments, isAbsolute_of_chars h, h]

theorem parts_of_isAbsolute {p : Path} (h : p.isAbsolute = true) :
    p.parts = .root :: stepsOf p.segments := by
  simp [parts, h]

theorem stepsOf_append (xs ys : List (List Char)) : stepsOf (xs ++ ys) = stepsOf xs ++ stepsOf ys := by
  simp [stepsOf]

@[simp] theorem stepsOf_blank : stepsOf [[]] = [] := rfl

theorem stepsOf_name {name : Name} (h : isName name = true) : stepsOf [name] = [.name name] := by
  obtain ⟨hne, hdot, hdots, -⟩ := isName_iff.mp h
  have hstep : isStep name = true := by simp [isStep, hne, hdot]
  simp [stepsOf, stepOf, hstep, hdots]

theorem isAbsolute_forwardSlashes {text : String} (h : (⟨text⟩ : Path).isAbsolute = true) :
    (⟨Text.forwardSlashes text⟩ : Path).isAbsolute = true := by
  simp only [isAbsolute, chars, beq_iff_eq] at h ⊢
  exact Text.head?_forwardSlashes h

theorem isAbsolute_of_notMem {piece : List Char} (h : '/' ∉ piece) :
    isAbsolute ⟨String.ofList piece⟩ = false := by
  cases piece with
  | nil => rfl
  | cons c cs =>
      have hc : c ≠ '/' := fun hc => h (by simp [hc])
      simp only [isAbsolute, chars_mk, List.head?_cons]
      simpa using hc

/-- The text of a path with more behind it: a slash is put in between unless there is one. -/
theorem chars_child (p : Path) {behind : List Char}
    (h : isAbsolute ⟨String.ofList behind⟩ = false) :
    (p.child (String.ofList behind)).chars =
      if p.chars = [] ∨ p.chars.getLast? = some '/' then p.chars ++ behind
      else p.chars ++ '/' :: behind := by
  have hblank : (p.text.isEmpty || p.chars.getLast? == some '/') = true ↔
      p.chars = [] ∨ p.chars.getLast? = some '/' := by
    simp [chars, String.isEmpty_iff]
  simp only [child, join, h, Bool.false_eq_true, if_false, hblank]
  split <;> simp [chars]

/-- A text goes on with more behind a slash, which it may end in already. -/
theorem stepsOf_splitOn_append {front behind joined : List Char}
    (h : (joined = front ++ behind ∧ (front = [] ∨ front.getLast? = some '/')) ∨
      joined = front ++ '/' :: behind) :
    stepsOf (Text.splitOn '/' joined) =
      stepsOf (Text.splitOn '/' front) ++ stepsOf (Text.splitOn '/' behind) := by
  rcases h with ⟨rfl, rfl | hslash⟩ | rfl
  · simp [Text.splitOn]
  · obtain ⟨start, rfl⟩ := List.getLast?_eq_some_iff.mp hslash
    have hfront : stepsOf (Text.splitOn '/' (start ++ ['/'])) = stepsOf (Text.splitOn '/' start) := by
      rw [Text.splitOn_append_cons, stepsOf_append]
      simp [Text.splitOn]
    rw [hfront, List.append_assoc, List.singleton_append, Text.splitOn_append_cons, stepsOf_append]
  · rw [Text.splitOn_append_cons, stepsOf_append]

theorem segments_of_not_isAbsolute {p : Path} (h : p.isAbsolute = false) :
    p.segments = Text.splitOn '/' p.chars := by
  simp [segments, h]

/-- A path with more behind it has its own steps and those behind it. -/
theorem stepsOf_segments_child (p : Path) {behind : List Char}
    (h : isAbsolute ⟨String.ofList behind⟩ = false) :
    (p.child (String.ofList behind)).isAbsolute = p.isAbsolute ∧
      stepsOf (p.child (String.ofList behind)).segments =
        stepsOf p.segments ++ stepsOf (Text.splitOn '/' behind) := by
  have hchild := chars_child p h
  cases hp : p.isAbsolute with
  | true =>
      obtain ⟨cs, hcs⟩ := chars_eq_of_isAbsolute hp
      rw [hcs] at hchild
      by_cases hend : cs = [] ∨ cs.getLast? = some '/'
      · have hslash : ('/' :: cs).getLast? = some '/' := by
          rcases hend with rfl | hend
          · rfl
          · rw [List.getLast?_cons, hend, Option.getD_some]
        have hc : (p.child (String.ofList behind)).chars = '/' :: (cs ++ behind) := by
          rw [hchild, if_pos (Or.inr hslash), List.cons_append]
        refine ⟨isAbsolute_of_chars hc, ?_⟩
        rw [segments_of_chars hc, segments_of_chars hcs]
        exact stepsOf_splitOn_append (Or.inl ⟨rfl, hend⟩)
      · obtain ⟨hne, hlast⟩ := not_or.mp hend
        have hslash : ('/' :: cs).getLast? ≠ some '/' := by
          obtain ⟨c, hc⟩ := Option.ne_none_iff_exists'.mp fun h => hne (List.getLast?_eq_none_iff.mp h)
          rw [List.getLast?_cons, hc, Option.getD_some]
          rwa [hc] at hlast
        have hc : (p.child (String.ofList behind)).chars = '/' :: (cs ++ '/' :: behind) := by
          rw [hchild, if_neg (not_or.mpr ⟨by simp, hslash⟩), List.cons_append]
        refine ⟨isAbsolute_of_chars hc, ?_⟩
        rw [segments_of_chars hc, segments_of_chars hcs]
        exact stepsOf_splitOn_append (Or.inr rfl)
  | false =>
      have habs : (p.child (String.ofList behind)).isAbsolute = false := by
        simp only [isAbsolute, beq_eq_false_iff_ne, ne_eq, chars_mk] at hp h ⊢
        rw [hchild]
        cases hc : p.chars with
        | nil => simpa [hc] using h
        | cons c cs =>
            rw [hc] at hp
            split <;> simpa using hp
      refine ⟨habs, ?_⟩
      rw [segments_of_not_isAbsolute habs, segments_of_not_isAbsolute hp, hchild]
      split
      · rename_i hend
        exact stepsOf_splitOn_append (Or.inl ⟨rfl, hend⟩)
      · exact stepsOf_splitOn_append (Or.inr rfl)

theorem steps_child (p : Path) {behind : String} (h : (⟨behind⟩ : Path).isAbsolute = false) :
    (p.child behind).isAbsolute = p.isAbsolute ∧
      stepsOf (p.child behind).segments =
        stepsOf p.segments ++ stepsOf (Text.splitOn '/' behind.toList) := by
  obtain ⟨cs, rfl⟩ : ∃ cs, behind = String.ofList cs := ⟨behind.toList, by simp⟩
  rw [String.toList_ofList]
  exact stepsOf_segments_child p h

/-- Every name of a list may stand in a directory. -/
def AreNames (names : Location) : Prop := ∀ name ∈ names, isName name = true

theorem AreNames.notMem {names : Location} (h : AreNames names) :
    ∀ name ∈ names, '/' ∉ name := fun name hname => (isName_iff.mp (h name hname)).2.2.2

theorem AreNames.append {names others : Location} (h : AreNames names) (hothers : AreNames others) :
    AreNames (names ++ others) := List.forall_mem_append.mpr ⟨h, hothers⟩

theorem stepsOf_names {names : Location} (h : AreNames names) :
    stepsOf names = names.map .name := by
  induction names with
  | nil => rfl
  | cons name rest ih =>
      have hname : stepsOf [name] = [.name name] := stepsOf_name (h name (by simp))
      have hrest := ih fun n hn => h n (by simp [hn])
      rw [← List.singleton_append, stepsOf_append, hname, hrest]
      rfl

/-- Names behind a path are steps behind its own. -/
theorem steps_through (p : Path) {names : Location} (h : ∀ name ∈ names, '/' ∉ name) :
    (p.through names).isAbsolute = p.isAbsolute ∧
      stepsOf (p.through names).segments = stepsOf p.segments ++ stepsOf names := by
  induction names generalizing p with
  | nil => simp [stepsOf]
  | cons name rest ih =>
      have hname : '/' ∉ name := h name (by simp)
      obtain ⟨habs, hsteps⟩ := stepsOf_segments_child p (isAbsolute_of_notMem hname)
      obtain ⟨habs', hsteps'⟩ := ih (p.child (String.ofList name)) fun n hn => h n (by simp [hn])
      refine ⟨habs'.trans habs, ?_⟩
      rw [through_cons, hsteps', hsteps, Text.splitOn_of_notMem hname, List.append_assoc,
        ← stepsOf_append, List.singleton_append]

theorem through_isAbsolute {p : Path} (hp : p.isAbsolute = true) {names : Location}
    (h : ∀ name ∈ names, '/' ∉ name) :
    (p.through names).isAbsolute = true ∧
      stepsOf (p.through names).segments = stepsOf p.segments ++ stepsOf names := by
  obtain ⟨habs, hsteps⟩ := steps_through p h
  exact ⟨habs.trans hp, hsteps⟩

/-! ## Normal forms -/

theorem foldl_take_names (stack : List (List Char)) (names : Location) :
    (names.map Part.name).foldl take stack = names.reverse ++ stack := by
  induction names generalizing stack with
  | nil => rfl
  | cons name rest ih => simp [take, ih]

/-- Names behind other steps stay as they are. -/
theorem names_append_names (parts : List Part) (added : Location) :
    names (parts ++ added.map .name) = names parts ++ added := by
  simp [names, List.foldl_append, foldl_take_names]

theorem normalize_of_isAbsolute {p : Path} (hp : p.isAbsolute = true) :
    p.normalize = pathOf (names p.parts) := by
  simp [normalize, hp, pathOf]

/-- The normal form of a path that goes on through names goes on through the same names. -/
theorem normalize_through {p : Path} (hp : p.isAbsolute = true) {added : Location}
    (h : AreNames added) :
    (p.through added).normalize = pathOf (names p.parts ++ added) := by
  obtain ⟨habs, hsteps⟩ := through_isAbsolute hp h.notMem
  rw [normalize_of_isAbsolute habs, parts_of_isAbsolute habs, hsteps, stepsOf_names h,
    ← List.cons_append, ← parts_of_isAbsolute hp, names_append_names]

/-- A name among the steps is one of the pieces. -/
theorem mem_of_mem_stepsOf {segments : List (List Char)} {name : Name}
    (h : Part.name name ∈ stepsOf segments) : name ∈ segments := by
  simp only [stepsOf, List.mem_map, List.mem_filter] at h
  obtain ⟨segment, ⟨hmem, -⟩, hof⟩ := h
  unfold stepOf at hof
  split at hof
  · cases hof
  · exact Part.name.inj hof ▸ hmem

theorem isName_of_mem_stepsOf {segments : List (List Char)}
    (h : ∀ segment ∈ segments, '/' ∉ segment) {name : Name}
    (hname : Part.name name ∈ stepsOf segments) : isName name = true := by
  simp only [stepsOf, List.mem_map, List.mem_filter] at hname
  obtain ⟨segment, ⟨hmem, hstep⟩, hof⟩ := hname
  by_cases hup : segment = ['.', '.']
  · simp [stepOf, hup] at hof
  · simp only [stepOf, hup, if_false, Part.name.injEq] at hof
    subst hof
    simp only [isStep, Bool.and_eq_true, bne_iff_ne] at hstep
    exact isName_iff.mpr ⟨hstep.1, hstep.2, hup, h segment hmem⟩

theorem mem_foldl_take {parts : List Part} {stack : List (List Char)} {name : Name}
    (h : name ∈ parts.foldl take stack) : name ∈ stack ∨ Part.name name ∈ parts := by
  induction parts generalizing stack with
  | nil => exact Or.inl h
  | cons part rest ih =>
      rcases ih h with hstack | hrest
      · cases part with
        | name text =>
            rcases List.mem_cons.mp hstack with rfl | hstack
            · exact Or.inr (by simp)
            · exact Or.inl hstack
        | up => exact Or.inl (List.mem_of_mem_tail hstack)
        | root => exact Or.inl hstack
        | here => exact Or.inl hstack
      · exact Or.inr (by simp [hrest])

/-- The names that are left of the steps of a path may all stand in directories. -/
theorem areNames_steps (p : Path) : AreNames (names (stepsOf p.segments)) := by
  intro name hname
  rw [names, List.mem_reverse] at hname
  rcases mem_foldl_take hname with h | h
  · simp at h
  · exact isName_of_mem_stepsOf (fun segment hsegment => Text.notMem_of_mem_splitOn hsegment) h

/-- The names of a normal form may all stand in directories. -/
theorem areNames_names {p : Path} (hp : p.isAbsolute = true) : AreNames (names p.parts) := by
  have hnames : names p.parts = names (stepsOf p.segments) := by
    rw [parts_of_isAbsolute hp]
    rfl
  rw [hnames]
  exact areNames_steps p

/-! ## Locations as paths -/

@[simp] theorem chars_pathOf (location : Location) :
    (pathOf location).chars = '/' :: Text.joinWith '/' location := by
  exact chars_mk _

@[simp] theorem isAbsolute_pathOf (location : Location) : (pathOf location).isAbsolute = true :=
  isAbsolute_of_chars (chars_pathOf location)

/-- The names of a normal form are pieces of the path. -/
theorem mem_of_mem_names {p : Path} (hp : p.isAbsolute = true) {name : Name}
    (hname : name ∈ names p.parts) {c : Char} (hc : c ∈ name) : c ∈ p.chars := by
  rw [names, List.mem_reverse, parts_of_isAbsolute hp] at hname
  rcases mem_foldl_take hname with h | h
  · simp at h
  · obtain ⟨cs, hcs⟩ := chars_eq_of_isAbsolute hp
    have hmem := mem_of_mem_stepsOf (List.mem_of_ne_of_mem (by simp) h)
    rw [segments_of_chars hcs] at hmem
    rw [hcs]
    exact List.mem_cons_of_mem _ (Text.mem_of_mem_splitOn hmem hc)

/-- A normal form has no characters of its own but slashes. -/
theorem mem_of_mem_normalize {p : Path} (hp : p.isAbsolute = true) {c : Char}
    (hc : c ∈ p.normalize.chars) : c = '/' ∨ c ∈ p.chars := by
  rw [normalize_of_isAbsolute hp, chars_pathOf, List.mem_cons] at hc
  rcases hc with hc | hc
  · exact Or.inl hc
  · rcases Text.mem_joinWith hc with hc | ⟨name, hname, hc⟩
    · exact Or.inl hc
    · exact Or.inr (mem_of_mem_names hp hname hc)

theorem isAbsolute_parent {p : Path} (h : p.isAbsolute = true) : p.parent.isAbsolute = true := by
  unfold parent parent?
  rw [h]
  split
  · rfl
  · exact isAbsolute_pathOf _

theorem segments_pathOf {location : Location} (hne : location ≠ []) (h : AreNames location) :
    (pathOf location).segments = location := by
  rw [segments_of_chars (chars_pathOf location), Text.splitOn_joinWith hne h.notMem]

theorem parts_pathOf {location : Location} (h : AreNames location) :
    (pathOf location).parts = .root :: location.map .name := by
  rw [parts_of_isAbsolute (isAbsolute_pathOf location)]
  by_cases hne : location = []
  · subst hne; rfl
  · rw [segments_pathOf hne h, stepsOf_names h]

theorem names_parts_pathOf {location : Location} (h : AreNames location) :
    names (pathOf location).parts = location := by
  have := names_append_names [.root] location
  simpa [parts_pathOf h, names, take] using this

theorem normalize_pathOf {location : Location} (h : AreNames location) :
    (pathOf location).normalize = pathOf location := by
  rw [normalize_of_isAbsolute (isAbsolute_pathOf location), names_parts_pathOf h]

theorem pathOf_injective {location other : Location} (h : AreNames location) (h' : AreNames other)
    (heq : pathOf location = pathOf other) : location = other := by
  rw [← names_parts_pathOf h, heq, names_parts_pathOf h']

theorem eq_of_chars_eq {p q : Path} (h : p.chars = q.chars) : p = q := by
  cases p
  cases q
  simp only [chars, String.toList_inj] at h
  rw [h]

theorem chars_ofSegments (absolute : Bool) (pieces : List Name) :
    (ofSegments absolute pieces).chars =
      if absolute then '/' :: Text.joinWith '/' pieces else Text.joinWith '/' pieces :=
  chars_mk _

/-- The text of a path ends in its last name, behind a slash if there is anything before it. -/
theorem exists_front (absolute : Bool) (location : Location) :
    ∃ front : List Char, (front = [] ∨ front.getLast? = some '/') ∧
      ∀ last, (ofSegments absolute (location ++ [last])).chars = front ++ last := by
  by_cases hne : location = []
  · subst hne
    cases absolute with
    | true => exact ⟨['/'], Or.inr rfl, fun last => chars_mk _⟩
    | false => exact ⟨[], Or.inl rfl, fun last => chars_mk _⟩
  · cases absolute with
    | true =>
        refine ⟨'/' :: Text.joinWith '/' location ++ ['/'], Or.inr List.getLast?_concat, fun last => ?_⟩
        simp [chars_ofSegments, Text.joinWith_concat '/' hne]
    | false =>
        refine ⟨Text.joinWith '/' location ++ ['/'], Or.inr List.getLast?_concat, fun last => ?_⟩
        simp [chars_ofSegments, Text.joinWith_concat '/' hne]

/-- To go on from names through one more is to put it behind them. -/
theorem child_ofSegments (absolute : Bool) {location : Location} (hlocation : AreNames location)
    {name : Name} (h : isName name = true) :
    (ofSegments absolute location).child (String.ofList name) =
      ofSegments absolute (location ++ [name]) := by
  apply eq_of_chars_eq
  rw [chars_child _ (isAbsolute_of_notMem (isName_iff.mp h).2.2.2)]
  rcases List.eq_nil_or_concat' location with rfl | ⟨before, last, rfl⟩
  · cases absolute <;> simp [chars_ofSegments, Text.joinWith]
  · obtain ⟨front, -, hends⟩ := exists_front absolute before
    obtain ⟨hne, -, -, hslash⟩ := isName_iff.mp (hlocation last (by simp))
    have hopen : ¬((ofSegments absolute (before ++ [last])).chars = [] ∨
        (ofSegments absolute (before ++ [last])).chars.getLast? = some '/') := by
      rw [hends]
      rintro (h | h)
      · exact hne (List.append_eq_nil_iff.mp h).2
      · rw [List.getLast?_append_of_ne_nil _ hne] at h
        exact hslash (List.mem_of_getLast? h)
    have hsome : before ++ [last] ≠ [] := by simp
    have hjoin := Text.joinWith_concat '/' hsome name
    rw [if_neg hopen]
    cases absolute <;> simp only [chars_ofSegments, hjoin, if_true, Bool.false_eq_true, if_false,
      List.cons_append]

/-- To go on from a location through names is to go on in its path. -/
theorem pathOf_through {location added : Location} (hlocation : AreNames location)
    (h : AreNames added) : (pathOf location).through added = pathOf (location ++ added) := by
  induction added generalizing location with
  | nil => simp
  | cons name rest ih =>
      have hname : isName name = true := h name (by simp)
      have hlonger : AreNames (location ++ [name]) := hlocation.append (List.forall_mem_singleton.mpr hname)
      rw [through_cons, pathOf, child_ofSegments true hlocation hname, ← pathOf, ih hlonger fun n hn => h n (by simp [hn])]
      simp

end Path

end ScopedCheck
