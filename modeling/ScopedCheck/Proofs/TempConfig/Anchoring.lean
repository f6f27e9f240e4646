import ScopedCheck.Import.Resolve
import ScopedCheck.Proofs.Path.Normal
import ScopedCheck.TempConfig.Content
/-! # Anchored targets and their stars

A temporary config writes the targets of import patterns as absolute normal forms, with their stars
still in them. Whoever fills in the stars there comes to the same path as a resolver of the config, which
fills them in first and takes the normal form last: what stands for a star comes behind every `..` that
takes back a name of the anchor, so that the two meet the same stack of names. -/

namespace ScopedCheck

open FileTree (Name Location pathOf)

namespace Text

/-- What is put together from pieces is cut where the pieces are cut. -/
theorem splitOn_joinWith_eq_flatMap (sep : Char) {pieces : List (List Char)} (hne : pieces ≠ []) :
    splitOn sep (joinWith sep pieces) = pieces.flatMap (splitOn sep) := by
  induction pieces with
  | nil => exact absurd rfl hne
  | cons piece rest ih =>
      cases rest with
      | nil => simp [joinWith]
      | cons next rest =>
          have hsome := List.cons_ne_nil next rest
          rw [joinWith, splitOn_append_cons, ih hsome]
          · rfl
          · exact hsome

/-- Characters with others in the place of each occurrence of one. -/
def filled (c : Char) (new cs : List Char) : List Char := cs.flatMap fun d => if d = c then new else [d]

theorem toList_substitute (c : Char) (new s : String) :
    (substitute c new s).toList = filled c new.toList s.toList := by
  simp [substitute, filled]

theorem filled_cons_of_ne {c d : Char} (h : d ≠ c) (new cs : List Char) :
    filled c new (d :: cs) = d :: filled c new cs := by
  simp [filled, h]

theorem filled_append (c : Char) (new cs ds : List Char) :
    filled c new (cs ++ ds) = filled c new cs ++ filled c new ds :=
  List.flatMap_append

theorem filled_of_notMem {c : Char} (new : List Char) {cs : List Char} (h : c ∉ cs) :
    filled c new cs = cs := by
  induction cs with
  | nil => rfl
  | cons d cs ih =>
      obtain ⟨hd, hcs⟩ := not_or.mp (List.mem_cons.not.mp h)
      rw [filled_cons_of_ne (Ne.symm hd), ih hcs]

theorem filled_joinWith {c sep : Char} (h : sep ≠ c) (new : List Char) (pieces : List (List Char)) :
    filled c new (joinWith sep pieces) = joinWith sep (pieces.map (filled c new)) := by
  induction pieces with
  | nil => rfl
  | cons piece rest ih =>
      cases rest with
      | nil => rfl
      | cons next rest =>
          have hsome := List.cons_ne_nil next rest
          rw [joinWith, filled_append, filled_cons_of_ne h, ih]
          · rfl
          · exact hsome

/-- To fill in a character is to fill it in piece by piece; a piece may fall into several. -/
theorem splitOn_filled {c sep : Char} (h : sep ≠ c) (new cs : List Char) :
    splitOn sep (filled c new cs) =
      (splitOn sep cs).flatMap fun piece => splitOn sep (filled c new piece) := by
  conv_lhs => rw [← joinWith_splitOn sep cs, filled_joinWith h]
  rw [splitOn_joinWith_eq_flatMap _ (by simp [splitOn_ne_nil]), List.flatMap_map]

end Text

namespace Path

/-! ## Steps with their stars filled in -/

/-- What a step becomes when the stars in its name are filled in. -/
def Part.filled (wildcard : List Char) : Part → List Part
  | .name text => stepsOf (Text.splitOn '/' (Text.filled '*' wildcard text))
  | part => [part]

/-- One piece with its stars filled in has the steps that its own step becomes, if it is one. -/
theorem stepsOf_filled_piece (wildcard : List Char) (piece : List Char) :
    stepsOf (Text.splitOn '/' (Text.filled '*' wildcard piece)) =
      (stepsOf [piece]).flatMap (Part.filled wildcard) := by
  cases hstep : isStep piece with
  | false =>
      have hnone : piece = [] ∨ piece = ['.'] := by simpa [isStep, imp_iff_not_or] using hstep
      rcases hnone with rfl | rfl <;> rfl
  | true =>
      have hself : stepsOf [piece] = [stepOf piece] := by simp [stepsOf, hstep]
      rw [hself, List.flatMap_singleton, stepOf]
      split
      · rename_i hup
        subst hup
        rfl
      · rfl

/-- The steps of a text with its stars filled in come from its own steps, one by one. -/
theorem stepsOf_splitOn_filled (wildcard cs : List Char) :
    stepsOf (Text.splitOn '/' (Text.filled '*' wildcard cs)) =
      (stepsOf (Text.splitOn '/' cs)).flatMap (Part.filled wildcard) := by
  rw [Text.splitOn_filled (by decide)]
  generalize Text.splitOn '/' cs = pieces
  induction pieces with
  | nil => rfl
  | cons piece rest ih =>
      rw [List.flatMap_cons, stepsOf_append, stepsOf_filled_piece, ih, ← List.flatMap_append,
        ← stepsOf_append, List.singleton_append]

/-- What is left of steps stands for them, whatever comes behind. -/
theorem names_append_of_names (front behind : List Part) :
    names ((names front).map .name ++ behind) = names (front ++ behind) := by
  have hstack : (names front).reverse ++ [] = front.foldl take [] := by simp [names]
  rw [names, List.foldl_append, foldl_take_names, hstack, ← List.foldl_append, names]

/-- The normal form of a location with its stars filled in. -/
theorem normalize_filled_pathOf (wildcard : List Char) {location : Location} (h : AreNames location) :
    (⟨String.ofList (Text.filled '*' wildcard (pathOf location).chars)⟩ : Path).normalize =
      pathOf (names ((location.map .name).flatMap (Part.filled wildcard))) := by
  have hsteps : stepsOf (Text.splitOn '/' (Text.joinWith '/' location)) = location.map .name := by
    rw [← segments_of_chars (chars_pathOf location)]
    exact (List.cons.inj ((parts_of_isAbsolute (isAbsolute_pathOf location)).symm.trans
      (parts_pathOf h))).2
  have hchars : (⟨String.ofList (Text.filled '*' wildcard (pathOf location).chars)⟩ : Path).chars =
      '/' :: Text.filled '*' wildcard (Text.joinWith '/' location) := by
    rw [chars_mk, chars_pathOf, Text.filled_cons_of_ne (by decide)]
  rw [normalize_eq, isAbsolute_of_chars hchars, segments_of_chars hchars, stepsOf_splitOn_filled, hsteps]
  rfl

/-! ## Paths that climb first -/

/-- Whether each `..` of a path stands in front of its names. -/
def climbsFirst (p : Path) : Bool := !((stepsOf p.segments).dropWhile (· == .up)).contains .up

/-- A path that climbs first has its `..` in front, and then names only. -/
theorem exists_of_climbsFirst {p : Path} (h : p.climbsFirst = true) :
    ∃ (ups : List Part) (location : Location), stepsOf p.segments = ups ++ location.map .name ∧
      ∀ part ∈ ups, part = .up := by
  simp only [climbsFirst, Bool.not_eq_true', List.contains_eq_mem, decide_eq_false_iff_not] at h
  have hnames : ∀ part ∈ (stepsOf p.segments).dropWhile (· == .up), .name part.nameText = part := by
    intro part hpart
    have hmove := isMove_of_mem_stepsOf ((List.dropWhile_sublist _).subset hpart)
    cases part with
    | name text => rfl
    | up => exact absurd hpart h
    | root => exact absurd hmove (by decide)
    | here => exact absurd hmove (by decide)
  refine ⟨(stepsOf p.segments).takeWhile (· == .up),
    ((stepsOf p.segments).dropWhile (· == .up)).map Part.nameText, ?_, ?_⟩
  · have hkept := List.map_congr_left hnames
    rw [List.map_id'] at hkept
    rw [List.map_map, Function.comp_def, hkept, List.takeWhile_append_dropWhile]
  · intro part hpart
    exact beq_iff_eq.mp (List.all_eq_true.mp List.all_takeWhile part hpart)

/-- Steps that climb first with their stars filled in. -/
theorem flatMap_filled {ups : List Part} (hups : ∀ part ∈ ups, part = .up) (wildcard : List Char)
    (behind : List Part) :
    (ups ++ behind).flatMap (Part.filled wildcard) = ups ++ behind.flatMap (Part.filled wildcard) := by
  induction ups with
  | nil => rfl
  | cons part rest ih =>
      obtain rfl := hups part (List.mem_cons_self ..)
      have hrest := ih fun other hother => hups other (List.mem_cons_of_mem _ hother)
      rw [List.cons_append, List.flatMap_cons, hrest]
      rfl

/-- Names without stars stay as they are. -/
theorem flatMap_filled_of_notMem (wildcard : List Char) {location : Location} (h : AreNames location)
    (hstar : ∀ name ∈ location, '*' ∉ name) :
    (location.map .name).flatMap (Part.filled wildcard) = location.map .name := by
  induction location with
  | nil => rfl
  | cons name rest ih =>
      have hname := h name (List.mem_cons_self ..)
      have hslash := (FileTree.isName_iff.mp hname).2.2.2
      have hself : Part.filled wildcard (.name name) = [.name name] := by
        rw [Part.filled, Text.filled_of_notMem _ (hstar name (List.mem_cons_self ..)),
          Text.splitOn_of_notMem hslash, stepsOf_name hname]
      have hrest := ih (fun other hother => h other (List.mem_cons_of_mem _ hother))
        fun other hother => hstar other (List.mem_cons_of_mem _ hother)
      rw [List.map_cons, List.flatMap_cons, hself, hrest, List.singleton_append]

/-- What is left of the steps of a path and of steps that climb is part of the path. -/
theorem mem_of_mem_names_climbed {p : Path} (hp : p.isAbsolute = true) {ups : List Part}
    (hups : ∀ part ∈ ups, part = .up) {name : Name} (hname : name ∈ names (stepsOf p.segments ++ ups))
    {c : Char} (hc : c ∈ name) : c ∈ p.chars := by
  rw [names, List.mem_reverse] at hname
  rcases mem_foldl_take hname with h | h
  · simp at h
  · rcases List.mem_append.mp h with h | h
    · obtain ⟨cs, hcs⟩ := chars_eq_of_isAbsolute hp
      have hmem := mem_of_mem_stepsOf h
      rw [segments_of_chars hcs] at hmem
      rw [hcs]
      exact List.mem_cons_of_mem _ (Text.mem_of_mem_splitOn hmem hc)
    · cases hups _ h

/-- To fill in stars commutes with joining to an anchor without stars and taking the normal form, as
long as the path climbs first and stays relative. -/
theorem normalize_substitute_child {anchor : Path} (hanchor : anchor.isAbsolute = true)
    (hstar : '*' ∉ anchor.chars) {plain : String} (hplain : (⟨plain⟩ : Path).isAbsolute = false)
    (hclimbs : (⟨plain⟩ : Path).climbsFirst = true) {wildcard : String}
    (hfilled : (⟨Text.substitute '*' wildcard plain⟩ : Path).isAbsolute = false) :
    (⟨Text.substitute '*' wildcard (anchor.child plain).normalize.text⟩ : Path).normalize =
      (anchor.child (Text.substitute '*' wildcard plain)).normalize := by
  obtain ⟨ups, location, hsteps, hups⟩ := exists_of_climbsFirst hclimbs
  rw [segments_of_not_isAbsolute hplain, chars] at hsteps
  obtain ⟨habs, hchild⟩ := steps_child anchor hplain
  -- the names of the anchor that are left when the path has climbed come first, and have no stars
  have hnames : names (stepsOf (anchor.child plain).segments) =
      names (stepsOf anchor.segments ++ ups) ++ location := by
    rw [hchild, hsteps, ← List.append_assoc, names_append_names]
  have hall := areNames_steps (anchor.child plain)
  rw [hnames] at hall
  have hfront : AreNames (names (stepsOf anchor.segments ++ ups)) :=
    fun name hname => hall name (List.mem_append_left _ hname)
  have hbare : ∀ name ∈ names (stepsOf anchor.segments ++ ups), '*' ∉ name :=
    fun name hname hc => hstar (mem_of_mem_names_climbed hanchor hups hname hc)
  have hleft := normalize_filled_pathOf wildcard.toList hall
  rw [List.map_append, List.flatMap_append, flatMap_filled_of_notMem _ hfront hbare,
    names_append_of_names] at hleft
  have hanchored : (anchor.child plain).normalize =
      pathOf (names (stepsOf anchor.segments ++ ups) ++ location) := by
    rw [normalize_eq, habs, hanchor, hnames]
    rfl
  rw [normalize_child _ hfilled, hanchor, Text.toList_substitute, stepsOf_splitOn_filled, hsteps,
    flatMap_filled hups, ← List.append_assoc, hanchored]
  exact hleft

end Path

namespace TempConfig

open Import

/-- A path that goes on from an anchor has the characters of both, and slashes. -/
theorem mem_of_mem_child {p : Path} {behind : String} (h : (⟨behind⟩ : Path).isAbsolute = false) {c : Char}
    (hc : c ∈ (p.child behind).chars) : c = '/' ∨ c ∈ p.chars ∨ c ∈ behind.toList := by
  obtain ⟨cs, rfl⟩ : ∃ cs, behind = String.ofList cs := ⟨behind.toList, by simp⟩
  rw [String.toList_ofList]
  rw [Path.chars_child p h] at hc
  split at hc
  · exact Or.inr (List.mem_append.mp hc)
  · rcases List.mem_append.mp hc with hc | hc
    · exact Or.inr (Or.inl hc)
    · rcases List.mem_cons.mp hc with hc | hc
      · exact Or.inl hc
      · exact Or.inr (Or.inr hc)

/-- A relative target outside of installed packages is anchored without any backslash. -/
theorem anchoredTarget_of_relative {anchor : Path} (hanchor : anchor.isAbsolute = true)
    (hslash : '\\' ∉ anchor.chars) {target : String}
    (hrelative : (⟨Alias.plain target⟩ : Path).isAbsolute = false)
    (houtside : (⟨Alias.plain target⟩ : Path).isInPackages = false) :
    anchoredTarget anchor target = (anchor.child (Alias.plain target)).normalize.text := by
  have habs := (Path.steps_child anchor hrelative).1
  rw [hanchor] at habs
  have hplain : '\\' ∉ (anchor.child (Alias.plain target)).normalize.chars := by
    intro hmem
    rcases Path.mem_of_mem_normalize habs hmem with h | h
    · exact absurd h (by decide)
    · rcases mem_of_mem_child hrelative h with h | h | h
      · exact absurd h (by decide)
      · exact hslash h
      · exact Text.notMem_forwardSlashes _ h
  rw [Alias.plain] at hrelative houtside
  simp only [anchoredTarget, hrelative, houtside, Bool.or_self, Bool.false_eq_true, if_false]
  exact Text.forwardSlashes_eq hplain

example : anchoredTarget ⟨"/p/q"⟩ " ..\\src\\*.ts" = "/p/src/*.ts" := by decide +kernel

/-- What stands for a star makes no target absolute unless it starts with a slash or is empty. -/
theorem isAbsolute_substitute {wildcard : String} (hsome : wildcard ≠ "")
    (hwildcard : (⟨wildcard⟩ : Path).isAbsolute = false) (plain : String) :
    (⟨Text.substitute '*' wildcard plain⟩ : Path).isAbsolute = (⟨plain⟩ : Path).isAbsolute := by
  obtain ⟨w, ws, hw⟩ : ∃ w ws, wildcard.toList = w :: ws :=
    List.exists_cons_of_ne_nil fun hnil => hsome (String.toList_inj.mp (by simpa using hnil))
  simp only [Path.isAbsolute, Path.chars, Text.toList_substitute, hw, List.head?_cons] at hwildcard ⊢
  cases plain.toList with
  | nil => rfl
  | cons c cs =>
      by_cases hc : c = '*'
      · subst hc
        simpa [Text.filled] using hwildcard
      · rw [Text.filled_cons_of_ne hc]
        rfl

/-- Filling in the stars of an anchored target leads to the path that a resolver with the same anchor
tries for the target. An absolute target must be written as it is read, and an empty text in the place of
the stars must not make a relative one absolute. -/
theorem normalize_anchoredTarget (r : Resolver) (target wildcard : String)
    (hanchor : r.anchor.isAbsolute = true) (hstar : '*' ∉ r.anchor.chars) (hslash : '\\' ∉ r.anchor.chars)
    (houtside : (⟨Alias.plain target⟩ : Path).isInPackages = false)
    (hclimbs : (⟨Alias.plain target⟩ : Path).climbsFirst = true)
    (hwildcard : (⟨wildcard⟩ : Path).isAbsolute = false)
    (hplain : (⟨Alias.plain target⟩ : Path).isAbsolute = true → Alias.plain target = target)
    (hempty : wildcard = "" → (⟨Text.substitute '*' "" (Alias.plain target)⟩ : Path).isAbsolute =
      (⟨Alias.plain target⟩ : Path).isAbsolute) :
    (⟨Text.substitute '*' wildcard (anchoredTarget r.anchor target)⟩ : Path).normalize =
      (r.filled (Alias.plain target) wildcard).normalize := by
  have hfilled : (⟨Text.substitute '*' wildcard (Alias.plain target)⟩ : Path).isAbsolute =
      (⟨Alias.plain target⟩ : Path).isAbsolute := by
    by_cases hnone : wildcard = ""
    · rw [hnone]
      exact hempty hnone
    · exact isAbsolute_substitute hnone hwildcard _
  cases habs : (⟨Alias.plain target⟩ : Path).isAbsolute with
  | true =>
      rw [habs] at hfilled
      have hkept : anchoredTarget r.anchor target = target := by
        rw [Alias.plain] at habs
        simp only [anchoredTarget, habs, Bool.true_or, if_true]
      rw [hkept, Resolver.filled, Path.join, hfilled, if_pos rfl, hplain habs]
  | false =>
      rw [habs] at hfilled
      rw [anchoredTarget_of_relative hanchor hslash habs houtside]
      exact Path.normalize_substitute_child hanchor hstar habs hclimbs hfilled

/-- A resolver that has nothing but an anchor. -/
def anchoredAt (anchor : Path) : Resolver := ⟨none, anchor, [], false⟩

theorem normalize_anchoredTarget_of_climbing :
    (⟨Text.substitute '*' "b/../../c" (anchoredTarget ⟨"/p/q"⟩ " ./../src/a*\\*.ts")⟩ : Path).normalize =
      ⟨"/p/c.ts"⟩ :=
  (normalize_anchoredTarget (anchoredAt ⟨"/p/q"⟩) " ./../src/a*\\*.ts" "b/../../c" (by decide +kernel)
    (by decide +kernel) (by decide +kernel) (by decide +kernel) (by decide +kernel) (by decide +kernel)
    (by decide +kernel) (by decide +kernel)).trans (by decide +kernel)

/-- A target in blanks that is read as an absolute one is kept with its blanks, and is a relative one
then. -/
theorem padded_absolute_target_moves :
    ¬∀ (r : Resolver) (target wildcard : String),
      r.anchor.isAbsolute = true → '*' ∉ r.anchor.chars →
      (⟨target⟩ : Path).isInPackages = false → (⟨target⟩ : Path).climbsFirst = true →
      (⟨wildcard⟩ : Path).isAbsolute = false →
      (⟨Text.substitute '*' wildcard (anchoredTarget r.anchor target)⟩ : Path).normalize =
        (r.filled (Alias.plain target) wildcard).normalize := by
  intro hmoves
  have hsame := hmoves (anchoredAt ⟨"/p"⟩) " /lib/*" "x" (by decide +kernel) (by decide +kernel)
    (by decide +kernel) (by decide +kernel) (by decide +kernel)
  exact absurd hsame (by decide +kernel)

end TempConfig

end ScopedCheck
