import ScopedCheck.Proofs.FileTree.Lookup
/-! # Lookups and spellings

Two paths that mean the same place and both lead somewhere lead to the same node, and the paths next
to them have the same normal forms. A normal form leads to a file as soon as some other spelling of
it does. -/

namespace ScopedCheck

namespace Text

/-- Fewer pieces are joined to a part of the text. -/
theorem joinWith_sublist (sep : Char) {pieces others : List (List Char)}
    (h : pieces.Sublist others) : (joinWith sep pieces).Sublist (joinWith sep others) := by
  induction h with
  | slnil => exact List.Sublist.refl _
  | @cons xs ys piece hsub ih =>
      cases ys with
      | nil =>
          rw [List.sublist_nil.mp hsub]
          exact List.nil_sublist _
      | cons next rest => exact (ih.cons sep).trans (List.sublist_append_right piece _)
  | @cons_cons xs ys piece hsub ih =>
      cases ys with
      | nil =>
          obtain rfl := List.sublist_nil.mp hsub
          exact List.Sublist.refl _
      | cons next rest =>
          cases xs with
          | nil => exact List.sublist_append_left piece _
          | cons first xs => exact List.Sublist.append (List.Sublist.refl piece) (ih.cons_cons sep)

theorem utf8ByteSize_ofList_cons (c : Char) (cs : List Char) :
    (String.ofList (c :: cs)).utf8ByteSize = c.utf8Size + (String.ofList cs).utf8ByteSize := by
  have happend : String.ofList (c :: cs) = String.singleton c ++ String.ofList cs := by
    apply String.toList_inj.mp
    simp
  rw [happend, String.utf8ByteSize_append, String.utf8ByteSize_singleton]

/-- A part of a text has no more bytes. -/
theorem utf8ByteSize_le {cs others : List Char} (h : cs.Sublist others) :
    (String.ofList cs).utf8ByteSize ≤ (String.ofList others).utf8ByteSize := by
  induction h with
  | slnil => exact Nat.le_refl _
  | cons c _ ih =>
      rw [utf8ByteSize_ofList_cons]
      omega
  | cons_cons c _ ih =>
      rw [utf8ByteSize_ofList_cons, utf8ByteSize_ofList_cons]
      omega

end Text

namespace Path

open FileTree (Name Location)

/-! ## Steps -/

theorem stepOf_injective {a b : List Char} (h : stepOf a = stepOf b) : a = b := by
  unfold stepOf at h
  split at h <;> split at h
  · rename_i ha hb
    rw [ha, hb]
  · cases h
  · cases h
  · exact Part.name.inj h

/-- Pieces have the same steps when they are the same up to those that are no steps. -/
theorem stepsOf_eq_iff {pieces others : List Name} :
    stepsOf pieces = stepsOf others ↔ pieces.filter isStep = others.filter isStep :=
  List.map_inj_right fun _ _ => stepOf_injective

/-- Whether a part leads somewhere else. -/
def Part.isMove : Part → Bool
  | .root | .here => false
  | .up | .name _ => true

theorem isMove_of_mem_stepsOf {pieces : List Name} {part : Part} (h : part ∈ stepsOf pieces) :
    part.isMove = true := by
  simp only [stepsOf, List.mem_map] at h
  obtain ⟨piece, -, rfl⟩ := h
  unfold stepOf
  split <;> rfl

theorem filter_stepsOf (pieces : List Name) : (stepsOf pieces).filter Part.isMove = stepsOf pieces :=
  List.filter_eq_self.mpr fun _ => isMove_of_mem_stepsOf

/-- The steps of a path are the parts of its meaning that lead somewhere else. -/
theorem filter_parts (p : Path) : p.parts.filter Part.isMove = stepsOf p.segments := by
  unfold parts
  split
  · rw [List.filter_cons_of_neg (by simp [Part.isMove]), filter_stepsOf]
  · split
    · rename_i rest hsegments
      rw [hsegments, List.filter_cons_of_neg (by simp [Part.isMove]), filter_stepsOf]
      rfl
    · exact filter_stepsOf _

theorem head?_parts_eq_root_iff (p : Path) : p.parts.head? = some .root ↔ p.isAbsolute = true := by
  cases habs : p.isAbsolute with
  | true => simp [parts, habs]
  | false =>
      have hroot : .root ∉ p.parts := by
        intro h
        unfold parts at h
        rw [habs] at h
        split at h
        · simp at *
        · split at h
          · rcases List.mem_cons.mp h with h | h
            · cases h
            · exact absurd (isMove_of_mem_stepsOf h) (by simp [Part.isMove])
          · exact absurd (isMove_of_mem_stepsOf h) (by simp [Part.isMove])
      simp only [Bool.false_eq_true, iff_false]
      exact fun h => hroot (List.mem_of_mem_head? h)

/-- The same places are both absolute or both relative, and have the same steps. -/
theorem steps_of_parts_eq {p q : Path} (h : p.parts = q.parts) :
    p.isAbsolute = q.isAbsolute ∧ stepsOf p.segments = stepsOf q.segments := by
  refine ⟨?_, ?_⟩
  · rw [Bool.eq_iff_iff, ← head?_parts_eq_root_iff, ← head?_parts_eq_root_iff, h]
  · rw [← filter_parts, ← filter_parts, h]

theorem foldl_take_filter (parts : List Part) (stack : List (List Char)) :
    (parts.filter Part.isMove).foldl take stack = parts.foldl take stack := by
  induction parts generalizing stack with
  | nil => rfl
  | cons part rest ih => cases part <;> simp [List.filter_cons, Part.isMove, take, ih]

/-- A normal form depends on the steps only. -/
theorem normalize_eq (p : Path) :
    p.normalize = ofSegments p.isAbsolute (names (stepsOf p.segments)) := by
  rw [normalize, ← filter_parts]
  simp only [names, foldl_take_filter]

/-- The normal form of a path with more behind it. -/
theorem normalize_child (p : Path) {behind : String} (h : (⟨behind⟩ : Path).isAbsolute = false) :
    (p.child behind).normalize = ofSegments p.isAbsolute
      (names (stepsOf p.segments ++ stepsOf (Text.splitOn '/' behind.toList))) := by
  obtain ⟨habs, hsteps⟩ := steps_child p h
  rw [normalize_eq, habs, hsteps]

/-- A path that is put together from pieces has their steps. A relative path must not start with an
empty piece. -/
theorem steps_ofSegments {absolute : Bool} {pieces : List Name}
    (hslash : ∀ piece ∈ pieces, '/' ∉ piece) (hhead : absolute = false → pieces.head? ≠ some []) :
    (ofSegments absolute pieces).isAbsolute = absolute ∧
      stepsOf (ofSegments absolute pieces).segments = stepsOf pieces := by
  cases absolute with
  | true =>
      refine ⟨isAbsolute_pathOf pieces, ?_⟩
      change stepsOf (FileTree.pathOf pieces).segments = _
      rw [segments_of_chars (chars_pathOf pieces)]
      by_cases hempty : pieces = []
      · subst hempty
        rfl
      · rw [Text.splitOn_joinWith hempty hslash]
  | false =>
      have hchars : (ofSegments false pieces).chars = Text.joinWith '/' pieces := chars_mk _
      have habs : (ofSegments false pieces).isAbsolute = false := by
        cases pieces with
        | nil => rfl
        | cons first rest =>
            obtain ⟨c, cs, rfl⟩ : ∃ c cs, first = c :: cs := by
              cases first with
              | nil => exact absurd rfl (hhead rfl)
              | cons c cs => exact ⟨c, cs, rfl⟩
            have hc : c ≠ '/' := fun hc => hslash _ (List.mem_cons_self ..) (by simp [hc])
            have hjoin : (Text.joinWith '/' ((c :: cs) :: rest)).head? = some c := by
              cases rest <;> rfl
            rw [isAbsolute, hchars, hjoin]
            simpa using hc
      refine ⟨habs, ?_⟩
      rw [segments_of_not_isAbsolute habs, hchars]
      by_cases hempty : pieces = []
      · subst hempty
        rfl
      · rw [Text.splitOn_joinWith hempty hslash]

/-- A relative path does not start with an empty piece. -/
theorem head?_segments {p : Path} (h : p.isAbsolute = false) (hne : p.text.isEmpty = false) :
    p.segments.head? ≠ some [] := by
  rw [segments_of_not_isAbsolute h]
  cases hc : p.chars with
  | nil =>
      have hempty : p.text = "" := String.toList_inj.mp (by simpa [chars] using hc)
      simp [hempty] at hne
  | cons c cs =>
      have hslash : c ≠ '/' := by
        intro heq
        simp [isAbsolute, hc, heq] at h
      obtain ⟨piece, rest, hsplit⟩ := List.exists_cons_of_ne_nil (Text.splitOn_ne_nil '/' cs)
      simp [Text.splitOn, hslash, hsplit]

end Path

namespace FileTree

/-! ## Lookups with fewer pieces -/

/-- Pieces of which some that are no steps are left out. -/
inductive Thinned : List Name → List Name → Prop
  | nil : Thinned [] []
  | keep {thin full : List Name} (piece : Name) (h : Thinned thin full) :
      Thinned (piece :: thin) (piece :: full)
  | drop {thin full : List Name} {blank : Name} (hblank : Path.isStep blank = false)
      (h : Thinned thin full) : Thinned thin (blank :: full)

theorem Thinned.append_left (front : List Name) {thin full : List Name} (h : Thinned thin full) :
    Thinned (front ++ thin) (front ++ full) := by
  induction front with
  | nil => exact h
  | cons piece rest ih => exact .keep piece ih

theorem thinned_filter (pieces : List Name) : Thinned (pieces.filter Path.isStep) pieces := by
  induction pieces with
  | nil => exact .nil
  | cons piece rest ih =>
      cases hstep : Path.isStep piece with
      | true =>
          rw [List.filter_cons_of_pos hstep]
          exact .keep piece ih
      | false =>
          rw [List.filter_cons_of_neg (by simp [hstep])]
          exact .drop hstep ih

theorem isStep_of_isLastName {name : Name} (h : IsLastName name) : Path.isStep name = true := by
  simp [Path.isStep, h.1, h.2.1]

/-- A lookup leads to the same place when pieces that are no steps are left out. -/
theorem Leads.thin {tree : FileTree} {links left : Nat} {here there : Location} {full : List Name}
    (h : Leads tree links here full left there) {thin : List Name} (hthin : Thinned thin full) :
    Leads tree links here thin left there := by
  induction h generalizing thin with
  | done links here =>
      cases hthin
      exact .done links here
  | stay hdir hpiece _ ih =>
      cases hthin with
      | keep _ hthin => exact .stay hdir hpiece (ih hthin)
      | drop _ hthin => exact ih hthin
  | up hdir _ ih =>
      cases hthin with
      | keep _ hthin => exact .up hdir (ih hthin)
      | drop hblank _ => exact absurd hblank (by decide)
  | enter hname hshort hnode hkind _ ih =>
      cases hthin with
      | keep _ hthin => exact .enter hname hshort hnode hkind (ih hthin)
      | drop hblank _ => exact absurd hblank (by rw [isStep_of_isLastName hname]; decide)
  | jump hname hshort hnode _ ih =>
      cases hthin with
      | keep _ hthin => exact .jump hname hshort hnode (ih (hthin.append_left _))
      | drop hblank _ => exact absurd hblank (by rw [isStep_of_isLastName hname]; decide)

/-- Paths that mean the same place and lead somewhere lead to the same node. -/
theorem node_eq_of_parts_eq {tree : FileTree} {p q : Path} (hparts : p.parts = q.parts)
    {node other : Node} (hp : tree.node p = .ok node) (hq : tree.node q = .ok other) :
    node = other := by
  obtain ⟨-, _, _, location, hpieces, hleads, hnode⟩ := node_eq_ok_iff.mp hp
  obtain ⟨-, _, _, place, hpieces', hleads', hother⟩ := node_eq_ok_iff.mp hq
  rw [segmentsOf_eq hpieces] at hleads
  rw [segmentsOf_eq hpieces'] at hleads'
  have hfilter := Path.stepsOf_eq_iff.mp (Path.steps_of_parts_eq hparts).2
  have hp := (hleads.thin (thinned_filter _)).follow_eq
  have hq := (hleads'.thin (thinned_filter _)).follow_eq
  rw [hfilter, hq] at hp
  obtain rfl := Except.ok.inj hp
  exact Option.some.inj (hnode.symm.trans hother)

/-! ## The path above a file -/

/-- The path above a file has the steps of the file without the last one. -/
theorem steps_parent {tree : FileTree} {path : Path} (h : tree.isFile path = true) :
    path.parent.isAbsolute = path.isAbsolute ∧
      ∃ last, Path.stepsOf path.segments = Path.stepsOf path.parent.segments ++ [last] := by
  obtain ⟨front, last, _, _, _, hconcat, hlast, -, -⟩ := isFile_concat h
  obtain ⟨blanks, hcut, hblanks⟩ := upToLastStep_append_blanks path.isAbsolute front
  have hmem : ∀ piece ∈ Path.upToLastStep path.isAbsolute front, piece ∈ path.segments := by
    intro piece hpiece
    rw [hconcat, hcut]
    simp [hpiece]
  obtain ⟨file, hfile⟩ := isFile_iff.mp h
  have hhead : path.isAbsolute = false →
      (Path.upToLastStep path.isAbsolute front).head? ≠ some [] := by
    intro hrelative hempty
    refine Path.head?_segments hrelative (node_eq_ok_iff.mp hfile).1 ?_
    rw [hconcat, hcut, List.append_assoc, List.head?_append, hempty, Option.some_or]
  obtain ⟨habs, hsteps⟩ :=
    Path.steps_ofSegments (fun piece hpiece => Text.notMem_of_mem_splitOn (hmem piece hpiece)) hhead
  have hnone : Path.stepsOf blanks = [] := by
    rw [Path.stepsOf, List.filter_eq_nil_iff.mpr fun blank hblank => by simp [hblanks blank hblank]]
    rfl
  rw [parent_eq hconcat hlast]
  refine ⟨habs, Path.stepOf last, ?_⟩
  rw [hsteps, hconcat, Path.stepsOf_append]
  conv_lhs => rw [hcut]
  rw [Path.stepsOf_append, hnone, List.append_nil]
  simp [Path.stepsOf, isStep_of_isLastName hlast]

/-- The paths next to two files at the same place have the same normal forms. -/
theorem normalize_parent_child {tree : FileTree} {p q : Path} (hparts : p.parts = q.parts)
    (hp : tree.isFile p = true) (hq : tree.isFile q = true) {behind : String}
    (hbehind : (⟨behind⟩ : Path).isAbsolute = false) :
    (p.parent.child behind).normalize = (q.parent.child behind).normalize := by
  obtain ⟨habs, last, hsteps⟩ := steps_parent hp
  obtain ⟨habs', last', hsteps'⟩ := steps_parent hq
  obtain ⟨hsame, hsegments⟩ := Path.steps_of_parts_eq hparts
  rw [hsteps, hsteps'] at hsegments
  rw [Path.normalize_child _ hbehind, Path.normalize_child _ hbehind, habs, habs', hsame,
    (List.append_inj' hsegments rfl).1]

/-! ## Normal forms -/

/-- The pieces of a normal form that has steps are its names. -/
theorem segments_normalize {p : Path} (hne : Path.stepsOf p.normalize.segments ≠ []) :
    p.normalize.isAbsolute = p.isAbsolute ∧
      p.normalize.segments = Path.names (Path.stepsOf p.segments) := by
  have hnames := Path.areNames_steps p
  rw [Path.normalize_eq] at hne ⊢
  generalize Path.names (Path.stepsOf p.segments) = location at hnames hne
  have hhead : p.isAbsolute = false → location.head? ≠ some [] := by
    intro _ hempty
    exact (isName_iff.mp (hnames [] (List.mem_of_mem_head? hempty))).1 rfl
  obtain ⟨habs, hsteps⟩ := Path.steps_ofSegments hnames.notMem hhead
  have hlocation : location ≠ [] := by
    rintro rfl
    exact hne hsteps
  refine ⟨habs, ?_⟩
  cases hp : p.isAbsolute with
  | true => exact Path.segments_pathOf hlocation hnames
  | false =>
      rw [hp] at habs
      have hchars : (Path.ofSegments false location).chars = Text.joinWith '/' location :=
        Path.chars_mk _
      rw [Path.segments_of_not_isAbsolute habs, hchars,
        Text.splitOn_joinWith hlocation hnames.notMem]

/-- A normal form is part of every other spelling of the same place. -/
theorem chars_sublist {p q : Path} (habs : p.isAbsolute = q.isAbsolute)
    (h : p.segments.Sublist q.segments) : p.chars.Sublist q.chars := by
  cases hq : q.isAbsolute with
  | true =>
      rw [hq] at habs
      obtain ⟨cs, hcs⟩ := Path.chars_eq_of_isAbsolute habs
      obtain ⟨ds, hds⟩ := Path.chars_eq_of_isAbsolute hq
      rw [Path.segments_of_chars hcs, Path.segments_of_chars hds] at h
      rw [hcs, hds, ← Text.joinWith_splitOn '/' cs, ← Text.joinWith_splitOn '/' ds]
      exact (Text.joinWith_sublist '/' h).cons_cons '/'
  | false =>
      rw [hq] at habs
      rw [Path.segments_of_not_isAbsolute habs, Path.segments_of_not_isAbsolute hq] at h
      rw [← Text.joinWith_splitOn '/' p.chars, ← Text.joinWith_splitOn '/' q.chars]
      exact Text.joinWith_sublist '/' h

theorem segmentsOf_of_sublist {p q : Path} (h : p.chars.Sublist q.chars) {pieces : List Name}
    (hq : segmentsOf q = .ok pieces) : segmentsOf p = .ok p.segments := by
  have htext : ∀ r : Path, r.text = String.ofList r.chars := fun r => by simp [Path.chars]
  unfold segmentsOf at hq ⊢
  split at hq
  · cases hq
  · rename_i hzero
    split at hq
    · cases hq
    · rename_i hlong
      have hzero' : hasZero p = false := by
        rw [Bool.not_eq_true, hasZero, Bool.eq_false_iff, ne_eq, List.contains_iff_mem] at hzero
        rw [hasZero, Bool.eq_false_iff, ne_eq, List.contains_iff_mem]
        exact fun hmem => hzero (h.subset hmem)
      have hlong' : ¬p.text.utf8ByteSize > maxPathBytes := by
        have hle := Text.utf8ByteSize_le h
        rw [← htext, ← htext] at hle
        omega
      simp [hzero', hlong']

/-- If some spelling of a normal form leads to a file, then so does the normal form. -/
theorem isFile_normalize {tree : FileTree} {p q : Path} (hparts : p.parts = q.normalize.parts)
    (h : tree.isFile p = true) : tree.isFile q.normalize = true := by
  obtain ⟨file, hfile⟩ := isFile_iff.mp h
  obtain ⟨-, pieces, left, location, hpieces, hleads, hnode⟩ := node_eq_ok_iff.mp hfile
  rw [segmentsOf_eq hpieces] at hleads
  obtain ⟨habs, hsteps⟩ := Path.steps_of_parts_eq hparts
  have hne : Path.stepsOf q.normalize.segments ≠ [] := by
    obtain ⟨-, last, hlast⟩ := steps_parent h
    rw [← hsteps, hlast]
    simp
  have hall : q.normalize.segments.filter Path.isStep = q.normalize.segments := by
    rw [(segments_normalize hne).2]
    apply List.filter_eq_self.mpr
    intro name hname
    obtain ⟨hblank, hdot, hup, -⟩ := isName_iff.mp (Path.areNames_steps q name hname)
    exact isStep_of_isLastName ⟨hblank, hdot, hup⟩
  have hthin : p.segments.filter Path.isStep = q.normalize.segments :=
    (Path.stepsOf_eq_iff.mp hsteps).trans hall
  have hsublist : q.normalize.segments.Sublist p.segments := by
    rw [← hthin]
    exact List.filter_sublist
  have hempty : q.normalize.text.isEmpty = false := by
    cases htext : q.normalize.text.isEmpty with
    | false => rfl
    | true =>
        have hchars : q.normalize.chars = [] := by simp [Path.chars, String.isEmpty_iff.mp htext]
        have hrelative : q.normalize.isAbsolute = false := by simp [Path.isAbsolute, hchars]
        rw [Path.segments_of_not_isAbsolute hrelative, hchars] at hne
        exact absurd rfl hne
  apply isFile_iff.mpr
  have hpieces' := segmentsOf_of_sublist (chars_sublist habs.symm hsublist) hpieces
  have hleads' := hleads.thin (hthin ▸ thinned_filter p.segments)
  exact ⟨file, node_eq_ok_iff.mpr
    ⟨hempty, q.normalize.segments, left, location, hpieces', hleads', hnode⟩⟩

end FileTree

end ScopedCheck
