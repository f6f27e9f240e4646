import ScopedCheck.Proofs.Path.Normal
/-! # Normal forms and joining

A normal form is the path that grows when the parts of a path are taken one by one: a name is put behind
it, `..` takes its last name away again, and there is nothing to take away at the root
(`normalize_eq_foldl`). What stands behind a path may therefore be joined to its normal form as well. -/

namespace ScopedCheck.Path

open FileTree (Name Location isName isName_iff)

variable {absolute : Bool} {location : Location}

/-! ## Paths that grow -/

/-- Take one more part on a path that grows. -/
def grow (grown : Path) : Part → Path
  | .here => grown
  | .up => grown.parent?.getD grown
  | part => grown.join ⟨String.ofList part.chars⟩

theorem steps_ofSegments_names (absolute : Bool) (h : AreNames location) :
    (ofSegments absolute location).isAbsolute = absolute ∧
      stepsOf (ofSegments absolute location).segments = location.map .name := by
  rw [← stepsOf_names h]
  refine steps_ofSegments h.notMem fun _ hempty => ?_
  exact (isName_iff.mp (h [] (List.mem_of_mem_head? hempty))).1 rfl

theorem segments_ofSegments (absolute : Bool) (h : AreNames location) (hne : location ≠ []) :
    (ofSegments absolute location).segments = location := by
  cases absolute with
  | true => exact segments_pathOf hne h
  | false =>
    obtain ⟨habs, -⟩ := steps_ofSegments_names false h
    rw [segments_of_not_isAbsolute habs, chars_ofSegments, if_neg Bool.false_ne_true,
      Text.splitOn_joinWith hne h.notMem]

theorem AreNames.dropLast (h : AreNames location) : AreNames location.dropLast :=
  fun name hname => h name (List.dropLast_subset _ hname)

/-- What `..` leaves of names: all but the last one, if there is one. -/
theorem grow_up (absolute : Bool) (h : AreNames location) :
    grow (ofSegments absolute location) .up = ofSegments absolute location.dropLast := by
  by_cases hne : location = []
  · subst hne
    cases absolute <;> rfl
  · obtain ⟨habs, -⟩ := steps_ofSegments_names absolute h
    have hparent : (ofSegments absolute location).parent? = some (ofSegments absolute location.dropLast) := by
      rw [parent?, habs, segments_ofSegments absolute h hne, upToLastStep_names absolute h]
      cases location with
      | nil => exact absurd rfl hne
      | cons first rest =>
        exact congrArg (fun names => some (ofSegments absolute names)) (upToLastStep_names absolute h.dropLast)
    rw [grow, hparent, Option.getD_some]

theorem grow_name (absolute : Bool) (h : AreNames location) {name : Name} (hname : isName name = true) :
    grow (ofSegments absolute location) (.name name) = ofSegments absolute (location ++ [name]) :=
  child_ofSegments absolute h hname

/-- Steps make names grow as they make a stack of names. -/
theorem foldl_grow {pieces : List Name} (hpieces : ∀ piece ∈ pieces, '/' ∉ piece) {stack : List Name}
    (h : AreNames stack.reverse) : (stepsOf pieces).foldl grow (ofSegments absolute stack.reverse) =
      ofSegments absolute ((stepsOf pieces).foldl take stack).reverse := by
  have hsteps : ∀ name, Part.name name ∈ stepsOf pieces → isName name = true :=
    fun name hname => isName_of_mem_stepsOf hpieces hname
  have hmoves : ∀ part ∈ stepsOf pieces, part.isMove = true := fun part => isMove_of_mem_stepsOf
  generalize stepsOf pieces = steps at hsteps hmoves
  induction steps generalizing stack with
  | nil => rfl
  | cons part rest ih =>
    have hrest := fun name hname => hsteps name (List.mem_cons_of_mem part hname)
    have hmoves' := fun other hother => hmoves other (List.mem_cons_of_mem part hother)
    rw [List.foldl_cons, List.foldl_cons]
    cases part with
    | root => cases hmoves _ (List.mem_cons_self ..)
    | here => cases hmoves _ (List.mem_cons_self ..)
    | up =>
      rw [grow_up absolute h, List.dropLast_reverse]
      exact ih (by simpa using h.dropLast) hrest hmoves'
    | name name =>
      have hname := hsteps name (List.mem_cons_self ..)
      rw [grow_name absolute h hname, ← List.reverse_cons]
      refine ih ?_ hrest hmoves'
      rw [List.reverse_cons]
      exact h.append (List.forall_mem_singleton.mpr hname)

/-- A normal form grows part by part, and loses its last name at every `..`. -/
theorem normalize_eq_foldl (p : Path) : p.normalize = p.parts.foldl grow ⟨""⟩ := by
  have hpieces : ∀ piece ∈ p.segments, '/' ∉ piece := fun piece hpiece => Text.notMem_of_mem_splitOn hpiece
  have hempty : AreNames ([] : List Name).reverse := fun name hname => by cases hname
  rw [normalize_eq, names]
  unfold parts
  split
  · rename_i habs
    rw [List.foldl_cons, habs]
    exact (foldl_grow hpieces hempty).symm
  · rename_i habs
    rw [Bool.eq_false_iff.mpr habs]
    split
    · rename_i rest hsegments
      have hrest : ∀ piece ∈ rest, '/' ∉ piece := fun piece hpiece =>
        hpieces piece (hsegments ▸ List.mem_cons_of_mem _ hpiece)
      rw [hsegments, List.foldl_cons]
      exact (foldl_grow hrest hempty).symm
    · exact (foldl_grow hpieces hempty).symm

/-! ## Joining -/

theorem steps_normalize (p : Path) : p.normalize.isAbsolute = p.isAbsolute ∧
    stepsOf p.normalize.segments = (names (stepsOf p.segments)).map .name := by
  rw [normalize_eq]
  exact steps_ofSegments_names _ (areNames_steps p)

/-- The steps in front may be taken before those behind them. -/
theorem names_append (front rear : List Part) :
    names ((names front).map .name ++ rear) = names (front ++ rear) := by
  simp only [names, List.foldl_append, foldl_take_names, List.reverse_reverse, List.append_nil]

theorem normalize_join (p q : Path) : (p.normalize.join q).normalize = (p.join q).normalize := by
  by_cases habs : q.isAbsolute = true
  · simp only [join, habs, if_true]
  · have habs := Bool.eq_false_iff.mpr habs
    obtain ⟨hroot, hsteps⟩ := steps_normalize p
    calc (p.normalize.child q.text).normalize
        = ofSegments p.isAbsolute (names ((names (stepsOf p.segments)).map .name ++
            stepsOf (Text.splitOn '/' q.text.toList))) := by rw [normalize_child _ habs, hroot, hsteps]
      _ = (p.child q.text).normalize := by rw [names_append, normalize_child _ habs]

/-- A `..` behind a path takes the last name of its normal form away, if there is one. -/
theorem normalize_join_up (p : Path) : (p.join ⟨".."⟩).normalize = grow p.normalize .up := by
  have hup : stepsOf (Text.splitOn '/' "..".toList) = [.up] := by decide
  have hnames := areNames_steps p
  have hdrop : names (stepsOf p.segments ++ [.up]) = (names (stepsOf p.segments)).dropLast := by
    simp only [names, List.foldl_append, List.foldl_cons, List.foldl_nil, take, List.dropLast_reverse]
  calc (p.child "..").normalize
      = ofSegments p.isAbsolute (names (stepsOf p.segments ++ [.up])) := by
        rw [normalize_child p (by decide), hup]
    _ = grow (ofSegments p.isAbsolute (names (stepsOf p.segments))) .up := by
        rw [hdrop, grow_up p.isAbsolute hnames]
    _ = grow p.normalize .up := by rw [← normalize_eq]

/-- A normal form goes through names only, from the root if it is absolute. -/
theorem parts_ofSegments (absolute : Bool) (h : AreNames location) :
    (ofSegments absolute location).parts = (if absolute then [.root] else []) ++ location.map .name := by
  cases absolute with
  | true => exact parts_pathOf h
  | false =>
    obtain ⟨habs, hsteps⟩ := steps_ofSegments_names false h
    have hdot : ∀ rest, (ofSegments false location).segments ≠ ['.'] :: rest := by
      intro rest hsegments
      by_cases hne : location = []
      · subst hne
        cases hsegments
      · rw [segments_ofSegments false h hne] at hsegments
        exact (isName_iff.mp (h ['.'] (by simp [hsegments]))).2.1 rfl
    rw [parts, habs, if_neg Bool.false_ne_true, if_neg Bool.false_ne_true, List.nil_append, ← hsteps]
    split
    · exact absurd ‹_› (hdot _)
    · rfl

theorem ofSegments_injective (absolute : Bool) {other : Location} (h : AreNames location) (hother : AreNames other)
    (heq : ofSegments absolute location = ofSegments absolute other) : location = other := by
  have hparts := congrArg parts heq
  rw [parts_ofSegments absolute h, parts_ofSegments absolute hother] at hparts
  exact List.map_injective_iff.mpr (fun _ _ => Part.name.inj) (List.append_cancel_left hparts)

/-- Different names lead on from a path to different normal forms. -/
theorem eq_of_normalize_through_eq {p : Path} {other : Location} (h : AreNames location) (hother : AreNames other)
    (heq : (p.through location).normalize = (p.through other).normalize) : location = other := by
  have hthrough : ∀ {names}, AreNames names →
      (p.through names).normalize = ofSegments p.isAbsolute (Path.names (stepsOf p.segments) ++ names) := by
    intro names hnames
    obtain ⟨habs, hsteps⟩ := steps_through p hnames.notMem
    rw [normalize_eq, habs, hsteps, stepsOf_names hnames, names_append_names]
  rw [hthrough h, hthrough hother] at heq
  have hfront := areNames_steps p
  exact List.append_cancel_left (ofSegments_injective _ (hfront.append h) (hfront.append hother) heq)

theorem parts_normalize (p : Path) : p.normalize.parts =
    (if p.isAbsolute then [.root] else []) ++ (names (stepsOf p.segments)).map .name := by
  rw [normalize_eq, parts_ofSegments _ (areNames_steps p)]

/-- What normal forms keep to, with anything behind a path. -/
structure NormalizesSoundly (p : Path) : Prop where
  again : p.normalize.normalize = p.normalize
  /-- No step of a normal form is `.` or `..`. -/
  noDots : ∀ part ∈ p.normalize.parts, part ≠ .here ∧ part ≠ .up
  root : p.normalize.isAbsolute = p.isAbsolute
  /-- A `..` takes the last name of the normal form away. -/
  up : (p.join ⟨".."⟩).normalize = p.normalize.parent?.getD p.normalize
  /-- There is nothing above the root. -/
  upFromRoot : p.normalize = ⟨"/"⟩ → ∀ q, ((p.join ⟨".."⟩).join q).normalize = (p.join q).normalize
  /-- What is joined to a path may be joined to its normal form, also if it is absolute. -/
  joined : ∀ q, (p.normalize.join q).normalize = (p.join q).normalize

/-- Normalizing is sound for every path, whatever is joined to it. -/
theorem normalizesSoundly (p : Path) : p.NormalizesSoundly where
  again := normalize_normalize p
  noDots part hpart := by
    rw [parts_normalize, List.mem_append, List.mem_map] at hpart
    rcases hpart with hroot | ⟨name, -, rfl⟩
    · split at hroot
      · rw [List.mem_singleton.mp hroot]
        exact ⟨by simp, by simp⟩
      · cases hroot
    · exact ⟨by simp, by simp⟩
  root := (steps_normalize p).1
  up := normalize_join_up p
  upFromRoot hroot q := by
    have hup : (p.join ⟨".."⟩).normalize = p.normalize := by
      rw [normalize_join_up, hroot]
      decide +kernel
    rw [← normalize_join, hup, normalize_join]
  joined := normalize_join p

end ScopedCheck.Path
