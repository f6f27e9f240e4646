import ScopedCheck.Glob.Filter
import ScopedCheck.Proofs.Fallible
import ScopedCheck.Proofs.Glob.Literal
import ScopedCheck.Proofs.Path.Normal
/-! # Filters of one directory at another one

The patterns of a filter are absolute, and all of an absolute pattern is read as a glob, the names of the
directories in front as well. As long as these are plain, a pattern of something in a directory asks for the same
when it is carried over to another directory. -/

namespace ScopedCheck

open FileTree (Name Location pathOf)
open ScopedCheck.Path (AreNames)
open Fallible (Together)

/-- A directory other than the root whose names stand for themselves in globs. -/
structure FileTree.IsPlainPlace (place : Location) : Prop where
  ne : place ≠ []
  names : AreNames place
  plain : ∀ name ∈ place, ∀ c ∈ name, Glob.isPlain c = true

namespace FileTree.IsPlainPlace

variable {place : Location}

theorem isPlain_chars (h : IsPlainPlace place) : ∀ c ∈ (pathOf place).chars, Glob.isPlain c = true := by
  intro c hc
  rw [Path.chars_pathOf, List.mem_cons] at hc
  rcases hc with rfl | hc
  · decide
  · rcases Text.mem_joinWith hc with rfl | ⟨name, hname, hc⟩
    · decide
    · exact h.plain name hname c hc

theorem splitOn_chars (h : IsPlainPlace place) : Text.splitOn '/' (pathOf place).chars = [] :: place := by
  rw [Path.chars_pathOf, Text.splitOn, if_pos rfl, Text.splitOn_joinWith h.ne h.names.notMem]

theorem exists_last (h : IsPlainPlace place) :
    ∃ front last, place = front ++ [last] ∧ FileTree.isName last = true ∧ '*' ∉ last := by
  obtain ⟨front, last, rfl⟩ := (List.eq_nil_or_concat' place).resolve_left h.ne
  have hlast : last ∈ front ++ [last] := by simp
  exact ⟨front, last, rfl, h.names last hlast, fun hstar => absurd (h.plain last hlast '*' hstar) (by decide)⟩

end FileTree.IsPlainPlace

namespace Path

theorem chars_pathOf_append {place : Location} (hne : place ≠ []) (names : Location) :
    (pathOf (place ++ names)).chars = (pathOf place).chars ++ names.flatMap ('/' :: ·) := by
  induction names using List.reverseRecOn with
  | nil => simp
  | append_singleton names last ih =>
    have hsome : place ++ names ≠ [] := by simp [hne]
    rw [chars_pathOf, ← List.append_assoc, Text.joinWith_concat '/' hsome, ← List.cons_append, ← chars_pathOf, ih]
    simp

end Path

namespace GlobUnion

/-- The path of a place never ends in a step to the parent. -/
theorem isNameless_pathOf {location : Location} (h : AreNames location) : isNameless (pathOf location) = false := by
  have hchars : (pathOf location).text.toList = '/' :: Text.joinWith '/' location := Path.chars_pathOf location
  rw [isNameless, hchars, Text.splitOn, if_pos rfl]
  rcases List.eq_nil_or_concat' location with rfl | ⟨front, last, rfl⟩
  · decide
  · obtain ⟨-, -, hup, -⟩ := FileTree.isName_iff.mp (h last (by simp))
    rw [Text.splitOn_joinWith (by simp) h.notMem, ← List.cons_append, List.getLastD_concat]
    simpa using hup

theorem isMatch_pathOf (union : GlobUnion) {location : Location} (h : AreNames location) :
    union.isMatch (pathOf location) = union.globs.any (·.isMatch (pathOf location)) := by
  simp [isMatch, globsFor, isNameless_pathOf h]

/-- Globs cannot be put together when one of those that are tried is nested too deep. -/
def isRefused (glob : Glob) : Bool :=
  (glob.shape == .endingFirst || glob.shape == .general) && isTooDeep glob

theorem ofGlobs_eq_ok {globs : List Glob} (h : globs.any isRefused = false) : ofGlobs globs = .ok ⟨globs⟩ := by
  rw [List.any_eq_false] at h
  have hapart : globs.find? (fun glob => glob.shape = .endingFirst && isTooDeep glob) = none := by
    rw [List.find?_eq_none]
    intro glob hglob
    have hkept := h glob hglob
    simp_all [isRefused]
  have htogether : (globs.filter (·.shape = .general)).findIdx? isTooDeep = none := by
    rw [List.findIdx?_eq_none_iff]
    intro glob hglob
    obtain ⟨hmem, hshape⟩ := List.mem_filter.mp hglob
    have hkept := h glob hmem
    simp_all [isRefused]
  rw [ofGlobs, hapart, htogether]

theorem ofGlobs_fails {globs : List Glob} (h : globs.any isRefused = true) :
    ∃ fault, ofGlobs globs = .error fault := by
  obtain ⟨glob, hglob, hrefused⟩ := List.any_eq_true.mp h
  simp only [isRefused, Bool.and_eq_true, Bool.or_eq_true, beq_iff_eq] at hrefused
  obtain ⟨hshape, hdeep⟩ := hrefused
  rw [ofGlobs]
  cases hapart : globs.find? fun glob => glob.shape = .endingFirst && isTooDeep glob with
  | some found => exact ⟨_, rfl⟩
  | none =>
    cases htogether : (globs.filter (·.shape = .general)).findIdx? isTooDeep with
    | some place => exact ⟨_, rfl⟩
    | none =>
      rw [List.find?_eq_none] at hapart
      rw [List.findIdx?_eq_none_iff] at htogether
      rcases hshape with hshape | hshape
      · have hkept := hapart glob hglob
        simp [hshape, hdeep] at hkept
      · have hkept := htogether glob (List.mem_filter.mpr ⟨hglob, by simp [hshape]⟩)
        simp [hdeep] at hkept

end GlobUnion

/-! ## Globs that do the same at two places -/

section Places

variable {place next : Location}

/-- Globs that are treated alike and match the same names, one behind one directory and one behind another. -/
structure Glob.DoAlike (place next : Location) (glob carried : Glob) : Prop where
  shape_eq : carried.shape = glob.shape
  depth_eq : carried.depth = glob.depth
  matches_eq : ∀ names, AreNames names →
    carried.isMatch (pathOf (next ++ names)) = glob.isMatch (pathOf (place ++ names))

theorem Glob.GoOnAlike.doAlike {glob carried : Glob} (hplace : place ≠ []) (hnext : next ≠ [])
    (h : GoOnAlike (pathOf place).chars (pathOf next).chars glob carried) : DoAlike place next glob carried := by
  have hsome : ∀ location : Location, (pathOf location).chars ≠ [] := fun location => by simp
  refine ⟨h.shape_eq (hsome _) (hsome _), h.depth_eq (hsome _) (hsome _), fun names _ => ?_⟩
  have htext : ∀ {location : Location}, location ≠ [] → (pathOf (location ++ names)).text =
      String.ofList ((pathOf location).chars ++ names.flatMap ('/' :: ·)) := by
    intro location hne
    rw [← Path.chars_pathOf_append hne, Path.chars, String.ofList_toList]
  rw [isMatch, isMatch, htext hplace, htext hnext, h.matchesText_eq (hsome _) (hsome _)]

/-- The globs of a text behind the path of one directory and behind that of another one. -/
theorem together_globOf (hplace : FileTree.IsPlainPlace place) (hnext : FileTree.IsPlainPlace next)
    {ending : List Char} (hending : ending = [] ∨ ending.head? = some '/') :
    Together (Glob.DoAlike place next) (PathFilter.globOf (String.ofList ((pathOf place).chars ++ ending)))
      (PathFilter.globOf (String.ofList ((pathOf next).chars ++ ending))) := by
  -- what is read behind the front, if anything is
  obtain ⟨rest, hrest⟩ : ∃ rest : Except GlobFault (List GlobToken), ∀ {location : Location},
      FileTree.IsPlainPlace location → Glob.read {} none ((pathOf location).chars ++ ending) =
        rest.map ((pathOf location).chars.map .literal ++ ·) := by
    cases ending with
    | nil =>
      refine ⟨.ok [], fun h => ?_⟩
      rw [List.append_nil, Glob.read_of_isPlain h.isPlain_chars]
      simp [Except.map]
    | cons c ending =>
      obtain rfl : c = '/' := by simpa using hending
      exact ⟨Glob.read {} none ('/' :: ending), fun h => Glob.read_append_slash h.isPlain_chars ending⟩
  simp only [PathFilter.globOf, Glob.ofText, String.toList_ofList, hrest hplace, hrest hnext]
  cases rest with
  | error fault => exact .fail _ _
  | ok tokens => exact .yield (Glob.GoOnAlike.doAlike hplace.ne hnext.ne ⟨tokens, rfl, rfl⟩)

theorem together_ofGlobs {globs carried : List Glob} (h : List.Forall₂ (Glob.DoAlike place next) globs carried) :
    Together (fun union other : GlobUnion => List.Forall₂ (Glob.DoAlike place next) union.globs other.globs)
      (GlobUnion.ofGlobs globs) (GlobUnion.ofGlobs carried) := by
  have hrefused : carried.any GlobUnion.isRefused = globs.any GlobUnion.isRefused := by
    induction h with
    | nil => rfl
    | cons hfirst _ ih =>
      rw [List.any_cons, List.any_cons, ih, GlobUnion.isRefused, GlobUnion.isRefused, GlobUnion.isTooDeep,
        GlobUnion.isTooDeep, hfirst.shape_eq, hfirst.depth_eq]
  cases hany : globs.any GlobUnion.isRefused with
  | true =>
    obtain ⟨fault, hfault⟩ := GlobUnion.ofGlobs_fails hany
    obtain ⟨fault', hfault'⟩ := GlobUnion.ofGlobs_fails (hrefused.trans hany)
    rw [hfault, hfault']
    exact .fail fault fault'
  | false =>
    rw [GlobUnion.ofGlobs_eq_ok hany, GlobUnion.ofGlobs_eq_ok (hrefused.trans hany)]
    exact .yield h

theorem any_isMatch_eq {globs carried : List Glob} (h : List.Forall₂ (Glob.DoAlike place next) globs carried)
    {names : Location} (hnames : AreNames names) :
    carried.any (·.isMatch (pathOf (next ++ names))) = globs.any (·.isMatch (pathOf (place ++ names))) := by
  induction h with
  | nil => rfl
  | cons hfirst _ ih => rw [List.any_cons, List.any_cons, hfirst.matches_eq names hnames, ih]

end Places

namespace PathFilter

/-! ## Patterns that are carried over -/

theorem withoutTrailingSlashes_append {front : List Char} (hlast : front.getLast? ≠ some '/') (ending : List Char) :
    withoutTrailingSlashes (front ++ ending) = front ++ withoutTrailingSlashes ending := by
  have hfront : front.reverse.dropWhile (· == '/') = front.reverse := by
    rw [List.getLast?_eq_head?_reverse] at hlast
    cases hcs : front.reverse with
    | nil => rfl
    | cons c cs =>
      rw [hcs] at hlast
      rw [List.dropWhile_cons_of_neg (by simpa using hlast)]
  rw [withoutTrailingSlashes, withoutTrailingSlashes, List.reverse_append, List.dropWhile_append, hfront]
  cases ending.reverse.dropWhile (· == '/') <;> simp

/-- Whether the name of a directory has a dot in it. A pattern that ends in such a name is not expanded. -/
def HasDot (place : Location) : Prop := '.' ∈ place.getLastD []

instance (place : Location) : Decidable (HasDot place) := inferInstanceAs (Decidable (_ ∈ _))

/-- Whether no glob of a pattern tells one directory from another by what it matches there. -/
def IsBlind (place next : Location) (pattern : String) : Prop :=
  ∀ text ∈ expansions pattern, ∀ glob, globOf text = .ok glob → ∀ names, AreNames names →
    glob.isMatch (pathOf (next ++ names)) = glob.isMatch (pathOf (place ++ names))

/-- A pattern at one directory and the pattern in its place at another one. -/
inductive IsCarried (place next : Location) (pattern carried : String) : Prop
  /-- It is the path of the directory and the same behind it; only if that is nothing does it matter whether the
  name of the directory has a dot. -/
  | inside (ending : List Char) (hending : ending = [] ∨ ending.head? = some '/')
      (hpattern : pattern.toList = (pathOf place).chars ++ ending)
      (hcarried : carried.toList = (pathOf next).chars ++ ending)
      (hdot : withoutTrailingSlashes ending = [] → (HasDot place ↔ HasDot next))
  /-- It stays as it is, and does not tell one directory from the other. -/
  | outside (hsame : carried = pattern) (hblind : IsBlind place next pattern)

section Carried

variable {place next : Location}

theorem withoutTrailingSlashes_slash {ending : List Char} (h : ending = [] ∨ ending.head? = some '/') :
    withoutTrailingSlashes ending = [] ∨ (withoutTrailingSlashes ending).head? = some '/' := by
  have hfront : withoutTrailingSlashes ending <+: ending := by
    rw [withoutTrailingSlashes, ← List.reverse_suffix, List.reverse_reverse]
    exact List.dropWhile_suffix _
  obtain ⟨rest, hrest⟩ := hfront
  cases hkept : withoutTrailingSlashes ending with
  | nil => exact Or.inl rfl
  | cons c cs =>
    rw [← hrest, hkept] at h
    exact Or.inr (by simpa using h)

theorem withoutTrailingSlashes_of_inside (hplace : FileTree.IsPlainPlace place) (ending : List Char) :
    withoutTrailingSlashes ((pathOf place).chars ++ ending) = (pathOf place).chars ++ withoutTrailingSlashes ending := by
  apply withoutTrailingSlashes_append
  obtain ⟨front, last, rfl, hlast, -⟩ := hplace.exists_last
  obtain ⟨start, -, hends⟩ := Path.exists_front true front
  obtain ⟨hne, -, -, hslash⟩ := FileTree.isName_iff.mp hlast
  rw [pathOf, hends, List.getLast?_append_of_ne_nil _ hne]
  exact fun heq => hslash (List.mem_of_getLast? heq)

/-- Whether the last piece of a pattern is taken for a file or has a wildcard, so that nothing below is meant. -/
def endsInFile (pattern : List Char) : Bool :=
  let last := (Text.splitOn '/' pattern).getLastD []
  last.contains '.' || last.contains '*'

theorem expansions_eq (pattern : String) : expansions pattern =
    if endsInFile (withoutTrailingSlashes pattern.toList) then
      [String.ofList (withoutTrailingSlashes pattern.toList)]
    else [String.ofList (withoutTrailingSlashes pattern.toList),
      String.ofList (withoutTrailingSlashes pattern.toList ++ "/**/*".toList)] := by
  rw [String.ofList_append, String.ofList_toList]
  rfl

theorem endsInFile_append_slash (front rest : List Char) : endsInFile (front ++ '/' :: rest) = endsInFile rest := by
  have hlast : (Text.splitOn '/' front ++ Text.splitOn '/' rest).getLast? = (Text.splitOn '/' rest).getLast? :=
    List.getLast?_append_of_ne_nil _ (Text.splitOn_ne_nil '/' rest)
  simp only [endsInFile, Text.splitOn_append_cons, List.getLastD_eq_getLast?, hlast]

theorem endsInFile_chars (hplace : FileTree.IsPlainPlace place) :
    endsInFile (pathOf place).chars = true ↔ HasDot place := by
  have hsplit := hplace.splitOn_chars
  obtain ⟨front, last, rfl, -, hstar⟩ := hplace.exists_last
  simp only [endsInFile, HasDot, hsplit, ← List.cons_append, List.getLastD_concat]
  simp [hstar]

/-- Whether a pattern of something in a directory ends in a file has to do with the directory only if it is the
directory itself. -/
theorem endsInFile_inside (hplace : FileTree.IsPlainPlace place) (hnext : FileTree.IsPlainPlace next)
    {ending : List Char} (hending : ending = [] ∨ ending.head? = some '/')
    (hdot : ending = [] → (HasDot place ↔ HasDot next)) :
    endsInFile ((pathOf next).chars ++ ending) = endsInFile ((pathOf place).chars ++ ending) := by
  cases ending with
  | nil =>
    rw [List.append_nil, List.append_nil, Bool.eq_iff_iff, endsInFile_chars hplace, endsInFile_chars hnext]
    exact (hdot rfl).symm
  | cons c rest =>
    obtain rfl : c = '/' := by simpa using hending
    rw [endsInFile_append_slash, endsInFile_append_slash]

/-- The globs of a pattern that is carried over do the same at both places. -/
theorem IsCarried.together_globOf (hplace : FileTree.IsPlainPlace place) (hnext : FileTree.IsPlainPlace next)
    {pattern carried : String} (h : IsCarried place next pattern carried) :
    List.Forall₂ (fun text other => Together (Glob.DoAlike place next) (globOf text) (globOf other))
      (expansions pattern) (expansions carried) := by
  cases h with
  | inside ending hending hpattern hcarried hdot =>
    have hkept := withoutTrailingSlashes_slash hending
    rw [expansions_eq, expansions_eq, hpattern, hcarried, withoutTrailingSlashes_of_inside hplace,
      withoutTrailingSlashes_of_inside hnext, endsInFile_inside hplace hnext hkept hdot]
    have hitself := ScopedCheck.together_globOf hplace hnext hkept
    split
    · exact .cons hitself .nil
    · rw [List.append_assoc, List.append_assoc]
      refine .cons hitself (.cons (ScopedCheck.together_globOf hplace hnext (Or.inr ?_)) .nil)
      rcases hkept with hnone | hslash
      · rw [hnone]
        rfl
      · rw [List.head?_append, hslash]
        rfl
  | outside hsame hblind =>
    subst hsame
    rw [List.forall₂_same]
    intro text htext
    cases hglob : globOf text with
    | error failure => exact .fail failure failure
    | ok glob => exact .yield ⟨rfl, rfl, hblind text htext glob hglob⟩

/-- Filters match the same names, one behind one directory and one behind another. -/
def MatchAlike (place next : Location) (filter carried : PathFilter) : Prop :=
  ∀ names, AreNames names → carried.isMatch (pathOf (next ++ names)) = filter.isMatch (pathOf (place ++ names))

/-- A filter whose patterns are carried over to another directory does the same there. -/
theorem together_ofPatterns (hplace : FileTree.IsPlainPlace place) (hnext : FileTree.IsPlainPlace next)
    {patterns carried : List String} (h : List.Forall₂ (IsCarried place next) patterns carried) :
    Together (MatchAlike place next) (ofPatterns patterns) (ofPatterns carried) := by
  have htexts : List.Forall₂ (fun text other => Together (Glob.DoAlike place next) (globOf text) (globOf other))
      (patterns.flatMap expansions) (carried.flatMap expansions) := by
    induction h with
    | nil => exact .nil
    | cons hfirst _ ih =>
      rw [List.flatMap_cons, List.flatMap_cons]
      exact List.rel_append (hfirst.together_globOf hplace hnext) ih
  have hempty : carried.isEmpty = patterns.isEmpty := by
    cases h <;> rfl
  refine (Fallible.together_mapM htexts).bind fun globs others hglobs => ?_
  have hunion := together_ofGlobs hglobs
  revert hunion
  cases GlobUnion.ofGlobs globs <;> cases GlobUnion.ofGlobs others <;> intro hunion <;> cases hunion
  · exact .fail _ _
  · rename_i union other hall
    refine .yield fun names hnames => ?_
    rw [isMatch, isMatch, GlobUnion.isMatch_pathOf _ (hnext.names.append hnames),
      GlobUnion.isMatch_pathOf _ (hplace.names.append hnames), any_isMatch_eq hall hnames, hempty]

end Carried

end PathFilter

end ScopedCheck
