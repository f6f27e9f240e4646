import ScopedCheck.Proofs.Config.Rooted
import ScopedCheck.Proofs.Glob.Carried
/-! # Configs of one project at two places

A relative pattern is seen from the directory of the document that it was written in, and is made absolute with it.
As long as its steps stay in the project it is carried over with the project; one that leads out of it is carried
over if it does not tell the two places apart. -/

namespace ScopedCheck

open FileTree (Name Location pathOf IsPlainPlace)
open ScopedCheck.Path (AreNames)

variable {place next : Location}

/-! ## Texts behind a directory -/

namespace PathFilter

/-- A character with a forward slash in the place of a backslash. -/
def forward (c : Char) : Char := if c = '\\' then '/' else c

theorem toList_slashed (hplace : IsPlainPlace place) {p : Path} {ending : List Char}
    (h : p.chars = (pathOf place).chars ++ ending) :
    p.slashed.toList = (pathOf place).chars ++ ending.map forward := by
  have hplain : (pathOf place).chars.map forward = (pathOf place).chars := by
    rw [List.map_congr_left fun c hc => ?_, List.map_id]
    exact if_neg fun hback => absurd (hplace.isPlain_chars c hc) (by rw [hback]; decide)
  rw [Path.slashed, Text.forwardSlashes, Text.replaceChar, String.toList_ofList]
  have hchars : p.text.toList = (pathOf place).chars ++ ending := h
  rw [hchars, List.map_append]
  exact congrArg (· ++ _) hplain

/-- Paths that go on alike behind two directories are carried over from one to the other. -/
theorem isCarried_slashed (hplace : IsPlainPlace place) (hnext : IsPlainPlace next) {p q : Path}
    {ending : List Char} (hending : ending = [] ∨ ending.head? = some '/')
    (hp : p.chars = (pathOf place).chars ++ ending) (hq : q.chars = (pathOf next).chars ++ ending)
    (hdot : withoutTrailingSlashes p.slashed.toList = (pathOf place).chars → (HasDot place ↔ HasDot next)) :
    IsCarried place next p.slashed q.slashed := by
  refine .inside (ending.map forward) ?_ (toList_slashed hplace hp) (toList_slashed hnext hq) fun hnone => hdot ?_
  · rcases hending with rfl | hslash
    · exact Or.inl rfl
    · rw [List.head?_map, hslash]
      exact Or.inr rfl
  · rw [toList_slashed hplace hp, withoutTrailingSlashes_of_inside hplace, hnone, List.append_nil]

theorem chars_child_pathOf (hplace : IsPlainPlace place) {behind : String}
    (h : (⟨behind⟩ : Path).isAbsolute = false) :
    ((pathOf place).child behind).chars = (pathOf place).chars ++ '/' :: behind.toList := by
  obtain ⟨front, last, rfl, hlast, -⟩ := hplace.exists_last
  obtain ⟨start, -, hends⟩ := Path.exists_front true front
  obtain ⟨hne, -, -, hslash⟩ := FileTree.isName_iff.mp hlast
  have hopen : ¬((pathOf (front ++ [last])).chars = [] ∨ (pathOf (front ++ [last])).chars.getLast? = some '/') := by
    rw [pathOf, hends, List.getLast?_append_of_ne_nil _ hne]
    rintro (hnone | hend)
    · exact hne (List.append_eq_nil_iff.mp hnone).2
    · exact hslash (List.mem_of_getLast? hend)
  obtain ⟨cs, rfl⟩ : ∃ cs, behind = String.ofList cs := ⟨behind.toList, by simp⟩
  rw [Path.chars_child _ h, if_neg hopen, String.toList_ofList]

/-- What is put behind a directory is carried over with it. -/
theorem isCarried_child (hplace : IsPlainPlace place) (hnext : IsPlainPlace next) {behind : String}
    (h : (⟨behind⟩ : Path).isAbsolute = false)
    (hsome : withoutTrailingSlashes ('/' :: behind.toList.map forward) ≠ []) :
    IsCarried place next ((pathOf place).child behind).slashed ((pathOf next).child behind).slashed := by
  refine isCarried_slashed hplace hnext (Or.inr rfl) (chars_child_pathOf hplace h) (chars_child_pathOf hnext h)
    fun hitself => absurd ?_ hsome
  rw [toList_slashed hplace (chars_child_pathOf hplace h), withoutTrailingSlashes_of_inside hplace] at hitself
  exact List.append_right_eq_self.mp hitself

end PathFilter

open PathFilter (IsCarried IsBlind HasDot withoutTrailingSlashes)

/-! ## Patterns of a document -/

namespace FilePatterns

/-- Whether steps never lead above a directory, from a number of names below it on. -/
def stayBelow : Nat → List Path.Part → Bool
  | _, [] => true
  | depth, .name _ :: rest => stayBelow (depth + 1) rest
  | depth, .up :: rest => depth != 0 && stayBelow (depth - 1) rest
  | depth, .root :: rest | depth, .here :: rest => stayBelow depth rest

/-- Steps that stay below a directory have nothing to do with what is above it. -/
theorem foldl_take_append {steps : List Path.Part} {stack : List Name} (h : stayBelow stack.length steps = true)
    (above : List Name) : steps.foldl Path.take (stack ++ above) = steps.foldl Path.take stack ++ above := by
  induction steps generalizing stack with
  | nil => rfl
  | cons step rest ih =>
    cases step with
    | name text => exact @ih (text :: stack) h
    | up =>
      simp only [stayBelow, Bool.and_eq_true, bne_iff_ne] at h
      cases stack with
      | nil => exact absurd rfl h.1
      | cons latest stack => exact @ih stack h.2
    | root => exact ih h
    | here => exact ih h

/-- The steps of a pattern, which are those of a relative path. -/
def steps (pattern : String) : List Path.Part :=
  Path.stepsOf (Text.splitOn '/' (Text.forwardSlashes (Text.trimmed pattern)).toList)

/-- Whether a pattern is a relative one. -/
def IsRelative (pattern : String) : Prop :=
  (⟨Text.forwardSlashes (Text.trimmed pattern)⟩ : Path).isAbsolute = false

instance (pattern : String) : Decidable (IsRelative pattern) := inferInstanceAs (Decidable (_ = _))

/-- A relative pattern that stays in a directory is something in that directory. -/
theorem absolutePattern_eq (hplace : AreNames place) {way : Location} (hway : AreNames way) {pattern : String}
    (hrelative : IsRelative pattern) (hstays : stayBelow way.length (steps pattern) = true) :
    absolutePattern (pathOf (place ++ way)) pattern =
      (pathOf (place ++ ((steps pattern).foldl Path.take way.reverse).reverse)).slashed := by
  have hrel : (⟨Text.forwardSlashes (Text.trimmed pattern)⟩ : Path).isAbsolute = false := hrelative
  obtain ⟨habs, hsteps⟩ := Path.steps_child (pathOf (place ++ way)) hrel
  have habs := habs.trans (Path.isAbsolute_pathOf (place ++ way))
  have hstack : Path.stepsOf (pathOf (place ++ way)).segments = (place ++ way).map .name := by
    have hparts := Path.parts_pathOf (hplace.append hway)
    rw [Path.parts_of_isAbsolute (Path.isAbsolute_pathOf _)] at hparts
    exact (List.cons.inj hparts).2
  have hnames : Path.names ((pathOf (place ++ way)).child (Text.forwardSlashes (Text.trimmed pattern))).parts =
      place ++ ((steps pattern).foldl Path.take way.reverse).reverse := by
    rw [Path.parts_of_isAbsolute habs, hsteps, hstack, Path.names, List.foldl_cons, List.foldl_append,
      Path.foldl_take_names, List.reverse_append, Path.take, List.append_nil]
    rw [← List.length_reverse] at hstays
    have hkept := foldl_take_append hstays place.reverse
    rw [steps] at hkept ⊢
    rw [hkept, List.reverse_append, List.reverse_reverse]
  rw [absolutePattern]
  simp only [hrel, Bool.false_eq_true, if_false]
  rw [Path.normalize_of_isAbsolute habs, hnames]

/-- A pattern of a document some way below the directory of a project, which says the same of the project at two
places. -/
inductive IsPortable (place next way : Location) (pattern : String) : Prop
  /-- It is relative and stays in the project; if it is the directory of the project itself, the names of the
  two directories either both have a dot or both have none. -/
  | inside (hrelative : IsRelative pattern) (hstays : stayBelow way.length (steps pattern) = true)
      (hdot : withoutTrailingSlashes (absolutePattern (pathOf (place ++ way)) pattern).toList = (pathOf place).chars →
        (HasDot place ↔ HasDot next))
  /-- It is the same from both places, and does not tell them apart. -/
  | outside (hsame : absolutePattern (pathOf (next ++ way)) pattern = absolutePattern (pathOf (place ++ way)) pattern)
      (hblind : IsBlind place next (absolutePattern (pathOf (place ++ way)) pattern))

theorem IsPortable.isCarried (hplace : IsPlainPlace place) (hnext : IsPlainPlace next) {way : Location}
    (hway : AreNames way) {pattern : String} (h : IsPortable place next way pattern) :
    PathFilter.IsCarried place next (absolutePattern (pathOf (place ++ way)) pattern)
      (absolutePattern (pathOf (next ++ way)) pattern) := by
  cases h with
  | inside hrelative hstays hdot =>
    rw [absolutePattern_eq hplace.names hway hrelative hstays] at hdot ⊢
    rw [absolutePattern_eq hnext.names hway hrelative hstays]
    refine PathFilter.isCarried_slashed hplace hnext ?_ (Path.chars_pathOf_append hplace.ne _)
      (Path.chars_pathOf_append hnext.ne _) hdot
    cases ((steps pattern).foldl Path.take way.reverse).reverse with
    | nil => exact Or.inl rfl
    | cons name names => exact Or.inr rfl
  | outside hsame hblind => exact .outside hsame hblind

/-- Patterns of a document in a project at two places, or of one document somewhere else. -/
inductive IsCarried (place next : Location) : FilePatterns → FilePatterns → Prop
  | inside {way : Location} {patterns : List String} (hway : AreNames way)
      (hportable : ∀ pattern ∈ patterns, IsPortable place next way pattern) :
      IsCarried place next ⟨pathOf (place ++ way), patterns⟩ ⟨pathOf (next ++ way), patterns⟩
  | outside {specs : FilePatterns} (hblind : ∀ pattern ∈ specs.absolute, IsBlind place next pattern) :
      IsCarried place next specs specs

theorem IsCarried.absolute (hplace : IsPlainPlace place) (hnext : IsPlainPlace next) {specs carried : FilePatterns}
    (h : IsCarried place next specs carried) :
    List.Forall₂ (PathFilter.IsCarried place next) specs.absolute carried.absolute := by
  cases h with
  | inside hway hportable =>
    rw [FilePatterns.absolute, FilePatterns.absolute, List.forall₂_map_left_iff, List.forall₂_map_right_iff,
      List.forall₂_same]
    exact fun pattern hpattern => (hportable pattern hpattern).isCarried hplace hnext hway
  | outside hblind => exact List.forall₂_same.mpr fun pattern hpattern => .outside rfl (hblind pattern hpattern)

end FilePatterns

/-! ## Configs of a project -/

namespace Config

/-- The directory of the output, which is left out unless the config says what is. -/
def outDir? (config : Config) : Option String :=
  match config.options.other.get? "outDir" with
  | some (.string outDir) => some (Text.forwardSlashes outDir)
  | _ => none

/-- The configs of a project at two places. -/
structure IsCarried (place next : Location) (config carried : Config) : Prop where
  dir : config.dir = pathOf place
  dir_carried : carried.dir = pathOf next
  includes : Option.Rel (FilePatterns.IsCarried place next) config.includes carried.includes
  excludes : Option.Rel (FilePatterns.IsCarried place next) config.excludes carried.excludes
  files : carried.files.isSome = config.files.isSome
  outDir : config.excludes = none → Option.Rel (PathFilter.IsCarried place next) config.outDir? carried.outDir?

theorem defaultExcludes_eq (config : Config) : config.defaultExcludes =
    ([Path.packagesName, "bower_components", "jspm_packages"].map fun name => (config.dir.child name).slashed) ++
      config.outDir?.toList := by
  rw [defaultExcludes, outDir?]
  rcases config.options.other.get? "outDir" with _ | (_ | _) <;> simp

namespace IsCarried

variable {config carried : Config}

theorem everything (hplace : IsPlainPlace place) (hnext : IsPlainPlace next) (h : IsCarried place next config carried) :
    PathFilter.IsCarried place next config.everything carried.everything := by
  rw [Config.everything, Config.everything, h.dir, h.dir_carried]
  exact PathFilter.isCarried_child hplace hnext (by decide) (by decide)

theorem excludePatterns (hplace : IsPlainPlace place) (hnext : IsPlainPlace next)
    (h : IsCarried place next config carried) :
    List.Forall₂ (PathFilter.IsCarried place next) config.excludePatterns carried.excludePatterns := by
  have hexcludes := h.excludes
  have houtDir := h.outDir
  rw [Config.excludePatterns, Config.excludePatterns]
  generalize config.excludes = said, carried.excludes = other at hexcludes houtDir
  cases hexcludes with
  | some hspecs => exact hspecs.absolute hplace hnext
  | none =>
    have hchild : ∀ name ∈ [Path.packagesName, "bower_components", "jspm_packages"],
        (⟨name⟩ : Path).isAbsolute = false ∧
          withoutTrailingSlashes ('/' :: name.toList.map PathFilter.forward) ≠ [] := by
      decide
    have hlast : List.Forall₂ (PathFilter.IsCarried place next) config.outDir?.toList carried.outDir?.toList := by
      have hlast := houtDir rfl
      generalize config.outDir? = last, carried.outDir? = last' at hlast
      cases hlast with
      | some hdir => exact .cons hdir .nil
      | none => exact .nil
    simp only [defaultExcludes_eq, h.dir, h.dir_carried]
    refine List.rel_append ?_ hlast
    rw [List.forall₂_map_left_iff, List.forall₂_map_right_iff, List.forall₂_same]
    exact fun name hname => PathFilter.isCarried_child hplace hnext (hchild name hname).1 (hchild name hname).2

theorem includePatterns (hplace : IsPlainPlace place) (hnext : IsPlainPlace next)
    (h : IsCarried place next config carried) :
    List.Forall₂ (PathFilter.IsCarried place next) config.includePatterns carried.includePatterns := by
  have hincludes := h.includes
  rw [Config.includePatterns, Config.includePatterns, h.files]
  generalize config.includes = said, carried.includes = other at hincludes
  cases hincludes with
  | some hspecs => exact hspecs.absolute hplace hnext
  | none =>
    cases config.files.isSome with
    | true => exact .nil
    | false => exact .cons (h.everything hplace hnext) .nil

theorem searchPatterns (hplace : IsPlainPlace place) (hnext : IsPlainPlace next)
    (h : IsCarried place next config carried) :
    List.Forall₂ (PathFilter.IsCarried place next) config.searchPatterns carried.searchPatterns := by
  have hincludes := h.includePatterns hplace hnext
  rw [Config.searchPatterns, Config.searchPatterns]
  generalize config.includePatterns = patterns, carried.includePatterns = others at hincludes
  cases hincludes with
  | nil => exact .cons (h.everything hplace hnext) .nil
  | cons hfirst hrest => exact .cons hfirst hrest

end IsCarried

/-! ## Documents that build on nothing -/

theorem keys_anchoredOthers (dir : Path) (other : Entries Json) : (anchoredOthers dir other).keys = other.keys := by
  simp only [anchoredOthers, pathOptions, List.foldl_cons, List.foldl_nil, Entries.keys_change]

theorem IsAlone.get?_other {config : Config} {document : Document} {here dir : Path}
    (h : config.IsAlone document here dir) (hkeys : (document.options.getD {}).other.keys.Nodup) (key : String) :
    config.options.other.get? key =
      ((document.options.getD {}).other.get? key).map (Source.anchorOf dir key) := by
  have hother : config.options.other = Entries.setAll [] (anchoredOthers dir (document.options.getD {}).other) := by
    rw [h.options]
    rfl
  rw [hother, Entries.get?_setAll _ (by rwa [keys_anchoredOthers]), get?_anchoredOthers]
  exact Option.or_none

/-- An output directory is made absolute as a pattern is. -/
theorem IsAlone.outDir?_eq {config : Config} {document : Document} {here dir : Path}
    (h : config.IsAlone document here dir) (hkeys : (document.options.getD {}).other.keys.Nodup)
    (hblank : ∀ value, (document.options.getD {}).other.get? "outDir" = some (.string value) →
      Text.isBlankText value = false) :
    config.outDir? = (((document.options.getD {}).other.get? "outDir").bind Json.string?).map
      (FilePatterns.absolutePattern dir) := by
  have hanchor : Source.anchorOf dir "outDir" = anchoredValue dir := if_pos (by decide)
  rw [outDir?, h.get?_other hkeys, hanchor]
  cases hvalue : (document.options.getD {}).other.get? "outDir" with
  | none => rfl
  | some value =>
    cases value with
    | string value =>
      have hkept : Text.forwardSlashes (FilePatterns.absolutePattern dir value) = FilePatterns.absolutePattern dir value := by
        apply Text.forwardSlashes_eq
        rw [FilePatterns.absolutePattern]
        split
        · exact Text.notMem_forwardSlashes _
        · exact Text.notMem_forwardSlashes _
      rw [Option.map_some, anchoredValue, hblank value hvalue]
      exact congrArg some hkept
    | _ => rfl

/-- A document that builds on nothing is one config at two places if its patterns are carried over. -/
theorem isCarried_of_isAlone (hplace : IsPlainPlace place) (hnext : IsPlainPlace next) {document : Document}
    (hkeys : (document.options.getD {}).other.keys.Nodup)
    (hpatterns : ∀ field ∈ [document.includes, document.excludes], ∀ patterns ∈ field, ∀ pattern ∈ patterns,
      FilePatterns.IsPortable place next [] pattern)
    (houtDir : ∀ value, (document.options.getD {}).other.get? "outDir" = some (.string value) →
      Text.isBlankText value = false ∧ FilePatterns.IsPortable place next [] value)
    {config carried : Config} {here there : Path} (hconfig : config.IsAlone document here (pathOf place))
    (hcarried : carried.IsAlone document there (pathOf next)) (hdir : config.dir = pathOf place)
    (hdir' : carried.dir = pathOf next) : config.IsCarried place next carried := by
  have hfield : ∀ field ∈ [document.includes, document.excludes], Option.Rel (FilePatterns.IsCarried place next)
      (field.map (⟨pathOf place, ·⟩)) (field.map (⟨pathOf next, ·⟩)) := by
    intro field hmem
    cases field with
    | none => exact .none
    | some patterns =>
      have hall := FilePatterns.IsCarried.inside (List.forall_mem_nil _) (hpatterns _ hmem patterns rfl)
      rw [List.append_nil, List.append_nil] at hall
      exact .some hall
  constructor
  case dir => exact hdir
  case dir_carried => exact hdir'
  case includes =>
    rw [hconfig.includes, hcarried.includes]
    exact hfield _ (by simp)
  case excludes =>
    rw [hconfig.excludes, hcarried.excludes]
    exact hfield _ (by simp)
  case files => rw [hconfig.files, hcarried.files, Option.isSome_map, Option.isSome_map]
  case outDir =>
    intro _
    have hblank := fun value hvalue => (houtDir value hvalue).1
    rw [hconfig.outDir?_eq hkeys hblank, hcarried.outDir?_eq hkeys hblank]
    cases hvalue : (document.options.getD {}).other.get? "outDir" with
    | none => exact .none
    | some value =>
      cases value with
      | string value =>
        have hdir := (houtDir value hvalue).2.isCarried hplace hnext (List.forall_mem_nil _)
        rw [List.append_nil, List.append_nil] at hdir
        exact .some hdir
      | _ => exact .none

end Config

end ScopedCheck
