import ScopedCheck.Proofs.Config.Flattening
import ScopedCheck.Proofs.Config.Reading
/-! # Paths that start at the root

A document whose paths all start at the root is loaded as the same config wherever it lies, but for the
place of the config. In a loaded config all paths start at the root that its documents were to make
absolute, whatever they build on. -/

namespace ScopedCheck

namespace Path

theorem isAbsolute_trimmed {text : String} (h : (⟨text⟩ : Path).isAbsolute = true) :
    (⟨Text.trimmed text⟩ : Path).isAbsolute = true := by
  obtain ⟨cs, hcs⟩ := chars_eq_of_isAbsolute h
  rw [chars] at hcs
  have hstart : Text.trimStart ('/' :: cs) = '/' :: cs := List.dropWhile_cons_of_neg (by decide)
  have hend : ∃ kept, Text.trimEnd ('/' :: cs) = '/' :: kept := by
    rw [Text.trimEnd, Text.dropTail, List.reverse_cons, List.dropWhile_append]
    split
    · exact ⟨[], rfl⟩
    · exact ⟨_, List.reverse_concat⟩
  obtain ⟨kept, hkept⟩ := hend
  have hchars : (⟨Text.trimmed text⟩ : Path).chars = '/' :: kept := by
    simp [chars, Text.trimmed, Text.trim, hcs, hstart, hkept]
  exact isAbsolute_of_chars hchars

theorem isAbsolute_child {p : Path} (h : p.isAbsolute = true) (behind : String) :
    (p.child behind).isAbsolute = true := by
  cases hbehind : (⟨behind⟩ : Path).isAbsolute with
  | true => rwa [child, join, hbehind, if_pos rfl]
  | false => exact (steps_child p hbehind).1.trans h

theorem isAbsolute_normalize {p : Path} (h : p.isAbsolute = true) : p.normalize.isAbsolute = true := by
  rw [normalize_of_isAbsolute h]
  exact isAbsolute_pathOf _

end Path

namespace Config

/-- Whether a text is an absolute path as it is written. -/
def IsRooted (text : String) : Prop := (⟨text⟩ : Path).isAbsolute = true

theorem IsRooted.trimmed {text : String} (h : IsRooted text) : IsRooted (Text.trimmed text) :=
  Path.isAbsolute_trimmed h

theorem IsRooted.forwardSlashes {text : String} (h : IsRooted text) :
    IsRooted (Text.forwardSlashes text) := Path.isAbsolute_forwardSlashes h

theorem isRooted_slashed {p : Path} (h : p.isAbsolute = true) : IsRooted p.slashed :=
  Path.isAbsolute_forwardSlashes h

theorem isRooted_anchored {dir : Path} (h : dir.isAbsolute = true) (value : String) :
    IsRooted (anchored dir value) := (isAnchored_anchored h value).1

/-- What starts at the root is anchored in one way. -/
theorem anchored_eq {value : String} (h : IsRooted value) (dir : Path) :
    anchored dir value = Text.forwardSlashes value := if_pos h.forwardSlashes

theorem isRooted_absolutePattern {dir : Path} (h : dir.isAbsolute = true) (pattern : String) :
    IsRooted (FilePatterns.absolutePattern dir pattern) := by
  unfold FilePatterns.absolutePattern
  simp only
  split
  · assumption
  · exact isRooted_slashed (Path.isAbsolute_normalize (Path.isAbsolute_child h _))

theorem absolutePattern_eq {pattern : String} (h : IsRooted pattern) (dir : Path) :
    FilePatterns.absolutePattern dir pattern = Text.forwardSlashes (Text.trimmed pattern) := by
  have habs := h.trimmed.forwardSlashes
  rw [IsRooted] at habs
  simp only [FilePatterns.absolutePattern, habs, if_true]

/-- Patterns that start at the root are relative to nothing. -/
theorem absolute_eq_of_isRooted {patterns : List String} (h : ∀ pattern ∈ patterns, IsRooted pattern)
    (dir other : Path) :
    (⟨dir, patterns⟩ : FilePatterns).absolute = (⟨other, patterns⟩ : FilePatterns).absolute := by
  refine List.map_congr_left fun pattern hpattern => ?_
  rw [absolutePattern_eq (h pattern hpattern), absolutePattern_eq (h pattern hpattern)]

theorem referencedConfig_eq {reference : String} (h : IsRooted reference) (here there : Path) :
    referencedConfig here reference = referencedConfig there reference := by
  have hjoin : ∀ p : Path, p.child reference = ⟨reference⟩ := fun p => if_pos h
  simp only [referencedConfig, hjoin]

/-! ## Options -/

/-- Whether the paths in the value of an option start at the root, unless they are blank. -/
structure IsRootedValue (key : String) (value : Json) : Prop where
  path : key ∈ pathOptions → ∀ text, value = .string text → Text.isBlankText text = true ∨ IsRooted text
  list : key = pathListOption → ∀ items, value = .array items → ∀ text, .string text ∈ items →
    IsRooted text

/-- Whether all paths in options start at the root that are made absolute when they are loaded. -/
structure IsRootedOptions (o : Options) : Prop where
  baseUrl : ∀ base ∈ o.baseUrl, IsRooted base
  typeRoots : ∀ roots ∈ o.typeRoots, ∀ root ∈ roots, IsRooted root
  other : ∀ entry ∈ o.other, IsRootedValue entry.1 entry.2

theorem foldl_change_eq_map (f : Json → Json) {names : List String} (h : names.Nodup)
    (entries : Entries Json) :
    names.foldl (fun entries key => Entries.change entries key f) entries =
      entries.map fun entry => (entry.1, if entry.1 ∈ names then f entry.2 else entry.2) := by
  induction names generalizing entries with
  | nil => simp
  | cons first names ih =>
      rw [List.nodup_cons] at h
      rw [List.foldl_cons, ih h.2, Entries.change, List.map_map]
      refine List.map_congr_left fun entry _ => ?_
      by_cases hkey : entry.1 = first
      · simp [hkey, h.1]
      · simp [hkey]

/-- To make paths absolute changes every value by its key alone. -/
theorem anchoredOthers_eq_map (dir : Path) (other : Entries Json) :
    anchoredOthers dir other = other.map fun entry => (entry.1, Source.anchorOf dir entry.1 entry.2) := by
  rw [anchoredOthers, foldl_change_eq_map _ (by decide), Entries.change, List.map_map]
  refine List.map_congr_left fun entry _ => ?_
  simp only [Function.comp, Source.anchorOf]
  by_cases hlist : entry.1 = pathListOption
  · have hpath : pathListOption ∉ pathOptions := by decide
    simp only [hlist, hpath, if_true, if_false]
  · simp only [hlist, if_false]
    split <;> rfl

/-- To make paths absolute makes them start at the root. -/
theorem isRootedValue_anchorOf {dir : Path} (h : dir.isAbsolute = true) (key : String) (value : Json) :
    IsRootedValue key (Source.anchorOf dir key value) := by
  constructor
  · intro hkey text htext
    rw [Source.anchorOf, if_pos hkey] at htext
    unfold anchoredValue at htext
    split at htext
    · split at htext
      · rename_i hblank
        exact Or.inl (Json.string.inj htext ▸ hblank)
      · exact Or.inr (Json.string.inj htext ▸ isRooted_anchored h _)
    · rename_i hother
      exact absurd htext (hother text)
  · rintro rfl items hitems text htext
    rw [Source.anchorOf, if_neg (by decide), if_pos rfl] at hitems
    unfold anchoredList at hitems
    split at hitems
    · obtain rfl := Json.array.inj hitems
      obtain ⟨item, -, hitem⟩ := List.mem_map.mp htext
      split at hitem
      · exact Json.string.inj hitem ▸ isRooted_anchored h _
      · rename_i hother
        exact absurd hitem (hother text)
    · rename_i hother
      exact absurd hitems (hother items)

theorem IsRootedValue.anchoredValue_eq {key : String} {value : Json} (h : IsRootedValue key value)
    (hkey : key ∈ pathOptions) (dir other : Path) :
    anchoredValue dir value = anchoredValue other value := by
  cases value with
  | string text =>
      rcases h.path hkey text rfl with hblank | hrooted
      · simp only [anchoredValue, hblank, if_true]
      · have htrimmed := hrooted.trimmed
        rw [anchoredValue, anchoredValue, anchored_eq htrimmed, anchored_eq htrimmed]
  | _ => rfl

theorem IsRootedValue.anchoredList_eq {key : String} {value : Json} (h : IsRootedValue key value)
    (hkey : key = pathListOption) (dir other : Path) :
    anchoredList dir value = anchoredList other value := by
  cases value with
  | array items =>
      rw [anchoredList, anchoredList]
      refine congrArg Json.array (List.map_congr_left fun item hitem => ?_)
      cases item with
      | string text =>
          have htrimmed := (h.list hkey items rfl text hitem).trimmed
          simp only [anchored_eq htrimmed]
      | _ => rfl
  | _ => rfl

/-- What starts at the root stays as it is, wherever it is made absolute. -/
theorem IsRootedValue.anchorOf_eq {key : String} {value : Json} (h : IsRootedValue key value)
    (dir other : Path) : Source.anchorOf dir key value = Source.anchorOf other key value := by
  unfold Source.anchorOf
  split
  · rename_i hkey
    exact h.anchoredValue_eq hkey dir other
  · split
    · rename_i hkey
      exact h.anchoredList_eq hkey dir other
    · rfl

theorem isRootedOptions_anchoredOptions {dir : Path} (h : dir.isAbsolute = true) (o : Options) :
    IsRootedOptions (anchoredOptions dir o) := by
  refine ⟨fun base hbase => ?_, fun roots hroots root hroot => ?_, fun entry hentry => ?_⟩
  · obtain ⟨value, -, rfl⟩ := Option.mem_map.mp hbase
    exact isRooted_anchored h _
  · obtain ⟨values, -, rfl⟩ := Option.mem_map.mp hroots
    obtain ⟨value, -, rfl⟩ := List.mem_map.mp hroot
    exact isRooted_anchored h _
  · have hmap := anchoredOthers_eq_map dir o.other
    change entry ∈ anchoredOthers dir o.other at hentry
    rw [hmap] at hentry
    obtain ⟨own, -, rfl⟩ := List.mem_map.mp hentry
    exact isRootedValue_anchorOf h own.1 own.2

theorem isRootedOptions_empty : IsRootedOptions {} := ⟨by simp, by simp, by simp⟩

theorem IsRootedOptions.merge {base child : Options} (hbase : IsRootedOptions base)
    (hchild : IsRootedOptions child) : IsRootedOptions (mergeOptions base child) := by
  refine ⟨fun value hvalue => ?_, fun roots hroots => ?_, fun entry hentry => ?_⟩
  · cases hcase : child.baseUrl with
    | none => exact hbase.baseUrl value (by simpa [mergeOptions, hcase] using hvalue)
    | some own => exact hchild.baseUrl value (by simpa [mergeOptions, hcase] using hvalue)
  · cases hcase : child.typeRoots with
    | none => exact hbase.typeRoots roots (by simpa [mergeOptions, hcase] using hroots)
    | some own => exact hchild.typeRoots roots (by simpa [mergeOptions, hcase] using hroots)
  · rcases Entries.mem_setAll hentry with hmem | hmem
    · exact hbase.other entry hmem
    · exact hchild.other entry hmem

theorem IsRootedOptions.anchoredOptions_eq {o : Options} (h : IsRootedOptions o) (dir other : Path) :
    anchoredOptions dir o = anchoredOptions other o := by
  have hbase : ((o.baseUrl.filter (!Text.isBlankText ·)).map fun value =>
      anchored dir (Text.trimmed value)) = (o.baseUrl.filter (!Text.isBlankText ·)).map fun value =>
        anchored other (Text.trimmed value) := by
    refine Option.map_congr fun value hvalue => ?_
    have hrooted := (h.baseUrl value (Option.mem_filter_iff.mp hvalue).1).trimmed
    rw [anchored_eq hrooted, anchored_eq hrooted]
  have hroots : (o.typeRoots.map fun roots =>
      ((roots.map Text.trimmed).filter (!·.isEmpty)).map (anchored dir)) = o.typeRoots.map fun roots =>
        ((roots.map Text.trimmed).filter (!·.isEmpty)).map (anchored other) := by
    refine Option.map_congr fun roots hroots => List.map_congr_left fun root hroot => ?_
    obtain ⟨written, hwritten, rfl⟩ := List.mem_map.mp (List.mem_of_mem_filter hroot)
    have hrooted := (h.typeRoots roots hroots written hwritten).trimmed
    rw [anchored_eq hrooted, anchored_eq hrooted]
  have hothers : anchoredOthers dir o.other = anchoredOthers other o.other := by
    rw [anchoredOthers_eq_map, anchoredOthers_eq_map]
    refine List.map_congr_left fun entry hentry => ?_
    rw [(h.other entry hentry).anchorOf_eq dir other]
  simp only [anchoredOptions, hbase, hroots, hothers]

/-! ## Loaded configs -/

/-- Whether all paths of a layer start at the root that its documents were to make absolute. -/
structure Layer.IsRooted (layer : Layer) : Prop where
  options : IsRootedOptions layer.options
  excludes : ∀ specs ∈ layer.excludes, specs.baseDir.isAbsolute = true
  pathsBaseDir : ∀ dir ∈ layer.pathsBaseDir, dir.isAbsolute = true

theorem Layer.IsRooted.merge {base child : Layer} (hbase : base.IsRooted) (hchild : child.IsRooted) :
    (mergeLayers base child).IsRooted := by
  refine ⟨hbase.options.merge hchild.options, fun specs hspecs => ?_, fun dir hdir => ?_⟩
  · cases hcase : child.excludes with
    | none => exact hbase.excludes specs (by simpa [mergeLayers, hcase] using hspecs)
    | some own => exact hchild.excludes specs (by simpa [mergeLayers, hcase] using hspecs)
  · simp only [mergeLayers] at hdir
    split at hdir
    · exact hchild.pathsBaseDir dir hdir
    · exact hbase.pathsBaseDir dir hdir

theorem isRooted_ownLayer (document : Document) {dir : Path} (h : dir.isAbsolute = true) :
    (ownLayer document dir).IsRooted := by
  refine ⟨isRootedOptions_anchoredOptions h _, fun specs hspecs => ?_, fun base hbase => ?_⟩
  · obtain ⟨patterns, -, rfl⟩ := Option.mem_map.mp hspecs
    exact h
  · obtain ⟨paths, -, rfl⟩ := Option.mem_map.mp hbase
    exact h

/-- The paths of a loaded config start at the root. -/
theorem isRooted_of_load {tree : FileTree} {path : Path} {config : Config}
    (h : load tree path = .ok config) : ∃ layer, config.IsOfLayer layer ∧ layer.IsRooted :=
  exists_layer_of_load ⟨isRootedOptions_empty, by simp, by simp⟩
    (fun _ _ hbase hchild => hbase.merge hchild)
    (fun _ document _ habs => isRooted_ownLayer document (Path.isAbsolute_parent habs)) h

/-! ## Documents that build on nothing -/

/-- Whether all paths in a document start at the root that are made absolute when it is loaded. -/
structure IsRootedDocument (document : Document) : Prop where
  options : IsRootedOptions (document.options.getD {})
  patterns : ∀ field ∈ [document.includes, document.excludes, document.files], ∀ patterns ∈ field,
    ∀ pattern ∈ patterns, IsRooted pattern
  references : ∀ reference ∈ document.references.getD [], IsRooted reference

/-- Whether a config at a path is made of one document alone, which lies in a directory. -/
structure IsAlone (config : Config) (document : Document) (here dir : Path) : Prop where
  options : config.options = mergeOptions {} (anchoredOptions dir (document.options.getD {}))
  includes : config.includes = document.includes.map (⟨dir, ·⟩)
  excludes : config.excludes = document.excludes.map (⟨dir, ·⟩)
  files : config.files = document.files.map (⟨dir, ·⟩)
  references : config.references = (document.references.getD []).map (referencedConfig here)

/-- Whether configs say the same, except for where they lie. -/
structure SaysSame (config other : Config) : Prop where
  options : config.options = other.options
  includes : config.includes.map FilePatterns.absolute = other.includes.map FilePatterns.absolute
  excludes : config.excludes.map FilePatterns.absolute = other.excludes.map FilePatterns.absolute
  files : config.files.map FilePatterns.absolute = other.files.map FilePatterns.absolute
  references : config.references = other.references

/-- A document whose paths start at the root says the same wherever it lies. -/
theorem IsRootedDocument.saysSame {document : Document} (h : IsRootedDocument document)
    {config other : Config} {here there dir place : Path} (hconfig : config.IsAlone document here dir)
    (hother : other.IsAlone document there place) : config.SaysSame other := by
  have hpatterns : ∀ field ∈ [document.includes, document.excludes, document.files],
      (field.map fun patterns => (⟨dir, patterns⟩ : FilePatterns)).map FilePatterns.absolute =
        (field.map fun patterns => (⟨place, patterns⟩ : FilePatterns)).map FilePatterns.absolute := by
    intro field hfield
    rw [Option.map_map, Option.map_map]
    exact Option.map_congr fun patterns hmem =>
      absolute_eq_of_isRooted (h.patterns field hfield patterns hmem) dir place
  simp only [List.forall_mem_cons] at hpatterns
  obtain ⟨hincludes, hexcludes, hfiles, -⟩ := hpatterns
  constructor
  case options => rw [hconfig.options, hother.options, h.options.anchoredOptions_eq dir place]
  case includes => rwa [hconfig.includes, hother.includes]
  case excludes => rwa [hconfig.excludes, hother.excludes]
  case files => rwa [hconfig.files, hother.files]
  case references =>
    rw [hconfig.references, hother.references]
    exact List.map_congr_left fun reference hreference =>
      referencedConfig_eq (h.references reference hreference) _ _

end Config

end ScopedCheck
