import ScopedCheck.Config.Load
import ScopedCheck.Proofs.Fallible
import ScopedCheck.Proofs.FileTree.Canonical
import ScopedCheck.Proofs.Json.Yields
/-! # Options of loaded configs

Whatever a config builds on, its other options are values that fit where they were read, their keys
differ, and none of them is an option with a field of its own. -/

namespace ScopedCheck

namespace Options

open Json Json.Decoder

/-- The options with a field of their own. -/
def fieldKeys : List String :=
  ["paths", "baseUrl", "moduleResolution", "module", "allowJs", "checkJs", "skipLibCheck", "noEmit",
    "typeRoots", "types"]

/-- Whether options could be written where there is room for their values. -/
structure IsSound (room : Nat) (o : Options) : Prop where
  paths : ∀ paths ∈ o.paths, (Entries.keys paths).Nodup
  keys : o.other.keys.Nodup
  others : ∀ key ∈ o.other.keys, key ∉ fieldKeys
  fits : ∀ entry ∈ o.other, entry.2.Fits room

theorem isSound_empty (room : Nat) : ({} : Options).IsSound room :=
  ⟨by simp, by simp [Entries.keys], by simp [Entries.keys], by simp⟩

/-! ## Reading options -/

theorem yields_fieldOnce {α : Type} (met : Option α) (key : String) {decoder : Json.Decoder α}
    {property : α → Prop} (h : Yields decoder property) :
    Yields (fieldOnce met key decoder) fun found => ∀ value ∈ found, property value := by
  have honce : Yields (onlyOnce met key) fun _ => True := by
    unfold onlyOnce
    split
    · exact yields_failLoose _ _
    · exact yields_pure trivial
  refine honce.bind fun _ _ => yields_colon.bind fun _ _ => h.bind fun value hvalue => yields_pure ?_
  intro other hother
  obtain rfl := Option.mem_some.mp hother
  exact hvalue

theorem yields_switch (room : Nat) : Yields (switch room) fun _ => True := by
  refine (yields_optional (yields_value room)).bind fun found _ => ?_
  split
  · exact yields_pure trivial
  · exact yields_pure trivial
  · split
    · exact yields_pure trivial
    · exact yields_failLoose _ _
  · exact yields_failLoose _ _

theorem yields_stringList (room : Nat) : Yields (stringList room) fun _ => True :=
  (yields_list room fun _ => yields_string).mono fun _ _ => trivial

/-- Every field keeps what has been met sound. -/
theorem yields_field (room : Nat) (d : Draft) (key : String) (h : d.options.IsSound room) :
    Yields (Draft.field room d key) fun next => next.options.IsSound room := by
  have hstring := (yields_optional yields_string).mono fun _ _ => trivial
  have hlist := (yields_optional (yields_stringList room)).mono fun _ _ => trivial
  unfold Draft.field
  split
  · have hpaths := yields_optional (yields_map room yields_stringList)
    refine (yields_fieldOnce _ _ hpaths).bind fun found hfound => yields_pure ?_
    refine ⟨fun paths hmem => ?_, h.keys, h.others, h.fits⟩
    cases found with
    | none => cases hmem
    | some inner => exact hfound inner rfl paths hmem
  · exact (yields_fieldOnce _ _ hstring).bind fun _ _ => yields_pure ⟨h.1, h.2, h.3, h.4⟩
  · exact (yields_fieldOnce _ _ hstring).bind fun _ _ => yields_pure ⟨h.1, h.2, h.3, h.4⟩
  · exact (yields_fieldOnce _ _ hstring).bind fun _ _ => yields_pure ⟨h.1, h.2, h.3, h.4⟩
  · exact (yields_fieldOnce _ _ (yields_switch room)).bind fun _ _ => yields_pure ⟨h.1, h.2, h.3, h.4⟩
  · exact (yields_fieldOnce _ _ (yields_switch room)).bind fun _ _ => yields_pure ⟨h.1, h.2, h.3, h.4⟩
  · exact (yields_fieldOnce _ _ (yields_switch room)).bind fun _ _ => yields_pure ⟨h.1, h.2, h.3, h.4⟩
  · exact (yields_fieldOnce _ _ (yields_switch room)).bind fun _ _ => yields_pure ⟨h.1, h.2, h.3, h.4⟩
  · exact (yields_fieldOnce _ _ hlist).bind fun _ _ => yields_pure ⟨h.1, h.2, h.3, h.4⟩
  · exact (yields_fieldOnce _ _ hlist).bind fun _ _ => yields_pure ⟨h.1, h.2, h.3, h.4⟩
  · have hkey : key ∉ fieldKeys := by simp_all [fieldKeys]
    refine yields_colon.bind fun _ _ => (yields_value room).bind fun found hfound => yields_pure ?_
    refine ⟨h.1, Entries.nodup_set h.2 key found, fun other hother => ?_, fun entry hentry => ?_⟩
    · rcases Entries.mem_keys_set hother with rfl | hmem
      · exact hkey
      · exact h.others other hmem
    · rcases Entries.mem_set hentry with rfl | hmem
      · exact hfound
      · exact h.fits entry hmem

/-- Options that are read are sound where there is room for one level less. -/
theorem yields_decode (room : Nat) : Yields (decode room) fun o => o.IsSound (room - 1) := by
  refine yields_record room shape (fun d => d.options.IsSound (room - 1))
    (isSound_empty _) (fun left hleft d key h => ?_) (fun d h => yields_pure h) (by simp [shape])
  subst hleft
  exact yields_field left d key h

end Options

namespace Document

open Json Json.Decoder

/-! ## Reading documents -/

/-- Whether the options of a document are sound, if it has any. -/
def IsSound (room : Nat) (document : Document) : Prop := ∀ o ∈ document.options, o.IsSound room

theorem yields_extendsDecoder (room : Nat) : Yields (extendsDecoder room) fun _ => True := by
  refine (yields_optional (yields_value room)).bind fun found _ => ?_
  split
  · exact yields_pure trivial
  · exact yields_pure trivial
  · split
    · exact yields_pure trivial
    · exact yields_failLoose _ _
  · exact yields_failLoose _ _

theorem yields_patterns (room : Nat) : Yields (patterns room) fun _ => True :=
  (yields_optional (Options.yields_stringList room)).mono fun _ _ => trivial

theorem yields_reference (room : Nat) : Yields (record room referenceShape) fun _ => True := by
  refine yields_record room referenceShape (fun _ => True) trivial
    (fun left _ path key _ => ?_) (fun path _ => ?_) ?_
  · show Yields (if key = "path" then Options.fieldOnce path key string
      else do colon; skip; return path) _
    split
    · exact (Options.yields_fieldOnce path key yields_string).mono fun _ _ => trivial
    · exact yields_colon.bind fun _ _ => yields_skip.bind fun _ _ => yields_pure trivial
  · cases path with
    | none => exact yields_failLoose _ _
    | some path => exact yields_pure trivial
  · intro items hitems left _
    obtain rfl := Option.mem_some.mp hitems
    refine (yields_nextItem true yields_string).bind fun found _ => ?_
    cases found with
    | none => exact yields_failLoose _ _
    | some path => exact yields_pure trivial

theorem yields_referencesDecoder (room : Nat) : Yields (referencesDecoder room) fun _ => True :=
  (yields_optional (yields_list room yields_reference)).mono fun _ _ => trivial

theorem yields_options (room : Nat) :
    Yields (optional (Options.decode room)) fun found => ∀ o ∈ found, o.IsSound (room - 1) :=
  yields_optional (Options.yields_decode room)

/-- Every field keeps what has been met sound. -/
theorem yields_field (room : Nat) (d : Draft) (key : String) (h : d.document.IsSound (room - 1)) :
    Yields (Draft.field room d key) fun next => next.document.IsSound (room - 1) := by
  unfold Draft.field
  split
  · exact (Options.yields_fieldOnce _ _ (yields_extendsDecoder room)).bind fun _ _ => yields_pure h
  · refine (Options.yields_fieldOnce _ _ (yields_options room)).bind fun found hfound => yields_pure ?_
    intro o ho
    cases found with
    | none => cases ho
    | some inner => exact hfound inner rfl o ho
  · exact (Options.yields_fieldOnce _ _ (yields_patterns room)).bind fun _ _ => yields_pure h
  · exact (Options.yields_fieldOnce _ _ (yields_patterns room)).bind fun _ _ => yields_pure h
  · exact (Options.yields_fieldOnce _ _ (yields_patterns room)).bind fun _ _ => yields_pure h
  · exact (Options.yields_fieldOnce _ _ (yields_referencesDecoder room)).bind fun _ _ => yields_pure h
  · exact yields_colon.bind fun _ _ => yields_skip.bind fun _ _ => yields_pure h

theorem yields_items (room : Nat) :
    Yields (items room) fun document => document.IsSound (room - 1) := by
  unfold items
  refine (yields_nextItem true (yields_extendsDecoder room)).bind fun extends? _ => ?_
  refine (yields_nextItem false (yields_options room)).bind fun options hoptions => ?_
  refine (yields_nextItem false (yields_patterns room)).bind fun includes _ => ?_
  refine (yields_nextItem false (yields_patterns room)).bind fun excludes _ => ?_
  refine (yields_nextItem false (yields_patterns room)).bind fun files _ => ?_
  refine (yields_nextItem false (yields_referencesDecoder room)).bind fun references _ => ?_
  refine yields_pure fun o ho => ?_
  cases options with
  | none => cases ho
  | some inner => exact hoptions inner rfl o ho

/-- The options of a document lie two levels deep. -/
theorem yields_decode (room : Nat) :
    Yields (decode room) fun document => document.IsSound (room - 2) := by
  refine yields_record room shape (fun d => d.document.IsSound (room - 2))
    (by simp [shape, Draft.document, IsSound]) (fun left hleft d key h => ?_)
    (fun d h => yields_pure h) (fun found hfound left hleft => ?_)
  · subst hleft
    exact yields_field left d key h
  · subst hleft
    obtain rfl := Option.mem_some.mp hfound
    exact yields_items left

/-- The room for the values of options in a document. -/
def optionRoom : Nat := depthLimit - 2

theorem isSound_of_parse {text : String} {document : Document} (h : parse text = .ok document) :
    document.IsSound optionRoom := by
  unfold parse at h
  simp only at h
  split at h
  · cases h
    simp [IsSound]
  · exact of_run (yields_decode depthLimit) h

end Document

namespace Config

open Json Document Fallible

/-! ## Loading -/

theorem fits_anchoredValue {room : Nat} (dir : Path) {value : Json} (h : value.Fits room) :
    (anchoredValue dir value).Fits room := by
  unfold anchoredValue
  split
  · split <;> trivial
  · exact h

theorem fits_anchoredList {room : Nat} (dir : Path) {value : Json} (h : value.Fits room) :
    (anchoredList dir value).Fits room := by
  unfold anchoredList
  split
  · rename_i items
    refine ⟨h.1, fitItems_iff.mpr fun item hitem => ?_⟩
    obtain ⟨old, hold, rfl⟩ := List.mem_map.mp hitem
    split
    · trivial
    · exact fitItems_iff.mp h.2 old hold
  · exact h

/-- Whether entries have certain keys and values that fit. -/
def FitWith (room : Nat) (keys : List String) (entries : Entries Json) : Prop :=
  entries.keys = keys ∧ ∀ entry ∈ entries, entry.2.Fits room

theorem FitWith.change {room : Nat} {keys : List String} {entries : Entries Json}
    (h : FitWith room keys entries) (key : String) {f : Json → Json}
    (hf : ∀ value : Json, value.Fits room → (f value).Fits room) :
    FitWith room keys (entries.change key f) := by
  refine ⟨by rw [Entries.keys_change, h.1], fun entry hentry => ?_⟩
  rcases Entries.mem_change hentry with hmem | ⟨value, hvalue, hsame⟩
  · exact h.2 entry hmem
  · rw [hsame]
    exact hf value (h.2 _ hvalue)

theorem fitWith_anchoredOthers {room : Nat} (dir : Path) {other : Entries Json}
    (h : ∀ entry ∈ other, entry.2.Fits room) :
    FitWith room other.keys (anchoredOthers dir other) := by
  have hfold : ∀ (names : List String) (entries : Entries Json), FitWith room other.keys entries →
      FitWith room other.keys
        (names.foldl (fun entries key => entries.change key (anchoredValue dir)) entries) := by
    intro names
    induction names with
    | nil => exact fun _ h => h
    | cons key names ih =>
        exact fun entries h => ih _ (h.change key fun _ hvalue => fits_anchoredValue dir hvalue)
  exact (hfold pathOptions other ⟨rfl, h⟩).change pathListOption fun _ hvalue =>
    fits_anchoredList dir hvalue

/-- To make paths absolute keeps options sound. -/
theorem isSound_anchoredOptions {room : Nat} (dir : Path) {o : Options} (h : o.IsSound room) :
    (anchoredOptions dir o).IsSound room := by
  obtain ⟨hkeys, hfits⟩ := fitWith_anchoredOthers dir h.fits
  refine ⟨h.paths, ?_, ?_, hfits⟩
  · show (anchoredOthers dir o.other).keys.Nodup
    rw [hkeys]
    exact h.keys
  · show ∀ key ∈ (anchoredOthers dir o.other).keys, key ∉ Options.fieldKeys
    rw [hkeys]
    exact h.others

/-- Sound options laid over sound ones are sound. -/
theorem isSound_mergeOptions {room : Nat} {base child : Options} (hbase : base.IsSound room)
    (hchild : child.IsSound room) : (mergeOptions base child).IsSound room := by
  refine ⟨fun paths hpaths => ?_, Entries.nodup_setAll hbase.keys _, fun key hkey => ?_,
    fun entry hentry => ?_⟩
  · cases hcase : child.paths with
    | none =>
        refine hbase.paths paths ?_
        simpa [mergeOptions, hcase] using hpaths
    | some own =>
        refine hchild.paths paths ?_
        simpa [mergeOptions, hcase] using hpaths
  · obtain ⟨entry, hentry, rfl⟩ := List.mem_map.mp hkey
    rcases Entries.mem_setAll hentry with hmem | hmem
    · exact hbase.others _ (Entries.mem_keys_of_mem hmem)
    · exact hchild.others _ (Entries.mem_keys_of_mem hmem)
  · rcases Entries.mem_setAll hentry with hmem | hmem
    · exact hbase.fits entry hmem
    · exact hchild.fits entry hmem

theorem isSound_ownLayer {room : Nat} {document : Document} (h : document.IsSound room) (dir : Path) :
    (ownLayer document dir).options.IsSound room := by
  refine isSound_anchoredOptions dir ?_
  cases hoptions : document.options with
  | none => exact Options.isSound_empty room
  | some o => exact h o hoptions

theorem isSound_of_readDocument {tree : FileTree} {path : Path} {document : Document}
    (h : readDocument tree path = .ok document) : document.IsSound optionRoom := by
  unfold readDocument at h
  split at h
  · cases h
  · cases h
  · split at h
    · rename_i hparse
      cases h
      exact isSound_of_parse hparse
    · cases h

/-! ## Where documents are found -/

theorem isFile_of_readDocument {tree : FileTree} {path : Path} {document : Document}
    (h : readDocument tree path = .ok document) : tree.isFile path = true := by
  rw [FileTree.isFile_iff]
  unfold readDocument at h
  split at h
  · cases h
  · cases h
  · rename_i text htext
    obtain ⟨node, hnode, htext⟩ := bind_eq_ok_iff.mp htext
    cases node with
    | file file => exact ⟨file, hnode⟩
    | link _ => cases htext
    | dir _ => cases htext

/-- What a specifier stands for is a file, or the path is canonical already. -/
theorem isFile_or_normal_of_baseOf {tree : FileTree} {path base : Path} {specifier : String}
    (h : baseOf tree path specifier = .ok base) : tree.isFile base = true ∨ base.normalize = base := by
  unfold baseOf at h
  simp only at h
  split at h
  · split at h
    · rename_i found hfound
      obtain rfl := Except.ok.inj h
      unfold documentAt? at hfound
      split at hfound
      · rename_i hfile
        exact Or.inl (Option.some.inj hfound ▸ hfile)
      · split at hfound
        · rename_i hfile
          rw [Bool.and_eq_true] at hfile
          exact Or.inl (Option.some.inj hfound ▸ hfile.2)
        · cases hfound
    · cases h
  · split at h
    · rename_i found hfound
      obtain rfl := Except.ok.inj h
      obtain ⟨above, -, hfound⟩ := List.exists_of_findSome?_eq_some hfound
      simp only at hfound
      split at hfound
      · obtain ⟨candidate, -, rfl⟩ := Option.map_eq_some_iff.mp hfound
        exact Or.inr (FileTree.normalize_canonical tree candidate)
      · cases hfound
    · cases h

/-- A document that can be read has the path of its place as its canonical path, if it was found or its
path is canonical already. -/
theorem isFilePlace_of_readDocument {tree : FileTree} {path : Path} {document : Document}
    (h : tree.isFile path = true ∨ path.normalize = path)
    (hread : readDocument tree (tree.canonical path) = .ok document) :
    tree.IsFilePlace (tree.canonical path) := by
  rcases h with hfile | hnormal
  · exact FileTree.isFilePlace_canonical hfile
  · exact FileTree.isFilePlace_canonical_of_normal hnormal (isFile_of_readDocument hread)

/-! ## What holds of all documents -/

/-- What holds of every document by itself, which has an absolute path, and is kept when layers are laid
over each other, holds of a layer, whatever it builds on. -/
theorem of_loadLayer {tree : FileTree} {property : Layer → Prop} (hempty : property {})
    (hmerge : ∀ base child, property base → property child → property (mergeLayers base child))
    (hown : ∀ path document, readDocument tree path = .ok document → path.isAbsolute = true →
      property (ownLayer document path.parent))
    {fuel : Nat} {stack : List Path} {path : Path} {layer : Layer} {chain : List Path}
    (hpath : tree.isFile path = true ∨ path.normalize = path)
    (h : loadLayer tree fuel stack path = .ok (layer, chain)) : property layer := by
  have hfold : ∀ (layers : List Layer) (base : Layer), property base →
      (∀ layer ∈ layers, property layer) → property (layers.foldl mergeLayers base) := by
    intro layers
    induction layers with
    | nil => exact fun _ hbase _ => hbase
    | cons first rest ih =>
        intro base hbase hlayers
        rw [List.forall_mem_cons] at hlayers
        exact ih _ (hmerge _ _ hbase hlayers.1) hlayers.2
  induction fuel generalizing stack path layer chain with
  | zero => cases h
  | succ fuel ih =>
      unfold loadLayer at h
      simp only at h
      split at h
      · cases h
      · obtain ⟨document, hdocument, h⟩ := bind_eq_ok_iff.mp h
        obtain ⟨bases, hbases, h⟩ := bind_eq_ok_iff.mp h
        obtain ⟨rfl, -⟩ := Prod.mk.inj (Except.ok.inj h)
        obtain ⟨location, -, hlocation, -⟩ := isFilePlace_of_readDocument hpath hdocument
        have habs : (tree.canonical path).isAbsolute = true := by
          rw [hlocation]
          exact Path.isAbsolute_pathOf location
        refine hmerge _ _ (hfold _ _ hempty fun layer hlayer => ?_) (hown _ _ hdocument habs)
        obtain ⟨found, hfound, rfl⟩ := List.mem_map.mp hlayer
        obtain ⟨specifier, -, hload⟩ := mem_of_mapM hbases hfound
        obtain ⟨base, hbase, hload⟩ := bind_eq_ok_iff.mp hload
        exact ih (isFile_or_normal_of_baseOf hbase) hload

/-- A config is what is loaded for its path, with its references looked up from there. -/
structure IsOfLayer (config : Config) (layer : Layer) : Prop where
  options : config.options = layer.options
  includes : config.includes = layer.includes
  excludes : config.excludes = layer.excludes
  files : config.files = layer.files
  pathsBaseDir : config.pathsBaseDir = layer.pathsBaseDir
  references : config.references = layer.references.map (referencedConfig config.configPath)

theorem exists_layer_of_load {tree : FileTree} {property : Layer → Prop} (hempty : property {})
    (hmerge : ∀ base child, property base → property child → property (mergeLayers base child))
    (hown : ∀ path document, readDocument tree path = .ok document → path.isAbsolute = true →
      property (ownLayer document path.parent))
    {path : Path} {config : Config} (h : load tree path = .ok config) :
    ∃ layer, config.IsOfLayer layer ∧ property layer := by
  obtain ⟨⟨layer, chain⟩, hlayer, h⟩ := bind_eq_ok_iff.mp h
  obtain rfl := Except.ok.inj h
  exact ⟨layer, ⟨rfl, rfl, rfl, rfl, rfl, rfl⟩,
    of_loadLayer hempty hmerge hown (.inr (FileTree.normalize_canonical tree path)) hlayer⟩

theorem of_load {tree : FileTree} {property : Options → Prop} (hempty : property {})
    (hmerge : ∀ base child, property base → property child → property (mergeOptions base child))
    (hown : ∀ path document, readDocument tree path = .ok document → path.isAbsolute = true →
      property (anchoredOptions path.parent (document.options.getD {})))
    {path : Path} {config : Config} (h : load tree path = .ok config) : property config.options := by
  have hlayers : ∃ layer, config.IsOfLayer layer ∧ property layer.options :=
    @exists_layer_of_load tree (fun layer => property layer.options) hempty
      (fun base child => hmerge base.options child.options) hown path config h
  obtain ⟨layer, hlayer, hproperty⟩ := hlayers
  rwa [hlayer.options]

/-- The options of a loaded config are sound. -/
theorem isSound_of_load {tree : FileTree} {path : Path} {config : Config}
    (h : load tree path = .ok config) : config.options.IsSound optionRoom :=
  of_load (Options.isSound_empty _) (fun _ _ => isSound_mergeOptions)
    (fun path _ hread _ => isSound_ownLayer (isSound_of_readDocument hread) path.parent) h

/-- Whether a text is an absolute path without backslashes. -/
def IsAnchored (text : String) : Prop := (⟨text⟩ : Path).isAbsolute = true ∧ '\\' ∉ text.toList

theorem isAnchored_anchored {dir : Path} (h : dir.isAbsolute = true) (value : String) :
    IsAnchored (anchored dir value) := by
  refine ⟨?_, ?_⟩
  · unfold anchored
    simp only
    split
    · assumption
    · rename_i hrelative
      rw [Bool.not_eq_true] at hrelative
      have hchild := (Path.steps_child dir hrelative).1
      rw [h] at hchild
      refine Path.isAbsolute_forwardSlashes ?_
      change ((dir.child (Text.forwardSlashes value)).normalize).isAbsolute = true
      rw [Path.normalize_of_isAbsolute hchild]
      exact Path.isAbsolute_pathOf _
  · unfold anchored
    simp only
    split
    · exact Text.notMem_forwardSlashes _
    · exact Text.notMem_forwardSlashes _

/-- The base directory of a loaded config is an absolute path without backslashes. -/
theorem isAnchored_baseUrl_of_load {tree : FileTree} {path : Path} {config : Config}
    (h : load tree path = .ok config) : ∀ value ∈ config.options.baseUrl, IsAnchored value := by
  refine @of_load tree (fun o => ∀ value ∈ o.baseUrl, IsAnchored value) (by simp) ?_ ?_ path config h
  · intro base child hbase hchild value hvalue
    cases hcase : child.baseUrl with
    | none => exact hbase value (by simpa [mergeOptions, hcase] using hvalue)
    | some own => exact hchild value (by simpa [mergeOptions, hcase] using hvalue)
  · intro path document _ habs value hvalue
    obtain ⟨own, -, rfl⟩ := Option.mem_map.mp hvalue
    exact isAnchored_anchored (Path.isAbsolute_parent habs) _

end Config

end ScopedCheck
