import ScopedCheck.Proofs.Closure.Roots
import ScopedCheck.Proofs.Config.Rooted
import ScopedCheck.Proofs.Config.Writing
import ScopedCheck.Proofs.Fallible
import ScopedCheck.Proofs.Path.Spelling
import ScopedCheck.TempConfig.Content
/-! # Temporary configs that are loaded

The document of a temporary config can be loaded wherever it lies. Its options are those of the config
that it was made from, except for what a temporary config changes on purpose: the targets of import
patterns are anchored, and a base directory is added where the config needs one and has none. -/

namespace ScopedCheck

open Json

namespace TempConfig

open Options

/-! ## The options of a temporary config -/

/-- Entries with a key set, if there is a value for it. -/
def setSome (entries : Entries Json) (key : String) (value : Option Json) : Entries Json :=
  match value with
  | some value => entries.set key value
  | none => entries

theorem areOptions_setSome {room : Nat} {entries : Entries Json} (h : AreOptions room entries)
    {key : String} {value : Option Json} (hvalue : ∀ v ∈ value, EntryFits room key v) :
    AreOptions room (setSome entries key value) := by
  cases value with
  | none => exact h
  | some value => exact h.set (hvalue value rfl)

theorem get?_setSome_self (entries : Entries Json) (key : String) (value : Option Json) :
    (setSome entries key value).get? key = value.or (entries.get? key) := by
  cases value with
  | none => rfl
  | some value => exact Entries.get?_set_self entries key value

theorem get?_setSome_of_ne (entries : Entries Json) {key other : String} (value : Option Json)
    (h : other ≠ key) : (setSome entries key value).get? other = entries.get? other := by
  cases value with
  | none => rfl
  | some value => exact Entries.get?_set_of_ne entries value h

/-- Whether a temporary config sets a base directory that the config does not have. -/
def addsBaseUrl (config : Config) : Bool := !config.isBundler && config.options.baseUrl.isNone

/-- The options of a temporary config, step by step. -/
theorem compilerOptions_eq (config : Config) (s : Synthesis) (dir : Path) :
    compilerOptions config s dir =
      setSome (setSome (setSome (setSome (withoutEmit s config.options.toEntries)
        "skipLibCheck" (s.skipLibCheck.map .bool))
        "paths" (config.options.paths.map (anchoredPaths (targetAnchor config dir))))
        "baseUrl" (if addsBaseUrl config then some (.string dir.slashed) else none))
        "typeRoots" (if config.options.typeRoots.isNone then
          some (Json.strings [(dir.child "node_modules/@types").slashed]) else none) := by
  unfold compilerOptions addsBaseUrl
  cases s.skipLibCheck <;> cases config.options.paths <;>
    cases !config.isBundler && config.options.baseUrl.isNone <;>
      cases config.options.typeRoots <;> rfl

/-- Import patterns with their targets anchored. -/
def anchoredEntries (anchor : Path) (paths : Entries (List String)) : Entries (List String) :=
  paths.map fun entry => (entry.1, entry.2.map (anchoredTarget anchor))

theorem keys_anchoredEntries (anchor : Path) (paths : Entries (List String)) :
    (anchoredEntries anchor paths).keys = paths.keys := by
  simp [anchoredEntries, Entries.keys, Function.comp_def]

theorem anchoredPaths_eq (anchor : Path) {paths : Entries (List String)} (h : paths.keys.Nodup) :
    anchoredPaths anchor paths = Options.pathsJson (anchoredEntries anchor paths) := by
  rw [anchoredPaths, Entries.setAll_eq_append, List.nil_append, Options.pathsJson, anchoredEntries,
    List.map_map]
  · rfl
  · simpa [Entries.keys, Function.comp_def] using h

theorem areOptions_withoutEmit {room : Nat} (s : Synthesis) {entries : Entries Json}
    (h : AreOptions room entries) : AreOptions room (withoutEmit s entries) := by
  have hemit : EntryFits room "noEmit" (.bool true) := ⟨true, rfl⟩
  unfold withoutEmit
  split
  · exact (h.set hemit).remove _
  · exact h

theorem get?_withoutEmit {s : Synthesis} {entries : Entries Json} (h : entries.keys.Nodup)
    {key : String} (hemit : key ≠ "noEmit") (hdeclaration : key ≠ "emitDeclarationOnly") :
    (withoutEmit s entries).get? key = entries.get? key := by
  unfold withoutEmit
  split
  · rw [Entries.get?_remove_of_ne (Entries.nodup_set h _ _) hdeclaration,
      Entries.get?_set_of_ne _ _ hemit]
  · rfl

/-- The options of a temporary config can be read back. -/
theorem areOptions_compilerOptions {room : Nat} {config : Config} (h : config.options.IsSound room)
    (s : Synthesis) (dir : Path) : AreOptions room (compilerOptions config s dir) := by
  rw [compilerOptions_eq]
  refine areOptions_setSome (areOptions_setSome (areOptions_setSome (areOptions_setSome
    (areOptions_withoutEmit s (areOptions_toEntries h)) ?_) ?_) ?_) ?_
  · intro value hvalue
    obtain ⟨skip, -, rfl⟩ := Option.mem_map.mp hvalue
    exact ⟨skip, rfl⟩
  · intro value hvalue
    obtain ⟨paths, hpaths, rfl⟩ := Option.mem_map.mp hvalue
    have hnodup := h.paths paths hpaths
    exact ⟨_, anchoredPaths_eq _ hnodup, by rwa [keys_anchoredEntries]⟩
  · intro value hvalue
    split at hvalue
    · obtain rfl := Option.mem_some.mp hvalue
      exact ⟨dir.slashed, rfl⟩
    · cases hvalue
  · intro value hvalue
    split at hvalue
    · obtain rfl := Option.mem_some.mp hvalue
      exact ⟨[(dir.child "node_modules/@types").slashed], rfl⟩
    · cases hvalue

/-- The options that a temporary config may change. -/
def changedKeys : List String :=
  ["noEmit", "emitDeclarationOnly", "skipLibCheck", "paths", "baseUrl", "typeRoots"]

/-- All other options of a temporary config are those of the config. -/
theorem get?_compilerOptions_of_notMem {room : Nat} {config : Config} (h : config.options.IsSound room)
    (s : Synthesis) (dir : Path) {key : String} (hkey : key ∉ changedKeys) :
    (compilerOptions config s dir).get? key = config.options.toEntries.get? key := by
  simp only [changedKeys, List.mem_cons, List.not_mem_nil, or_false, not_or] at hkey
  obtain ⟨hemit, hdeclaration, hskip, hpaths, hbase, hroots⟩ := hkey
  rw [compilerOptions_eq, get?_setSome_of_ne _ _ hroots, get?_setSome_of_ne _ _ hbase,
    get?_setSome_of_ne _ _ hpaths, get?_setSome_of_ne _ _ hskip,
    get?_withoutEmit (areOptions_toEntries h).nodup hemit hdeclaration]

/-- The base directory of a temporary config, as it is written. -/
def writtenBaseUrl (config : Config) (dir : Path) : Option String :=
  if addsBaseUrl config then some dir.slashed else config.options.baseUrl

theorem get?_compilerOptions_baseUrl {room : Nat} {config : Config} (h : config.options.IsSound room)
    (s : Synthesis) (dir : Path) :
    (compilerOptions config s dir).get? "baseUrl" = (writtenBaseUrl config dir).map .string := by
  have hown := (get?_toEntries h).2.1
  rw [compilerOptions_eq, get?_setSome_of_ne _ _ (by decide), get?_setSome_self,
    get?_setSome_of_ne _ _ (by decide), get?_setSome_of_ne _ _ (by decide),
    get?_withoutEmit (areOptions_toEntries h).nodup (by decide) (by decide), hown, writtenBaseUrl]
  split
  · rfl
  · exact Option.none_or

theorem get?_compilerOptions_paths {room : Nat} {config : Config} (h : config.options.IsSound room)
    (s : Synthesis) (dir : Path) :
    (compilerOptions config s dir).get? "paths" =
      config.options.paths.map fun paths =>
        Options.pathsJson (anchoredEntries (targetAnchor config dir) paths) := by
  have hown := (get?_toEntries h).1
  rw [compilerOptions_eq, get?_setSome_of_ne _ _ (by decide), get?_setSome_of_ne _ _ (by decide),
    get?_setSome_self, get?_setSome_of_ne _ _ (by decide),
    get?_withoutEmit (areOptions_toEntries h).nodup (by decide) (by decide), hown]
  cases hpaths : config.options.paths with
  | none => rfl
  | some paths => exact congrArg some (anchoredPaths_eq _ (h.paths paths hpaths))

/-! ## The document of a temporary config -/

/-- The entries of the document. -/
def contentEntries (config : Config) (selection : FileSelection) (s : Synthesis) (dir : Path) :
    Entries Json :=
  ("compilerOptions", .object (compilerOptions config s dir)) ::
    (fileEntries config selection ++ referenceEntries config)

theorem content_eq (config : Config) (selection : FileSelection) (s : Synthesis) (dir : Path) :
    content config selection s dir = .object (contentEntries config selection s dir) := rfl

/-- The keys of the document, as far as they are there. -/
theorem keys_contentEntries (config : Config) (selection : FileSelection) (s : Synthesis) (dir : Path) :
    (contentEntries config selection s dir).keys.Sublist
      ["compilerOptions", "files", "include", "exclude", "references"] := by
  have hfiles : (Entries.keys (fileEntries config selection)).Sublist
      ["files", "include", "exclude"] := by
    cases selection with
    | exact files => exact (List.nil_sublist _).cons_cons _
    | patterns includes files => exact List.Sublist.refl _
  have hreferences : (Entries.keys (referenceEntries config)).Sublist ["references"] := by
    unfold referenceEntries
    split
    · exact List.nil_sublist _
    · exact List.Sublist.refl _
  have happend := (hfiles.append hreferences).cons_cons "compilerOptions"
  simpa [contentEntries, Entries.keys] using happend

theorem fits_contentEntries {config : Config} (h : config.options.IsSound Document.optionRoom)
    (selection : FileSelection) (s : Synthesis) (dir : Path) :
    ∀ entry ∈ contentEntries config selection s dir,
      Document.EntryFits (depthLimit - 1) entry.1 entry.2 := by
  have hoptions := areOptions_compilerOptions h s dir
  intro entry hentry
  rw [contentEntries, List.mem_cons, List.mem_append] at hentry
  rcases hentry with rfl | hfile | hreference
  · exact ⟨_, rfl, hoptions.nodup, hoptions.fits⟩
  · cases selection with
    | exact files =>
        obtain rfl := List.mem_singleton.mp hfile
        exact ⟨_, rfl⟩
    | patterns includes files =>
        simp only [fileEntries, List.mem_cons, List.not_mem_nil, or_false] at hfile
        rcases hfile with rfl | rfl | rfl
        · exact ⟨_, rfl⟩
        · exact ⟨_, rfl⟩
        · exact ⟨_, rfl⟩
  · unfold referenceEntries at hreference
    split at hreference
    · cases hreference
    · obtain rfl := List.mem_singleton.mp hreference
      exact ⟨config.references.map Path.slashed, by rw [List.map_map]; rfl⟩

/-- The include patterns of a selection, if it has any. -/
def includesOf : FileSelection → Option (List String)
  | .exact _ => none
  | .patterns includes _ => some includes

/-- The document of a temporary config as it is read back. -/
def contentDocument (config : Config) (selection : FileSelection) (s : Synthesis) (dir : Path) :
    Document where
  options := some (Options.ofEntries (rereadEntries (compilerOptions config s dir)))
  includes := includesOf selection
  excludes := (includesOf selection).map fun _ => config.excludePatterns
  files := some (selection.files.map Path.slashed)
  references :=
    if config.references.isEmpty then none else some (config.references.map Path.slashed)

theorem parse_content {config : Config} (h : config.options.IsSound Document.optionRoom)
    (selection : FileSelection) (s : Synthesis) (dir : Path) :
    Document.parse (content config selection s dir).pretty =
      .ok (contentDocument config selection s dir) := by
  have hnodup := (keys_contentEntries config selection s dir).nodup (by decide)
  have hobject : ∀ entries, (Json.object entries).reread = .object (rereadEntries entries) :=
    fun _ => rfl
  have hreferences : Document.referencesOf (Json.array (config.references.map fun reference =>
      .object [("path", .string reference.slashed)])).reread = config.references.map Path.slashed := by
    have hpaths : config.references.map (fun reference =>
        Json.object [("path", .string reference.slashed)]) =
          (config.references.map Path.slashed).map fun path => .object [("path", .string path)] := by
      rw [List.map_map]
      rfl
    rw [hpaths, Document.reread_references, Document.referencesOf_paths]
  rw [content_eq, Document.parse_pretty hnodup (fits_contentEntries h selection s dir)]
  simp only [Document.ofEntries, Document.draftOf, Document.Draft.document, get?_rereadEntries,
    contentDocument, contentEntries, referenceEntries]
  cases selection <;> cases config.references.isEmpty <;>
    simp [fileEntries, Entries.get?, includesOf, FileSelection.files, pathsJson, hreferences, hobject,
      reread_strings, stringsOf_strings, object?]

end TempConfig

namespace Config

/-! ## Loading a single document -/

/-- The text that is read when a config is loaded. Links are followed twice, once for the config and
once for the document. -/
def loadedText (tree : FileTree) (path : Path) : Except FileTree.Fault String :=
  tree.readText (tree.canonical (tree.canonical path))

/-- A document that builds on nothing is loaded by itself. -/
theorem exists_load {tree : FileTree} {path : Path} {text : String} {document : Document}
    (htext : loadedText tree path = .ok text) (hparse : Document.parse text = .ok document)
    (hextends : document.extends? = none) :
    ∃ config, load tree path = .ok config ∧
      config.IsAlone document (tree.canonical path) (tree.canonical (tree.canonical path)).parent := by
  have hread : readDocument tree (tree.canonical (tree.canonical path)) = .ok document := by
    rw [loadedText] at htext
    simp only [readDocument, htext, hparse]
  have hlayer : loadLayer tree (tree.fileCount + 1) [] (tree.canonical path) =
      .ok (mergeLayers {} (ownLayer document (tree.canonical (tree.canonical path)).parent),
        [tree.canonical (tree.canonical path)]) := by
    unfold loadLayer
    simp only [cycleFrom?, List.dropWhile_nil, hread, bind, Except.bind, hextends]
    rfl
  unfold load
  simp only [hlayer, bind, Except.bind]
  refine ⟨_, rfl, ?_⟩
  constructor <;> simp [mergeLayers, ownLayer]

end Config

namespace TempConfig

open Options

/-! ## Reloading a temporary config -/

/-- Whether a config is what the document of a temporary config is loaded as. Only what says how modules
are resolved is looked at. -/
structure IsReload (config : Config) (dir : Path) (reloaded : Config) : Prop where
  paths : reloaded.options.paths =
    config.options.paths.map (anchoredEntries (targetAnchor config dir))
  baseUrl : ∃ place, reloaded.options.baseUrl =
    ((writtenBaseUrl config dir).filter (!Text.isBlankText ·)).map fun value =>
      Config.anchored place (Text.trimmed value)
  moduleResolution : reloaded.options.moduleResolution = config.options.moduleResolution
  moduleKind : reloaded.options.moduleKind = config.options.moduleKind
  allowJs : reloaded.options.allowJs = config.options.allowJs
  checkJs : reloaded.options.checkJs = config.options.checkJs

theorem IsReload.isBundler_eq {config reloaded : Config} {dir : Path} (h : IsReload config dir reloaded) :
    reloaded.isBundler = config.isBundler := by
  simp only [Config.isBundler, Config.moduleResolution, h.moduleResolution, h.moduleKind]

theorem IsReload.isSome_paths {config reloaded : Config} {dir : Path} (h : IsReload config dir reloaded) :
    reloaded.options.paths.isSome = config.options.paths.isSome := by
  rw [h.paths, Option.isSome_map]

/-- An option that is kept is read back, if its values are. -/
theorem read_back {α : Type} {toJson : α → Json} {ofJson? : Json → Option α}
    (hback : ∀ a, ofJson? (toJson a).reread = some a) {room : Nat} {config : Config}
    (h : config.options.IsSound room) (s : Synthesis) (dir : Path) {key : String} {field : Option α}
    (hkey : key ∉ changedKeys) (hfield : config.options.toEntries.get? key = field.map toJson) :
    ((Entries.get? (rereadEntries (compilerOptions config s dir)) key).map ofJson?).join = field := by
  rw [get?_rereadEntries, get?_compilerOptions_of_notMem h s dir hkey, hfield]
  cases field with
  | none => rfl
  | some a => exact hback a

/-- The options that are read back, laid over nothing in any directory. -/
theorem isReload_of_options {room : Nat} {config reloaded : Config} (h : config.options.IsSound room)
    (s : Synthesis) (dir place : Path)
    (hoptions : reloaded.options = Config.mergeOptions {} (Config.anchoredOptions place
      (Options.ofEntries (rereadEntries (compilerOptions config s dir))))) :
    IsReload config dir reloaded := by
  obtain ⟨-, -, hresolution, hmodule, hallow, hcheck⟩ := get?_toEntries h
  have htext : ∀ text, string? (Json.string text).reread = some text := fun _ => rfl
  have hswitch : ∀ value, bool? (Json.bool value).reread = some value := fun _ => rfl
  have hresolution := read_back htext h s dir (by decide) hresolution
  have hmodule := read_back htext h s dir (by decide) hmodule
  have hallow := read_back hswitch h s dir (by decide) hallow
  have hcheck := read_back hswitch h s dir (by decide) hcheck
  have hpaths := get?_compilerOptions_paths h s dir
  have hbase := get?_compilerOptions_baseUrl h s dir
  constructor <;> simp only [hoptions, Config.mergeOptions, Config.anchoredOptions, Options.ofEntries,
    draftOf, Draft.options]
  · rw [get?_rereadEntries, hpaths]
    cases config.options.paths with
    | none => rfl
    | some paths => simp [reread_pathsJson, pathsOf_pathsJson]
  · refine ⟨place, ?_⟩
    rw [get?_rereadEntries, hbase]
    cases writtenBaseUrl config dir with
    | none => rfl
    | some value => simp [reread, string?]
  · simpa using hresolution
  · simpa using hmodule
  · simpa using hallow
  · simpa using hcheck

/-- The document of a temporary config can be loaded wherever it lies. -/
theorem exists_reload {tree again : FileTree} {path place : Path} {config : Config}
    (hload : Config.load tree path = .ok config) (selection : FileSelection) (s : Synthesis)
    (dir : Path) (hplace : Config.loadedText again place = .ok (content config selection s dir).pretty) :
    ∃ reloaded, Config.load again place = .ok reloaded ∧ IsReload config dir reloaded := by
  have hsound := Config.isSound_of_load hload
  obtain ⟨reloaded, hreload, halone⟩ :=
    Config.exists_load hplace (parse_content hsound selection s dir) rfl
  exact ⟨reloaded, hreload, isReload_of_options hsound s dir _ halone.options⟩

/-! ## The directory of a config -/

/-- The directory of a config that is loaded by an absolute path. -/
theorem isAbsolute_dir_of_load {tree : FileTree} {path : Path} {config : Config}
    (h : Config.load tree path = .ok config) (habs : path.isAbsolute = true) :
    config.dir.isAbsolute = true := by
  obtain ⟨found, -, h⟩ := Fallible.bind_eq_ok_iff.mp h
  obtain rfl := Except.ok.inj h
  exact Path.isAbsolute_parent (FileTree.isAbsolute_canonical tree habs)
/-! ## Base directories that are not blank -/

theorem not_isBlankText {text : String} (h : (⟨text⟩ : Path).isAbsolute = true) :
    Text.isBlankText text = false := by
  obtain ⟨cs, hcs⟩ := Path.chars_eq_of_isAbsolute h
  rw [Path.chars] at hcs
  rw [Text.isBlankText, hcs]
  rfl

/-- The base directory that a temporary config adds is not blank when it is loaded. -/
theorem not_isBlankText_anchored {dir : Path} (h : dir.isAbsolute = true) (other : Path) :
    Text.isBlankText dir.slashed = false ∧
      Text.isBlankText (Config.anchored other (Text.trimmed dir.slashed)) = false := by
  have hslashed : (⟨dir.slashed⟩ : Path).isAbsolute = true := Path.isAbsolute_forwardSlashes h
  have htrimmed := Path.isAbsolute_forwardSlashes (Path.isAbsolute_trimmed hslashed)
  refine ⟨not_isBlankText hslashed, ?_⟩
  simp only [Config.anchored, htrimmed, if_true]
  exact not_isBlankText htrimmed
/-- A tree with one file. -/
def singleFile (name text : String) : FileTree :=
  { root := [(name.toList, .file { content := .text text })] }

theorem canonical_singleFile (text : String) :
    (singleFile "t.json" text).canonical ⟨"/t.json"⟩ = ⟨"/t.json"⟩ := by
  with_unfolding_all rfl

theorem readText_singleFile (text : String) :
    (singleFile "t.json" text).readText ⟨"/t.json"⟩ = .ok text := by
  with_unfolding_all rfl

theorem loadedText_singleFile (text : String) :
    Config.loadedText (singleFile "t.json" text) ⟨"/t.json"⟩ = .ok text := by
  rw [Config.loadedText, canonical_singleFile, canonical_singleFile, readText_singleFile]

end TempConfig

end ScopedCheck
