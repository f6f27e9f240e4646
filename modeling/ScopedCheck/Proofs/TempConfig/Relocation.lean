import ScopedCheck.Import.Resolve
import ScopedCheck.Proofs.TempConfig.Preservation
/-! # Temporary configs that are moved

The paths in the document of a temporary config start at the root, so that it says the same wherever it
lies. There is one exception: a blank output directory is no path, but it is taken for a pattern of what
is left out, which is relative to the directory of the document. -/

namespace ScopedCheck

open Json

namespace Json

theorem mem_rereadItems {items : List Json} {item : Json} (h : item ∈ rereadItems items) :
    ∃ old ∈ items, item = old.reread := by
  induction items with
  | nil => cases h
  | cons first rest ih =>
      rcases List.mem_cons.mp h with rfl | hmem
      · exact ⟨first, List.mem_cons_self .., rfl⟩
      · obtain ⟨old, hold, hsame⟩ := ih hmem
        exact ⟨old, List.mem_cons_of_mem _ hold, hsame⟩

theorem eq_string_of_reread {value : Json} {text : String} (h : value.reread = .string text) :
    value = .string text := by
  cases value <;> first | exact h | cases h

theorem eq_array_of_reread {value : Json} {items : List Json} (h : value.reread = .array items) :
    ∃ old, value = .array old ∧ items = rereadItems old := by
  cases value with
  | array old => exact ⟨old, rfl, (Json.array.inj h).symm⟩
  | _ => cases h

end Json

namespace TempConfig

open Config Import Options

variable {config : Config} {s : Synthesis} {dir : Path} {selection : FileSelection}

/-! ## The options of the document -/

theorem IsRootedValue.reread {key : String} {value : Json} (h : IsRootedValue key value) :
    IsRootedValue key value.reread := by
  refine ⟨fun hkey text htext => h.path hkey text (eq_string_of_reread htext), ?_⟩
  intro hkey items hitems text htext
  obtain ⟨old, rfl, rfl⟩ := eq_array_of_reread hitems
  obtain ⟨item, hitem, hsame⟩ := mem_rereadItems htext
  obtain rfl := eq_string_of_reread hsame.symm
  exact h.list hkey old rfl text hitem

/-- The options that hold paths are those of the config. -/
theorem mem_other_of_mem {room : Nat} (h : config.options.IsSound room) {key : String} {value : Json}
    (hkey : key ∈ pathListOption :: pathOptions) (hmem : (key, value) ∈ compilerOptions config s dir) :
    (key, value) ∈ config.options.other := by
  have hkept : ∀ key ∈ pathListOption :: pathOptions, key ∉ changedKeys ∧ key ∉ fieldKeys := by decide
  obtain ⟨hchanged, hfield⟩ := hkept key hkey
  rw [← Entries.get?_eq_some_iff (areOptions_compilerOptions h s dir).nodup,
    get?_compilerOptions_of_notMem h s dir hchanged, get?_toEntries_eq_value? h, value?_of_notMem hfield,
    Entries.get?_eq_some_iff h.keys] at hmem
  exact hmem

theorem isRooted_writtenBaseUrl (h : IsRootedOptions config.options) (hdir : dir.isAbsolute = true) :
    ∀ base ∈ writtenBaseUrl config dir, IsRooted base := by
  intro base hbase
  unfold writtenBaseUrl at hbase
  split at hbase
  · obtain rfl := Option.mem_some.mp hbase
    exact isRooted_slashed hdir
  · exact h.baseUrl base hbase

theorem isRootedOptions_reread {room : Nat} (hsound : config.options.IsSound room)
    (h : IsRootedOptions config.options) (hdir : dir.isAbsolute = true) :
    IsRootedOptions (Options.ofEntries (rereadEntries (compilerOptions config s dir))) := by
  have hbase := get?_compilerOptions_baseUrl hsound s dir
  have hroots := get?_compilerOptions_typeRoots hsound s dir
  constructor
  case baseUrl =>
    intro base hmem
    have hread : (Options.ofEntries (rereadEntries (compilerOptions config s dir))).baseUrl =
        writtenBaseUrl config dir := by
      simp only [Options.ofEntries, draftOf, Draft.options, get?_rereadEntries, hbase]
      cases writtenBaseUrl config dir <;> rfl
    rw [hread] at hmem
    exact isRooted_writtenBaseUrl h hdir base hmem
  case typeRoots =>
    intro roots hmem root hroot
    simp only [Options.ofEntries, draftOf, Draft.options, get?_rereadEntries, hroots, Option.map_some,
      reread_strings, stringsOf_strings, Option.join_some, Option.mem_some_iff] at hmem
    subst hmem
    cases hown : config.options.typeRoots with
    | none =>
        rw [hown, Option.getD_none, List.mem_singleton] at hroot
        rw [hroot]
        exact isRooted_slashed (Path.isAbsolute_child hdir _)
    | some own =>
        rw [hown, Option.getD_some] at hroot
        exact h.typeRoots own hown root hroot
  case other =>
    rintro ⟨key, value⟩ hmem
    obtain ⟨old, hold, rfl⟩ := mem_rereadEntries (List.mem_of_mem_filter hmem)
    apply IsRootedValue.reread
    constructor
    case path =>
      rintro hkey text rfl
      exact (h.other _ (mem_other_of_mem hsound (List.mem_cons_of_mem _ hkey) hold)).path hkey text rfl
    case list =>
      rintro rfl items rfl
      exact (h.other _ (mem_other_of_mem hsound (List.mem_cons_self ..) hold)).list rfl items rfl

/-! ## The files of the document -/

/-- Whether a selection is one of absolute paths and patterns. -/
structure IsRootedSelection (selection : FileSelection) : Prop where
  includes : ∀ patterns ∈ includesOf selection, ∀ pattern ∈ patterns, IsRooted pattern
  files : ∀ file ∈ selection.files, file.isAbsolute = true

/-- Whether no blank output directory is among the patterns of what is left out. These are only written
for a selection by patterns, and the output directory is only one of them where the config itself does not
say what is left out. -/
def LeavesOutPaths (config : Config) (selection : FileSelection) : Prop :=
  (includesOf selection).isSome → config.excludes = none → ∀ text,
    config.options.other.get? "outDir" = some (.string text) → Text.isBlankText text = false

theorem isRooted_excludePatterns {layer : Layer} (hlayer : config.IsOfLayer layer) (h : layer.IsRooted)
    (hdir : config.dir.isAbsolute = true)
    (hout : config.excludes = none → ∀ text,
      config.options.other.get? "outDir" = some (.string text) → Text.isBlankText text = false) :
    ∀ pattern ∈ config.excludePatterns, IsRooted pattern := by
  intro pattern hpattern
  unfold Config.excludePatterns at hpattern
  cases hexcludes : config.excludes with
  | some specs =>
      rw [hexcludes] at hpattern
      obtain ⟨own, -, rfl⟩ := List.mem_map.mp hpattern
      exact isRooted_absolutePattern (h.excludes specs (hlayer.excludes ▸ hexcludes)) own
  | none =>
      rw [hexcludes] at hpattern
      have hpackages : ∀ pattern ∈ [Path.packagesName, "bower_components", "jspm_packages"].map
          (fun name => (config.dir.child name).slashed), IsRooted pattern := by
        intro pattern hpattern
        obtain ⟨name, -, rfl⟩ := List.mem_map.mp hpattern
        exact isRooted_slashed (Path.isAbsolute_child hdir name)
      simp only [defaultExcludes] at hpattern
      split at hpattern
      · rename_i text htext
        rcases List.mem_append.mp hpattern with hmem | hmem
        · exact hpackages pattern hmem
        · obtain rfl := List.mem_singleton.mp hmem
          have hentry : ("outDir", Json.string text) ∈ layer.options.other := by
            rw [hlayer.options] at htext
            obtain ⟨entry, hentry, hvalue⟩ := Option.map_eq_some_iff.mp htext
            have hkey := List.find?_some hentry
            rw [← beq_iff_eq.mp hkey, ← hvalue]
            exact List.mem_of_find?_eq_some hentry
          have hpath : "outDir" ∈ pathOptions := by decide
          rcases (h.options.other _ hentry).path hpath text rfl with hblank | hrooted
          · rw [hout hexcludes text htext] at hblank
            cases hblank
          · exact hrooted.forwardSlashes
      · exact hpackages pattern hpattern

/-- The references of a config that lies at an absolute path are absolute. -/
theorem isAbsolute_of_mem_references {layer : Layer} (hlayer : config.IsOfLayer layer)
    (hdir : config.dir.isAbsolute = true) : ∀ reference ∈ config.references, reference.isAbsolute = true := by
  intro reference hreference
  rw [hlayer.references] at hreference
  obtain ⟨own, -, rfl⟩ := List.mem_map.mp hreference
  have habs := Path.isAbsolute_normalize (Path.isAbsolute_child hdir own)
  simp only [referencedConfig]
  split
  · exact habs
  · exact Path.isAbsolute_child habs _

/-- All paths in the document of a temporary config start at the root. -/
theorem isRootedDocument_content {room : Nat} {layer : Layer} (hsound : config.options.IsSound room)
    (hlayer : config.IsOfLayer layer) (h : layer.IsRooted) (hconfig : config.dir.isAbsolute = true)
    (hselection : IsRootedSelection selection) (hdir : dir.isAbsolute = true)
    (hout : LeavesOutPaths config selection) :
    IsRootedDocument (contentDocument config selection s dir) := by
  constructor
  case options => exact isRootedOptions_reread hsound (hlayer.options ▸ h.options) hdir
  case patterns =>
    simp only [contentDocument, List.forall_mem_cons]
    refine ⟨hselection.includes, fun patterns hpatterns => ?_, fun patterns hpatterns => ?_, by simp⟩
    · obtain ⟨includes, hincludes, rfl⟩ := Option.mem_map.mp hpatterns
      exact isRooted_excludePatterns hlayer h hconfig (hout (Option.isSome_of_mem hincludes))
    · obtain rfl := Option.mem_some.mp hpatterns
      intro pattern hpattern
      obtain ⟨file, hfile, rfl⟩ := List.mem_map.mp hpattern
      exact isRooted_slashed (hselection.files file hfile)
  case references =>
    intro reference hreference
    simp only [contentDocument] at hreference
    split at hreference
    · cases hreference
    · obtain ⟨own, hown, rfl⟩ := List.mem_map.mp hreference
      exact isRooted_slashed (isAbsolute_of_mem_references hlayer hconfig own hown)

/-! ## The targets of import patterns -/

/-- Whether a target, as it is read, is absolute or lies in an installed package. -/
def IsAnchoredTarget (target : String) : Prop :=
  (⟨Alias.plain target⟩ : Path).isInPackages = true ∨ (⟨Alias.plain target⟩ : Path).isAbsolute = true

theorem isAnchoredTarget_anchoredTarget {anchor : Path} (h : anchor.isAbsolute = true) (target : String) :
    IsAnchoredTarget (anchoredTarget anchor target) := by
  unfold anchoredTarget
  simp only
  split
  · rename_i hkept
    exact (Bool.or_eq_true_iff.mp hkept).symm
  · exact Or.inr (isRooted_slashed (Path.isAbsolute_normalize
      (Path.isAbsolute_child h _))).trimmed.forwardSlashes

theorem isAbsolute_targetAnchor {layer : Layer} (hlayer : config.IsOfLayer layer) (h : layer.IsRooted)
    (hdir : dir.isAbsolute = true) : (targetAnchor config dir).isAbsolute = true := by
  unfold targetAnchor
  split
  · rename_i base hbase
    exact h.options.baseUrl base (hlayer.options ▸ hbase)
  · cases hcase : config.pathsBaseDir with
    | none => exact hdir
    | some place => exact h.pathsBaseDir place (hlayer.pathsBaseDir ▸ hcase)

/-- The targets in the document are absolute, but for those in installed packages. -/
theorem isAnchoredTarget_of_mem {room : Nat} {layer : Layer} (hsound : config.options.IsSound room)
    (hlayer : config.IsOfLayer layer) (h : layer.IsRooted) (hdir : dir.isAbsolute = true)
    {paths : Entries (List String)}
    (hpaths : (compilerOptions config s dir).get? "paths" = some (Options.pathsJson paths)) :
    ∀ entry ∈ paths, ∀ target ∈ entry.2, IsAnchoredTarget target := by
  rw [get?_compilerOptions_paths hsound] at hpaths
  obtain ⟨own, -, hsame⟩ := Option.map_eq_some_iff.mp hpaths
  have hentries := congrArg pathsOf hsame
  rw [pathsOf_pathsJson, pathsOf_pathsJson] at hentries
  subst hentries
  intro entry hentry target htarget
  obtain ⟨pattern, -, rfl⟩ := List.mem_map.mp hentry
  obtain ⟨written, -, rfl⟩ := List.mem_map.mp htarget
  exact isAnchoredTarget_anchoredTarget (isAbsolute_targetAnchor hlayer h hdir) written

/-! ## The document in two places -/

/-- The document of a temporary config is loaded wherever it lies, and it says the same in two places,
unless a blank output directory is left out. Its targets are absolute as they are read. -/
theorem saysSame_of_moved {tree left right : FileTree} {path here there : Path}
    (hload : Config.load tree path = .ok config) (hconfig : config.dir.isAbsolute = true)
    (hselection : IsRootedSelection selection) (s : Synthesis) (hdir : dir.isAbsolute = true)
    (hout : LeavesOutPaths config selection)
    (hhere : Config.loadedText left here = .ok (content config selection s dir).pretty)
    (hthere : Config.loadedText right there = .ok (content config selection s dir).pretty) :
    (∃ first second, Config.load left here = .ok first ∧ Config.load right there = .ok second ∧
      first.SaysSame second) ∧
    ∀ paths, ((content config selection s dir).get? "compilerOptions").bind (·.get? "paths") =
        some (Options.pathsJson paths) →
      ∀ entry ∈ paths, ∀ target ∈ entry.2, IsAnchoredTarget target := by
  have hsound := Config.isSound_of_load hload
  obtain ⟨layer, hlayer, hrooted⟩ := Config.isRooted_of_load hload
  have hparse := parse_content hsound selection s dir
  obtain ⟨first, hfirst, halone⟩ := Config.exists_load hhere hparse rfl
  obtain ⟨second, hsecond, halone'⟩ := Config.exists_load hthere hparse rfl
  have hdocument : IsRootedDocument (contentDocument config selection s dir) :=
    isRootedDocument_content hsound hlayer hrooted hconfig hselection hdir hout
  exact ⟨⟨first, second, hfirst, hsecond, hdocument.saysSame halone halone'⟩,
    fun paths hpaths => isAnchoredTarget_of_mem hsound hlayer hrooted hdir hpaths⟩

/-! ## Two places -/

/-- A tree with one file in a directory. -/
def nestedFile (name text : String) : FileTree :=
  ⟨[("x".toList, .dir [FileTree.textEntry name text])]⟩

theorem canonical_nestedFile (text : String) :
    (nestedFile "t.json" text).canonical ⟨"/x/t.json"⟩ = ⟨"/x/t.json"⟩ := by
  with_unfolding_all rfl

theorem loadedText_nestedFile (text : String) :
    Config.loadedText (nestedFile "t.json" text) ⟨"/x/t.json"⟩ = .ok text := by
  rw [Config.loadedText, canonical_nestedFile, canonical_nestedFile]
  with_unfolding_all rfl

theorem exists_moved {tree : FileTree} {path : Path} (hload : Config.load tree path = .ok config)
    (selection : FileSelection) (s : Synthesis) (dir : Path) :
    ∃ first second,
      Config.load (singleFile "t.json" (content config selection s dir).pretty) ⟨"/t.json"⟩ = .ok first ∧
      Config.load (nestedFile "t.json" (content config selection s dir).pretty) ⟨"/x/t.json"⟩ =
        .ok second ∧
      first.IsAlone (contentDocument config selection s dir) ⟨"/t.json"⟩ ⟨"/"⟩ ∧
      second.IsAlone (contentDocument config selection s dir) ⟨"/x/t.json"⟩ ⟨"/x"⟩ := by
  have hparse := parse_content (Config.isSound_of_load hload) selection s dir
  obtain ⟨first, hfirst, halone⟩ := Config.exists_load (loadedText_singleFile _) hparse rfl
  obtain ⟨second, hsecond, halone'⟩ := Config.exists_load (loadedText_nestedFile _) hparse rfl
  have hroot : (⟨"/t.json"⟩ : Path).parent = ⟨"/"⟩ := by decide +kernel
  have hbelow : (⟨"/x/t.json"⟩ : Path).parent = ⟨"/x"⟩ := by decide +kernel
  rw [canonical_singleFile, canonical_singleFile, hroot] at halone
  rw [canonical_nestedFile, canonical_nestedFile, hbelow] at halone'
  exact ⟨first, second, hfirst, hsecond, halone, halone'⟩

/-- A project with an output directory, an import pattern and a reference. -/
def outputProject : FileTree :=
  ⟨[("p".toList, .dir [FileTree.textEntry "tsconfig.json"
    ("\x7b\"compilerOptions\": \x7b\"outDir\": \"dist\", " ++
    "\"paths\": \x7b\"@/*\": [\"src/*\"]\x7d\x7d, \"references\": [\x7b\"path\": \"../lib\"\x7d]\x7d")])]⟩

/-- All that the document takes in. -/
def sources : FileSelection := .patterns ["/p/src/**/*"] [⟨"/p/a.ts"⟩]

theorem isRootedSelection_sources : IsRootedSelection sources := by
  refine ⟨?_, ?_⟩
  · simp only [sources, includesOf, Option.mem_some_iff, forall_eq', List.forall_mem_cons]
    exact ⟨by rw [IsRooted]; decide, by simp⟩
  · simp only [sources, FileSelection.files, List.forall_mem_cons]
    exact ⟨by decide, by simp⟩

theorem saysSame_of_moved_outputProject :
    ∃ config first second, Config.load outputProject ⟨"/p/tsconfig.json"⟩ = .ok config ∧
      Config.load (singleFile "t.json" (content config sources {} ⟨"/p"⟩).pretty) ⟨"/t.json"⟩ = .ok first ∧
      Config.load (nestedFile "t.json" (content config sources {} ⟨"/p"⟩).pretty) ⟨"/x/t.json"⟩ =
        .ok second ∧
      first.SaysSame second := by
  obtain ⟨config, hload, hread⟩ := Fallible.exists_of_toOption
    (show (Config.load outputProject ⟨"/p/tsconfig.json"⟩).toOption.map (fun config =>
        (config.dir.isAbsolute, (config.options.other.get? "outDir").bind string?)) =
      some (true, some "/p/dist") by decide +kernel)
  obtain ⟨hconfig, hdist⟩ := Prod.mk.inj hread
  have hout : LeavesOutPaths config sources := by
    intro _ _ text htext
    rw [htext, Option.bind_some, string?] at hdist
    rw [Option.some.inj hdist]
    decide
  obtain ⟨⟨first, second, hfirst, hsecond, hsame⟩, -⟩ := saysSame_of_moved hload hconfig
    isRootedSelection_sources {} (show (⟨"/p"⟩ : Path).isAbsolute = true by decide) hout
    (loadedText_singleFile _) (loadedText_nestedFile _)
  exact ⟨config, first, second, hload, hfirst, hsecond, hsame⟩

/-- A project with a blank output directory, a target in blanks and a reference. -/
def looseProject : FileTree :=
  ⟨[FileTree.textEntry "tsconfig.json" ("\x7b\"compilerOptions\": \x7b\"outDir\": \"\", " ++
    "\"paths\": \x7b\"@/*\": [\" /lib/*\"]\x7d\x7d, \"references\": [\x7b\"path\": \"lib\"\x7d]\x7d")]⟩

/-- A blank output directory that is left out moves with the document, and a target in blanks is kept with
its blanks. The references of a config at a relative path move, too. -/
theorem blank_output_moves :
    (∃ config first second, Config.load looseProject ⟨"/tsconfig.json"⟩ = .ok config ∧
      Config.load (singleFile "t.json" (content config sources {} ⟨"/"⟩).pretty) ⟨"/t.json"⟩ = .ok first ∧
      Config.load (nestedFile "t.json" (content config sources {} ⟨"/"⟩).pretty) ⟨"/x/t.json"⟩ =
        .ok second ∧
      first.excludes.map FilePatterns.absolute ≠ second.excludes.map FilePatterns.absolute ∧
      ((content config sources {} ⟨"/"⟩).get? "compilerOptions").bind (·.get? "paths") =
        some (Options.pathsJson [("@/*", [" /lib/*"])]) ∧
      (⟨" /lib/*"⟩ : Path).isInPackages = false ∧ (⟨" /lib/*"⟩ : Path).isAbsolute = false) ∧
    ∃ config first second, Config.load looseProject ⟨"none/../tsconfig.json"⟩ = .ok config ∧
      Config.load (singleFile "t.json" (content config sources {} ⟨"/"⟩).pretty) ⟨"/t.json"⟩ = .ok first ∧
      Config.load (nestedFile "t.json" (content config sources {} ⟨"/"⟩).pretty) ⟨"/x/t.json"⟩ =
        .ok second ∧
      first.references ≠ second.references := by
  constructor
  · obtain ⟨config, hload, hread⟩ := Fallible.exists_of_toOption
      (show (Config.load looseProject ⟨"/tsconfig.json"⟩).toOption.map (fun config =>
          (config.excludePatterns, config.options.paths.map (anchoredEntries (targetAnchor config ⟨"/"⟩)))) =
        some (["/node_modules", "/bower_components", "/jspm_packages", ""],
          some [("@/*", [" /lib/*"])]) by decide +kernel)
    obtain ⟨hexcludes, htargets⟩ := Prod.mk.inj hread
    obtain ⟨first, second, hfirst, hsecond, halone, halone'⟩ := exists_moved hload sources {} ⟨"/"⟩
    refine ⟨config, first, second, hload, hfirst, hsecond, ?_, ?_, by decide +kernel, by decide +kernel⟩
    · have hdocument : (contentDocument config sources {} ⟨"/"⟩).excludes = some config.excludePatterns :=
        rfl
      rw [halone.excludes, halone'.excludes, hdocument, hexcludes]
      decide +kernel
    · obtain ⟨paths, hpaths, hsame⟩ := Option.map_eq_some_iff.mp htargets
      have hkept := get?_compilerOptions_paths (Config.isSound_of_load hload) {} ⟨"/"⟩
      rw [hpaths, Option.map_some, hsame] at hkept
      exact hkept
  · obtain ⟨config, hload, hread⟩ := Fallible.exists_of_toOption
      (show (Config.load looseProject ⟨"none/../tsconfig.json"⟩).toOption.map (·.references) =
        some [⟨"lib/tsconfig.json"⟩] by decide +kernel)
    obtain ⟨first, second, hfirst, hsecond, halone, halone'⟩ := exists_moved hload sources {} ⟨"/"⟩
    refine ⟨config, first, second, hload, hfirst, hsecond, ?_⟩
    have hdocument : (contentDocument config sources {} ⟨"/"⟩).references =
        if config.references.isEmpty then none else some (config.references.map Path.slashed) := rfl
    rw [halone.references, halone'.references, hdocument, hread]
    decide +kernel

end TempConfig

end ScopedCheck
