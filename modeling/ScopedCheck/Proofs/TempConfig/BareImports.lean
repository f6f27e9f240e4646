import ScopedCheck.Proofs.Import.Resolve
import ScopedCheck.Proofs.TempConfig.Reloading
/-! # Bare imports under a temporary config

A specifier that is no path and matches no import pattern is tried against the base directory and
belongs to a package otherwise. Under a temporary config it stands for what it stands for under the
config that it was made from, unless a base directory was added: then a file below this directory is found
before the package is. -/

namespace ScopedCheck

namespace Import

namespace Alias

theorem mem_ofPaths {paths : Entries (List String)} {a : Alias} :
    a ∈ ofPaths paths ↔ ∃ entry ∈ paths, entry.2 ≠ [] ∧ ofEntry entry = a := by
  simp only [ofPaths, List.mem_mergeSort, List.mem_map, List.mem_filter, Bool.not_eq_true',
    List.isEmpty_eq_false_iff, and_assoc]

/-- No pattern is selected if none of those that stand for something matches. -/
theorem select_ofPaths_eq_none_iff {paths : Entries (List String)} {specifier : String} :
    select (ofPaths paths) specifier = none ↔
      ∀ entry ∈ paths, entry.2 ≠ [] → (ofEntry entry).match? specifier = none := by
  rw [select, List.findSome?_eq_none_iff]
  refine ⟨fun h entry hentry hsome => ?_, fun h a ha => ?_⟩
  · exact Option.map_eq_none_iff.mp (h _ (mem_ofPaths.mpr ⟨entry, hentry, hsome, rfl⟩))
  · obtain ⟨entry, hentry, hsome, rfl⟩ := mem_ofPaths.mp ha
    exact Option.map_eq_none_iff.mpr (h entry hentry hsome)

/-- Whether a pattern is selected does not depend on where targets are anchored. -/
theorem select_anchoredEntries (anchor : Path) (paths : Entries (List String)) (specifier : String) :
    select (ofPaths (TempConfig.anchoredEntries anchor paths)) specifier = none ↔
      select (ofPaths paths) specifier = none := by
  have hmatch : ∀ entry : String × List String,
      (ofEntry (entry.1, entry.2.map (TempConfig.anchoredTarget anchor))).match? specifier =
        (ofEntry entry).match? specifier := fun _ => rfl
  rw [select_ofPaths_eq_none_iff, select_ofPaths_eq_none_iff, TempConfig.anchoredEntries,
    List.forall_mem_map]
  simp only [hmatch, ne_eq, List.map_eq_nil_iff]

end Alias

namespace Resolver

/-- Whether a specifier is neither an absolute path nor one relative to the importing file. -/
def isBare (specifier : String) : Bool :=
  !(⟨Alias.plain specifier⟩ : Path).isAbsolute && !isRelative (Alias.plain specifier)

/-- The file below a base directory that a specifier stands for. Nothing is looked for if the specifier
is empty or names something within a package. -/
def below? (r : Resolver) (tree : FileTree) (base : Path) (specifier : String) : Option Path :=
  let plain := Alias.plain specifier
  if plain.isEmpty || Text.startsWith plain "#" then none
  else (r.atPath tree (base.child plain)).file?

/-- What a bare specifier stands for if it matches no import pattern. -/
theorem resolve_of_isBare {r : Resolver} {specifier : String} (hbare : isBare specifier = true)
    (hselect : Alias.select r.aliases (Alias.plain specifier) = none) (tree : FileTree) (fromFile : Path) :
    r.resolve tree fromFile specifier =
      match r.baseUrl.bind fun base => r.below? tree base specifier with
      | some found => .file found
      | none => if (Alias.plain specifier).isEmpty then .unresolved else .external := by
  simp only [isBare, Bool.and_eq_true, Bool.not_eq_true'] at hbare
  have halias : r.byAlias tree (Alias.plain specifier) = none := by rw [byAlias, hselect, Option.bind_none]
  unfold resolve below?
  cases hempty : (Alias.plain specifier).isEmpty with
  | true => simp only [hempty, Bool.true_or, if_true, Option.bind_fun_none]
  | false =>
      cases hhash : Text.startsWith (Alias.plain specifier) "#" with
      | true =>
          simp only [hempty, hhash, Bool.or_true, if_true, Bool.false_eq_true, if_false,
            Option.bind_fun_none]
      | false =>
          simp only [hempty, hhash, hbare, halias, byBaseUrl, Bool.or_self, Bool.false_eq_true, if_false]
          rfl

end Resolver

end Import

namespace TempConfig

open Import

/-- The file below the base directory that a temporary config adds, if it adds one. -/
def belowAdded? (config : Config) (dir : Path) (files : FileTree) (specifier : String) : Option Path :=
  if addsBaseUrl config then (Resolver.ofConfig config).below? files ⟨dir.slashed⟩ specifier else none

/-- The base directory is read as it is written, if no blanks are lost at its end. -/
theorem IsReload.baseUrl_eq {config reloaded : Config} {dir : Path} (h : IsReload config dir reloaded)
    (hwritten : ∀ base ∈ writtenBaseUrl config dir, Config.IsAnchored base ∧ Text.trimmed base = base) :
    reloaded.options.baseUrl = writtenBaseUrl config dir := by
  obtain ⟨place, hbase⟩ := h.baseUrl
  rw [hbase]
  cases hcase : writtenBaseUrl config dir with
  | none => rfl
  | some base =>
      obtain ⟨⟨habs, hslash⟩, htrimmed⟩ := hwritten base hcase
      have hblank := not_isBlankText habs
      have hkept : Config.anchored place base = base := by
        simp only [Config.anchored, Text.forwardSlashes_eq hslash, habs, if_true]
      simp [Option.filter, hblank, htrimmed, hkept]

theorem IsReload.select_eq_none {config reloaded : Config} {dir : Path} (h : IsReload config dir reloaded)
    {specifier : String} (hselect : Alias.select (Resolver.ofConfig config).aliases specifier = none) :
    Alias.select (Resolver.ofConfig reloaded).aliases specifier = none := by
  simp only [Resolver.ofConfig, h.paths] at hselect ⊢
  cases hpaths : config.options.paths with
  | none => rfl
  | some paths =>
      rw [hpaths] at hselect
      exact (Alias.select_anchoredEntries _ paths specifier).mpr hselect

/-- A bare specifier that matches no import pattern stands for what it stands for under the config, or
for a file below the base directory that was added. -/
theorem IsReload.resolve_eq {config reloaded : Config} {dir : Path} (h : IsReload config dir reloaded)
    (hwritten : ∀ base ∈ writtenBaseUrl config dir, Config.IsAnchored base ∧ Text.trimmed base = base)
    (files : FileTree) (fromFile : Path) {specifier : String} (hbare : Resolver.isBare specifier = true)
    (hselect : Alias.select (Resolver.ofConfig config).aliases (Alias.plain specifier) = none) :
    (Resolver.ofConfig reloaded).resolve files fromFile specifier =
      match belowAdded? config dir files specifier with
      | some found => .file found
      | none => (Resolver.ofConfig config).resolve files fromFile specifier := by
  have huntyped : (Resolver.ofConfig reloaded).allowsUntyped = (Resolver.ofConfig config).allowsUntyped := by
    simp only [Resolver.ofConfig, Config.allowsUntyped, h.allowJs, h.checkJs]
  have hbelow : ∀ base, (Resolver.ofConfig reloaded).below? files base specifier =
      (Resolver.ofConfig config).below? files base specifier := fun base => by
    simp only [Resolver.below?, Resolver.atPath_congr huntyped]
  have hbase : (Resolver.ofConfig reloaded).baseUrl = (writtenBaseUrl config dir).map Path.mk :=
    congrArg (Option.map Path.mk) (h.baseUrl_eq hwritten)
  have hown : (Resolver.ofConfig config).baseUrl = config.options.baseUrl.map Path.mk := rfl
  rw [Resolver.resolve_of_isBare hbare (h.select_eq_none hselect), Resolver.resolve_of_isBare hbare hselect,
    hbase, hown, belowAdded?, writtenBaseUrl]
  simp only [hbelow]
  cases hadds : addsBaseUrl config with
  | false => rfl
  | true =>
      have hnone : config.options.baseUrl = none := by
        simp only [addsBaseUrl, Bool.and_eq_true, Option.isNone_iff_eq_none] at hadds
        exact hadds.2
      simp only [hnone, if_true, Option.map_some, Option.bind_some, Option.map_none, Option.bind_none]

theorem isAnchored_written {tree : FileTree} {path : Path} {config : Config}
    (hload : Config.load tree path = .ok config) {dir : Path}
    (hdir : addsBaseUrl config = true → dir.isAbsolute = true) :
    ∀ base ∈ writtenBaseUrl config dir, Config.IsAnchored base := by
  unfold writtenBaseUrl
  split
  · rename_i hadds
    intro base hbase
    obtain rfl := Option.mem_some.mp hbase
    exact ⟨Path.isAbsolute_forwardSlashes (hdir hadds), Text.notMem_forwardSlashes _⟩
  · exact Config.isAnchored_baseUrl_of_load hload

/-- Whatever a loaded config says, a bare specifier that matches none of its import patterns stands for
the same under the reloaded document of a temporary config, in every file of every tree, unless a base
directory was added and a file lies below it. An added base directory must be absolute, and no base
directory may end in blanks, which are lost when it is read. -/
theorem resolve_reloaded {tree again : FileTree} {path place : Path} {config : Config}
    (hload : Config.load tree path = .ok config) (selection : FileSelection) (s : Synthesis)
    {dir : Path} (hdir : addsBaseUrl config = true → dir.isAbsolute = true)
    (hblanks : ∀ base ∈ writtenBaseUrl config dir, Text.trimmed base = base)
    (hplace : Config.loadedText again place = .ok (content config selection s dir).pretty) :
    ∃ reloaded, Config.load again place = .ok reloaded ∧
      ∀ (files : FileTree) (fromFile : Path) (specifier : String), Resolver.isBare specifier = true →
        Alias.select (Resolver.ofConfig config).aliases (Alias.plain specifier) = none →
        (Resolver.ofConfig reloaded).resolve files fromFile specifier =
          match belowAdded? config dir files specifier with
          | some found => .file found
          | none => (Resolver.ofConfig config).resolve files fromFile specifier := by
  obtain ⟨reloaded, hreload, hread⟩ := exists_reload hload selection s dir hplace
  have hanchored := isAnchored_written hload hdir
  exact ⟨reloaded, hreload, fun files fromFile specifier hbare hselect =>
    hread.resolve_eq (fun base hbase => ⟨hanchored base hbase, hblanks base hbase⟩) files fromFile hbare
      hselect⟩

/-- A project with a base directory and an import pattern. -/
def basedProject : FileTree :=
  ⟨[FileTree.textEntry "tsconfig.json" ("\x7b\"compilerOptions\": \x7b\"baseUrl\": \"src\", " ++
      "\"paths\": \x7b\"@/*\": [\"app/*\"]\x7d\x7d\x7d"),
    ("src".toList, .dir [FileTree.textEntry "a.ts" "", FileTree.textEntry "lib.ts" ""])]⟩

theorem resolve_reloaded_in_basedProject :
    ∃ config reloaded, Config.load basedProject ⟨"/tsconfig.json"⟩ = .ok config ∧
      Config.load (singleFile "t.json" (content config (.exact [⟨"/src/a.ts"⟩]) {} ⟨"/"⟩).pretty)
        ⟨"/t.json"⟩ = .ok reloaded ∧
      (Resolver.ofConfig reloaded).resolve basedProject ⟨"/src/a.ts"⟩ "lib" = .file ⟨"/src/lib.ts"⟩ := by
  obtain ⟨config, hload, hread⟩ := Fallible.exists_of_toOption
    (show (Config.load basedProject ⟨"/tsconfig.json"⟩).toOption.map (fun config =>
        (addsBaseUrl config, config.options.baseUrl,
          (Alias.select (Resolver.ofConfig config).aliases (Alias.plain "lib")).isNone,
          (Resolver.ofConfig config).resolve basedProject ⟨"/src/a.ts"⟩ "lib")) =
      some (false, some "/src", true, .file ⟨"/src/lib.ts"⟩) by decide +kernel)
  simp only [Prod.mk.injEq] at hread
  obtain ⟨hadds, hbase, hselect, hresolve⟩ := hread
  have hwritten : writtenBaseUrl config ⟨"/"⟩ = some "/src" := by
    rw [writtenBaseUrl, hadds, hbase]
    rfl
  have hblanks : ∀ base ∈ writtenBaseUrl config ⟨"/"⟩, Text.trimmed base = base := by
    rw [hwritten]
    rintro base hbase
    obtain rfl := Option.mem_some.mp hbase
    decide +kernel
  obtain ⟨reloaded, hreload, hsame⟩ := resolve_reloaded hload (.exact [⟨"/src/a.ts"⟩]) {}
    (fun _ => by decide +kernel) hblanks (loadedText_singleFile _)
  refine ⟨config, reloaded, hload, hreload, ?_⟩
  rw [hsame _ _ _ (by decide +kernel) (Option.isNone_iff_eq_none.mp hselect), belowAdded?, hadds]
  exact hresolve

/-- A project with an empty config. -/
def emptyConfigProject : FileTree :=
  ⟨[FileTree.textEntry "tsconfig.json" "\x7b\x7d", FileTree.textEntry "a.ts" "",
    FileTree.textEntry "lib.ts" ""]⟩

/-- The base directory that is added to an empty config leads to a file where the import belonged to a
package. -/
theorem added_base_directory_widens :
    ¬∀ (tree again : FileTree) (path place : Path) (config : Config) (selection : FileSelection)
      (s : Synthesis) (reloaded : Config) (files : FileTree) (fromFile : Path) (specifier : String),
      Config.load tree path = .ok config →
      Config.loadedText again place = .ok (content config selection s config.dir).pretty →
      Config.load again place = .ok reloaded →
      Resolver.isBare specifier = true →
      Alias.select (Resolver.ofConfig config).aliases (Alias.plain specifier) = none →
      (Resolver.ofConfig reloaded).resolve files fromFile specifier =
        (Resolver.ofConfig config).resolve files fromFile specifier := by
  intro hsame
  obtain ⟨config, hload, hread⟩ := Fallible.exists_of_toOption
    (show (Config.load emptyConfigProject ⟨"/tsconfig.json"⟩).toOption.map (fun config =>
        (writtenBaseUrl config config.dir,
          (Alias.select (Resolver.ofConfig config).aliases (Alias.plain "lib")).isNone,
          (Resolver.ofConfig config).resolve emptyConfigProject ⟨"/a.ts"⟩ "lib",
          belowAdded? config config.dir emptyConfigProject "lib")) =
      some (some "/", true, .external, some ⟨"/lib.ts"⟩) by decide +kernel)
  simp only [Prod.mk.injEq] at hread
  obtain ⟨hwritten, hselect, hresolve, hbelow⟩ := hread
  rw [Option.isNone_iff_eq_none] at hselect
  have hplace := loadedText_singleFile (content config (.exact [⟨"/a.ts"⟩]) {} config.dir).pretty
  obtain ⟨reloaded, hreload, hread⟩ := exists_reload hload _ {} config.dir hplace
  have hbare : Resolver.isBare "lib" = true := by decide +kernel
  have hkept : ∀ base ∈ writtenBaseUrl config config.dir,
      Config.IsAnchored base ∧ Text.trimmed base = base := by
    rw [hwritten]
    intro base hbase
    obtain rfl := Option.mem_some.mp hbase
    exact ⟨⟨by decide +kernel, by decide +kernel⟩, by decide +kernel⟩
  have hfile := hread.resolve_eq hkept emptyConfigProject ⟨"/a.ts"⟩ hbare hselect
  have hpackage := hsame _ _ _ _ config _ {} reloaded emptyConfigProject ⟨"/a.ts"⟩ "lib" hload hplace
    hreload hbare hselect
  rw [hbelow] at hfile
  rw [hfile, hresolve] at hpackage
  cases hpackage

end TempConfig

end ScopedCheck
