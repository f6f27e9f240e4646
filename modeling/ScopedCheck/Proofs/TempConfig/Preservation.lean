import ScopedCheck.Proofs.TempConfig.Reloading
/-! # What a temporary config keeps

A temporary config has the options of the config that it was made from. None is lost, renamed or written
twice, whatever it is called, and only a few are changed, as far as they were asked to be. -/

namespace ScopedCheck

namespace TempConfig

open Options

/-! ## The options that may change -/

section Changed

variable {room : Nat} {config : Config}

/-- Whether libraries are checked is left to the config, if nothing else is asked for. -/
theorem get?_compilerOptions_skipLibCheck (h : config.options.IsSound room) {s : Synthesis}
    (hskip : s.skipLibCheck = none) (dir : Path) :
    (compilerOptions config s dir).get? "skipLibCheck" = config.options.value? "skipLibCheck" := by
  rw [compilerOptions_eq, get?_setSome_of_ne _ _ (by decide), get?_setSome_of_ne _ _ (by decide),
    get?_setSome_of_ne _ _ (by decide), get?_setSome_self, hskip, Option.map_none, Option.none_or,
    get?_withoutEmit (areOptions_toEntries h).nodup (by decide) (by decide), get?_toEntries_eq_value? h]

/-- What is emitted is left to the config, if nothing else is asked for. -/
theorem get?_compilerOptions_emit (h : config.options.IsSound room) {s : Synthesis}
    (hemit : s.noEmit = false) (dir : Path) {key : String}
    (hkey : key ∈ ["noEmit", "emitDeclarationOnly"]) :
    (compilerOptions config s dir).get? key = config.options.value? key := by
  have hne : ∀ other ∈ ["skipLibCheck", "paths", "baseUrl", "typeRoots"], key ≠ other := by
    rcases List.mem_pair.mp hkey with rfl | rfl
    · decide
    · decide
  simp only [List.forall_mem_cons] at hne
  obtain ⟨hskip, hpaths, hbase, hroots, -⟩ := hne
  rw [compilerOptions_eq, get?_setSome_of_ne _ _ hroots, get?_setSome_of_ne _ _ hbase,
    get?_setSome_of_ne _ _ hpaths, get?_setSome_of_ne _ _ hskip, withoutEmit, hemit,
    if_neg Bool.false_ne_true, get?_toEntries_eq_value? h]

/-- The directories of type packages are those of the config, if it has any. -/
theorem get?_compilerOptions_typeRoots (h : config.options.IsSound room) (s : Synthesis) (dir : Path) :
    (compilerOptions config s dir).get? "typeRoots" = some (Json.strings
      (config.options.typeRoots.getD [(dir.child "node_modules/@types").slashed])) := by
  have hown := get?_toEntries_eq_value? h "typeRoots"
  rw [compilerOptions_eq, get?_setSome_self]
  cases hroots : config.options.typeRoots with
  | none => rfl
  | some roots =>
      rw [Option.isNone_some, if_neg Bool.false_ne_true, Option.none_or,
        get?_setSome_of_ne _ _ (by decide), get?_setSome_of_ne _ _ (by decide),
        get?_setSome_of_ne _ _ (by decide),
        get?_withoutEmit (areOptions_toEntries h).nodup (by decide) (by decide), hown]
      simp [value?, hroots]

end Changed

/-- Import patterns with the number of their targets. -/
def targetCounts (paths : Entries (List String)) : List (String × Nat) :=
  paths.map fun entry => (entry.1, entry.2.length)

theorem targetCounts_anchoredEntries (anchor : Path) (paths : Entries (List String)) :
    targetCounts (anchoredEntries anchor paths) = targetCounts paths := by
  simp [targetCounts, anchoredEntries]

/-! ## All options -/

/-- Whether options are those of a config, as far as nothing else is asked for. -/
structure KeepsOptions (config : Config) (s : Synthesis) (options : Entries Json) : Prop where
  nodup : options.keys.Nodup
  others : ∀ key ∉ changedKeys, options.get? key = config.options.value? key
  noPaths : config.options.paths = none → options.get? "paths" = none
  /-- The same patterns in the same order, with as many targets. -/
  paths : ∀ paths, config.options.paths = some paths → ∃ kept,
    options.get? "paths" = some (Options.pathsJson kept) ∧ targetCounts kept = targetCounts paths
  emit : s.noEmit = false → ∀ key ∈ ["noEmit", "emitDeclarationOnly"],
    options.get? key = config.options.value? key
  skipLibCheck : s.skipLibCheck = none →
    options.get? "skipLibCheck" = config.options.value? "skipLibCheck"
  baseUrl : ∀ base, config.options.baseUrl = some base → options.get? "baseUrl" = some (.string base)
  typeRoots : ∀ roots, config.options.typeRoots = some roots →
    options.get? "typeRoots" = some (Json.strings roots)

theorem keepsOptions_compilerOptions {room : Nat} {config : Config} (h : config.options.IsSound room)
    (s : Synthesis) (dir : Path) : KeepsOptions config s (compilerOptions config s dir) := by
  have hpaths := get?_compilerOptions_paths h s dir
  have hbase := get?_compilerOptions_baseUrl h s dir
  have hroots := get?_compilerOptions_typeRoots h s dir
  constructor
  case nodup => exact (areOptions_compilerOptions h s dir).nodup
  case others =>
      intro key hkey
      rw [get?_compilerOptions_of_notMem h s dir hkey, get?_toEntries_eq_value? h]
  case noPaths =>
      intro hnone
      rw [hpaths, hnone]
      rfl
  case paths =>
      intro paths hsome
      rw [hpaths, hsome]
      exact ⟨_, rfl, targetCounts_anchoredEntries _ paths⟩
  case emit => exact fun hemit key hkey => get?_compilerOptions_emit h hemit dir hkey
  case skipLibCheck => exact fun hskip => get?_compilerOptions_skipLibCheck h hskip dir
  case baseUrl =>
      intro base hsome
      rw [hbase, writtenBaseUrl, addsBaseUrl, hsome]
      simp
  case typeRoots =>
      intro roots hsome
      rw [hroots, hsome]
      rfl

/-- The document of a temporary config builds on nothing, and its options are those of the config that was
loaded, as far as nothing else is asked for. -/
theorem content_keepsOptions {tree : FileTree} {path : Path} {config : Config}
    (hload : Config.load tree path = .ok config) (selection : FileSelection) (s : Synthesis)
    (dir : Path) :
    (content config selection s dir).get? "extends" = none ∧
      ∃ options, (content config selection s dir).get? "compilerOptions" = some (Json.object options) ∧
        KeepsOptions config s options := by
  refine ⟨?_, _, rfl, keepsOptions_compilerOptions (Config.isSound_of_load hload) s dir⟩
  have hnone : "extends" ∉ (contentEntries config selection s dir).keys := fun hmem =>
    absurd ((keys_contentEntries config selection s dir).subset hmem) (by decide)
  exact Entries.get?_eq_none_iff.mpr hnone

/-- A project with options of several kinds, one of them null. -/
def variedProject : FileTree :=
  ⟨[FileTree.textEntry "tsconfig.json" ("\x7b\"compilerOptions\": \x7b\"baseUrl\": \"src\", " ++
    "\"paths\": \x7b\"@/*\": [\"app/*\", \"lib/*\"], \"#\": []\x7d, \"jsx\": null\x7d\x7d")]⟩

theorem content_keepsOptions_in_variedProject :
    ∃ config options kept, Config.load variedProject ⟨"/tsconfig.json"⟩ = .ok config ∧
      (content config (.exact []) {} ⟨"/"⟩).get? "compilerOptions" = some (Json.object options) ∧
      Entries.get? options "jsx" = some .null ∧
      Entries.get? options "baseUrl" = some (.string "/src") ∧
      Entries.get? options "paths" = some (Options.pathsJson kept) ∧
      targetCounts kept = [("@/*", 2), ("#", 0)] := by
  obtain ⟨config, hload, hread⟩ := Fallible.exists_of_toOption
    (show (Config.load variedProject ⟨"/tsconfig.json"⟩).toOption.map (fun config =>
        (config.options.baseUrl, config.options.paths.map targetCounts,
          (config.options.value? "jsx").map fun value => value matches .null)) =
      some (some "/src", some [("@/*", 2), ("#", 0)], some true) by decide +kernel)
  simp only [Prod.mk.injEq] at hread
  obtain ⟨hbase, hpaths, hjsx⟩ := hread
  obtain ⟨paths, hsome, hcounts⟩ := Option.map_eq_some_iff.mp hpaths
  have hnull : config.options.value? "jsx" = some .null := by
    obtain ⟨value, hvalue, hnull⟩ := Option.map_eq_some_iff.mp hjsx
    cases value with
    | null => exact hvalue
    | _ => cases hnull
  obtain ⟨-, options, hoptions, hkeeps⟩ := content_keepsOptions hload (.exact []) {} ⟨"/"⟩
  obtain ⟨kept, hkept, hsame⟩ := hkeeps.paths paths hsome
  exact ⟨config, options, kept, hload, hoptions, (hkeeps.others "jsx" (by decide)).trans hnull,
    hkeeps.baseUrl "/src" hbase, hkept, hsame.trans hcounts⟩

end TempConfig

end ScopedCheck
