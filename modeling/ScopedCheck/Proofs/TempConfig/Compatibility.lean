import ScopedCheck.Compiler.Selection
import ScopedCheck.Proofs.TempConfig.Reloading
/-! # Temporary configs and compatibility

Compatibility is judged on a config, and the compiler is handed a temporary config instead. The two
agree unless the temporary config sets a base directory that the config does not have. -/

namespace ScopedCheck

namespace Compatibility

/-- A config is compatible if it resolves modules as bundlers do, or needs no base directory. -/
theorem compatible_ofConfig (config : Config) : (ofConfig config).compatible =
    (config.isBundler || (config.options.paths.isNone &&
      config.options.baseUrl.all Text.isBlankText)) := by
  unfold ofConfig missingFeatures
  cases config.isBundler <;> cases config.options.paths <;> cases config.options.baseUrl with
  | none => rfl
  | some value => cases hblank : Text.isBlankText value <;> simp [hblank]

end Compatibility

namespace Selection

/-- Without force, the primary compiler is only chosen for a compatible config. -/
theorem compatible_of_choose {c : Compatibility} {compilers : CompilerPaths} {choice : Selection}
    (h : choose false false c compilers = .ok choice) (hprimary : choice.kind = .primary) :
    c.compatible = true := by
  unfold choose at h
  simp only at h
  split at h
  · obtain rfl := Except.ok.inj h
    cases hprimary
  · split at h
    · obtain rfl := Except.ok.inj h
      cases hprimary
    · rename_i hcompatible
      simpa using hcompatible

end Selection

namespace TempConfig

/-! ## The verdict on a temporary config -/

/-- A compatible config stays compatible if its own base directory is kept. -/
theorem compatible_of_kept {config reloaded : Config} {dir : Path}
    (hcompatible : (Compatibility.ofConfig config).compatible = true)
    (hadds : addsBaseUrl config = false) (hbundler : reloaded.isBundler = config.isBundler)
    (hpaths : reloaded.options.paths.isSome = config.options.paths.isSome)
    (hbase : reloaded.options.baseUrl = (config.options.baseUrl.filter (!Text.isBlankText ·)).map
      fun value => Config.anchored dir (Text.trimmed value)) :
    (Compatibility.ofConfig reloaded).compatible = true := by
  rw [Compatibility.compatible_ofConfig] at hcompatible ⊢
  rw [hbundler, hbase]
  cases hcase : config.isBundler with
  | true => rfl
  | false =>
      obtain ⟨value, hvalue⟩ : ∃ value, config.options.baseUrl = some value :=
        Option.isSome_iff_exists.mp (by simpa [addsBaseUrl, hcase] using hadds)
      rw [hcase, hvalue, Bool.false_or, Bool.and_eq_true] at hcompatible
      have hblank : Text.isBlankText value = true := hcompatible.2
      have hnone : reloaded.options.paths.isNone = true := by
        rw [← hcompatible.1, ← Option.not_isSome, ← Option.not_isSome, hpaths]
      rw [hvalue, hnone]
      simp [Option.filter, hblank]

/-- A config is not compatible as a temporary config that adds a base directory. -/
theorem not_compatible_of_added {config reloaded : Config} {dir other : Path}
    (hdir : dir.isAbsolute = true) (hadds : addsBaseUrl config = true)
    (hbundler : reloaded.isBundler = config.isBundler)
    (hbase : reloaded.options.baseUrl = ((some dir.slashed).filter (!Text.isBlankText ·)).map
      fun value => Config.anchored other (Text.trimmed value)) :
    (Compatibility.ofConfig reloaded).compatible = false := by
  obtain ⟨hblank, hanchored⟩ := not_isBlankText_anchored hdir other
  simp only [addsBaseUrl, Bool.and_eq_true, Bool.not_eq_true'] at hadds
  rw [Compatibility.compatible_ofConfig, hbundler, hbase, hadds.1]
  simp [Option.filter, hblank, hanchored]

/-- A config for which the primary compiler is chosen stays compatible as a temporary config, unless
the temporary config adds a base directory; then it does not, at least if the directory is given by
an absolute path, as that of a config is. -/
theorem reload_compatible {tree again : FileTree} {path place : Path} {config : Config}
    (hload : Config.load tree path = .ok config) {compilers : CompilerPaths} {choice : Selection}
    (hchoose : Selection.choose false false (Compatibility.ofConfig config) compilers = .ok choice)
    (hprimary : choice.kind = .primary) (selection : FileSelection) (s : Synthesis) (dir : Path)
    (hplace : Config.loadedText again place = .ok (content config selection s dir).pretty) :
    ∃ reloaded, Config.load again place = .ok reloaded ∧
      (addsBaseUrl config = false → (Compatibility.ofConfig reloaded).compatible = true) ∧
      (dir.isAbsolute = true →
        (Compatibility.ofConfig reloaded).compatible = !addsBaseUrl config) := by
  have hcompatible := Selection.compatible_of_choose hchoose hprimary
  obtain ⟨reloaded, hreload, hread⟩ := exists_reload hload selection s dir hplace
  obtain ⟨other, hbase⟩ := hread.baseUrl
  have hkept (hadds : addsBaseUrl config = false) :
      (Compatibility.ofConfig reloaded).compatible = true :=
    compatible_of_kept hcompatible hadds hread.isBundler_eq hread.isSome_paths
      (by simpa [writtenBaseUrl, hadds] using hbase)
  refine ⟨reloaded, hreload, hkept, fun hdir => ?_⟩
  cases hadds : addsBaseUrl config with
  | false => exact hkept hadds
  | true =>
      exact not_compatible_of_added hdir hadds hread.isBundler_eq
        (by simpa [writtenBaseUrl, hadds] using hbase)

def bothInstalled : CompilerPaths := ⟨some ⟨"/tsgo"⟩, some ⟨"/tsc"⟩⟩

/-- Whether the primary compiler is chosen for a config that is loaded, and whether a base directory
is added to it. -/
def chosenAndAdded (text : String) : Option (Option CompilerKind × Bool) :=
  (Config.load (singleFile "tsconfig.json" text) ⟨"/tsconfig.json"⟩).toOption.map fun config =>
    ((Selection.choose false false (.ofConfig config) bothInstalled).toOption.map (·.kind),
      addsBaseUrl config)

/-- A config whose modules are resolved as bundlers do. -/
def bundlerText : String :=
  "\x7b\"compilerOptions\": \x7b\"moduleResolution\": \"bundler\", \"paths\": \x7b\"@/*\": [\"src/*\"]\x7d\x7d\x7d"

theorem reload_compatible_of_bundlerText :
    ∃ config choice reloaded,
      Config.load (singleFile "tsconfig.json" bundlerText) ⟨"/tsconfig.json"⟩ = .ok config ∧
      Selection.choose false false (.ofConfig config) bothInstalled = .ok choice ∧
      choice.kind = .primary ∧
      Config.load (singleFile "t.json" (content config (.exact [⟨"/a.ts"⟩]) {} ⟨"/"⟩).pretty)
        ⟨"/t.json"⟩ = .ok reloaded ∧
      (Compatibility.ofConfig reloaded).compatible = true := by
  obtain ⟨config, hload, hread⟩ := Fallible.exists_of_toOption
    (show chosenAndAdded bundlerText = some (some .primary, false) by decide +kernel)
  obtain ⟨hkind, hadds⟩ := Prod.mk.inj hread
  obtain ⟨choice, hchoose, hprimary⟩ := Fallible.exists_of_toOption hkind
  obtain ⟨reloaded, hreload, hkept, -⟩ := reload_compatible hload hchoose hprimary
    (.exact [⟨"/a.ts"⟩]) {} ⟨"/"⟩ (loadedText_singleFile _)
  exact ⟨config, choice, reloaded, hload, hchoose, hprimary, hreload, hkept hadds⟩

/-- Not every document for which the primary compiler is chosen stays compatible: that of an empty
config gets a base directory, which the primary compiler does not take. -/
theorem added_base_directory_is_incompatible :
    ¬∀ (tree again : FileTree) (path place : Path) (config : Config) (compilers : CompilerPaths)
      (choice : Selection) (selection : FileSelection) (s : Synthesis) (reloaded : Config),
      Config.load tree path = .ok config →
      Selection.choose false false (.ofConfig config) compilers = .ok choice →
      choice.kind = .primary →
      Config.loadedText again place = .ok (content config selection s config.dir).pretty →
      Config.load again place = .ok reloaded →
      (Compatibility.ofConfig reloaded).compatible = true := by
  intro hgate
  obtain ⟨config, hload, hread⟩ := Fallible.exists_of_toOption
    (show chosenAndAdded "\x7b\x7d" = some (some .primary, true) by decide +kernel)
  obtain ⟨hkind, hadds⟩ := Prod.mk.inj hread
  obtain ⟨choice, hchoose, hprimary⟩ := Fallible.exists_of_toOption hkind
  have hdir : config.dir.isAbsolute = true := isAbsolute_dir_of_load hload (by decide)
  have hplace := loadedText_singleFile (content config (.exact [⟨"/a.ts"⟩]) {} config.dir).pretty
  obtain ⟨reloaded, hreload, hread⟩ := exists_reload hload _ {} config.dir hplace
  obtain ⟨other, hbase⟩ := hread.baseUrl
  have hlost := not_compatible_of_added hdir hadds hread.isBundler_eq
    (by simpa [writtenBaseUrl, hadds] using hbase)
  have hkept := hgate _ _ _ _ config bothInstalled choice _ {} reloaded hload hchoose hprimary hplace
    hreload
  rw [hlost] at hkept
  cases hkept

end TempConfig

end ScopedCheck