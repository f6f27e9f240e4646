import ScopedCheck.Proofs.Closure.Walk
import ScopedCheck.Proofs.Path.Kind
import ScopedCheck.Proofs.Path.Order
/-! # Imports lead to sources

Whatever a specifier stands for, a file that it leads to is one that a compiler accepts under the config:
it is there, spelled as a normal form, in no installed package, and named like a source. So is everything
that a walk takes but its roots. -/

namespace ScopedCheck

namespace Import.Resolver

variable {tree : FileTree} {r : Import.Resolver}

/-! ## Candidates -/

/-- Every ending that is tried is the end of a source. -/
theorem exists_suffix_of_mem_endings {allowUntyped : Bool} {ending : String}
    (h : ending ∈ endings allowUntyped) :
    ∃ short ∈ Path.sourceExtensions allowUntyped, short.toList <:+ ending.toList :=
  have hall : ∀ untyped, ∀ ending ∈ endings untyped,
      ∃ short ∈ Path.sourceExtensions untyped, short.toList <:+ ending.toList := by decide
  hall allowUntyped ending h

/-- An untyped ending is the end of a source where untyped sources are allowed, and what it may stand for
always is. -/
theorem exists_suffix_of_mem_typedEndings {entry : String × List String} (h : entry ∈ typedEndings) :
    entry.1 ∈ Path.sourceExtensions true ∧ ∀ allowUntyped, ∀ ending ∈ entry.2,
      ∃ short ∈ Path.sourceExtensions allowUntyped, short.toList <:+ ending.toList :=
  have hall : ∀ entry ∈ typedEndings, entry.1 ∈ Path.sourceExtensions true ∧
      ∀ allowUntyped, ∀ ending ∈ entry.2,
        ∃ short ∈ Path.sourceExtensions allowUntyped, short.toList <:+ ending.toList := by decide
  hall entry h

/-- A text with an ending of a source behind it ends in the way of a source. -/
theorem exists_suffix_append {allowUntyped : Bool} {ending : String} (text : String)
    (h : ∃ short ∈ Path.sourceExtensions allowUntyped, short.toList <:+ ending.toList) :
    ∃ short ∈ Path.sourceExtensions allowUntyped, short.toList <:+ (⟨text ++ ending⟩ : Path).chars := by
  obtain ⟨short, hshort, hends⟩ := h
  refine ⟨short, hshort, hends.trans ⟨text.toList, ?_⟩⟩
  rw [Path.chars, String.toList_append]

/-- The typed sources of an untyped path end in the way of sources, and so does the path itself where
untyped ones are allowed. -/
theorem exists_suffix_of_typedSources {name : String} {sources : List Path}
    (h : typedSources? name = some sources) :
    (∃ short ∈ Path.sourceExtensions true, short.toList <:+ name.toList) ∧
      ∀ allowUntyped, ∀ source ∈ sources,
        ∃ short ∈ Path.sourceExtensions allowUntyped, short.toList <:+ source.chars := by
  obtain ⟨entry, hentry, hsome⟩ := List.exists_of_findSome?_eq_some h
  obtain ⟨stem, hstem, rfl⟩ := Option.map_eq_some_iff.mp hsome
  obtain ⟨huntyped, htyped⟩ := exists_suffix_of_mem_typedEndings hentry
  refine ⟨⟨entry.1, huntyped, stem.toList, (Text.toList_of_withoutEnd? hstem).symm⟩, ?_⟩
  intro allowUntyped source hsource
  obtain ⟨ending, hending, rfl⟩ := List.mem_map.mp hsource
  exact exists_suffix_append stem (htyped allowUntyped ending hending)

/-- Every candidate ends in the way of a source. -/
theorem exists_suffix_of_mem_candidates {path candidate : Path} (h : candidate ∈ r.candidates path) :
    ∃ short ∈ Path.sourceExtensions r.allowsUntyped, short.toList <:+ candidate.chars := by
  simp only [candidates, List.mem_append, List.mem_map] at h
  rcases h with (hown | ⟨ending, hending, rfl⟩) | ⟨ending, hending, rfl⟩
  · unfold ownCandidates at hown
    split at hown
    · rename_i htyped
      obtain rfl := List.mem_singleton.mp hown
      obtain ⟨short, hshort, hends⟩ := List.any_eq_true.mp htyped
      exact ⟨short, List.mem_append_left _ hshort, List.isSuffixOf_iff_suffix.mp hends⟩
    · split at hown
      · rename_i sources hsources
        obtain ⟨hself, hall⟩ := exists_suffix_of_typedSources hsources
        rcases List.mem_append.mp hown with hsource | hbase
        · exact hall _ candidate hsource
        · split at hbase
          · rename_i huntyped
            obtain rfl := List.mem_singleton.mp hbase
            rwa [huntyped]
          · cases hbase
      · cases hown
  · exact exists_suffix_append _ (exists_suffix_of_mem_endings hending)
  · exact exists_suffix_append _ (exists_suffix_of_mem_endings hending)

/-- Every candidate is a source. -/
theorem isSource_of_mem_candidates {path candidate : Path} (h : candidate ∈ r.candidates path) :
    candidate.isSource r.allowsUntyped = true := by
  obtain ⟨short, hshort, hends⟩ := exists_suffix_of_mem_candidates h
  exact Path.isSource_of_suffix (normalize_of_mem_candidates h) hshort hends

/-! ## Targets -/

/-- A file that a compiler takes in: it is there, spelled as its own normal form, in no installed package,
and a source. -/
structure IsAcceptable (tree : FileTree) (allowUntyped : Bool) (file : Path) : Prop where
  isFile : tree.isFile file = true
  normalize : file.normalize = file
  outside : file.isInPackages = false
  isSource : file.isSource allowUntyped = true

/-- What a path stands for is acceptable. -/
theorem isAcceptable_of_atPath {path target : Path} (h : (r.atPath tree path).file? = some target) :
    IsAcceptable tree r.allowsUntyped target := by
  obtain ⟨hfile, houtside, hnormal⟩ := of_atPath h
  refine ⟨hfile, hnormal, houtside, ?_⟩
  unfold atPath at h
  split at h
  · rename_i found hfound
    split at h
    · cases h
    · obtain rfl := Option.some.inj h
      exact isSource_of_mem_candidates (List.mem_of_find?_eq_some hfound)
  · cases h

/-- What a specifier stands for is acceptable. -/
theorem isAcceptable_of_resolve {file target : Path} {specifier : String}
    (h : (r.resolve tree file specifier).file? = some target) :
    IsAcceptable tree r.allowsUntyped target := by
  obtain ⟨path, hpath⟩ := exists_atPath_of_resolve h
  exact isAcceptable_of_atPath hpath

end Import.Resolver

namespace ImportWalk

open Import.Resolver (IsAcceptable)

variable {tree : FileTree} {resolver : Import.Resolver} {follows : Import.Kind → Bool}
  {roots : List Path} {limits : Limits} {walk : ImportWalk}

theorem Imports.isAcceptable {file target : Path} (h : Imports tree resolver follows file target) :
    IsAcceptable tree resolver.allowsUntyped target := by
  obtain ⟨-, _, -, i, -, -, htarget⟩ := h
  exact Import.Resolver.isAcceptable_of_resolve htarget

/-- Everything that can be reached is a root or acceptable. -/
theorem Reaches.isAcceptable {file : Path} (h : Reaches tree resolver follows roots file)
    (hroot : file ∉ roots) : IsAcceptable tree resolver.allowsUntyped file := by
  cases h with
  | root h => exact absurd h hroot
  | «import» _ h => exact h.isAcceptable

/-- Everything that a walk takes is a root or acceptable. -/
theorem isAcceptable_of_ofRoots (h : ofRoots tree resolver roots limits follows = .ok walk) {file : Path}
    (hfile : file ∈ walk.files) (hroot : file ∉ roots) : IsAcceptable tree resolver.allowsUntyped file :=
  (reaches_of_ofRoots h file (Path.mem_sorted.mp hfile)).isAcceptable hroot

/-- Whatever a config says and whatever an import is written like, the file that it leads to is acceptable,
and so is everything that a walk takes but its roots. -/
theorem leads_to_acceptable (tree : FileTree) (config : Config) :
    (∀ (file : Path) (specifier : String) (target : Path),
        (Import.Resolver.ofConfig config).resolve tree file specifier = .file target →
          IsAcceptable tree config.allowsUntyped target) ∧
      ∀ (roots : List Path) (limits : Limits) (follows : Import.Kind → Bool) (walk : ImportWalk),
        ofRoots tree (.ofConfig config) roots limits follows = .ok walk →
          ∀ file ∈ walk.files, file ∉ roots → IsAcceptable tree config.allowsUntyped file := by
  refine ⟨fun file specifier target h => ?_, fun roots limits follows walk h file hfile hroot => ?_⟩
  · have htarget : ((Import.Resolver.ofConfig config).resolve tree file specifier).file? = some target := by
      rw [h, Import.Target.file?]
    exact Import.Resolver.isAcceptable_of_resolve htarget
  · exact isAcceptable_of_ofRoots h hfile hroot

/-- A project with a file that imports a typed source by its untyped name, and a directory by its index. -/
def indexedProject : FileTree :=
  ⟨[("p".toList, .dir [("a.ts".toList, .file { content := .text "import './b.js'; import './lib';" }),
    ("b.ts".toList, .file { content := .text "" }),
    ("lib".toList, .dir [("index.ts".toList, .file { content := .text "" })])])]⟩

theorem leads_to_acceptable_in_indexedProject :
    (Import.Resolver.ofConfig { configPath := ⟨"/p/tsconfig.json"⟩ }).resolve indexedProject
        ⟨"/p/a.ts"⟩ "./b.js" = .file ⟨"/p/b.ts"⟩ ∧
      IsAcceptable indexedProject false ⟨"/p/b.ts"⟩ ∧
      ∃ walk, ofRoots indexedProject (.ofConfig { configPath := ⟨"/p/tsconfig.json"⟩ }) [⟨"/p/a.ts"⟩] {}
          (fun _ => true) = .ok walk ∧
        walk.taken = [⟨"/p/a.ts"⟩, ⟨"/p/b.ts"⟩, ⟨"/p/lib/index.ts"⟩] ∧
        IsAcceptable indexedProject false ⟨"/p/lib/index.ts"⟩ := by
  obtain ⟨hresolved, hwalked⟩ :=
    leads_to_acceptable indexedProject { configPath := ⟨"/p/tsconfig.json"⟩ }
  have htarget : (Import.Resolver.ofConfig { configPath := ⟨"/p/tsconfig.json"⟩ }).resolve indexedProject
      ⟨"/p/a.ts"⟩ "./b.js" = .file ⟨"/p/b.ts"⟩ := by decide +kernel
  obtain ⟨walk, hwalk, htaken⟩ := Fallible.exists_of_toOption
    (show (ofRoots indexedProject (.ofConfig { configPath := ⟨"/p/tsconfig.json"⟩ }) [⟨"/p/a.ts"⟩] {}
      fun _ => true).toOption.map (·.taken) =
        some [⟨"/p/a.ts"⟩, ⟨"/p/b.ts"⟩, ⟨"/p/lib/index.ts"⟩] by decide +kernel)
  have hindex : (⟨"/p/lib/index.ts"⟩ : Path) ∈ walk.files := Path.mem_sorted.mpr (by simp [htaken])
  exact ⟨htarget, hresolved _ _ _ htarget, walk, hwalk, htaken, hwalked _ _ _ walk hwalk _ hindex (by simp)⟩

end ImportWalk

end ScopedCheck
