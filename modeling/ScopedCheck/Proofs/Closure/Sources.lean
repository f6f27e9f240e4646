import ScopedCheck.Proofs.Closure.Generated
import ScopedCheck.Proofs.Config.Writing
import ScopedCheck.Proofs.Import.Sources
/-! # Whether everything that is listed is a source

Files come into a closure as roots, with the program of the host, as the choice of the caller, by imports,
as declarations, as generated files and as setup files. All that the discovery finds on its own is a source
that a compiler takes in. Roots are looked at before they are asked for, but what the caller chose is taken
as it stands. A closure that was kept is of sources for whoever asks for it again, since its stamp tells
whether untyped sources are allowed. -/

namespace ScopedCheck

/-! ## What a stamp tells -/

namespace Options

open Json

theorem fits_toEntries {room : Nat} (hroom : 1 < room) {o : Options} (h : o.IsSound room) :
    (Json.object o.toEntries).Fits (room + 1) := by
  have hoptions := areOptions_toEntries h
  refine ⟨room.succ_pos, hoptions.nodup, fitEntries_iff.mpr fun entry hentry => ?_⟩
  exact (hoptions.fits entry hentry).fits hroom

/-- The text of sound options tells each of them, up to how floating-point numbers are read. -/
theorem value?_eq_of_compact_eq {room : Nat} (hroom : 1 < room) {o other : Options} (h : o.IsSound room)
    (hother : other.IsSound room)
    (htext : (Json.object o.toEntries).compact = (Json.object other.toEntries).compact) (key : String) :
    (o.value? key).map reread = (other.value? key).map reread := by
  have hsame := reread_eq_of_compact_eq (fits_toEntries hroom h) (fits_toEntries hroom hother) htext
  simp only [reread, Json.object.injEq] at hsame
  rw [← get?_toEntries_eq_value? h, ← get?_rereadEntries, hsame, get?_rereadEntries,
    get?_toEntries_eq_value? hother]

end Options

/-- A stamp tells whether untyped sources are allowed. -/
theorem Config.allowsUntyped_eq_of_stamp_eq {before now : FileTree} {config other : Config}
    (h : config.options.IsSound Document.optionRoom) (hother : other.options.IsSound Document.optionRoom)
    (hstamp : ConfigStamp.ofConfig before config = .ofConfig now other) :
    config.allowsUntyped = other.allowsUntyped := by
  have hvalue := Options.value?_eq_of_compact_eq (by decide) h hother (congrArg ConfigStamp.options hstamp)
  have hswitch : ∀ {switch same : Option Bool},
      (switch.map Json.bool).map Json.reread = (same.map Json.bool).map Json.reread → switch = same := by
    intro switch same hsame
    rw [Option.map_map, Option.map_map] at hsame
    exact Option.map_injective (fun b c hbool => Json.bool.inj hbool) hsame
  rw [allowsUntyped, allowsUntyped, hswitch (hvalue "allowJs"), hswitch (hvalue "checkJs")]

/-! ## What is found -/

/-- Whether a host builds programs of sources from roots that are sources. -/
def ProgramHost.BuildsSources (host : ProgramHost) : Prop :=
  ∀ (tree : FileTree) (config : Config) (roots : List Path) (limits : Limits) (program : List Path),
    (∀ root ∈ roots, root.isSource config.allowsUntyped = true) →
      host tree config roots limits = .ok program →
        ∀ file ∈ program, file.isSource config.allowsUntyped = true

/-- What a walk takes from roots that are sources is a source. -/
theorem ImportWalk.isSource_of_ofRoots {tree : FileTree} {config : Config} {roots : List Path}
    {limits : Limits} {follows : Import.Kind → Bool} {walk : ImportWalk}
    (hroots : ∀ root ∈ roots, root.isSource config.allowsUntyped = true)
    (h : ofRoots tree (.ofConfig config) roots limits follows = .ok walk) :
    ∀ file ∈ walk.files, file.isSource config.allowsUntyped = true := by
  intro file hfile
  by_cases hroot : file ∈ roots
  · exact hroots file hroot
  · exact (isAcceptable_of_ofRoots h hfile hroot).isSource

-- a data file is not taken, though it is imported
example : (ImportWalk.ofRoots
    ⟨[("p".toList, .dir [FileTree.textEntry "a.ts" "import './b'; import './data.json';",
      FileTree.textEntry "b.ts" "", FileTree.textEntry "data.json" "\x7b\x7d"])]⟩
    (.ofConfig { configPath := ⟨"/p/tsconfig.json"⟩ }) [⟨"/p/a.ts"⟩] {} fun _ => true).toOption.map
      (·.taken) = some [⟨"/p/a.ts"⟩, ⟨"/p/b.ts"⟩] := by decide +kernel

theorem ProgramHost.buildsSources_native : ProgramHost.native.BuildsSources := by
  intro tree config roots limits program hroots hprogram
  obtain ⟨walk, hwalk, hfiles⟩ := Fallible.bind_eq_ok_iff.mp hprogram
  obtain rfl := Except.ok.inj hfiles
  exact ImportWalk.isSource_of_ofRoots hroots hwalk

theorem ProjectScan.isDeclaration_of_mem_ambient {tree : FileTree} {config : Config} {r : Recognizer}
    {scan : ProjectScan} (hscan : ofConfig tree config r = .ok scan) {file : Path}
    (h : file ∈ scan.ambient) : file.isDeclaration = true := by
  unfold ofConfig at hscan
  obtain ⟨includes, -, hscan⟩ := Fallible.bind_eq_ok_iff.mp hscan
  obtain ⟨excludes, -, hscan⟩ := Fallible.bind_eq_ok_iff.mp hscan
  obtain rfl := Except.ok.inj hscan
  exact (List.mem_filter.mp (Path.mem_of_mem_sortedUnique h)).2

theorem SetupFiles.isSource_of_find {tree : FileTree} {r : Recognizer} {project : Path}
    {allowUntyped : Bool} {found : List Path} (h : find tree r project allowUntyped = .ok found) :
    ∀ file ∈ found, file.isSource allowUntyped = true := by
  obtain ⟨named, -, h⟩ := Fallible.bind_eq_ok_iff.mp h
  obtain rfl := Except.ok.inj h
  intro file hfile
  have hkept := (List.mem_filter.mp (Path.mem_of_mem_sortedUnique hfile)).2
  exact (Bool.and_eq_true_iff.mp hkept).2

/-! ## What is asked for -/

/-- Whether the roots of a request are sources under its config. -/
def ClosureRequest.HasSourceRoots (request : ClosureRequest) : Prop :=
  ∀ root ∈ request.roots, root.isSource request.config.allowsUntyped = true

/-- Whether everything that the caller chose outside of installed packages is a source, spelled as it will
be. -/
def ClosureRequest.ChoosesSources (request : ClosureRequest) : Prop :=
  ∀ chosen ∈ request.includes, ∀ file ∈ chosen, file.normalize.isInPackages = false →
    file.normalize.isSource request.config.allowsUntyped = true

namespace ClosureRequest

variable {request other : ClosureRequest}

theorem HasSourceRoots.of_key_eq (h : request.HasSourceRoots) (hkey : other.key = request.key)
    (huntyped : other.config.allowsUntyped = request.config.allowsUntyped) : other.HasSourceRoots := by
  intro root hroot
  obtain ⟨same, hsame, hparts⟩ := exists_root_of_mem_key (hkey ▸ parts_mem_key hroot)
  rw [huntyped, ← Path.isSource_eq hparts]
  exact h same hsame

theorem ChoosesSources.of_key_eq (h : request.ChoosesSources) (hkey : other.key = request.key)
    (huntyped : other.config.allowsUntyped = request.config.allowsUntyped) : other.ChoosesSources := by
  intro chosen hchosen file hfile
  obtain ⟨more, hmore, hplaces⟩ := places_includes_of_key_eq hkey hchosen
  obtain ⟨same, hsame, hparts⟩ := List.mem_map.mp ((hplaces file.parts).mpr (List.mem_map_of_mem hfile))
  rw [huntyped, ← Path.normalize_eq_of_parts_eq hparts]
  exact h more hmore same hsame

end ClosureRequest

namespace Closure

variable {tree : FileTree} {host : ProgramHost} {request : ClosureRequest} {r : Recognizer}
  {scan : ProjectScan}

/-- What is added for a request is a source, or the caller chose it. -/
theorem isSource_or_of_added (hroots : request.HasSourceRoots) {more : List Path}
    {limit : Option (LimitHit × Nat)}
    (h : added tree request (.ofConfig request.config) = .ok (more, limit)) {file : Path}
    (hfile : file ∈ more) : file.isSource request.config.allowsUntyped = true ∨
      ∃ chosen ∈ request.includes, ∃ own ∈ chosen, own.normalize = file := by
  unfold added at h
  split at h
  · rename_i chosen hchosen
    obtain ⟨rfl, -⟩ := Prod.mk.inj (Except.ok.inj h)
    exact .inr ⟨chosen, hchosen, List.mem_map.mp hfile⟩
  · obtain ⟨walk, hwalk, h⟩ := Fallible.bind_eq_ok_iff.mp h
    obtain ⟨rfl, -⟩ := Prod.mk.inj (Except.ok.inj h)
    exact .inl (ImportWalk.isSource_of_ofRoots hroots hwalk file hfile)

theorem isSource_of_setupFilesOf {found : List Path} (h : setupFilesOf tree request r = .ok found) :
    ∀ file ∈ found, file.isSource request.config.allowsUntyped = true := by
  unfold setupFilesOf at h
  split at h
  · exact SetupFiles.isSource_of_find h
  · obtain rfl := Except.ok.inj h
    simp

/-- What a computed closure lists is a source, or the caller chose it. -/
theorem isSource_or_of_compute (hhost : host.BuildsSources) (hroots : request.HasSourceRoots)
    (hscan : request.IsScanned tree r scan) {closure : Closure}
    (hcompute : (compute tree host request r scan).run.value = .ok closure) {file : Path}
    (hfile : file ∈ closure.files) : file.isSource request.config.allowsUntyped = true ∨
      ∃ chosen ∈ request.includes, ∃ own ∈ chosen, own.normalize = file := by
  obtain ⟨program, more, limit, generated, setupFiles, hprogram, hadded, hgenerated, hsetup, rfl⟩ :=
    value_compute_iff.mp hcompute
  have hmem := Path.mem_of_mem_sortedUnique (List.mem_filter.mp hfile).1
  simp only [List.mem_append] at hmem
  rcases hmem with (hfirst | hgen) | hset
  · have hmem := Path.mem_of_mem_sortedUnique hfirst
    simp only [List.mem_append, List.mem_reverse] at hmem
    rcases hmem with ((hroot | hprog) | hmore) | hambient
    · exact .inl (hroots file hroot)
    · exact .inl (hhost _ _ _ _ program hroots hprogram file hprog)
    · exact isSource_or_of_added hroots hadded hmore
    · exact .inl (Path.isSource_of_isDeclaration
        (ProjectScan.isDeclaration_of_mem_ambient hscan.scan hambient) _)
  · obtain ⟨-, _, -, himport⟩ := of_mem_typeOnlyGenerated hgenerated hgen
    exact .inl himport.isAcceptable.isSource
  · exact .inl (isSource_of_setupFilesOf hsetup file hset)

/-- What the caller chose outside of installed packages is listed in a computed closure. -/
theorem listed_of_mem_includes {closure : Closure}
    (hcompute : (compute tree host request r scan).run.value = .ok closure) {chosen : List Path}
    (hchosen : request.includes = some chosen) {file : Path} (hfile : file ∈ chosen)
    (houtside : file.normalize.isInPackages = false) : file.normalize.listed closure.files = true := by
  obtain ⟨program, more, limit, generated, setupFiles, -, hadded, -, -, rfl⟩ :=
    value_compute_iff.mp hcompute
  simp only [added, hchosen, Except.ok.injEq, Prod.mk.injEq] at hadded
  obtain ⟨rfl, -⟩ := hadded
  rw [assembled, Path.listed_filter_outside, Path.listed_sortedUnique, Path.listed_append,
    Path.listed_append, Path.listed_sortedUnique]
  have hmore := List.mem_append_right (request.roots.reverse ++ program)
    (List.mem_map_of_mem (f := Path.normalize) hfile)
  exact ⟨houtside, .inl (.inl (Path.listed_of_mem (List.mem_append_left _ hmore)))⟩

/-- A computed closure lists sources only, just when the caller chose sources only. -/
theorem lists_sources_iff_of_compute (hhost : host.BuildsSources) (hroots : request.HasSourceRoots)
    (hscan : request.IsScanned tree r scan) {closure : Closure}
    (hcompute : (compute tree host request r scan).run.value = .ok closure) :
    (∀ file ∈ closure.files, file.isSource request.config.allowsUntyped = true) ↔
      request.ChoosesSources := by
  constructor
  · intro hall chosen hchosen file hfile houtside
    obtain ⟨same, hsame, hparts⟩ := Path.listed_iff.mp
      (listed_of_mem_includes hcompute hchosen hfile houtside)
    rw [Path.isSource_eq hparts]
    exact hall same hsame
  · intro hchooses file hfile
    rcases isSource_or_of_compute hhost hroots hscan hcompute hfile with
      hsource | ⟨chosen, hchosen, own, hown, rfl⟩
    · exact hsource
    · obtain ⟨_, _, _, _, _, -, -, -, -, rfl⟩ := value_compute_iff.mp hcompute
      have houtside := (List.mem_filter.mp hfile).2
      exact hchooses chosen hchosen own hown (Bool.not_eq_true' _ ▸ houtside)

end Closure

namespace ClosureCache

open Closure

variable {host : ProgramHost} {request : ClosureRequest}

/-- Whatever was asked before, all that is discovered for a request with sources as its roots is a source
under its config, just when the caller chose sources only. The host is one that builds programs of sources,
and all configs have sound options, as loaded ones have. -/
theorem lists_sources_iff (hhost : host.BuildsSources) {events : List Event}
    (hevents : ∀ call, Event.discover call ∈ events →
      call.request.config.options.IsSound Document.optionRoom) (tree : FileTree)
    (hsound : request.config.options.IsSound Document.optionRoom) (hroots : request.HasSourceRoots)
    (hdiscovered : ((({} : ClosureCache).after host events).discover tree host
      request).value.1.discovered = true) :
    (∀ file ∈ ((({} : ClosureCache).after host events).discover tree host request).value.1.files,
      file.isSource request.config.allowsUntyped = true) ↔ request.ChoosesSources := by
  have hfound := (({} : ClosureCache).after host events).discovers tree host request
  generalize ((({} : ClosureCache).after host events).discover tree host request).value = found
    at hfound hdiscovered
  cases hfound with
  | unscanned => cases hdiscovered
  | lost => cases hdiscovered
  | anew hscan _ hcompute => exact lists_sources_iff_of_compute hhost hroots hscan hcompute
  | again hscan hhit =>
      -- it was computed for a request that names the same places, under a config that allows the same
      obtain ⟨kept, hget, rfl, hstamp, -⟩ := lookup_eq_hit_iff.mp hhit
      obtain ⟨front, call, rear, rfl, hby, -⟩ := exists_call_of_get? events hget
      obtain ⟨hkey, hstamped, r, scan, hcalled, hcompute⟩ := hby.isOf
      have hkeys : call.request.key = request.key := hkey.symm.trans (mem_of_get? hget).2
      have huntyped := Config.allowsUntyped_eq_of_stamp_eq (hevents call (by simp)) hsound
        (hstamped.symm.trans hstamp)
      rw [← huntyped, lists_sources_iff_of_compute hhost (hroots.of_key_eq hkeys huntyped) hcalled
        hcompute]
      exact ⟨fun h => h.of_key_eq hkeys.symm huntyped.symm, fun h => h.of_key_eq hkeys huntyped⟩

/-- A project with a file, another source and a data file. -/
def mixedProject : FileTree :=
  ⟨[("p".toList, .dir [FileTree.textEntry "tsconfig.json" "\x7b\x7d", FileTree.textEntry "a.ts" "",
    FileTree.textEntry "b.ts" "", FileTree.textEntry "data.json" "\x7b\x7d"])]⟩

/-- A request for the file, together with one that the caller chose. -/
def mixedRequest (chosen : Path) : ClosureRequest where
  config := { configPath := ⟨"/p/tsconfig.json"⟩, chain := [⟨"/p/tsconfig.json"⟩] }
  roots := [⟨"/p/a.ts"⟩]
  projectDir := ⟨"/p"⟩
  includes := some [chosen]
  heuristics := ⟨[], [], [], []⟩

theorem hasSourceRoots_mixedRequest (chosen : Path) : (mixedRequest chosen).HasSourceRoots := by
  have hroot : (⟨"/p/a.ts"⟩ : Path).isSource false = true := by decide +kernel
  exact List.forall_mem_singleton.mpr hroot

theorem discovered_mixedRequest (chosen : Path) :
    ((mixedRequest chosen).fresh mixedProject .native).discovered = true := by
  obtain ⟨r, hr, hscan⟩ := Fallible.exists_of_toOption
    (show (Recognizer.ofHeuristics ⟨[], [], [], []⟩).toOption.map (fun r =>
        (ProjectScan.ofConfig mixedProject
          { configPath := ⟨"/p/tsconfig.json"⟩, chain := [⟨"/p/tsconfig.json"⟩] } r).toOption) =
        some (some {}) by decide +kernel)
  exact discovered_of_isReadable (by decide +kernel) ⟨hr, Fallible.toOption_eq_some_iff.mp hscan⟩

/-- A normal form that the caller chose outside of installed packages is listed. -/
theorem listed_mixedRequest {chosen : Path} (hnormal : chosen.normalize = chosen)
    (houtside : chosen.isInPackages = false) :
    chosen.listed ((mixedRequest chosen).fresh mixedProject .native).files = true := by
  obtain ⟨r, scan, -, hcompute⟩ :=
    ClosureRequest.discovered_fresh_iff.mp (discovered_mixedRequest chosen)
  have hlisted := listed_of_mem_includes hcompute rfl (List.mem_singleton_self chosen)
  rw [hnormal] at hlisted
  exact hlisted houtside

/-- A source that the caller chose is listed when it is asked for again, together with sources only. -/
theorem lists_sources_iff_in_mixedProject :
    ∃ closure, ((({} : ClosureCache).after .native
        [.discover ⟨mixedProject, mixedRequest ⟨"/p/b.ts"⟩⟩]).discover mixedProject .native
          (mixedRequest ⟨"/p/b.ts"⟩)).value.1 = closure ∧
      closure.discovered = true ∧ (⟨"/p/b.ts"⟩ : Path).listed closure.files = true ∧
      ∀ file ∈ closure.files, file.isSource false = true := by
  have hpair : ({} : ClosureCache).discoverAll mixedProject .native
      [mixedRequest ⟨"/p/b.ts"⟩, mixedRequest ⟨"/p/b.ts"⟩] =
        [(mixedRequest ⟨"/p/b.ts"⟩).fresh mixedProject .native,
          (mixedRequest ⟨"/p/b.ts"⟩).fresh mixedProject .native] :=
    discoverAll_pair rfl rfl (discovered_mixedRequest _)
  have hagain : ((({} : ClosureCache).after .native
      [.discover ⟨mixedProject, mixedRequest ⟨"/p/b.ts"⟩⟩]).discover mixedProject .native
        (mixedRequest ⟨"/p/b.ts"⟩)).value.1 = (mixedRequest ⟨"/p/b.ts"⟩).fresh mixedProject .native :=
    (List.cons.inj (List.cons.inj hpair).2).1
  have hsound : (mixedRequest ⟨"/p/b.ts"⟩).config.options.IsSound Document.optionRoom :=
    Options.isSound_empty _
  have hsource : (⟨"/p/b.ts"⟩ : Path).normalize.isSource false = true := by decide +kernel
  have hchooses : (mixedRequest ⟨"/p/b.ts"⟩).ChoosesSources := by
    intro chosen hchosen file hfile _
    obtain rfl := Option.some.inj hchosen
    obtain rfl := List.mem_singleton.mp hfile
    exact hsource
  have hevents : ∀ call,
      Event.discover call ∈ [Event.discover ⟨mixedProject, mixedRequest ⟨"/p/b.ts"⟩⟩] →
        call.request.config.options.IsSound Document.optionRoom := by
    intro call hcall
    obtain rfl := Event.discover.inj (List.mem_singleton.mp hcall)
    exact hsound
  have hdiscovered := discovered_mixedRequest ⟨"/p/b.ts"⟩
  rw [← hagain] at hdiscovered
  refine ⟨_, rfl, hdiscovered, ?_, (lists_sources_iff ProgramHost.buildsSources_native hevents mixedProject
    hsound (hasSourceRoots_mixedRequest _) hdiscovered).mpr hchooses⟩
  rw [hagain]
  exact listed_mixedRequest (by decide +kernel) (by decide +kernel)

/-- A data file that the caller chose is listed with the sources. -/
theorem chosen_data_is_listed :
    Config.load mixedProject ⟨"/p/tsconfig.json"⟩ = .ok (mixedRequest ⟨"/p/data.json"⟩).config ∧
      ∃ closure, (({} : ClosureCache).discover mixedProject .native
          (mixedRequest ⟨"/p/data.json"⟩)).value.1 = closure ∧
        closure.discovered = true ∧ (mixedRequest ⟨"/p/data.json"⟩).HasSourceRoots ∧
        ∃ file ∈ closure.files,
          file.isSource (mixedRequest ⟨"/p/data.json"⟩).config.allowsUntyped = false := by
  refine ⟨by with_unfolding_all rfl, _, rfl, discovered_mixedRequest _, hasSourceRoots_mixedRequest _, ?_⟩
  have hlisted : (⟨"/p/data.json"⟩ : Path).listed
      ((mixedRequest ⟨"/p/data.json"⟩).fresh mixedProject .native).files = true :=
    listed_mixedRequest (by decide +kernel) (by decide +kernel)
  obtain ⟨file, hfile, hparts⟩ := Path.listed_iff.mp hlisted
  refine ⟨file, hfile, ?_⟩
  rw [← Path.isSource_eq hparts]
  decide +kernel

end ClosureCache

end ScopedCheck
