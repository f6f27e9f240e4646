import Mathlib.Data.List.Nodup
import ScopedCheck.Proofs.TempConfig.Files
/-! # The life of temporary configs

The handle of a temporary config, the registry and the file tree hold three copies of one fact. They
agree after every sequence of operations on one registry: what is live is what was created and has been
neither released nor swept since, and that is there unless somebody else has deleted it. -/

namespace ScopedCheck.TempConfig

open FileTree (Location Name KeepsBut)

variable {tree next : FileTree} {path : Path}

/-! ## Histories -/

/-- What has happened to the file of a handle, or to all files. -/
inductive Happening
  | created (path : Path)
  | released (path : Path)
  | deleted (path : Path)
  | swept
  deriving DecidableEq, Repr

/-- What is done with a registry; a handle is named by its position among all handles. -/
inductive Event
  | create (s : Surroundings) (config : Config) (selection : FileSelection) (setupFiles : List Path)
      (synthesis : Synthesis)
  | cleanUp (index : Nat)
  | drop (index : Nat)
  | sweep
  /-- Somebody else deletes the file of a handle. -/
  | delete (index : Nat)

/-- A registry with all handles that it gave away, the latest first, in the tree of their files. The
past starts with what happened last. -/
structure Desk where
  tree : FileTree
  registry : Registry := {}
  handles : List Handle := []
  past : List Happening := []

namespace Desk

/-- The paths of all handles. -/
def paths (desk : Desk) : List Path := desk.handles.map (·.path)

/-- A handle is released. -/
def release (desk : Desk) (index : Nat) : Desk :=
  match desk.handles[index]? with
  | none => desk
  | some handle =>
      let (handle, registry, tree) := handle.release desk.registry desk.tree
      { tree, registry, handles := desk.handles.set index handle,
        past := .released handle.path :: desk.past }

/-- The state after an event. -/
def apply (desk : Desk) : Event → Desk
  | .create s config selection setupFiles synthesis =>
      match desk.registry.create desk.tree s config selection setupFiles synthesis with
      | .ok (handle, registry, tree) =>
          { tree, registry, handles := handle :: desk.handles,
            past := .created handle.path :: desk.past }
      | .error _ => desk
  | .cleanUp index => desk.release index
  | .drop index => desk.release index
  | .sweep =>
      let (_, registry, tree) := desk.registry.sweep desk.tree
      { desk with tree, registry, past := .swept :: desk.past }
  | .delete index =>
      match desk.handles[index]? with
      | none => desk
      | some handle =>
          { desk with tree := (removed desk.tree handle.path).1,
                      past := .deleted handle.path :: desk.past }

/-- The state after a history. -/
def after (desk : Desk) (events : List Event) : Desk := events.foldl apply desk

end Desk

/-- Whether a file was created and since then neither released nor swept. -/
def IsHeld (past : List Happening) (path : Path) : Prop :=
  ∃ since before, past = since ++ .created path :: before ∧ .released path ∉ since ∧ .swept ∉ since

theorem not_isHeld_nil (path : Path) : ¬IsHeld [] path := by
  rintro ⟨since, before, h, -⟩
  simp at h

/-- What happens last decides, unless it has nothing to do with the file. -/
theorem isHeld_cons {last : Happening} {past : List Happening} {path : Path} :
    IsHeld (last :: past) path ↔
      last = .created path ∨ last ≠ .released path ∧ last ≠ .swept ∧ IsHeld past path := by
  constructor
  · rintro ⟨since, before, h, hreleased, hswept⟩
    cases since with
    | nil => exact Or.inl (List.cons.inj h).1
    | cons first since =>
        obtain ⟨rfl, rfl⟩ := List.cons.inj h
        simp only [List.mem_cons, not_or] at hreleased hswept
        exact Or.inr ⟨Ne.symm hreleased.1, Ne.symm hswept.1, since, before, rfl, hreleased.2, hswept.2⟩
  · rintro (rfl | ⟨hreleased, hswept, since, before, rfl, hreleased', hswept'⟩)
    · exact ⟨[], past, rfl, by simp, by simp⟩
    · refine ⟨last :: since, before, rfl, ?_, ?_⟩
      · simpa [Ne.symm hreleased] using hreleased'
      · simpa [Ne.symm hswept] using hswept'

theorem created_mem_of_isHeld {past : List Happening} {path : Path} (h : IsHeld past path) :
    .created path ∈ past := by
  obtain ⟨since, before, rfl, -⟩ := h
  simp

/-! ## What every history keeps -/

namespace Desk

/-- Whether the paths of all handles stand for places, under different names that are used up. -/
structure IsPlaced (desk : Desk) : Prop where
  proper : desk.tree.isProper = true
  placed : ∀ path ∈ desk.paths, ∃ place, desk.tree.Holds path place
  numbered : ∀ path ∈ desk.paths, ∃ number < desk.registry.nextNumber,
    lastPiece path = some (fileName number).toList
  distinct : (desk.paths.map lastPiece).Nodup

/-- What holds of a desk at all times. -/
structure IsSound (desk : Desk) : Prop extends IsPlaced desk where
  live_nodup : desk.registry.live.Nodup
  mem_live : ∀ path, path ∈ desk.registry.live ↔ IsHeld desk.past path
  known : ∀ path,
    .created path ∈ desk.past ∨ .released path ∈ desk.past ∨ .deleted path ∈ desk.past → path ∈ desk.paths
  ended : ∀ path, .released path ∈ desk.past → ¬IsHeld desk.past path
  released : ∀ handle ∈ desk.handles, handle.isHeld = false → ¬IsHeld desk.past handle.path
  isFile_iff : ∀ path ∈ desk.paths,
    desk.tree.isFile path = true ↔ IsHeld desk.past path ∧ .deleted path ∉ desk.past

theorem isSound_start (htree : tree.isProper = true) : IsSound { tree } := by
  constructor
  case toIsPlaced => exact ⟨htree, by simp [paths], by simp [paths], by simp [paths]⟩
  case live_nodup => exact List.nodup_nil
  case mem_live =>
    intro path
    exact iff_of_false List.not_mem_nil (not_isHeld_nil path)
  case known => simp
  case ended => simp
  case released => simp
  case isFile_iff => simp [paths]

/-- Events that change nothing but files leave all handles at their places. -/
theorem IsPlaced.edit {desk later : Desk} (h : desk.IsPlaced) {changed : Location → Prop}
    (hkeeps : KeepsBut changed desk.tree later.tree) (hpaths : later.paths = desk.paths)
    (hnumber : later.registry.nextNumber = desk.registry.nextNumber) : later.IsPlaced := by
  constructor
  case proper => exact hkeeps.proper h.proper
  case placed =>
    intro path hpath
    rw [hpaths] at hpath
    exact (h.placed path hpath).imp fun _ hplace => hkeeps.holds hplace
  case numbered =>
    rw [hpaths, hnumber]
    exact h.numbered
  case distinct =>
    rw [hpaths]
    exact h.distinct

/-- A name with a number that is not used up is the name of no handle. -/
theorem IsPlaced.lastPiece_ne {desk : Desk} (h : desk.IsPlaced) {number : Nat}
    (hnumber : desk.registry.nextNumber ≤ number)
    (hpiece : lastPiece path = some (fileName number).toList) {other : Path}
    (hother : other ∈ desk.paths) : lastPiece other ≠ lastPiece path := by
  intro hsame
  obtain ⟨old, hold, hname⟩ := h.numbered other hother
  rw [hname, hpiece, Option.some.injEq] at hsame
  have := fileName_injective hsame
  omega

/-- A handle with a name that uses up a number is placed next to those before it. -/
theorem IsPlaced.add {desk later : Desk} (h : desk.IsPlaced) {changed : Location → Prop}
    (hkeeps : KeepsBut changed desk.tree later.tree) (hpaths : later.paths = path :: desk.paths)
    {place : Location} (hplace : later.tree.Holds path place) {number : Nat}
    (hnumber : desk.registry.nextNumber ≤ number) (hnext : later.registry.nextNumber = number + 1)
    (hpiece : lastPiece path = some (fileName number).toList) : later.IsPlaced := by
  constructor
  case proper => exact hkeeps.proper h.proper
  case placed =>
    intro other hother
    rw [hpaths] at hother
    rcases List.mem_cons.mp hother with rfl | hold
    · exact ⟨place, hplace⟩
    · exact (h.placed other hold).imp fun _ hbefore => hkeeps.holds hbefore
  case numbered =>
    intro other hother
    rw [hpaths] at hother
    rw [hnext]
    rcases List.mem_cons.mp hother with rfl | hold
    · exact ⟨number, Nat.lt_succ_self number, hpiece⟩
    · obtain ⟨old, hlt, hname⟩ := h.numbered other hold
      exact ⟨old, by omega, hname⟩
  case distinct =>
    rw [hpaths, List.map_cons, List.nodup_cons]
    refine ⟨fun hmem => ?_, h.distinct⟩
    obtain ⟨other, hother, hsame⟩ := List.mem_map.mp hmem
    exact h.lastPiece_ne hnumber hpiece hother hsame

section Sound

variable {desk : Desk} (h : desk.IsSound)

include h

theorem IsSound.mem_paths_of_mem_live (hpath : path ∈ desk.registry.live) : path ∈ desk.paths :=
  h.known path (.inl (created_mem_of_isHeld ((h.mem_live path).mp hpath)))

/-- Different paths stand for different places. -/
theorem IsSound.place_ne {other : Path} {place otherPlace : Location} (hpath : path ∈ desk.paths)
    (hother : other ∈ desk.paths) (hne : other ≠ path) (hplace : desk.tree.Holds path place)
    (hotherPlace : desk.tree.Holds other otherPlace) : otherPlace ≠ place := by
  rintro rfl
  apply hne
  apply List.inj_on_of_nodup_map h.distinct hother hpath
  rw [lastPiece, lastPiece, hplace.getLast?_segments, hotherPlace.getLast?_segments]

/-- A change at the place of one path leaves the files of all others. -/
theorem IsSound.node_iff_of_keepsBut {other : Path} {place : Location} (hpath : path ∈ desk.paths)
    (hplace : desk.tree.Holds path place) (hkeeps : KeepsBut (· = place) desk.tree next)
    (hother : other ∈ desk.paths) (hne : other ≠ path) (file : File) :
    next.node other = .ok (.file file) ↔ desk.tree.node other = .ok (.file file) := by
  obtain ⟨otherPlace, hotherPlace⟩ := h.placed other hother
  exact hkeeps.node_iff hotherPlace (h.place_ne hpath hother hne hplace hotherPlace) file

theorem IsSound.isFile_eq_of_keepsBut {other : Path} {place : Location} (hpath : path ∈ desk.paths)
    (hplace : desk.tree.Holds path place) (hkeeps : KeepsBut (· = place) desk.tree next)
    (hother : other ∈ desk.paths) (hne : other ≠ path) :
    next.isFile other = desk.tree.isFile other := by
  obtain ⟨otherPlace, hotherPlace⟩ := h.placed other hother
  exact hkeeps.isFile_eq hotherPlace (h.place_ne hpath hother hne hplace hotherPlace)

/-- A handle that is released is forgotten and has no file, whether it was held or not. -/
theorem IsSound.release_spec {handle : Handle} (hhandle : handle ∈ desk.handles) :
    (handle.release desk.registry desk.tree).1 = { handle with isHeld := false } ∧
      (handle.release desk.registry desk.tree).2.1 = desk.registry.forget handle.path ∧
        (∃ place, desk.tree.Holds handle.path place ∧
          KeepsBut (· = place) desk.tree (handle.release desk.registry desk.tree).2.2) ∧
            (handle.release desk.registry desk.tree).2.2.isFile handle.path = false := by
  have hpath : handle.path ∈ desk.paths := List.mem_map_of_mem hhandle
  obtain ⟨place, hplace⟩ := h.placed handle.path hpath
  rw [Handle.release]
  cases hheld : handle.isHeld with
  | true =>
      obtain ⟨hkeeps, -, hgone, -⟩ := removed_spec h.proper hplace
      exact ⟨rfl, rfl, ⟨place, hplace, hkeeps⟩, hgone⟩
  | false =>
      have hnot := h.released handle hhandle hheld
      have hforget : desk.registry.live.filter (· != handle.path) = desk.registry.live := by
        apply List.filter_eq_self.mpr
        rintro path hlive
        rw [bne_iff_ne]
        rintro rfl
        exact hnot ((h.mem_live handle.path).mp hlive)
      refine ⟨?_, ?_, ⟨place, hplace, .refl _ desk.tree⟩, ?_⟩
      · cases handle
        cases hheld
        rfl
      · rw [Registry.forget, hforget]
        rfl
      · rw [Bool.eq_false_iff]
        intro hfile
        exact hnot ((h.isFile_iff handle.path hpath).mp hfile).1

/-- A sweep removes the files that are held and there, and no others. -/
theorem IsSound.sweep_spec :
    (desk.registry.sweep desk.tree).2.1 = { desk.registry with live := [] } ∧
      KeepsBut (fun place => ∃ path ∈ desk.registry.live, desk.tree.Holds path place) desk.tree
          (desk.registry.sweep desk.tree).2.2 ∧
        (∀ path ∈ desk.paths, (desk.registry.sweep desk.tree).2.2.isFile path = false) ∧
          (desk.registry.sweep desk.tree).1 = (desk.registry.live.filter desk.tree.isFile).length ∧
            (desk.registry.sweep desk.tree).2.2.fileCount + (desk.registry.sweep desk.tree).1 =
              desk.tree.fileCount := by
  have hdistinct : (desk.registry.live.map lastPiece).Nodup := by
    apply h.live_nodup.map_on
    intro path hpath other hother hsame
    exact List.inj_on_of_nodup_map h.distinct (h.mem_paths_of_mem_live hpath)
      (h.mem_paths_of_mem_live hother) hsame
  obtain ⟨hkeeps, hnone, hlength, hcount⟩ := removeAll_spec h.proper
    (fun path hpath => h.placed path (h.mem_paths_of_mem_live hpath)) hdistinct
  refine ⟨rfl, hkeeps, ?_, hlength, hcount⟩
  intro path hpath
  by_cases hlive : path ∈ desk.registry.live
  · exact hnone path hlive
  · -- what is not live had no file before
    obtain ⟨place, hplace⟩ := h.placed path hpath
    have hsame := hkeeps.isFile_eq hplace (by
      rintro ⟨other, hother, hotherPlace⟩
      have hne : other ≠ path := fun heq => hlive (heq ▸ hother)
      exact h.place_ne hpath (h.mem_paths_of_mem_live hother) hne hplace hotherPlace rfl)
    rw [Registry.sweep, hsame, Bool.eq_false_iff]
    intro hfile
    exact hlive ((h.mem_live path).mpr ((h.isFile_iff path hpath).mp hfile).1)

end Sound

/-! ## One event -/

theorem paths_set {desk : Desk} {index : Nat} {handle other : Handle}
    (hindex : desk.handles[index]? = some handle) (hother : other.path = handle.path) :
    (desk.handles.set index other).map (·.path) = desk.paths := by
  obtain ⟨hlt, rfl⟩ := List.getElem?_eq_some_iff.mp hindex
  rw [List.map_set, hother, paths]
  apply List.ext_getElem
  · simp
  · intro i _ _
    rw [List.getElem_set]
    split
    · rename_i heq
      subst heq
      rw [List.getElem_map]
    · rfl

theorem IsSound.release {desk : Desk} (h : desk.IsSound) (index : Nat) :
    (desk.release index).IsSound := by
  cases hindex : desk.handles[index]? with
  | none =>
      rw [Desk.release, hindex]
      exact h
  | some handle =>
      have hhandle : handle ∈ desk.handles := List.mem_of_getElem? hindex
      have hpath : handle.path ∈ desk.paths := List.mem_map_of_mem hhandle
      obtain ⟨hsame, hforget, ⟨place, hplace, hkeeps⟩, hgone⟩ := h.release_spec hhandle
      have hpaths : (desk.release index).paths = desk.paths := by
        rw [Desk.release, hindex]
        exact paths_set hindex (by rw [hsame])
      rw [Desk.release, hindex] at hpaths ⊢
      simp only [hsame, hforget] at hpaths ⊢
      constructor
      case toIsPlaced => exact h.toIsPlaced.edit hkeeps hpaths rfl
      case live_nodup => exact h.live_nodup.filter _
      case mem_live =>
        intro path
        simp only [Registry.forget, List.mem_filter, bne_iff_ne, isHeld_cons, h.mem_live, ne_eq,
          Happening.released.injEq, reduceCtorEq, not_false_eq_true, false_or, true_and]
        rw [and_comm, eq_comm]
      case known =>
        intro path hknown
        rw [hpaths]
        by_cases heq : path = handle.path
        · rw [heq]
          exact hpath
        · exact h.known path (by simpa [heq] using hknown)
      case ended =>
        intro path hreleased
        rw [isHeld_cons]
        rintro (heq | ⟨hne, -, hheld⟩)
        · cases heq
        · rcases List.mem_cons.mp hreleased with heq | hold
          · exact hne heq.symm
          · exact h.ended path hold hheld
      case released =>
        intro other hother hnot
        rw [isHeld_cons]
        rintro (heq | ⟨hne, -, hheld⟩)
        · cases heq
        · rcases List.mem_or_eq_of_mem_set hother with hold | rfl
          · exact h.released other hold hnot hheld
          · exact hne rfl
      case isFile_iff =>
        intro path hother
        rw [hpaths] at hother
        by_cases heq : path = handle.path
        · subst heq
          simp [hgone, isHeld_cons]
        · rw [h.isFile_eq_of_keepsBut hpath hplace hkeeps hother heq, h.isFile_iff path hother]
          simp [isHeld_cons, Ne.symm heq]

theorem IsSound.sweep {desk : Desk} (h : desk.IsSound) : (desk.apply .sweep).IsSound := by
  obtain ⟨hregistry, hkeeps, hnone, -, -⟩ := h.sweep_spec
  simp only [apply, hregistry]
  constructor
  case toIsPlaced => exact h.toIsPlaced.edit hkeeps rfl rfl
  case live_nodup => exact List.nodup_nil
  case mem_live =>
    intro path
    simp [isHeld_cons]
  case known =>
    intro path hknown
    exact h.known path (by simpa using hknown)
  case ended =>
    intro path _
    simp [isHeld_cons]
  case released =>
    intro handle _ _
    simp [isHeld_cons]
  case isFile_iff =>
    intro path hpath
    simp [isHeld_cons, hnone path hpath]

theorem IsSound.delete {desk : Desk} (h : desk.IsSound) (index : Nat) :
    (desk.apply (.delete index)).IsSound := by
  rw [apply]
  cases hindex : desk.handles[index]? with
  | none => exact h
  | some handle =>
      have hpath : handle.path ∈ desk.paths := List.mem_map_of_mem (List.mem_of_getElem? hindex)
      obtain ⟨place, hplace⟩ := h.placed handle.path hpath
      obtain ⟨hkeeps, -, hgone, -⟩ := removed_spec h.proper hplace
      constructor
      case toIsPlaced => exact h.toIsPlaced.edit hkeeps rfl rfl
      case live_nodup => exact h.live_nodup
      case mem_live =>
        intro path
        simp [isHeld_cons, h.mem_live]
      case known =>
        intro path hknown
        by_cases heq : path = handle.path
        · rw [heq]
          exact hpath
        · exact h.known path (by simpa [heq] using hknown)
      case ended =>
        intro path hreleased
        simpa [isHeld_cons] using h.ended path (by simpa using hreleased)
      case released =>
        intro other hother hnot
        simpa [isHeld_cons] using h.released other hother hnot
      case isFile_iff =>
        intro path hother
        by_cases heq : path = handle.path
        · subst heq
          simp [hgone]
        · have hsame := h.isFile_eq_of_keepsBut hpath hplace hkeeps hother heq
          simp only [hsame, h.isFile_iff path hother, isHeld_cons]
          simp [heq]

theorem IsSound.create {desk : Desk} (h : desk.IsSound) (s : Surroundings) (config : Config)
    (selection : FileSelection) (setupFiles : List Path) (synthesis : Synthesis) :
    (desk.apply (.create s config selection setupFiles synthesis)).IsSound := by
  rw [apply]
  cases hcreate : desk.registry.create desk.tree s config selection setupFiles synthesis with
  | error failure => exact h
  | ok made =>
      obtain ⟨handle, registry, next⟩ := made
      obtain ⟨number, place, hnumber, hheld, rfl, hkeeps, hplace, hlast, hfile, -⟩ :=
        Registry.create_spec hcreate
      have hpiece : lastPiece handle.path = some (fileName number).toList :=
        hplace.getLast?_segments.trans hlast
      have hfresh : ∀ path ∈ desk.paths, lastPiece path ≠ lastPiece handle.path :=
        fun _ hpath => h.lastPiece_ne hnumber hpiece hpath
      have hnew : handle.path ∉ desk.paths := fun hmem => hfresh handle.path hmem rfl
      have hnotHeld : ¬IsHeld desk.past handle.path := fun hold =>
        hnew (h.known _ (.inl (created_mem_of_isHeld hold)))
      constructor
      case toIsPlaced => exact h.toIsPlaced.add hkeeps rfl hplace hnumber rfl hpiece
      case live_nodup =>
        apply List.nodup_cons.mpr
        refine ⟨?_, h.live_nodup⟩
        intro hlive
        exact hnew (h.mem_paths_of_mem_live hlive)
      case mem_live =>
        intro path
        simp only [List.mem_cons, isHeld_cons, h.mem_live, Happening.created.injEq, ne_eq, reduceCtorEq,
          not_false_eq_true, true_and]
        rw [eq_comm]
      case known =>
        intro path hknown
        apply List.mem_cons.mpr
        by_cases heq : path = handle.path
        · exact Or.inl heq
        · exact Or.inr (h.known path (by simpa [heq] using hknown))
      case ended =>
        intro path hreleased
        have hold : .released path ∈ desk.past := by simpa using hreleased
        have hne : handle.path ≠ path := fun heq => hnew (heq ▸ h.known path (.inr (.inl hold)))
        simpa [isHeld_cons, hne] using h.ended path hold
      case released =>
        intro other hother hnot
        rcases List.mem_cons.mp hother with rfl | hold
        · rw [hheld] at hnot
          cases hnot
        · have hne : handle.path ≠ other.path := fun heq =>
            hnew (heq ▸ List.mem_map_of_mem hold)
          simpa [isHeld_cons, hne] using h.released other hold hnot
      case isFile_iff =>
        intro path hpath
        rcases List.mem_cons.mp hpath with rfl | hold
        · have hundeleted : .deleted handle.path ∉ desk.past := fun hdeleted =>
            hnew (h.known _ (.inr (.inr hdeleted)))
          simp [hfile, isHeld_cons, hundeleted]
        · have hne : handle.path ≠ path := fun heq => hnew (heq ▸ hold)
          obtain ⟨before, hbefore⟩ := h.placed path hold
          have hother : before ≠ place := by
            rintro rfl
            apply hfresh path hold
            rw [hpiece, lastPiece, hbefore.getLast?_segments, hlast]
          simp only [hkeeps.isFile_eq hbefore hother, h.isFile_iff path hold, isHeld_cons]
          simp [hne]

theorem IsSound.apply {desk : Desk} (h : desk.IsSound) (event : Event) : (desk.apply event).IsSound := by
  cases event with
  | create s config selection setupFiles synthesis =>
      exact h.create s config selection setupFiles synthesis
  | cleanUp index => exact h.release index
  | drop index => exact h.release index
  | sweep => exact h.sweep
  | delete index => exact h.delete index

theorem IsSound.after {desk : Desk} (h : desk.IsSound) (events : List Event) :
    (desk.after events).IsSound := by
  induction events generalizing desk with
  | nil => exact h
  | cons event rest ih => exact ih (h.apply event)

/-! ## Agreement -/

/-- Whether handles, registry and files agree, also about what a release and a sweep would do. -/
structure IsOrderly (desk : Desk) : Prop where
  paths_nodup : desk.paths.Nodup
  live_nodup : desk.registry.live.Nodup
  mem_live : ∀ path, path ∈ desk.registry.live ↔ IsHeld desk.past path
  isFile_iff : ∀ path ∈ desk.paths,
    desk.tree.isFile path = true ↔ path ∈ desk.registry.live ∧ .deleted path ∉ desk.past
  others : ∀ handle ∈ desk.handles, ∀ path ∈ desk.paths, path ≠ handle.path →
    (path ∈ (handle.release desk.registry desk.tree).2.1.live ↔ path ∈ desk.registry.live) ∧
      ∀ file, (handle.release desk.registry desk.tree).2.2.node path = .ok (.file file) ↔
        desk.tree.node path = .ok (.file file)
  swept : (desk.registry.sweep desk.tree).2.1.live = [] ∧
    ∀ path ∈ desk.paths, (desk.registry.sweep desk.tree).2.2.isFile path = false
  sweep_count : (desk.registry.sweep desk.tree).1 =
      (desk.registry.live.filter desk.tree.isFile).length ∧
    (desk.registry.sweep desk.tree).2.2.fileCount + (desk.registry.sweep desk.tree).1 =
      desk.tree.fileCount
  dropped : (∀ path ∈ desk.paths, .released path ∈ desk.past) →
    desk.registry.live = [] ∧ ∀ path ∈ desk.paths, desk.tree.isFile path = false

theorem IsSound.isOrderly {desk : Desk} (h : desk.IsSound) : desk.IsOrderly := by
  obtain ⟨hregistry, -, hnone, hlength, hcount⟩ := h.sweep_spec
  have hgone : (∀ path ∈ desk.paths, .released path ∈ desk.past) →
      ∀ path, ¬IsHeld desk.past path := by
    intro hall path hheld
    have hpath := h.known path (.inl (created_mem_of_isHeld hheld))
    exact h.ended path (hall path hpath) hheld
  constructor
  case paths_nodup => exact h.distinct.of_map lastPiece
  case live_nodup => exact h.live_nodup
  case mem_live => exact h.mem_live
  case isFile_iff =>
    intro path hpath
    rw [h.mem_live, h.isFile_iff path hpath]
  case others =>
    intro handle hhandle path hpath hne
    obtain ⟨-, hforget, ⟨place, hplace, hkeeps⟩, -⟩ := h.release_spec hhandle
    refine ⟨?_, h.node_iff_of_keepsBut (List.mem_map_of_mem hhandle) hplace hkeeps hpath hne⟩
    rw [hforget, Registry.forget, List.mem_filter, bne_iff_ne]
    exact and_iff_left hne
  case swept => exact ⟨by rw [hregistry], hnone⟩
  case sweep_count => exact ⟨hlength, hcount⟩
  case dropped =>
    intro hall
    constructor
    · apply List.eq_nil_iff_forall_not_mem.mpr
      intro path hlive
      exact hgone hall path ((h.mem_live path).mp hlive)
    · intro path hpath
      rw [Bool.eq_false_iff]
      intro hfile
      exact hgone hall path ((h.isFile_iff path hpath).mp hfile).1

/-- Handles, registry and files agree after every history of a new registry. -/
theorem isOrderly_after (htree : tree.isProper = true) (events : List Event) :
    (({ tree } : Desk).after events).IsOrderly :=
  ((isSound_start htree).after events).isOrderly

/-- A project with nothing but a config. -/
def bareProject : FileTree :=
  ⟨[("p".toList, .dir [("tsconfig.json".toList, .file { content := .text "{}" })])]⟩

/-- Two configs are made; one is deleted by somebody else before it is released, and the other one is
swept and then released as well. -/
def twoConfigs : List Event :=
  let made := Event.create { currentDir := ⟨"/p"⟩, tempDir := ⟨"/tmp"⟩ }
    { configPath := ⟨"/p/tsconfig.json"⟩ } (.exact []) [] { cacheDir := some ⟨"cache"⟩ }
  [made, made, .delete 1, .cleanUp 1, .sweep, .drop 0, .drop 1]

theorem isOrderly_after_twoConfigs :
    bareProject.isProper = true ∧
      (({ tree := bareProject } : Desk).after twoConfigs).paths.length = 2 ∧
        (({ tree := bareProject } : Desk).after twoConfigs).IsOrderly := by
  have hproper : bareProject.isProper = true := by decide
  exact ⟨hproper, by decide +kernel, isOrderly_after hproper twoConfigs⟩

end Desk

end ScopedCheck.TempConfig
