import ScopedCheck.Check.Grouping
import ScopedCheck.Proofs.FileTree.Canonical
import ScopedCheck.Proofs.Glob.Expansion
import ScopedCheck.Proofs.Path.Order
/-! # Where files go when they are grouped

Grouping only ever adds. A file that a pattern stands for is put into a group of its config together
with the pattern, or stays behind with the reason, and stays there while the other patterns are
grouped. It comes to an end unless to expand one of the patterns is a panic, and then it is the plain
fold over the patterns, so that the lemmas are about that fold. -/

namespace ScopedCheck

namespace FileGroup

/-- A group after more was added to it. -/
def Extends (group more : FileGroup) : Prop :=
  more.configPath = group.configPath ∧ (∀ pattern ∈ group.patterns, pattern ∈ more.patterns) ∧
    ∀ file : Path, file.listed group.files = true → file.listed more.files = true

theorem Extends.refl (group : FileGroup) : group.Extends group :=
  ⟨rfl, fun _ h => h, fun _ h => h⟩

theorem Extends.trans {a b c : FileGroup} (hab : a.Extends b) (hbc : b.Extends c) : a.Extends c :=
  ⟨hbc.1.trans hab.1, fun p h => hbc.2.1 p (hab.2.1 p h), fun f h => hbc.2.2 f (hab.2.2 f h)⟩

theorem extends_addPattern (group : FileGroup) (pattern : String) :
    group.Extends (group.addPattern pattern) := by
  unfold addPattern
  split
  · exact .refl group
  · exact ⟨rfl, fun p hp => List.mem_append_left _ hp, fun _ h => h⟩

theorem mem_addPattern (group : FileGroup) (pattern : String) :
    pattern ∈ (group.addPattern pattern).patterns := by
  unfold addPattern
  split
  · rename_i h
    exact List.contains_iff_mem.mp h
  · simp

theorem extends_addFile (group : FileGroup) (file : Path) : group.Extends (group.addFile file) := by
  unfold addFile
  split
  · exact .refl group
  · refine ⟨rfl, fun _ h => h, fun f hf => ?_⟩
    obtain ⟨q, hq, hparts⟩ := Path.listed_iff.mp hf
    exact Path.listed_iff.mpr ⟨q, List.mem_append_left _ hq, hparts⟩

theorem listed_addFile (group : FileGroup) (file : Path) :
    file.listed (group.addFile file).files = true := by
  unfold addFile
  split
  · assumption
  · exact Path.listed_of_mem (by simp)

end FileGroup

namespace Grouping

/-- A grouping after more was added to it. -/
def Extends (grouping more : Grouping) : Prop :=
  (∀ group ∈ grouping.groups, ∃ group' ∈ more.groups, group.Extends group') ∧
    ∀ left ∈ grouping.unresolved, left ∈ more.unresolved

theorem Extends.refl (grouping : Grouping) : grouping.Extends grouping :=
  ⟨fun group h => ⟨group, h, .refl group⟩, fun _ h => h⟩

theorem Extends.trans {a b c : Grouping} (hab : a.Extends b) (hbc : b.Extends c) : a.Extends c := by
  refine ⟨fun group hgroup => ?_, fun left hleft => hbc.2 left (hab.2 left hleft)⟩
  obtain ⟨group', hgroup', hext⟩ := hab.1 group hgroup
  obtain ⟨group'', hgroup'', hext'⟩ := hbc.1 group' hgroup'
  exact ⟨group'', hgroup'', hext.trans hext'⟩

/-- Under a config, a pattern and a file that it stands for are together in a group; without a config,
the pattern or, for a glob, the file stays behind. -/
def Holds (grouping : Grouping) (config : Except Failure Path) (pattern : String) (file : Path) :
    Prop :=
  match config with
  | .ok path =>
      ∃ group ∈ grouping.groups, group.configPath.same path = true ∧ pattern ∈ group.patterns ∧
        file.listed group.files = true
  | .error failure =>
      ⟨if isGlobText pattern then file.text else pattern, failure⟩ ∈ grouping.unresolved

theorem Holds.mono {a b : Grouping} (hab : a.Extends b) {config : Except Failure Path}
    {pattern : String} {file : Path} (h : a.Holds config pattern file) :
    b.Holds config pattern file := by
  cases config with
  | error failure => exact hab.2 _ h
  | ok path =>
      obtain ⟨group, hgroup, hpath, hpattern, hfile⟩ := h
      obtain ⟨group', hgroup', hconfig, hpatterns, hfiles⟩ := hab.1 group hgroup
      exact ⟨group', hgroup', hconfig ▸ hpath, hpatterns _ hpattern, hfiles _ hfile⟩

theorem extends_leave (grouping : Grouping) (pattern : String) (failure : Failure) :
    grouping.Extends (grouping.leave pattern failure) :=
  ⟨fun group h => ⟨group, h, .refl group⟩, fun _ h => List.mem_append_left _ h⟩

theorem mem_leave (grouping : Grouping) (pattern : String) (failure : Failure) :
    ⟨pattern, failure⟩ ∈ (grouping.leave pattern failure).unresolved := by
  simp [leave]

/-- A change of the group of a config only adds if it only adds to the group. -/
theorem extends_changeGroup {change : FileGroup → FileGroup} (hchange : ∀ g : FileGroup, g.Extends (change g))
    (groups : List FileGroup) (path : Path) {group : FileGroup} (h : group ∈ groups) :
    ∃ group' ∈ changeGroup groups path change, group.Extends group' := by
  induction groups with
  | nil => simp at h
  | cons first rest ih =>
      unfold changeGroup
      split
      · rcases List.mem_cons.mp h with rfl | h
        · exact ⟨change group, by simp, hchange group⟩
        · exact ⟨group, by simp [h], .refl group⟩
      · rcases List.mem_cons.mp h with rfl | h
        · exact ⟨group, by simp, .refl group⟩
        · obtain ⟨group', hgroup', hext⟩ := ih h
          exact ⟨group', List.mem_cons_of_mem _ hgroup', hext⟩

/-- After a change of the group of a config there is a changed group of that config. -/
theorem exists_changeGroup {change : FileGroup → FileGroup} (hchange : ∀ g : FileGroup, g.Extends (change g))
    (groups : List FileGroup) (path : Path) :
    ∃ group, change group ∈ changeGroup groups path change ∧
      (change group).configPath.same path = true := by
  induction groups with
  | nil =>
      refine ⟨⟨path, [], []⟩, by simp [changeGroup], ?_⟩
      rw [(hchange _).1]
      exact Path.same_iff.mpr rfl
  | cons first rest ih =>
      unfold changeGroup
      split
      · rename_i hsame
        exact ⟨first, by simp, by rw [(hchange first).1]; exact hsame⟩
      · obtain ⟨group, hgroup, hpath⟩ := ih
        exact ⟨group, List.mem_cons_of_mem _ hgroup, hpath⟩

theorem extends_bindPattern (grouping : Grouping) (config : Except Failure Path) (pattern : String) :
    grouping.Extends (grouping.bindPattern config pattern) := by
  cases config with
  | error failure => exact extends_leave grouping pattern failure
  | ok path =>
      refine ⟨fun group h => ?_, fun _ h => h⟩
      exact extends_changeGroup (fun g => g.extends_addPattern pattern) _ path h

theorem extends_bindFile (grouping : Grouping) (config : Except Failure Path) (pattern : String)
    (file : Path) : grouping.Extends (grouping.bindFile config pattern file) := by
  cases config with
  | error failure => exact extends_leave grouping _ failure
  | ok path =>
      refine ⟨fun group h => ?_, fun _ h => h⟩
      exact extends_changeGroup
        (fun g => (g.extends_addPattern pattern).trans (FileGroup.extends_addFile _ file)) _ path h

theorem holds_bindFile (grouping : Grouping) (config : Except Failure Path) (pattern : String)
    (file : Path) : (grouping.bindFile config pattern file).Holds config pattern file := by
  cases config with
  | error failure => exact mem_leave grouping _ failure
  | ok path =>
      obtain ⟨group, hgroup, hpath⟩ := exists_changeGroup
        (fun g => (g.extends_addPattern pattern).trans (FileGroup.extends_addFile _ file))
        grouping.groups path
      refine ⟨_, hgroup, hpath, ?_, FileGroup.listed_addFile _ file⟩
      exact (FileGroup.extends_addFile _ file).2.1 _ (FileGroup.mem_addPattern group pattern)

theorem extends_foldl {α : Type} {add : Grouping → α → Grouping} (hadd : ∀ (g : Grouping) a, g.Extends (add g a))
    (items : List α) (grouping : Grouping) : grouping.Extends (items.foldl add grouping) := by
  induction items generalizing grouping with
  | nil => exact .refl grouping
  | cons item rest ih => exact (hadd grouping item).trans (ih _)

/-- What one item brings about lasts to the end, if it lasts while more is added. -/
theorem of_foldl {α : Type} {P : Grouping → Prop}
    (hlasts : ∀ a b : Grouping, a.Extends b → P a → P b) {add : Grouping → α → Grouping}
    (hadd : ∀ (g : Grouping) a, g.Extends (add g a)) {items : List α} {item : α}
    (hmem : item ∈ items) (hitem : ∀ g, P (add g item)) (grouping : Grouping) :
    P (items.foldl add grouping) := by
  induction items generalizing grouping with
  | nil => simp at hmem
  | cons first rest ih =>
      rcases List.mem_cons.mp hmem with rfl | hmem
      · exact hlasts _ _ (extends_foldl hadd rest _) (hitem grouping)
      · exact ih hmem _

variable {tree : FileTree} {cwd : Path} {configOf : Path → Except Failure Path}

/-- A grouping with what one pattern adds to it; a panic adds nothing. -/
def added (tree : FileTree) (cwd : Path) (configOf : Path → Except Failure Path) (grouping : Grouping)
    (pattern : String) : Grouping :=
  match Expansion.ofPatterns tree cwd [pattern] with
  | .error (.panicked _) => grouping
  | .error (.failed failure) => grouping.leave pattern failure
  | .ok expansion => grouping.addExpansion cwd configOf pattern expansion

/-- The grouping goes on after a pattern that keeps the bound on the depth, and after no other one. -/
theorem addPattern_eq_ok_iff {grouping next : Grouping} {pattern : String} :
    addPattern tree cwd configOf grouping pattern = .ok next ↔
      Expansion.IsWithinDepth cwd pattern ∧ added tree cwd configOf grouping pattern = next := by
  rw [Expansion.isWithinDepth_iff tree, addPattern, added]
  rcases Expansion.ofPatterns tree cwd [pattern] with ⟨failure | message⟩ | expansion
  · simp
  · simp
  · simp

theorem foldlM_addPattern_eq_ok_iff {patterns : List String} {grouping next : Grouping} :
    patterns.foldlM (addPattern tree cwd configOf) grouping = .ok next ↔
      (∀ pattern ∈ patterns, Expansion.IsWithinDepth cwd pattern) ∧
        patterns.foldl (added tree cwd configOf) grouping = next := by
  have hstep : ∀ (before : Grouping) (pattern : String) (after : Grouping),
      addPattern tree cwd configOf before pattern = .ok after ↔
        Expansion.IsWithinDepth cwd pattern ∧ added tree cwd configOf before pattern = after :=
    fun _ _ _ => addPattern_eq_ok_iff
  exact Fallible.foldlM_eq_ok_iff hstep

/-- What holds of a grouping holds after a pattern as well, if it lasts whatever the pattern does: it stays
behind, it is noted, or its files are bound one after the other. -/
theorem of_added {P : Grouping → Prop} {grouping : Grouping} {pattern : String} (h : P grouping)
    (hleave : ∀ failure, P (grouping.leave pattern failure))
    (hpattern : P (grouping.bindPattern (configOf cwd) pattern))
    (hfile : ∀ expansion, Expansion.ofPatterns tree cwd [pattern] = .ok expansion →
      ∀ file ∈ expansion.files, ∀ next, P next →
        P (next.bindFile (configOf (file.parent?.getD cwd)) pattern file)) :
    P (added tree cwd configOf grouping pattern) := by
  unfold added
  split
  · exact h
  · exact hleave _
  · rename_i expansion hexpansion
    unfold addExpansion
    split
    · exact List.foldlRecOn expansion.files _ h fun next hnext file hmem =>
        hfile expansion hexpansion file hmem next hnext
    · exact hpattern

theorem extends_added (grouping : Grouping) (pattern : String) :
    grouping.Extends (added tree cwd configOf grouping pattern) :=
  of_added (.refl grouping) (extends_leave grouping pattern) (extends_bindPattern grouping _ pattern)
    fun _ _ file _ _ hnext => hnext.trans (extends_bindFile _ _ pattern file)

/-- A pattern that cannot be expanded stays behind. -/
theorem mem_added_of_failed (grouping : Grouping) {pattern : String} {failure : Failure}
    (h : Expansion.ofPatterns tree cwd [pattern] = .error (.failed failure)) :
    ⟨pattern, failure⟩ ∈ (added tree cwd configOf grouping pattern).unresolved := by
  rw [added, h]
  exact mem_leave grouping pattern failure

/-- A file that a pattern stands for goes where its config says. -/
theorem holds_added (grouping : Grouping) {pattern : String} {expansion : Expansion}
    (h : Expansion.ofPatterns tree cwd [pattern] = .ok expansion) {file : Path}
    (hfile : file ∈ expansion.files) :
    (added tree cwd configOf grouping pattern).Holds (configOf (file.parent?.getD cwd)) pattern
      file := by
  have hmatched : expansion.unmatched.isEmpty = true :=
    List.isEmpty_iff.mpr (Expansion.unmatched_eq_nil h hfile)
  rw [added, h]
  simp only [addExpansion, hmatched, if_true]
  refine of_foldl (fun _ _ hab => Holds.mono hab) ?_ hfile ?_ grouping
  · exact fun g file => g.extends_bindFile _ pattern file
  · exact fun g => g.holds_bindFile _ pattern file

/-- The config that governs a file, or why there is none: that of the project, if one is named, and
the nearest one above the file otherwise. -/
def governing (tree : FileTree) (cwd : Path) (project : Option Path) (file : Path) :
    Except Failure Path :=
  match project with
  | some project => Config.ofProject tree cwd project
  | none => Config.locate tree (file.parent?.getD cwd) none

/-- Patterns that all keep the bound on the depth are grouped one after the other, each by the config that
governs its files. -/
theorem eq_foldl_of_ofPatterns {tree : FileTree} {cwd : Path} {project : Option Path}
    {patterns : List String} {grouping : Grouping}
    (h : ofPatterns tree cwd project patterns = .ok grouping) :
    (∀ pattern ∈ patterns, Expansion.IsWithinDepth cwd pattern) ∧
      ∃ configOf : Path → Except Failure Path,
        (∀ file : Path, configOf (file.parent?.getD cwd) = governing tree cwd project file) ∧
          patterns.foldl (added tree cwd configOf) {} = grouping := by
  unfold ofPatterns at h
  cases project with
  | none =>
      obtain ⟨hdepth, hgrouping⟩ := foldlM_addPattern_eq_ok_iff.mp h
      exact ⟨hdepth, fun dir => Config.locate tree dir none, fun _ => rfl, hgrouping⟩
  | some project =>
      obtain ⟨path, hpath, hfold⟩ := Fallible.bind_eq_ok_iff.mp h
      obtain ⟨hdepth, hgrouping⟩ := foldlM_addPattern_eq_ok_iff.mp hfold
      exact ⟨hdepth, fun _ => .ok path, fun _ => (Fallible.mapError_eq_ok_iff.mp hpath).symm, hgrouping⟩

/-- After all patterns are grouped, every one that can be expanded has its files under the configs that
govern them, and every other one stays behind. -/
theorem of_ofPatterns {tree : FileTree} {cwd : Path} {project : Option Path} {patterns : List String}
    {grouping : Grouping} (h : ofPatterns tree cwd project patterns = .ok grouping) {pattern : String}
    (hpattern : pattern ∈ patterns) :
    (∃ failure, ⟨pattern, failure⟩ ∈ grouping.unresolved) ∨
      ∃ expansion, Expansion.ofPatterns tree cwd [pattern] = .ok expansion ∧
        ∀ file ∈ expansion.files, grouping.Holds (governing tree cwd project file) pattern file := by
  obtain ⟨hdepth, configOf, hconfigOf, rfl⟩ := eq_foldl_of_ofPatterns h
  rcases hexpansion : Expansion.ofPatterns tree cwd [pattern] with ⟨failure | message⟩ | expansion
  · refine Or.inl ⟨failure, ?_⟩
    refine of_foldl (fun _ _ hab hleft => hab.2 _ hleft) ?_ hpattern ?_ {}
    · exact fun g other => g.extends_added other
    · exact fun g => g.mem_added_of_failed hexpansion
  · exact absurd hexpansion ((Expansion.isWithinDepth_iff tree).mp (hdepth pattern hpattern) message)
  · refine Or.inr ⟨expansion, rfl, fun file hfile => ?_⟩
    rw [← hconfigOf]
    refine of_foldl (fun _ _ hab => Holds.mono hab) ?_ hpattern ?_ {}
    · exact fun g other => g.extends_added other
    · exact fun g => g.holds_added hexpansion hfile

end Grouping

/-! ## The spelling of grouped files -/

namespace Expansion

theorem mem_of_mem_addFiles {expansion : Expansion} {paths : List Path} {file : Path}
    (h : file ∈ (expansion.addFiles paths).files) : file ∈ expansion.files ∨ file ∈ paths := by
  simp only [addFiles] at h
  generalize expansion.files = files at h ⊢
  induction paths generalizing files with
  | nil => exact Or.inl h
  | cons path rest ih =>
      rw [List.foldl_cons] at h
      rcases ih _ h with h | h
      · split at h
        · exact Or.inl h
        · rcases List.mem_append.mp h with h | h
          · exact Or.inl h
          · exact Or.inr (List.mem_cons.mpr (Or.inl (List.mem_singleton.mp h)))
      · exact Or.inr (List.mem_cons_of_mem _ h)

/-- A pattern stands for paths in their normal form. -/
theorem normalize_of_ofPatterns {tree : FileTree} {cwd : Path} {pattern : String}
    {expansion : Expansion} (h : ofPatterns tree cwd [pattern] = .ok expansion) {file : Path}
    (hfile : file ∈ expansion.files) : file.normalize = file := by
  by_cases hglob : isGlobText pattern = true
  · obtain ⟨glob, -, hfiles⟩ := ofPatterns_glob hglob h
    rw [hfiles] at hfile
    rcases mem_of_mem_addFiles hfile with hnone | hmatched
    · cases hnone
    · obtain ⟨visit, -, rfl⟩ := List.mem_map.mp (Path.mem_sorted.mp hmatched)
      exact Path.normalize_normalize visit.path
  · obtain ⟨expanded, hexpanded, hpure⟩ := Fallible.bind_eq_ok_iff.mp h
    obtain rfl := Except.ok.inj hpure
    rw [addPattern, if_neg hglob] at hexpanded
    obtain rfl := Except.ok.inj hexpanded
    rcases mem_of_mem_addFiles hfile with hnone | hnamed
    · cases hnone
    · obtain rfl := List.mem_singleton.mp hnamed
      unfold Path.absolutize
      split
      · exact Path.normalize_normalize _
      · exact Path.normalize_normalize _

end Expansion

/-- Whether all files of a group are in their normal form. -/
def FileGroup.IsNormal (group : FileGroup) : Prop := ∀ file ∈ group.files, file.normalize = file

theorem FileGroup.IsNormal.addPattern {group : FileGroup} (h : group.IsNormal) (pattern : String) :
    (group.addPattern pattern).IsNormal := by
  unfold FileGroup.addPattern
  split
  · exact h
  · exact h

theorem FileGroup.IsNormal.addFile {group : FileGroup} (h : group.IsNormal) {file : Path}
    (hfile : file.normalize = file) : (group.addFile file).IsNormal := by
  unfold FileGroup.addFile
  split
  · exact h
  · intro other hother
    rcases List.mem_append.mp hother with hother | hother
    · exact h other hother
    · rw [List.mem_singleton.mp hother, hfile]

namespace Grouping

theorem forall_changeGroup {P : FileGroup → Prop} {change : FileGroup → FileGroup}
    (hchange : ∀ group, P group → P (change group)) {path : Path} (hnew : P ⟨path, [], []⟩)
    {groups : List FileGroup} (h : ∀ group ∈ groups, P group) :
    ∀ group ∈ changeGroup groups path change, P group := by
  induction groups with
  | nil => simpa [changeGroup] using hchange _ hnew
  | cons first rest ih =>
      obtain ⟨hfirst, hrest⟩ := List.forall_mem_cons.mp h
      unfold changeGroup
      split
      · exact List.forall_mem_cons.mpr ⟨hchange _ hfirst, hrest⟩
      · exact List.forall_mem_cons.mpr ⟨hfirst, ih hrest⟩

/-- All files of all groups are in their normal form. -/
def IsNormal (grouping : Grouping) : Prop := ∀ group ∈ grouping.groups, group.IsNormal

theorem IsNormal.bindPattern {grouping : Grouping} (h : grouping.IsNormal)
    (config : Except Failure Path) (pattern : String) :
    (grouping.bindPattern config pattern).IsNormal := by
  cases config with
  | error failure => exact h
  | ok path => exact forall_changeGroup (fun _ hg => hg.addPattern pattern) (by simp [FileGroup.IsNormal]) h

theorem IsNormal.bindFile {grouping : Grouping} (h : grouping.IsNormal)
    (config : Except Failure Path) (pattern : String) {file : Path} (hfile : file.normalize = file) :
    (grouping.bindFile config pattern file).IsNormal := by
  cases config with
  | error failure => exact h
  | ok path =>
      exact forall_changeGroup (fun _ hg => (hg.addPattern pattern).addFile hfile)
        (by simp [FileGroup.IsNormal]) h

theorem IsNormal.added {tree : FileTree} {cwd : Path} {configOf : Path → Except Failure Path}
    {grouping : Grouping} (h : grouping.IsNormal) (pattern : String) :
    (added tree cwd configOf grouping pattern).IsNormal :=
  of_added h (fun _ => h) (h.bindPattern _ pattern) fun _ hexpansion _ hfile _ hnext =>
    hnext.bindFile _ pattern (Expansion.normalize_of_ofPatterns hexpansion hfile)

theorem isNormal_foldl_added (tree : FileTree) (cwd : Path) (configOf : Path → Except Failure Path)
    (patterns : List String) : (patterns.foldl (added tree cwd configOf) {}).IsNormal := by
  have hstart : IsNormal {} := by simp [IsNormal]
  exact List.foldlRecOn patterns _ hstart fun _ hnext pattern _ => hnext.added pattern

theorem isNormal_of_ofPatterns {tree : FileTree} {cwd : Path} {project : Option Path}
    {patterns : List String} {grouping : Grouping}
    (h : ofPatterns tree cwd project patterns = .ok grouping) : grouping.IsNormal := by
  obtain ⟨-, configOf, -, rfl⟩ := eq_foldl_of_ofPatterns h
  exact isNormal_foldl_added tree cwd configOf patterns

end Grouping

end ScopedCheck
