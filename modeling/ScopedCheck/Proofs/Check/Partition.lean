import Mathlib.Data.List.Basic
import Mathlib.Data.List.Nodup
import ScopedCheck.Proofs.Check.Grouping
import ScopedCheck.Proofs.Glob.Nesting
/-! # Groups as a partition

Without a named project, every file that patterns stand for is in one group only, that of the nearest
config, or stays behind. What a group holds can be read off at its config: each pattern adds there what it
sends there, and nothing anywhere else. Only a glob that is nested too deep does not stay behind by itself:
with it, there is no grouping at all. -/

namespace ScopedCheck

/-! ## The nearest config -/

namespace Config

/-- The config at a path is the nearest one in a directory or above it. -/
def IsNearest (tree : FileTree) (dir path : Path) : Prop :=
  ∃ nearer here farther, dir.ancestors = nearer ++ here :: farther ∧
    (∀ d ∈ nearer, tree.isFile (d.child fileName) = false) ∧
    tree.isFile (here.child fileName) = true ∧ path = tree.canonical (here.child fileName)

/-- There is no config in a directory or above it. -/
def IsUngoverned (tree : FileTree) (dir : Path) : Prop :=
  ∀ d ∈ dir.ancestors, tree.isFile (d.child fileName) = false

variable {tree : FileTree} {dir path : Path}

theorem findUpward?_eq_some_iff : findUpward? tree dir = some path ↔ IsNearest tree dir path := by
  rw [findUpward?, List.find?_map, Option.map_map, Option.map_eq_some_iff]
  simp only [List.find?_eq_some_iff_append, Function.comp_apply, Bool.not_eq_true']
  constructor
  · rintro ⟨here, ⟨hfile, nearer, farther, hsplit, hnearer⟩, rfl⟩
    exact ⟨nearer, here, farther, hsplit, hnearer, hfile, rfl⟩
  · rintro ⟨nearer, here, farther, hsplit, hnearer, hfile, rfl⟩
    exact ⟨here, ⟨hfile, nearer, farther, hsplit, hnearer⟩, rfl⟩

theorem findUpward?_eq_none_iff : findUpward? tree dir = none ↔ IsUngoverned tree dir := by
  simp [findUpward?, IsUngoverned]

theorem locate_eq_ok_iff : locate tree dir none = .ok path ↔ IsNearest tree dir path := by
  rw [← findUpward?_eq_some_iff]
  simp only [locate]
  cases findUpward? tree dir <;> simp

theorem locate_eq_error_iff {failure : Failure} :
    locate tree dir none = .error failure ↔
      IsUngoverned tree dir ∧ failure = .configNotFound dir true := by
  rw [← findUpward?_eq_none_iff]
  simp only [locate]
  cases findUpward? tree dir <;> simp [eq_comm]

theorem IsNearest.normalize (h : IsNearest tree dir path) : path.normalize = path := by
  obtain ⟨_, _, _, -, -, -, rfl⟩ := h
  exact FileTree.normalize_canonical tree _

end Config

namespace Grouping

/-! ## What a group holds -/

section Groups

variable {groups : List FileGroup} {path other : Path} {change : FileGroup → FileGroup}

/-- The group of a config. -/
def at? (groups : List FileGroup) (path : Path) : Option FileGroup :=
  groups.find? (·.configPath.same path)

/-- The patterns of the group of a config. -/
def patternsAt (groups : List FileGroup) (path : Path) : List String :=
  ((at? groups path).map (·.patterns)).getD []

/-- The files of the group of a config. -/
def filesAt (groups : List FileGroup) (path : Path) : List Path :=
  ((at? groups path).map (·.files)).getD []

/-- No two groups share a config. -/
def AreDistinct (groups : List FileGroup) : Prop :=
  groups.Pairwise fun g h => g.configPath.same h.configPath = false

/-- A change of one group changes what is held at its config and nothing else. -/
theorem at?_changeGroup (hkeeps : ∀ group, (change group).configPath = group.configPath) :
    at? (changeGroup groups path change) other =
      if path.same other then some (change ((at? groups other).getD ⟨path, [], []⟩))
      else at? groups other := by
  induction groups with
  | nil =>
      rw [changeGroup, at?, List.find?_singleton, hkeeps]
      rfl
  | cons group rest ih =>
      rw [at?] at ih
      by_cases hpath : group.configPath.same path = true
      · have hother : group.configPath.same other = path.same other := by
          rw [Path.same, Path.same, Path.same_iff.mp hpath]
        rw [changeGroup, if_pos hpath, at?, at?, List.find?_cons, List.find?_cons, hkeeps, hother]
        cases path.same other <;> rfl
      · rw [changeGroup, if_neg hpath, at?, at?, List.find?_cons, List.find?_cons, ih]
        by_cases hother : path.same other = true
        · have hgroup : group.configPath.same other = false := by
            rw [Path.same, ← Path.same_iff.mp hother]
            exact Bool.eq_false_iff.mpr hpath
          simp only [hgroup, if_pos hother]
          rfl
        · simp only [if_neg hother]
          cases group.configPath.same other <;> rfl

theorem at?_of_mem (hdistinct : AreDistinct groups) {group : FileGroup} (h : group ∈ groups) :
    at? groups group.configPath = some group := by
  induction groups with
  | nil => cases h
  | cons first rest ih =>
      obtain ⟨hfirst, hrest⟩ := List.pairwise_cons.mp hdistinct
      rw [at?, List.find?_cons]
      rcases List.mem_cons.mp h with rfl | h
      · rw [Path.same_iff.mpr rfl]
      · rw [hfirst group h]
        exact ih hrest h

theorem of_at?_eq_some {group : FileGroup} (h : at? groups path = some group) :
    group ∈ groups ∧ group.configPath.same path = true :=
  ⟨List.mem_of_find?_eq_some h, (List.find?_eq_some_iff_append.mp h).1⟩

/-- A change of the group of a config leaves the groups distinct. -/
theorem areDistinct_changeGroup (hkeeps : ∀ group, (change group).configPath = group.configPath)
    (h : AreDistinct groups) : AreDistinct (changeGroup groups path change) := by
  induction groups with
  | nil => exact List.pairwise_singleton _ _
  | cons first rest ih =>
      obtain ⟨hfirst, hrest⟩ := List.pairwise_cons.mp h
      unfold changeGroup
      split
      · refine List.pairwise_cons.mpr ⟨fun group hgroup => ?_, hrest⟩
        rw [hkeeps]
        exact hfirst group hgroup
      · rename_i hpath
        have hall : ∀ group ∈ changeGroup rest path change,
            first.configPath.same group.configPath = false := by
          refine forall_changeGroup (fun group hgroup => ?_) (Bool.eq_false_iff.mpr hpath) hfirst
          rw [hkeeps]
          exact hgroup
        exact List.pairwise_cons.mpr ⟨hall, ih hrest⟩

end Groups

/-! ## What a pattern sends where -/

/-- Patterns with one more, unless it is there already. -/
def noted (patterns : List String) (pattern : String) : List String :=
  if patterns.contains pattern then patterns else patterns ++ [pattern]

theorem noted_noted (patterns : List String) (pattern : String) :
    noted (noted patterns pattern) pattern = noted patterns pattern := by
  by_cases h : pattern ∈ patterns <;> simp [noted, h]

section Patterns

variable {tree : FileTree} {cwd : Path} {configOf : Path → Except Failure Path} {pattern : String}
  {path : Path}

/-- A directory has the config at a path. -/
def leadsTo (configOf : Path → Except Failure Path) (dir path : Path) : Bool :=
  match configOf dir with
  | .ok found => found.same path
  | .error _ => false

/-- The files of a pattern that have the config at a path. -/
def sent (tree : FileTree) (cwd : Path) (configOf : Path → Except Failure Path) (pattern : String)
    (path : Path) : List Path :=
  match Expansion.ofPatterns tree cwd [pattern] with
  | .error _ => []
  | .ok expansion =>
      if expansion.unmatched.isEmpty then
        expansion.files.filter fun file => leadsTo configOf (file.parent?.getD cwd) path
      else []

/-- Whether a pattern is noted with the config at a path. -/
def sends (tree : FileTree) (cwd : Path) (configOf : Path → Except Failure Path) (pattern : String)
    (path : Path) : Bool :=
  match Expansion.ofPatterns tree cwd [pattern] with
  | .error _ => false
  | .ok expansion =>
      if expansion.unmatched.isEmpty then
        expansion.files.any fun file => leadsTo configOf (file.parent?.getD cwd) path
      else leadsTo configOf cwd path

/-- What a pattern leaves behind. -/
def leftBy (tree : FileTree) (cwd : Path) (configOf : Path → Except Failure Path) (pattern : String) :
    List Unresolved :=
  match Expansion.ofPatterns tree cwd [pattern] with
  | .error (.panicked _) => []
  | .error (.failed failure) => [⟨pattern, failure⟩]
  | .ok expansion =>
      if expansion.unmatched.isEmpty then
        expansion.files.filterMap fun file =>
          match configOf (file.parent?.getD cwd) with
          | .ok _ => none
          | .error failure => some ⟨if isGlobText pattern then file.text else pattern, failure⟩
      else
        match configOf cwd with
        | .ok _ => []
        | .error failure => [⟨pattern, failure⟩]

theorem keeps_addPattern (pattern : String) (group : FileGroup) :
    (group.addPattern pattern).configPath = group.configPath :=
  (group.extends_addPattern pattern).1

theorem keeps_addFile (pattern : String) (file : Path) (group : FileGroup) :
    ((group.addPattern pattern).addFile file).configPath = group.configPath :=
  (FileGroup.extends_addFile _ file).1.trans (keeps_addPattern pattern group)

theorem patterns_addPattern (group : FileGroup) (pattern : String) :
    (group.addPattern pattern).patterns = noted group.patterns pattern := by
  unfold FileGroup.addPattern noted
  split <;> rfl

theorem patterns_addFile (group : FileGroup) (file : Path) :
    (group.addFile file).patterns = group.patterns := by
  unfold FileGroup.addFile
  split <;> rfl

theorem files_addPattern (group : FileGroup) (pattern : String) :
    (group.addPattern pattern).files = group.files := by
  unfold FileGroup.addPattern
  split <;> rfl

theorem listed_files_addFile (group : FileGroup) (file other : Path) :
    other.listed (group.addFile file).files = true ↔
      other.listed group.files = true ∨ other.same file = true := by
  unfold FileGroup.addFile
  split
  · rename_i hlisted
    refine ⟨Or.inl, fun h => h.elim id fun hsame => ?_⟩
    obtain ⟨q, hq, hparts⟩ := Path.listed_iff.mp hlisted
    exact Path.listed_iff.mpr ⟨q, hq, (Path.same_iff.mp hsame).trans hparts⟩
  · simp [Path.listed]

theorem patternsAt_bindPattern (grouping : Grouping) (dir : Path) :
    patternsAt (grouping.bindPattern (configOf dir) pattern).groups path =
      if leadsTo configOf dir path then noted (patternsAt grouping.groups path) pattern
      else patternsAt grouping.groups path := by
  unfold leadsTo
  cases configOf dir with
  | error failure => rfl
  | ok found =>
      simp only [patternsAt, bindPattern, at?_changeGroup (keeps_addPattern pattern)]
      split
      · cases at? grouping.groups path <;> simp [patterns_addPattern]
      · rfl

theorem patternsAt_bindFile (grouping : Grouping) (dir file : Path) :
    patternsAt (grouping.bindFile (configOf dir) pattern file).groups path =
      if leadsTo configOf dir path then noted (patternsAt grouping.groups path) pattern
      else patternsAt grouping.groups path := by
  unfold leadsTo
  cases configOf dir with
  | error failure => rfl
  | ok found =>
      simp only [patternsAt, bindFile, at?_changeGroup (keeps_addFile pattern file)]
      split
      · cases at? grouping.groups path <;> simp [patterns_addPattern, patterns_addFile]
      · rfl

theorem listed_filesAt_bindPattern (grouping : Grouping) (dir other : Path) :
    other.listed (filesAt (grouping.bindPattern (configOf dir) pattern).groups path) = true ↔
      other.listed (filesAt grouping.groups path) = true := by
  cases configOf dir with
  | error failure => rfl
  | ok found =>
      simp only [filesAt, bindPattern, at?_changeGroup (keeps_addPattern pattern)]
      split
      · cases at? grouping.groups path <;> simp [files_addPattern]
      · rfl

theorem listed_filesAt_bindFile (grouping : Grouping) (dir file other : Path) :
    other.listed (filesAt (grouping.bindFile (configOf dir) pattern file).groups path) = true ↔
      other.listed (filesAt grouping.groups path) = true ∨
        leadsTo configOf dir path = true ∧ other.same file = true := by
  unfold leadsTo
  cases configOf dir with
  | error failure => simp [bindFile, leave]
  | ok found =>
      simp only [filesAt, bindFile, at?_changeGroup (keeps_addFile pattern file)]
      split
      · rename_i hsame
        cases at? grouping.groups path <;> simp [files_addPattern, listed_files_addFile, hsame]
      · rename_i hother
        simp [hother]

/-! ## One pattern -/

theorem patternsAt_foldl_bindFile (files : List Path) (grouping : Grouping) :
    patternsAt (files.foldl (fun grouping file =>
        grouping.bindFile (configOf (file.parent?.getD cwd)) pattern file) grouping).groups path =
      if files.any fun file => leadsTo configOf (file.parent?.getD cwd) path then
        noted (patternsAt grouping.groups path) pattern
      else patternsAt grouping.groups path := by
  induction files generalizing grouping with
  | nil => rfl
  | cons file rest ih =>
      rw [List.foldl_cons, ih, patternsAt_bindFile, List.any_cons]
      cases leadsTo configOf (file.parent?.getD cwd) path with
      | false => simp
      | true => simp [noted_noted]

/-- A pattern is noted where it is sent, and nothing else is noted. -/
theorem patternsAt_added (grouping : Grouping) (pattern : String) (path : Path) :
    patternsAt (added tree cwd configOf grouping pattern).groups path =
      if sends tree cwd configOf pattern path then noted (patternsAt grouping.groups path) pattern
      else patternsAt grouping.groups path := by
  rcases hexpansion : Expansion.ofPatterns tree cwd [pattern] with ⟨failure | message⟩ | expansion
  · simp only [added, sends, hexpansion, leave, Bool.false_eq_true, if_false]
  · simp only [added, sends, hexpansion, Bool.false_eq_true, if_false]
  · simp only [added, addExpansion, sends, hexpansion]
    cases expansion.unmatched.isEmpty with
    | true => exact patternsAt_foldl_bindFile expansion.files grouping
    | false => exact patternsAt_bindPattern grouping cwd

theorem listed_filesAt_foldl_bindFile (files : List Path) (grouping : Grouping) (other : Path) :
    other.listed (filesAt (files.foldl (fun grouping file =>
        grouping.bindFile (configOf (file.parent?.getD cwd)) pattern file) grouping).groups path) = true ↔
      other.listed (filesAt grouping.groups path) = true ∨
        other.listed (files.filter fun file => leadsTo configOf (file.parent?.getD cwd) path) = true := by
  induction files generalizing grouping with
  | nil => simp [Path.listed]
  | cons file rest ih =>
      rw [List.foldl_cons, ih, listed_filesAt_bindFile, List.filter_cons, or_assoc]
      refine or_congr_right ?_
      split
      · rename_i hleads
        simp [hleads, Path.listed]
      · rename_i hleads
        simp [hleads]

/-- The files of a pattern come where they are sent, and nothing else comes. -/
theorem listed_filesAt_added (grouping : Grouping) (pattern : String) (path other : Path) :
    other.listed (filesAt (added tree cwd configOf grouping pattern).groups path) = true ↔
      other.listed (filesAt grouping.groups path) = true ∨
        other.listed (sent tree cwd configOf pattern path) = true := by
  rcases hexpansion : Expansion.ofPatterns tree cwd [pattern] with ⟨failure | message⟩ | expansion
  · simp [added, sent, hexpansion, leave, Path.listed]
  · simp [added, sent, hexpansion, Path.listed]
  · simp only [added, addExpansion, sent, hexpansion]
    cases expansion.unmatched.isEmpty with
    | true => exact listed_filesAt_foldl_bindFile expansion.files grouping other
    | false =>
        simp only [Bool.false_eq_true, if_false]
        rw [listed_filesAt_bindPattern]
        simp [Path.listed]

/-- A pattern leaves behind what has no config, behind what was left before. -/
theorem unresolved_added (grouping : Grouping) (pattern : String) :
    (added tree cwd configOf grouping pattern).unresolved =
      grouping.unresolved ++ leftBy tree cwd configOf pattern := by
  rcases hexpansion : Expansion.ofPatterns tree cwd [pattern] with ⟨failure | message⟩ | expansion
  · simp only [added, leftBy, hexpansion, leave]
  · simp only [added, leftBy, hexpansion, List.append_nil]
  · simp only [added, addExpansion, leftBy, hexpansion]
    cases expansion.unmatched.isEmpty with
    | false =>
        simp only [Bool.false_eq_true, if_false]
        cases configOf cwd <;> simp [bindPattern, leave]
    | true =>
        simp only [if_true]
        generalize expansion.files = files
        induction files generalizing grouping with
        | nil => simp
        | cons file rest ih =>
            rw [List.foldl_cons, ih, List.filterMap_cons]
            cases configOf (file.parent?.getD cwd) <;> simp [bindFile, leave]

theorem areDistinct_added {grouping : Grouping} (h : AreDistinct grouping.groups)
    (pattern : String) : AreDistinct (added tree cwd configOf grouping pattern).groups := by
  refine of_added (P := fun next => AreDistinct next.groups) h (fun _ => h) ?_
    fun expansion _ file _ next hnext => ?_
  · cases configOf cwd with
    | error failure => exact h
    | ok found => exact areDistinct_changeGroup (keeps_addPattern pattern) h
  · cases configOf (file.parent?.getD cwd) with
    | error failure => exact hnext
    | ok found => exact areDistinct_changeGroup (keeps_addFile pattern file) hnext

/-- The groups after a pattern depend on the groups before it only. -/
theorem groups_added_congr {grouping other : Grouping} (h : grouping.groups = other.groups)
    (pattern : String) :
    (added tree cwd configOf grouping pattern).groups =
      (added tree cwd configOf other pattern).groups := by
  have hbind : ∀ config : Except Failure Path, ∀ a b : Grouping, a.groups = b.groups →
      ∀ file, (a.bindFile config pattern file).groups = (b.bindFile config pattern file).groups := by
    intro config a b hab file
    cases config with
    | error failure => exact hab
    | ok found => simp only [bindFile, hab]
  unfold added
  split
  · exact h
  · exact h
  · rename_i expansion _
    unfold addExpansion
    split
    · generalize expansion.files = files
      induction files generalizing grouping other with
      | nil => exact h
      | cons file rest ih => exact ih (hbind _ grouping other h file)
    · cases configOf cwd with
      | error failure => exact h
      | ok found => simp only [bindPattern, h]

/-! ## All patterns -/

variable (tree cwd configOf)

/-- What patterns are grouped to, one after the other. -/
def grouped (patterns : List String) : Grouping := patterns.foldl (added tree cwd configOf) {}

theorem grouped_concat (patterns : List String) (pattern : String) :
    grouped tree cwd configOf (patterns ++ [pattern]) =
      added tree cwd configOf (grouped tree cwd configOf patterns) pattern := by
  rw [grouped, List.foldl_concat]
  rfl

theorem areDistinct_grouped (patterns : List String) :
    AreDistinct (grouped tree cwd configOf patterns).groups :=
  List.foldlRecOn patterns _ (motive := fun next : Grouping => AreDistinct next.groups) List.Pairwise.nil
    fun _ hnext pattern _ => areDistinct_added hnext pattern

/-- What holds of a new group and is kept when something is added holds of all groups. -/
theorem forall_grouped {P : FileGroup → Prop}
    (hnew : ∀ dir path, configOf dir = .ok path → P ⟨path, [], []⟩)
    (hpattern : ∀ (group : FileGroup) pattern, P group → P (group.addPattern pattern))
    (hfile : ∀ (group : FileGroup) file, P group → P (group.addFile file)) (patterns : List String) :
    ∀ group ∈ (grouped tree cwd configOf patterns).groups, P group := by
  refine List.foldlRecOn patterns _ (motive := fun next : Grouping => ∀ group ∈ next.groups, P group)
    (fun _ h => by cases h) fun next hnext pattern _ => ?_
  refine of_added (P := fun next => ∀ group ∈ next.groups, P group) hnext (fun _ => hnext) ?_
    fun expansion _ file _ other hother => ?_
  · cases hconfig : configOf cwd with
    | error failure => exact hnext
    | ok found =>
        exact forall_changeGroup (fun group => hpattern group pattern) (hnew _ found hconfig) hnext
  · cases hconfig : configOf (file.parent?.getD cwd) with
    | error failure => exact hother
    | ok found =>
        exact forall_changeGroup (fun group hgroup => hfile _ file (hpattern group pattern hgroup))
          (hnew _ found hconfig) hother

/-- The patterns of a group are those that send something there, in order and without repeats. -/
theorem patternsAt_grouped (patterns : List String) (path : Path) :
    patternsAt (grouped tree cwd configOf patterns).groups path =
      (patterns.filter fun pattern => sends tree cwd configOf pattern path).eraseDups := by
  induction patterns using List.reverseRecOn with
  | nil => rfl
  | append_singleton patterns pattern ih =>
      rw [grouped_concat, patternsAt_added, ih, List.filter_append]
      cases hsends : sends tree cwd configOf pattern path with
      | false => simp [hsends]
      | true =>
          have hlast : [pattern].filter (fun pattern => sends tree cwd configOf pattern path) =
              [pattern] := by
            simp [hsends]
          rw [hlast, List.eraseDups_append, if_pos rfl, noted]
          generalize patterns.filter (fun pattern => sends tree cwd configOf pattern path) = before
          by_cases hmem : pattern ∈ before <;> simp [hmem, List.removeAll, List.eraseDups_cons]

/-- The files of a group are those that are sent there. -/
theorem listed_filesAt_grouped (patterns : List String) (path file : Path) :
    file.listed (filesAt (grouped tree cwd configOf patterns).groups path) = true ↔
      ∃ pattern ∈ patterns, file.listed (sent tree cwd configOf pattern path) = true := by
  induction patterns using List.reverseRecOn with
  | nil => simp [grouped, filesAt, at?, Path.listed]
  | append_singleton patterns pattern ih =>
      rw [grouped_concat, listed_filesAt_added, ih]
      simp [or_and_right, exists_or]

/-- What stays behind is what the patterns leave, one after the other. -/
theorem unresolved_grouped (patterns : List String) :
    (grouped tree cwd configOf patterns).unresolved = patterns.flatMap (leftBy tree cwd configOf) := by
  induction patterns using List.reverseRecOn with
  | nil => rfl
  | append_singleton patterns pattern ih =>
      rw [grouped_concat, unresolved_added, ih]
      simp

/-- A pattern that cannot be expanded changes no group. -/
theorem groups_grouped_of_failed (front back : List String) {pattern : String} {failure : Failure}
    (h : Expansion.ofPatterns tree cwd [pattern] = .error (.failed failure)) :
    (grouped tree cwd configOf (front ++ pattern :: back)).groups =
      (grouped tree cwd configOf (front ++ back)).groups := by
  have hcongr : ∀ a b : Grouping, a.groups = b.groups →
      (back.foldl (added tree cwd configOf) a).groups =
        (back.foldl (added tree cwd configOf) b).groups := by
    induction back with
    | nil => exact fun _ _ hab => hab
    | cons next rest ih => exact fun a b hab => ih _ _ (groups_added_congr hab next)
  rw [grouped, grouped, List.foldl_append, List.foldl_append, List.foldl_cons]
  refine hcongr _ _ ?_
  rw [added, h]
  rfl

end Patterns

/-! ## The partition -/

section Partition

variable {tree : FileTree} {cwd : Path} {pattern : String} {path : Path}

/-- The directory in which the config of a file is looked for. -/
def dirOf (cwd file : Path) : Path := file.parent?.getD cwd

/-- A pattern contributes to the group of a config: it stands for a file that the config is the nearest one
to, or it is a glob that matches nothing, and the config is the nearest one to the working directory. -/
def Contributes (tree : FileTree) (cwd path : Path) (pattern : String) : Prop :=
  ∃ expansion, Expansion.ofPatterns tree cwd [pattern] = .ok expansion ∧
    ((∃ file ∈ expansion.files, Config.IsNearest tree (dirOf cwd file) path) ∨
      expansion.unmatched ≠ [] ∧ Config.IsNearest tree cwd path)

theorem leadsTo_iff (hpath : path.normalize = path) (dir : Path) :
    leadsTo (Config.locate tree · none) dir path = true ↔ Config.IsNearest tree dir path := by
  rw [← Config.locate_eq_ok_iff, leadsTo]
  cases hlocate : Config.locate tree dir none with
  | error failure => simp
  | ok found =>
      rw [Except.ok.injEq]
      refine ⟨fun h => ?_, fun h => Path.same_iff.mpr (congrArg Path.parts h)⟩
      exact Path.eq_of_parts_eq (Config.locate_eq_ok_iff.mp hlocate).normalize hpath (Path.same_iff.mp h)

theorem sends_iff (hpath : path.normalize = path) :
    sends tree cwd (Config.locate tree · none) pattern path = true ↔ Contributes tree cwd path pattern := by
  unfold sends Contributes
  cases hexpansion : Expansion.ofPatterns tree cwd [pattern] with
  | error failure => simp
  | ok expansion =>
      simp only [Except.ok.injEq, exists_eq_left']
      by_cases hmatched : expansion.unmatched = []
      · simp [hmatched, leadsTo_iff hpath, dirOf]
      · have hnone : ∀ file, file ∉ expansion.files :=
          fun file hfile => hmatched (Expansion.unmatched_eq_nil hexpansion hfile)
        simp [hmatched, leadsTo_iff hpath, hnone]

theorem mem_sent_iff (pattern : String) (hpath : path.normalize = path) {file : Path} :
    file ∈ sent tree cwd (Config.locate tree · none) pattern path ↔
      ∃ expansion, Expansion.ofPatterns tree cwd [pattern] = .ok expansion ∧ file ∈ expansion.files ∧
        Config.IsNearest tree (dirOf cwd file) path := by
  unfold sent
  cases hexpansion : Expansion.ofPatterns tree cwd [pattern] with
  | error failure => simp
  | ok expansion =>
      simp only [Except.ok.injEq, exists_eq_left']
      by_cases hmatched : expansion.unmatched = []
      · simp [hmatched, leadsTo_iff hpath, dirOf]
      · have hnone : ∀ file, file ∉ expansion.files :=
          fun file hfile => hmatched (Expansion.unmatched_eq_nil hexpansion hfile)
        simp [hmatched, hnone]

/-- Whether a grouping is the partition of what patterns stand for. The groups have different configs.
A file with a config is in the group of the nearest one, once, and in no other group; a file without one
is in no group, and stays behind with the reason. There are no other files in the groups. The patterns of
a group are those that contribute to it, in order and without repeats. A pattern that cannot be expanded
only adds to what stays behind. -/
structure IsPartition (tree : FileTree) (cwd : Path) (patterns : List String) (grouping : Grouping) :
    Prop where
  distinct : grouping.groups.Pairwise fun g h => g.configPath.same h.configPath = false
  governed : ∀ pattern ∈ patterns, ∀ expansion, Expansion.ofPatterns tree cwd [pattern] = .ok expansion →
    ∀ file ∈ expansion.files, ∀ path, Config.IsNearest tree (dirOf cwd file) path →
      ∃ group ∈ grouping.groups, group.configPath = path ∧ group.files.count file = 1 ∧
        ∀ other ∈ grouping.groups, file ∈ other.files → other = group
  ungoverned : ∀ pattern ∈ patterns, ∀ expansion,
    Expansion.ofPatterns tree cwd [pattern] = .ok expansion →
      ∀ file ∈ expansion.files, Config.IsUngoverned tree (dirOf cwd file) →
        ⟨if isGlobText pattern then file.text else pattern, .configNotFound (dirOf cwd file) true⟩ ∈
            grouping.unresolved ∧
          ∀ group ∈ grouping.groups, file ∉ group.files
  files : ∀ group ∈ grouping.groups, ∀ file ∈ group.files, ∃ pattern ∈ patterns, ∃ expansion,
    Expansion.ofPatterns tree cwd [pattern] = .ok expansion ∧ file ∈ expansion.files ∧
      Config.IsNearest tree (dirOf cwd file) group.configPath
  contributing : ∀ group ∈ grouping.groups, ∃ contributes : String → Bool,
    (∀ pattern, contributes pattern = true ↔ Contributes tree cwd group.configPath pattern) ∧
      group.patterns = (patterns.filter contributes).eraseDups
  isolated : ∀ front pattern back failure, patterns = front ++ pattern :: back →
    Expansion.ofPatterns tree cwd [pattern] = .error (.failed failure) →
      ∃ rest, ofPatterns tree cwd none (front ++ back) = .ok rest ∧ grouping.groups = rest.groups ∧
        ∃ before behind, rest.unresolved = before ++ behind ∧
          grouping.unresolved = before ++ ⟨pattern, failure⟩ :: behind

/-- Without a named project, a grouping is given exactly when all patterns keep the bound on the depth. -/
theorem ofPatterns_none_eq_ok_iff {patterns : List String} {grouping : Grouping} :
    ofPatterns tree cwd none patterns = .ok grouping ↔
      (∀ pattern ∈ patterns, Expansion.IsWithinDepth cwd pattern) ∧
        grouped tree cwd (Config.locate tree · none) patterns = grouping :=
  foldlM_addPattern_eq_ok_iff

/-- The config of a group is spelled as a normal form. -/
theorem normalize_configPath (patterns : List String) {group : FileGroup}
    (h : group ∈ (grouped tree cwd (Config.locate tree · none) patterns).groups) :
    group.configPath.normalize = group.configPath := by
  refine forall_grouped tree cwd _ (P := fun group => group.configPath.normalize = group.configPath)
    (fun dir path hpath => (Config.locate_eq_ok_iff.mp hpath).normalize) ?_ ?_ patterns group h
  · intro group pattern hgroup
    rwa [keeps_addPattern]
  · intro group file hgroup
    rwa [(group.extends_addFile file).1]

/-- No file is in a group twice. -/
theorem nodup_files (patterns : List String) {group : FileGroup}
    (h : group ∈ (grouped tree cwd (Config.locate tree · none) patterns).groups) :
    group.files.Nodup := by
  refine forall_grouped tree cwd _ (P := fun group => group.files.Nodup)
    (fun dir path _ => List.nodup_nil) ?_ ?_ patterns group h
  · intro group pattern hgroup
    rwa [files_addPattern]
  · intro group file hgroup
    unfold FileGroup.addFile
    split
    · exact hgroup
    · rename_i hnew
      refine List.nodup_append.mpr ⟨hgroup, List.nodup_singleton file, fun other hother last hlast => ?_⟩
      obtain rfl := List.mem_singleton.mp hlast
      rintro rfl
      exact hnew (Path.listed_of_mem hother)

/-- The files of a group are those that its config is the nearest one to. -/
theorem mem_files_iff (patterns : List String) {group : FileGroup}
    (h : group ∈ (grouped tree cwd (Config.locate tree · none) patterns).groups) {file : Path} :
    file ∈ group.files ↔ ∃ pattern ∈ patterns, ∃ expansion,
      Expansion.ofPatterns tree cwd [pattern] = .ok expansion ∧ file ∈ expansion.files ∧
        Config.IsNearest tree (dirOf cwd file) group.configPath := by
  have hnormal := isNormal_foldl_added tree cwd (Config.locate tree · none) patterns group h
  have hsent := listed_filesAt_grouped tree cwd (Config.locate tree · none) patterns group.configPath file
  rw [filesAt, at?_of_mem (areDistinct_grouped ..) h, Option.map_some, Option.getD_some] at hsent
  constructor
  · intro hfile
    obtain ⟨pattern, hpattern, hlisted⟩ := hsent.mp (Path.listed_of_mem hfile)
    obtain ⟨other, hother, hparts⟩ := Path.listed_iff.mp hlisted
    obtain ⟨expansion, hexpansion, hmem, hnearest⟩ :=
      (mem_sent_iff pattern (normalize_configPath patterns h)).mp hother
    obtain rfl := Path.eq_of_parts_eq (hnormal file hfile)
      (Expansion.normalize_of_ofPatterns hexpansion hmem) hparts
    exact ⟨pattern, hpattern, expansion, hexpansion, hmem, hnearest⟩
  · rintro ⟨pattern, hpattern, expansion, hexpansion, hmem, hnearest⟩
    have hfile := (mem_sent_iff pattern (normalize_configPath patterns h)).mpr
      ⟨expansion, hexpansion, hmem, hnearest⟩
    obtain ⟨other, hother, hparts⟩ :=
      Path.listed_iff.mp (hsent.mpr ⟨pattern, hpattern, Path.listed_of_mem hfile⟩)
    rwa [Path.eq_of_parts_eq (Expansion.normalize_of_ofPatterns hexpansion hmem) (hnormal other hother)
      hparts]

/-- There is a group for every config that is the nearest one to a file. -/
theorem exists_group (patterns : List String) {pattern : String} (hpattern : pattern ∈ patterns)
    {expansion : Expansion} (hexpansion : Expansion.ofPatterns tree cwd [pattern] = .ok expansion)
    {file : Path} (hfile : file ∈ expansion.files) (hnearest : Config.IsNearest tree (dirOf cwd file) path) :
    ∃ group ∈ (grouped tree cwd (Config.locate tree · none) patterns).groups, group.configPath = path := by
  have hsent := (mem_sent_iff pattern hnearest.normalize).mpr
    ⟨expansion, hexpansion, hfile, hnearest⟩
  have hlisted := (listed_filesAt_grouped tree cwd (Config.locate tree · none) patterns path file).mpr
    ⟨pattern, hpattern, Path.listed_of_mem hsent⟩
  unfold filesAt at hlisted
  cases hfound : at? (grouped tree cwd (Config.locate tree · none) patterns).groups path with
  | none =>
      rw [hfound] at hlisted
      cases hlisted
  | some group =>
      obtain ⟨hgroup, hsame⟩ := of_at?_eq_some hfound
      exact ⟨group, hgroup, Path.eq_of_parts_eq (normalize_configPath patterns hgroup)
        hnearest.normalize (Path.same_iff.mp hsame)⟩

/-- A file of a pattern is in the group of its nearest config, once, and in no other one. -/
theorem exists_only_group (patterns : List String) {pattern : String} (hpattern : pattern ∈ patterns)
    {expansion : Expansion} (hexpansion : Expansion.ofPatterns tree cwd [pattern] = .ok expansion)
    {file : Path} (hfile : file ∈ expansion.files) (hnearest : Config.IsNearest tree (dirOf cwd file) path) :
    ∃ group ∈ (grouped tree cwd (Config.locate tree · none) patterns).groups,
      group.configPath = path ∧ group.files.count file = 1 ∧
        ∀ other ∈ (grouped tree cwd (Config.locate tree · none) patterns).groups,
          file ∈ other.files → other = group := by
  have hdistinct := areDistinct_grouped tree cwd (Config.locate tree · none) patterns
  obtain ⟨group, hgroup, rfl⟩ := exists_group patterns hpattern hexpansion hfile hnearest
  have hmem := (mem_files_iff patterns hgroup).mpr
    ⟨pattern, hpattern, expansion, hexpansion, hfile, hnearest⟩
  refine ⟨group, hgroup, rfl, List.count_eq_one_of_mem (nodup_files patterns hgroup) hmem,
    fun other hother hfile' => ?_⟩
  obtain ⟨_, -, _, -, -, hnearest'⟩ := (mem_files_iff patterns hother).mp hfile'
  have hsame : other.configPath = group.configPath :=
    Except.ok.inj ((Config.locate_eq_ok_iff.mpr hnearest').symm.trans
      (Config.locate_eq_ok_iff.mpr hnearest))
  have hfound := at?_of_mem hdistinct hother
  rw [hsame, at?_of_mem hdistinct hgroup] at hfound
  exact (Option.some.inj hfound).symm

/-- A file of a pattern without any config above it is reported, and in no group. -/
theorem reported_of_isUngoverned (patterns : List String) {pattern : String} (hpattern : pattern ∈ patterns)
    {expansion : Expansion} (hexpansion : Expansion.ofPatterns tree cwd [pattern] = .ok expansion)
    {file : Path} (hfile : file ∈ expansion.files)
    (hungoverned : Config.IsUngoverned tree (dirOf cwd file)) :
    ⟨if isGlobText pattern then file.text else pattern, .configNotFound (dirOf cwd file) true⟩ ∈
        (grouped tree cwd (Config.locate tree · none) patterns).unresolved ∧
      ∀ group ∈ (grouped tree cwd (Config.locate tree · none) patterns).groups, file ∉ group.files := by
  have herror := Config.locate_eq_error_iff.mpr ⟨hungoverned, rfl⟩
  refine ⟨?_, fun group hgroup hmem => ?_⟩
  · rw [unresolved_grouped tree cwd (Config.locate tree · none)]
    refine List.mem_flatMap.mpr ⟨pattern, hpattern, ?_⟩
    simp only [leftBy, hexpansion, Expansion.unmatched_eq_nil hexpansion hfile, List.isEmpty_nil,
      if_true, List.mem_filterMap]
    refine ⟨file, hfile, ?_⟩
    rw [dirOf] at herror ⊢
    rw [herror]
  · obtain ⟨_, -, _, -, -, hnearest⟩ := (mem_files_iff patterns hgroup).mp hmem
    have hok := Config.locate_eq_ok_iff.mpr hnearest
    rw [herror] at hok
    cases hok

/-- The first pattern whose expansion panics ends the grouping, whatever the other patterns stand for. -/
theorem ofPatterns_none_of_panicked {front : List String} {message : String}
    (hfront : ∀ other ∈ front, Expansion.IsWithinDepth cwd other)
    (h : Expansion.ofPatterns tree cwd [pattern] = .error (.panicked message)) (back : List String) :
    ofPatterns tree cwd none (front ++ pattern :: back) = .error (.panicked message) := by
  refine Fallible.foldlM_eq_error (fun grouping other hother => ?_) fun grouping => ?_
  · exact ⟨_, addPattern_eq_ok_iff.mpr ⟨hfront other hother, rfl⟩⟩
  · rw [addPattern, h]

theorem isPartition_grouped {patterns : List String}
    (hdepth : ∀ pattern ∈ patterns, Expansion.IsWithinDepth cwd pattern) :
    (grouped tree cwd (Config.locate tree · none) patterns).IsPartition tree cwd patterns := by
  have hdistinct := areDistinct_grouped tree cwd (Config.locate tree · none) patterns
  have hunresolved := unresolved_grouped tree cwd (Config.locate tree · none)
  refine ⟨hdistinct, ?_, ?_, ?_, ?_, ?_⟩
  · exact fun _ hpattern _ hexpansion _ hfile _ => exists_only_group patterns hpattern hexpansion hfile
  · exact fun _ hpattern _ hexpansion _ hfile => reported_of_isUngoverned patterns hpattern hexpansion hfile
  · exact fun group hgroup file => (mem_files_iff patterns hgroup).mp
  · intro group hgroup
    refine ⟨fun pattern => sends tree cwd (Config.locate tree · none) pattern group.configPath,
      fun pattern => sends_iff (normalize_configPath patterns hgroup), ?_⟩
    rw [← patternsAt_grouped, patternsAt, at?_of_mem hdistinct hgroup]
    rfl
  · rintro front pattern back failure rfl hfailed
    have hothers : ∀ other ∈ front ++ back, Expansion.IsWithinDepth cwd other :=
      fun other hother => hdepth other
        (((List.sublist_cons_self pattern back).append_left front).subset hother)
    refine ⟨_, ofPatterns_none_eq_ok_iff.mpr ⟨hothers, rfl⟩,
      groups_grouped_of_failed tree cwd _ front back hfailed,
      front.flatMap (leftBy tree cwd (Config.locate tree · none)),
      back.flatMap (leftBy tree cwd (Config.locate tree · none)), ?_, ?_⟩
    · rw [hunresolved, List.flatMap_append]
    · rw [hunresolved, List.flatMap_append, List.flatMap_cons, leftBy, hfailed]
      rfl

/-- A project with one source. -/
def plainProject : FileTree :=
  ⟨[("p".toList, .dir [FileTree.textEntry "tsconfig.json" "\x7b\x7d", FileTree.textEntry "a.ts" ""])]⟩

end Partition

end Grouping

end ScopedCheck
