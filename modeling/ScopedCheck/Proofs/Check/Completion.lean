import Mathlib.Data.List.Nodup
import Mathlib.Logic.Relation
import ScopedCheck.Proofs.Check.Coverage
import ScopedCheck.Proofs.Check.Modes
/-! # Groups that finish in any order

The groups of a check are checked at the same time, and they finish in any order. Each carries its
position, and what they come to is put in the order of the positions before it is put together. So nothing
is lost, repeated or moved, whoever was first. -/

namespace ScopedCheck

open Relation (ReflTransGen)

/-- A group and what its check comes to. -/
structure CheckedGroup where
  group : FileGroup
  outcome : Except Failure (Option GroupOutput)

namespace CheckedGroup

/-- What was found in the group, unless it failed or had no sources. -/
def output? (checked : CheckedGroup) : Option GroupOutput :=
  match checked.outcome with
  | .ok output => output
  | .error _ => none

/-- The failure of the group, with its config and its patterns. -/
def failure? (checked : CheckedGroup) : Option GroupFailure :=
  match checked.outcome with
  | .ok _ => none
  | .error failure => some ⟨some checked.group.configPath, checked.group.patterns, failure⟩

/-- The group when it has finished. -/
def finishedAt (checked : CheckedGroup) (position : Nat) : FinishedGroup :=
  ⟨position, checked.group.configPath, checked.group.patterns, checked.outcome⟩

/-- Groups that have finished in their order. -/
def inTurn (checked : List CheckedGroup) : List FinishedGroup :=
  checked.zipIdx.map fun entry => entry.1.finishedAt entry.2

end CheckedGroup

/-! ## Tasks -/

/-- The groups that are still checked, each with what it will come to, and those that have finished. -/
structure Tasks where
  running : List FinishedGroup
  finished : List FinishedGroup := []

namespace Tasks

variable {tasks next : Tasks} {finished : List FinishedGroup}

/-- One group, whichever it is, finishes. -/
inductive Finishes : Tasks → Tasks → Prop
  | finish (before : List FinishedGroup) (group : FinishedGroup) (after done : List FinishedGroup) :
      Finishes ⟨before ++ group :: after, done⟩ ⟨before ++ after, done ++ [group]⟩

/-- All groups finish, in this order. -/
def FinishAs (tasks : Tasks) (finished : List FinishedGroup) : Prop :=
  ReflTransGen Finishes tasks ⟨[], finished⟩

/-- When a group finishes nothing is lost and nothing is repeated. -/
theorem Finishes.perm (h : Finishes tasks next) :
    (next.finished ++ next.running).Perm (tasks.finished ++ tasks.running) := by
  cases h with
  | finish before group after done =>
      rw [List.append_assoc, List.singleton_append]
      exact (List.perm_middle.symm).append_left done

theorem FinishAs.perm (h : tasks.FinishAs finished) :
    finished.Perm (tasks.finished ++ tasks.running) := by
  induction h using ReflTransGen.head_induction_on with
  | refl => exact .of_eq (List.append_nil finished).symm
  | head hstep _ ih => exact ih.trans hstep.perm

/-- The groups finish in any order that there is. -/
theorem finishAs_of_perm {running done order : List FinishedGroup} (h : order.Perm running) :
    FinishAs ⟨running, done⟩ (done ++ order) := by
  induction order generalizing running done with
  | nil =>
      obtain rfl := List.nil_perm.mp h
      rw [List.append_nil]
      exact .refl
  | cons group order ih =>
      obtain ⟨before, after, rfl⟩ := List.append_of_mem (h.subset List.mem_cons_self)
      have hrest : order.Perm (before ++ after) := (h.trans List.perm_middle).cons_inv
      have hthen : FinishAs ⟨before ++ after, done ++ [group]⟩ (done ++ [group] ++ order) := ih hrest
      rw [List.append_assoc, List.singleton_append] at hthen
      exact .head (.finish before group after done) hthen

/-- The groups finish as a list just when it is made of all of them. -/
theorem finishAs_iff {running : List FinishedGroup} :
    FinishAs ⟨running, []⟩ finished ↔ finished.Perm running :=
  ⟨FinishAs.perm, fun h => show FinishAs ⟨running, []⟩ ([] ++ finished) from finishAs_of_perm h⟩

end Tasks

/-! ## The order of the groups -/

namespace FinishedGroup

theorem pairwise_inOrder (groups : List FinishedGroup) :
    (inOrder groups).Pairwise fun g h => g.position ≤ h.position := by
  simpa only [inOrder, decide_eq_true_eq] using
    @List.pairwise_mergeSort FinishedGroup (fun g h => decide (g.position ≤ h.position))
      (fun f g h hfg hgh => by simpa using Nat.le_trans (by simpa using hfg) (by simpa using hgh))
      (fun g h => by simpa using Nat.le_total g.position h.position) groups

/-- Groups whose positions ascend are recovered from any order. -/
theorem inOrder_eq_of_perm {finished groups : List FinishedGroup}
    (hgroups : groups.Pairwise fun g h => g.position < h.position) (h : finished.Perm groups) :
    inOrder finished = groups := by
  have hperm : (inOrder finished).Perm groups := (List.mergeSort_perm finished _).trans h
  have hpositions : (groups.map (·.position)).Nodup :=
    List.pairwise_map.mpr (hgroups.imp Nat.ne_of_lt)
  refine hperm.eq_of_pairwise (fun f g hf hg hfg hgf => ?_) (pairwise_inOrder finished)
    (hgroups.imp Nat.le_of_lt)
  exact List.inj_on_of_nodup_map hpositions (hperm.subset hf) hg (Nat.le_antisymm hfg hgf)

theorem pairwise_inTurn (checked : List CheckedGroup) :
    (CheckedGroup.inTurn checked).Pairwise fun g h => g.position < h.position := by
  have hpositions : (CheckedGroup.inTurn checked).map (·.position) = List.range' 0 checked.length := by
    rw [CheckedGroup.inTurn, List.map_map]
    exact List.zipIdx_map_snd 0 checked
  exact List.pairwise_map.mp (hpositions ▸ List.pairwise_lt_range')

/-- What is collected in the order of the positions is collected in the order of the groups. -/
theorem filterMap_inTurn {α : Type} {f : FinishedGroup → Option α} {g : CheckedGroup → Option α}
    (h : ∀ checked position, f (checked.finishedAt position) = g checked) (checked : List CheckedGroup) :
    (CheckedGroup.inTurn checked).filterMap f = checked.filterMap g := by
  have hentry : (f ∘ fun entry : CheckedGroup × Nat => entry.1.finishedAt entry.2) = g ∘ Prod.fst :=
    funext fun entry => h entry.1 entry.2
  rw [CheckedGroup.inTurn, List.filterMap_map, hentry, ← List.filterMap_map, List.zipIdx_map_fst]

end FinishedGroup

namespace CheckResult

/-! ## What is put together -/

/-- Whether a result is put together from groups in their order and from what stayed behind. How long it
took is left open. -/
structure IsPutTogether (result : CheckResult) (checked : List CheckedGroup)
    (unresolved : List Unresolved) : Prop where
  errors : result.errors = (checked.filterMap (·.output?)).flatMap (·.findings.errors)
  warnings : result.warnings = (checked.filterMap (·.output?)).flatMap (·.findings.warnings)
  checkedFiles : result.checkedFiles = (checked.filterMap (·.output?)).flatMap (·.checkedFiles)
  groups : result.groups = (checked.filterMap (·.output?)).map (·.summary)
  /-- The groups that failed come first, then what stayed behind. -/
  failures : result.failures = checked.filterMap (·.failure?) ++
    unresolved.map fun left => ⟨none, [left.pattern], left.failure⟩
  /-- The setup files are in ascending order, none of them twice. -/
  ascending : result.setupFiles.Pairwise Path.Precedes
  /-- They are those of the groups; of several spellings of a file the first one is kept. -/
  setupFiles : ∀ path : Path, result.setupFiles.find? path.same =
    ((checked.filterMap (·.output?)).flatMap (·.setupFiles)).find? path.same
  errorCount : result.errorCount = result.errors.length
  warningCount : result.warningCount = result.warnings.length
  success : result.success = true ↔ (∀ output ∈ checked.filterMap (·.output?), output.success = true) ∧
    result.failures = [] ∧ result.errors = []

/-- Whatever order the groups finished in, what is collected is what they came to in their own order. -/
theorem collect_of_perm {finished : List FinishedGroup} {checked : List CheckedGroup}
    (h : finished.Perm (CheckedGroup.inTurn checked)) (unresolved : List Unresolved) :
    collect finished unresolved = ofOutputs (checked.filterMap (·.output?))
      (checked.filterMap (·.failure?) ++ unresolved.map Unresolved.toFailure) := by
  unfold collect
  rw [FinishedGroup.inOrder_eq_of_perm (FinishedGroup.pairwise_inTurn checked) h]
  simp only
  rw [FinishedGroup.filterMap_inTurn (g := (·.output?)) (fun _ _ => rfl),
    FinishedGroup.filterMap_inTurn (g := (·.failure?)) (fun _ _ => rfl)]

theorem isPutTogether_ofOutputs (checked : List CheckedGroup) (unresolved : List Unresolved) :
    (ofOutputs (checked.filterMap (·.output?))
      (checked.filterMap (·.failure?) ++ unresolved.map Unresolved.toFailure)).IsPutTogether checked
        unresolved where
  errors := rfl
  warnings := rfl
  checkedFiles := rfl
  groups := rfl
  failures := rfl
  ascending := Path.pairwise_sortedUnique _
  setupFiles path := Path.find?_sortedUnique path _
  errorCount := rfl
  warningCount := rfl
  success := by
    simp only [ofOutputs, Bool.and_eq_true, List.all_eq_true, List.isEmpty_iff, and_assoc]

end CheckResult

namespace Check

open Checking
open CheckedGroup (inTurn)

variable {s : Surroundings} {options : CheckOptions} {patterns : List String} {session : Session}
  {checked : List CheckedGroup} {unresolved : List Unresolved}

/-- The groups of a check, with what they come to when they are checked one after the other. -/
def checkedInTurns (s : Surroundings) (host : ProgramHost) (options : CheckOptions) (cwd : Path)
    (groups : List FileGroup) (session : Session) : List CheckedGroup :=
  (turnsOf s host options cwd groups session).map fun turn =>
    ⟨turn.1, ((turn.1.check s host options cwd).run.run turn.2).1⟩

/-- To check groups one after the other is one of the orders that they may finish in. -/
theorem finishAs_checkGroups (s : Surroundings) (host : ProgramHost) (options : CheckOptions)
    (cwd : Path) (groups : List FileGroup) (session : Session) :
    Tasks.FinishAs ⟨inTurn (checkedInTurns s host options cwd groups session), []⟩
      ((checkGroups s host options cwd groups).run session).1 := by
  rw [Tasks.finishAs_iff, run_checkGroups, inTurn, checkedInTurns, List.zipIdx_map, List.map_map]
  exact .refl _

/-- A check that goes on after failures puts together what its groups come to in their turns. -/
theorem value_run_of_goes_on (host : ProgramHost) {grouping : Grouping}
    (hbegun : refusal? options patterns = none)
    (hgrouping : Grouping.ofPatterns session.tree (workingDir s options)
      (options.effectiveProject s.project) patterns = .ok grouping)
    (hgoes : options.stopOnFailure = false) :
    ((run s host options patterns).run.run session).1 =
      .ok (CheckResult.ofOutputs
        ((checkedInTurns s host options (workingDir s options) grouping.groups session).filterMap
          (·.output?))
        ((checkedInTurns s host options (workingDir s options) grouping.groups session).filterMap
          (·.failure?) ++ grouping.unresolved.map Unresolved.toFailure)) := by
  have hturns := finishAs_checkGroups s host options (workingDir s options) grouping.groups session
  rw [run_eq_runBy, value_runBy, hbegun, tally, hgrouping]
  simp only
  rw [CheckResult.collect_of_perm (Tasks.finishAs_iff.mp hturns),
    CheckResult.orStop_of_goes_on (Or.inl hgoes)]

/-- A check whose groups come to the same as one after the other, but finish in some other order, comes to
the same. -/
theorem value_runBy_eq_run {host : ProgramHost}
    {checkAll : Path → List FileGroup → StateM Session (List FinishedGroup)}
    (h : ∀ grouping, Grouping.ofPatterns session.tree (workingDir s options)
        (options.effectiveProject s.project) patterns = .ok grouping →
      Tasks.FinishAs
        ⟨inTurn (checkedInTurns s host options (workingDir s options) grouping.groups session), []⟩
        ((checkAll (workingDir s options) grouping.groups).run session).1) :
    ((runBy checkAll s options patterns).run.run session).1 =
      ((run s host options patterns).run.run session).1 := by
  have htally : tally checkAll s options patterns session =
      tally (checkGroups s host options) s options patterns session := by
    unfold tally
    cases hgrouping : Grouping.ofPatterns session.tree (workingDir s options)
        (options.effectiveProject s.project) patterns with
    | error halt => rfl
    | ok grouping =>
        have hturns := finishAs_checkGroups s host options (workingDir s options) grouping.groups session
        simp only
        rw [CheckResult.collect_of_perm (Tasks.finishAs_iff.mp (h grouping hgrouping)),
          CheckResult.collect_of_perm (Tasks.finishAs_iff.mp hturns)]
  rw [run_eq_runBy, value_runBy, value_runBy, htally]

/-- Whatever the groups of a check come to, and whatever order they finish in, the check comes to one
result, which is put together in the order of the groups, or stops with the first failure of it. -/
theorem value_in_any_order (hbegun : refusal? options patterns = none)
    (hgrouping : Grouping.ofPatterns session.tree (workingDir s options)
      (options.effectiveProject s.project) patterns = .ok ⟨checked.map (·.group), unresolved⟩) :
    ∃ result : CheckResult, result.IsPutTogether checked unresolved ∧
      ∀ checkAll : Path → List FileGroup → StateM Session (List FinishedGroup),
        Tasks.FinishAs ⟨inTurn checked, []⟩
          ((checkAll (workingDir s options) (checked.map (·.group))).run session).1 →
        (options.stopOnFailure = false ∨ result.failures = [] →
          ((runBy checkAll s options patterns).run.run session).1 = .ok result) ∧
        ∀ first rest, options.stopOnFailure = true → result.failures = first :: rest →
          ((runBy checkAll s options patterns).run.run session).1 = .error first.failure := by
  refine ⟨_, CheckResult.isPutTogether_ofOutputs checked unresolved, ?_⟩
  intro checkAll hfinish
  have htally := CheckResult.collect_of_perm (Tasks.finishAs_iff.mp hfinish) unresolved
  have hvalue := value_runBy checkAll s options patterns session
  simp only [hbegun, tally, hgrouping, htally] at hvalue
  rw [hvalue]
  constructor
  · exact CheckResult.orStop_of_goes_on
  · intro first rest hstops hfailures
    rw [hstops]
    exact CheckResult.orStop_of_stops hfailures

/-! ## Two projects and a stray file -/

/-- Two projects beside each other, and a file that belongs to neither. -/
def pairedProject : FileTree :=
  ⟨[("p".toList, .dir [
    ("x".toList, .dir [FileTree.textEntry "tsconfig.json" "\x7b\x7d", FileTree.textEntry "a.ts" ""]),
    ("y".toList, .dir [FileTree.textEntry "tsconfig.json" "\x7b\x7d", FileTree.textEntry "b.ts" ""]),
    FileTree.textEntry "stray.ts" ""])]⟩

/-- The one project is checked, and the compiler of the other one cannot be started. -/
def pairedGroups : List CheckedGroup :=
  [⟨⟨⟨"/p/x/tsconfig.json"⟩, ["x/a.ts"], [⟨"/p/x/a.ts"⟩]⟩,
      .ok (some {
        summary := ⟨⟨"/p/x/tsconfig.json"⟩, .standard, "", 1, true⟩
        success := true, findings := {}, checkedFiles := [⟨"/p/x/a.ts"⟩], setupFiles := [] })⟩,
    ⟨⟨⟨"/p/y/tsconfig.json"⟩, ["y/b.ts"], [⟨"/p/y/b.ts"⟩]⟩, .error (.io "failed to run" "not found")⟩]

/-- What belongs to no project. -/
def strayFile : List Unresolved := [⟨"stray.ts", .configNotFound ⟨"/p"⟩ true⟩]

/-- The project that comes last finishes first. -/
def lastFirst : Path → List FileGroup → StateM Session (List FinishedGroup) :=
  fun _ _ => return (inTurn pairedGroups).reverse

/-- The stray file is asked for between the sources of the projects. -/
def pairedPatterns : List String := ["x/a.ts", "stray.ts", "y/b.ts"]

/-- The same options, but the first failure ends a check. -/
def stoppingOptions : CheckOptions := { bracketOptions with stopOnFailure := true }

/-- The failure of the project comes before the stray file, although that file was asked for before it. -/
theorem value_in_any_order_lastFirst :
    refusal? bracketOptions pairedPatterns = none ∧
      Grouping.ofPatterns pairedProject (workingDir bracketSurroundings bracketOptions)
        (bracketOptions.effectiveProject bracketSurroundings.project) pairedPatterns =
          .ok ⟨pairedGroups.map (·.group), strayFile⟩ ∧
      Tasks.FinishAs ⟨inTurn pairedGroups, []⟩ (inTurn pairedGroups).reverse ∧
      ∃ result : CheckResult, result.IsPutTogether pairedGroups strayFile ∧
        result.checkedFiles = [⟨"/p/x/a.ts"⟩] ∧
        result.failures.map (·.patterns) = [["y/b.ts"], ["stray.ts"]] ∧
        ((runBy lastFirst bracketSurroundings bracketOptions pairedPatterns).run.run
          { tree := pairedProject }).1 = .ok result ∧
        ((runBy lastFirst bracketSurroundings stoppingOptions pairedPatterns).run.run
          { tree := pairedProject }).1 = .error (.io "failed to run" "not found") := by
  have hbegun : refusal? bracketOptions pairedPatterns = none := by decide +kernel
  have hstopping : refusal? stoppingOptions pairedPatterns = none := by decide +kernel
  have hgrouping : Grouping.ofPatterns ({ tree := pairedProject } : Session).tree
      (workingDir bracketSurroundings bracketOptions)
      (bracketOptions.effectiveProject bracketSurroundings.project) pairedPatterns =
        .ok ⟨pairedGroups.map (·.group), strayFile⟩ := by
    decide +kernel
  have hfinish : Tasks.FinishAs ⟨inTurn pairedGroups, []⟩ (inTurn pairedGroups).reverse :=
    Tasks.finishAs_iff.mpr (List.reverse_perm _)
  obtain ⟨result, hresult, hvalue⟩ := value_in_any_order hbegun hgrouping
  obtain ⟨stopped, hstopped, hstop⟩ := value_in_any_order hstopping hgrouping
  refine ⟨hbegun, hgrouping, hfinish, result, hresult, hresult.checkedFiles, ?_,
    (hvalue lastFirst hfinish).1 (Or.inl rfl), (hstop lastFirst hfinish).2 _ _ rfl hstopped.failures⟩
  rw [hresult.failures]
  rfl

end Check

end ScopedCheck
