import ScopedCheck.Proofs.Check.Coverage
import ScopedCheck.Proofs.Check.Outcome
import ScopedCheck.Proofs.Closure.Roots
import ScopedCheck.Proofs.Config.Load
/-! # What every session keeps

Sessions start without anything kept, and change when a check is run and when something else changes the
tree. In all of them the kept configs can be written and read back, the kept closures list their roots,
and what was noted of started compilers stays. A step of a check keeps this even if it fails. -/

namespace ScopedCheck

/-! ## Kept configs -/

namespace ConfigCache

variable {cache next : ConfigCache} {tree : FileTree} {path : Path} {kept : KeptConfig}
  {P : Config → Prop}

theorem forall_kept_reload (hload : ∀ tree path config, Config.load tree path = .ok config → P config)
    (h : ∀ other ∈ cache.kept, P other.config) (hfound : cache.reload tree path = .ok (kept, next)) :
    P kept.config ∧ ∀ other ∈ next.kept, P other.config := by
  obtain ⟨config, hconfig, hkeep⟩ := Fallible.bind_eq_ok_iff.mp hfound
  obtain ⟨rfl, rfl⟩ := Prod.mk.inj (Except.ok.inj hkeep)
  have hnew : P config := hload tree path config hconfig
  refine ⟨hnew, fun other hother => ?_⟩
  rcases List.mem_cons.mp hother with rfl | hother
  · exact hnew
  · exact h other (List.mem_filter.mp hother).1

/-- What holds of all configs that are loaded holds of all that are kept. -/
theorem forall_kept_load (hload : ∀ tree path config, Config.load tree path = .ok config → P config)
    (h : ∀ other ∈ cache.kept, P other.config) (hfound : cache.load tree path = .ok (kept, next)) :
    P kept.config ∧ ∀ other ∈ next.kept, P other.config := by
  unfold ConfigCache.load at hfound
  simp only at hfound
  split at hfound
  · rename_i found hget
    split at hfound
    · obtain ⟨rfl, rfl⟩ := Prod.mk.inj (Except.ok.inj hfound)
      exact ⟨h _ (List.mem_of_find?_eq_some hget), h⟩
    · exact forall_kept_reload hload h hfound
  · exact forall_kept_reload hload h hfound

end ConfigCache

/-! ## Sound sessions -/

/-- The kept configs can be written and read back, and the kept closures list their roots. -/
structure Session.IsSound (session : Session) : Prop where
  configs : ∀ kept ∈ session.configs.kept, kept.config.options.IsSound Document.optionRoom
  closures : ∀ kept ∈ session.closures.kept, kept.ListsRoots

/-- A sound session that has noted certain compilers as started. -/
structure Session.IsSoundWith (started : List Invocation) (session : Session) : Prop extends
    session.IsSound where
  noted : ∀ i ∈ started, i ∈ session.invocations

theorem Session.IsSound.withNoted {session : Session} (h : session.IsSound) :
    session.IsSoundWith session.invocations := ⟨h, fun _ hi => hi⟩

/-! ## Steps -/

namespace Checking

/-- Whether a step keeps a property of sessions, be it that it succeeds or fails. -/
def Keeps {α : Type} (P : Session → Prop) (step : Checking α) : Prop :=
  ∀ session, P session → P (step.run.run session).2

variable {α β : Type} {P : Session → Prop} {started : List Invocation}

theorem keeps_pure (a : α) : Keeps P (pure a) := fun _ h => h

theorem keeps_throw (failure : Failure) : Keeps P (throw failure : Checking α) := fun _ h => h

theorem keeps_orFail (result : Except Failure α) : Keeps P (orFail result) := fun _ h => h

/-- What is done with the session is done in that session. -/
theorem keeps_get_bind {next : Session → Checking β}
    (h : ∀ session, P session → P ((next session).run.run session).2) : Keeps P (get >>= next) := h

theorem Keeps.bind {step : Checking α} {next : α → Checking β} (h : Keeps P step)
    (hnext : ∀ a, Keeps P (next a)) : Keeps P (step >>= next) := by
  intro session hsession
  have hmid := h session hsession
  simp only [ExceptT.run_bind, StateT.run_bind]
  rcases hstep : step.run.run session with ⟨failure | a, mid⟩
  · rw [hstep] at hmid
    exact hmid
  · rw [hstep] at hmid
    exact hnext a mid hmid

theorem keeps_tell (events : List LogEvent) : Keeps (Session.IsSoundWith started) (tell events) :=
  fun _ h => ⟨⟨h.configs, h.closures⟩, h.noted⟩

theorem keeps_loadConfig (path : Path) : Keeps (Session.IsSoundWith started) (loadConfig path) := by
  refine keeps_get_bind fun session h => ?_
  cases hload : session.configs.load session.tree path with
  | error failure => exact h
  | ok found =>
      have hkept := ConfigCache.forall_kept_load (fun _ _ _ => Config.isSound_of_load) h.configs hload
      exact ⟨⟨hkept.2, h.closures⟩, h.noted⟩

theorem keeps_discover (host : ProgramHost) {request : ClosureRequest}
    (hnormal : ∀ root ∈ request.roots, root.normalize = root) :
    Keeps (Session.IsSoundWith started) (discover host request) :=
  keeps_get_bind fun _ h =>
    ⟨⟨h.configs, ClosureCache.listsRoots_discover h.closures hnormal⟩, h.noted⟩

theorem keeps_createConfig (s : Surroundings) (config : Config) (selection : FileSelection)
    (setupFiles : List Path) (synthesis : Synthesis) :
    Keeps (Session.IsSoundWith started) (createConfig s config selection setupFiles synthesis) := by
  refine keeps_get_bind fun session h => ?_
  cases hcreate : session.temps.create session.tree s config selection setupFiles synthesis with
  | error failure => exact h
  | ok found => exact ⟨⟨h.configs, h.closures⟩, h.noted⟩

theorem keeps_release (handle : TempConfig.Handle) :
    Keeps (Session.IsSoundWith started) (release handle) :=
  fun _ h => ⟨⟨h.configs, h.closures⟩, h.noted⟩

theorem keeps_runCompilers (workingDir config : Path) (request : ExecutionRequest) :
    Keeps (Session.IsSoundWith started) (runCompilers workingDir config request) :=
  keeps_get_bind fun _ h =>
    ⟨⟨h.configs, h.closures⟩, fun i hi => List.mem_append_left _ (h.noted i hi)⟩

end Checking

/-! ## Groups -/

namespace FileGroup

open Checking

variable {s : Surroundings} {host : ProgramHost} {options : CheckOptions} {cwd : Path}
  {started : List Invocation}

theorem keeps_chooseCompiler (config : Config) :
    Keeps (Session.IsSoundWith started) (chooseCompiler s options config) := by
  refine (keeps_tell _).bind fun _ => keeps_get_bind fun session h => ?_
  refine Keeps.bind (keeps_orFail _) (fun selection => ?_) session h
  exact (keeps_tell _).bind fun _ => keeps_pure _

theorem keeps_chosenIncludes (task : Nat) :
    Keeps (Session.IsSoundWith started) (chosenIncludes options cwd task) := by
  unfold chosenIncludes
  split
  · exact keeps_pure _
  · exact keeps_get_bind fun session h =>
      Keeps.bind (keeps_orFail _) (fun _ => keeps_pure _) session h

theorem keeps_prepare {group : FileGroup} (hgroup : group.IsNormal) :
    Keeps (Session.IsSoundWith started) (group.prepare s host options cwd) := by
  refine (keeps_loadConfig _).bind fun config => ?_
  have hnormal : ∀ root ∈ group.sources config, root.normalize = root :=
    fun root hroot => hgroup root (List.mem_filter.mp hroot).1
  simp only
  split
  · exact (keeps_tell _).bind fun _ => keeps_pure _
  · refine (keeps_chooseCompiler config).bind fun chosen => ?_
    refine (keeps_chosenIncludes _).bind fun includes => ?_
    refine (keeps_discover host hnormal).bind fun closure => ?_
    exact (keeps_createConfig s config _ _ _).bind fun handle => keeps_pure _

theorem keeps_compile (p : PreparedGroup) :
    Keeps (Session.IsSoundWith started) (compile options cwd p) :=
  (keeps_runCompilers _ _ _).bind fun _ => (keeps_release _).bind fun _ => keeps_pure _

theorem keeps_check {group : FileGroup} (hgroup : group.IsNormal) :
    Keeps (Session.IsSoundWith started) (group.check s host options cwd) := by
  refine (keeps_prepare hgroup).bind fun prepared => ?_
  split
  · exact keeps_pure _
  · refine (keeps_compile _).bind fun execution => ?_
    split
    · exact keeps_throw _
    · exact (keeps_tell _).bind fun _ => keeps_pure _

end FileGroup

/-! ## Runs -/

namespace Check

open Checking

variable {s : Surroundings} {host : ProgramHost} {options : CheckOptions}

/-- All groups of a check have their turns in sound sessions, and leave one behind. -/
theorem isSoundWith_afterTurns (s : Surroundings) (host : ProgramHost) (options : CheckOptions)
    (cwd : Path) {groups : List FileGroup} (hgroups : ∀ group ∈ groups, group.IsNormal)
    {session : Session} {started : List Invocation} (h : session.IsSoundWith started) :
    (afterTurns s host options cwd groups session).IsSoundWith started := by
  induction groups generalizing session with
  | nil => exact h
  | cons group rest ih =>
      obtain ⟨hgroup, hrest⟩ := List.forall_mem_cons.mp hgroups
      exact ih hrest (FileGroup.keeps_check hgroup session h)

/-- Every turn is had in a sound session, and what it notes is noted at the end. -/
theorem isSound_of_mem_turnsOf {s : Surroundings} {host : ProgramHost} {options : CheckOptions}
    {cwd : Path} {groups : List FileGroup} (hgroups : ∀ group ∈ groups, group.IsNormal)
    {session : Session} (h : session.IsSound) {turn : FileGroup × Session}
    (hturn : turn ∈ turnsOf s host options cwd groups session) :
    turn.1.IsNormal ∧ turn.2.IsSound ∧
      ∀ i ∈ ((turn.1.check s host options cwd).run.run turn.2).2.invocations,
        i ∈ (afterTurns s host options cwd groups session).invocations := by
  induction groups generalizing session with
  | nil => cases hturn
  | cons group rest ih =>
      obtain ⟨hgroup, hrest⟩ := List.forall_mem_cons.mp hgroups
      have hnext : ((group.check s host options cwd).run.run session).2.IsSound :=
        (FileGroup.keeps_check hgroup session h.withNoted).toIsSound
      rcases List.mem_cons.mp hturn with rfl | hturn
      · exact ⟨hgroup, h, (isSoundWith_afterTurns s host options cwd hrest hnext.withNoted).noted⟩
      · exact ih hrest hnext hturn

theorem keeps_checkGroups (cwd : Path) {groups : List FileGroup}
    (hgroups : ∀ group ∈ groups, group.IsNormal) {started : List Invocation} :
    Keeps (Session.IsSoundWith started) (liftM (checkGroups s host options cwd groups)) := by
  intro session h
  change Session.IsSoundWith started ((checkGroups s host options cwd groups).run session).2
  rw [run_checkGroups]
  exact isSoundWith_afterTurns s host options cwd hgroups h

theorem keeps_run (s : Surroundings) (host : ProgramHost) (options : CheckOptions)
    (patterns : List String) {started : List Invocation} :
    Keeps (Session.IsSoundWith started) (run s host options patterns) := by
  refine (keeps_orFail _).bind fun _ => ?_
  split
  · exact fun _ h => h
  · refine keeps_get_bind fun session h => ?_
    split
    · exact keeps_orFail _ session h
    · rename_i grouping hgrouping
      refine Keeps.bind (keeps_checkGroups _ (Grouping.isNormal_of_ofPatterns hgrouping))
        (fun finished => ?_) session h
      exact (keeps_orFail _).bind fun _ => (keeps_tell _).bind fun _ => keeps_pure _

end Check

/-- The sessions that checks come to, when whatever else happens only changes the tree. -/
inductive Session.IsReached : Session → Prop
  | fresh (tree : FileTree) : IsReached { tree }
  | changed {session : Session} (h : session.IsReached) (tree : FileTree) :
      IsReached { session with tree }
  | ran {session : Session} (h : session.IsReached) (s : Surroundings) (host : ProgramHost)
      (options : CheckOptions) (patterns : List String) :
      IsReached ((Check.run s host options patterns).run.run session).2

/-- Every session that is reached is sound. -/
theorem Session.IsReached.isSound {session : Session} (h : session.IsReached) : session.IsSound := by
  induction h with
  | fresh tree => exact ⟨by simp, by simp⟩
  | changed _ tree ih => exact ⟨ih.configs, ih.closures⟩
  | ran _ s host options patterns ih =>
      exact (Check.keeps_run s host options patterns _ ih.withNoted).toIsSound

end ScopedCheck
