import ScopedCheck.Check.Run
import ScopedCheck.Proofs.Fallible
/-! # What the steps of a check give

A step of a check gives a value or a failure and leaves a session. What is known of a step that
succeeded is what is known of all the steps that it is made of. -/

namespace ScopedCheck

namespace Checking

variable {α β : Type}

/-- A step gives a value and leaves a session. -/
def Gives (step : Checking α) (session : Session) (a : α) (next : Session) : Prop :=
  step.run.run session = (.ok a, next)

theorem run_bind (x : Checking α) (f : α → Checking β) (session : Session) :
    (x >>= f).run.run session =
      match x.run.run session with
      | (.ok a, mid) => (f a).run.run mid
      | (.error failure, mid) => (.error failure, mid) := by
  simp only [ExceptT.run_bind, StateT.run_bind]
  rcases x.run.run session with ⟨⟨_⟩ | ⟨_⟩, _⟩ <;> rfl

theorem run_orFail (result : Except Failure α) (session : Session) :
    (orFail result).run.run session = (result, session) := rfl

theorem run_get (session : Session) :
    (get : Checking Session).run.run session = (.ok session, session) := rfl

theorem run_lift (x : StateM Session α) (session : Session) :
    (liftM x : Checking α).run.run session = (.ok (x.run session).1, (x.run session).2) := rfl

theorem gives_bind_iff {x : Checking α} {f : α → Checking β} {session next : Session} {b : β} :
    Gives (x >>= f) session b next ↔ ∃ a mid, Gives x session a mid ∧ Gives (f a) mid b next := by
  unfold Gives
  rw [run_bind]
  constructor
  · intro h
    rcases hx : x.run.run session with ⟨failure | a, mid⟩
    · rw [hx] at h
      cases h
    · rw [hx] at h
      exact ⟨a, mid, rfl, h⟩
  · rintro ⟨a, mid, hx, hf⟩
    rw [hx]
    exact hf

/-- A step that comes to a value gives it, and leaves the session that it comes to. -/
theorem gives_iff_of_run {step : Checking α} {session later next : Session} {a b : α}
    (h : step.run.run session = (.ok a, later)) : Gives step session b next ↔ b = a ∧ next = later := by
  rw [Gives, h, Prod.mk.injEq, Except.ok.injEq, eq_comm (a := a), eq_comm (a := later)]

theorem gives_pure_iff {a b : α} {session next : Session} :
    Gives (pure a) session b next ↔ b = a ∧ next = session :=
  gives_iff_of_run rfl

theorem gives_orFail_iff {result : Except Failure α} {session next : Session} {a : α} :
    Gives (orFail result) session a next ↔ result = .ok a ∧ next = session := by
  rw [Gives, run_orFail, Prod.mk.injEq, eq_comm (a := session)]

theorem gives_get_iff {session next found : Session} :
    Gives get session found next ↔ found = session ∧ next = session :=
  gives_iff_of_run (run_get session)

theorem gives_lift_iff {x : StateM Session α} {session next : Session} {a : α} :
    Gives (liftM x) session a next ↔ x.run session = (a, next) := by
  unfold Gives
  constructor
  · intro h
    cases h
    rfl
  · intro h
    rw [run_lift, h]

theorem not_gives_throw {failure : Failure} {session next : Session} {a : α} :
    ¬Gives (throw failure) session a next := by
  intro h
  cases h

/-- A step gives one value and leaves one session. -/
theorem Gives.unique {step : Checking α} {session next next' : Session} {a b : α}
    (h : Gives step session a next) (h' : Gives step session b next') : b = a ∧ next' = next := by
  rw [Gives, h] at h'
  cases h'
  exact ⟨rfl, rfl⟩

theorem not_gives_of_run_error {step : Checking α} {session stopped next : Session}
    {failure : Failure} {a : α} (h : step.run.run session = (.error failure, stopped)) :
    ¬Gives step session a next := by
  intro hgives
  rw [Gives, h] at hgives
  cases hgives

/-- A step whose outcome is a value gives it and leaves the session that it comes to. -/
theorem exists_gives {step : Checking α} {session : Session} {f : α → β} {b : β}
    (h : (step.run.run session).1.toOption.map f = some b) :
    ∃ a, Gives step session a (step.run.run session).2 ∧ f a = b := by
  obtain ⟨a, ha, hb⟩ := Fallible.exists_of_toOption h
  exact ⟨a, Prod.ext ha rfl, hb⟩

theorem gives_tell_iff {events : List LogEvent} {session next : Session} {u : Unit} :
    Gives (tell events) session u next ↔ next = { session with log := session.log ++ events } := by
  have hrun : (tell events).run.run session =
      (.ok (), { session with log := session.log ++ events }) := rfl
  rw [gives_iff_of_run hrun, and_iff_right rfl]

/-- A config is given as it is kept or loaded at the time. -/
theorem of_gives_loadConfig {path : Path} {session next : Session} {config : Config}
    (h : Gives (loadConfig path) session config next) :
    ∃ kept configs, session.configs.load session.tree path = .ok (kept, configs) ∧
      config = kept.config ∧ next = { session with configs } := by
  obtain ⟨_, _, hget, hrest⟩ := gives_bind_iff.mp h
  obtain ⟨rfl, rfl⟩ := gives_get_iff.mp hget
  obtain ⟨⟨kept, configs⟩, _, hload, hset⟩ := gives_bind_iff.mp hrest
  obtain ⟨hload, rfl⟩ := gives_orFail_iff.mp hload
  cases hset
  exact ⟨kept, configs, hload, rfl, rfl⟩

/-- A closure is given as it is kept or found at the time. -/
theorem of_gives_discover {host : ProgramHost} {request : ClosureRequest} {session next : Session}
    {closure : Closure} (h : Gives (discover host request) session closure next) :
    ∃ closures, (session.closures.discover session.tree host request).value = (closure, closures) := by
  cases h
  exact ⟨_, rfl⟩

/-- A temporary config is given when it was written. -/
theorem of_gives_createConfig {s : Surroundings} {config : Config} {selection : FileSelection}
    {setupFiles : List Path} {synthesis : Synthesis} {session next : Session}
    {handle : TempConfig.Handle}
    (h : Gives (createConfig s config selection setupFiles synthesis) session handle next) :
    ∃ temps, session.temps.create session.tree s config selection setupFiles synthesis =
      .ok (handle, temps, next.tree) := by
  obtain ⟨_, _, hget, hrest⟩ := gives_bind_iff.mp h
  obtain ⟨rfl, rfl⟩ := gives_get_iff.mp hget
  obtain ⟨⟨created, temps, tree⟩, _, hcreate, hset⟩ := gives_bind_iff.mp hrest
  obtain ⟨hcreate, rfl⟩ := gives_orFail_iff.mp hcreate
  cases hset
  exact ⟨temps, hcreate⟩

/-- What was started is noted behind what was noted before. -/
theorem of_gives_runCompilers {workingDir config : Path} {request : ExecutionRequest}
    {session next : Session} {e : Execution}
    (h : Gives (runCompilers workingDir config request) session e next) :
    ∃ started, (execute session.tree workingDir config request).value = (e, started) ∧
      next.invocations = session.invocations ++ started := by
  cases h
  exact ⟨_, rfl, rfl⟩

end Checking

namespace FileGroup

open Checking

/-- Choosing a compiler only tells events. -/
theorem of_gives_chooseCompiler {s : Surroundings} {options : CheckOptions} {config : Config}
    {session next : Session} {chosen : Selection × CompilerPaths}
    (h : Gives (chooseCompiler s options config) session chosen next) :
    ∃ log, next = { session with log } := by
  obtain ⟨_, _, htell, h⟩ := gives_bind_iff.mp h
  obtain rfl := gives_tell_iff.mp htell
  obtain ⟨_, _, hget, h⟩ := gives_bind_iff.mp h
  obtain ⟨rfl, rfl⟩ := gives_get_iff.mp hget
  obtain ⟨selection, _, hchoose, h⟩ := gives_bind_iff.mp h
  obtain ⟨-, rfl⟩ := gives_orFail_iff.mp hchoose
  obtain ⟨_, _, htell, h⟩ := gives_bind_iff.mp h
  obtain rfl := gives_tell_iff.mp htell
  obtain ⟨-, rfl⟩ := gives_pure_iff.mp h
  exact ⟨_, rfl⟩

/-- Finding the files that were added by choice changes nothing, and finds none without a choice. -/
theorem of_gives_chosenIncludes {options : CheckOptions} {cwd : Path} {task : Nat}
    {session next : Session} {includes : Option (List Path)}
    (h : Gives (chosenIncludes options cwd task) session includes next) :
    next = session ∧ (options.includes = none → includes = none) := by
  unfold chosenIncludes at h
  cases hincludes : options.includes with
  | none =>
      rw [hincludes] at h
      obtain ⟨rfl, rfl⟩ := gives_pure_iff.mp h
      exact ⟨rfl, fun _ => rfl⟩
  | some patterns =>
      rw [hincludes] at h
      obtain ⟨_, _, hget, hrest⟩ := gives_bind_iff.mp h
      obtain ⟨rfl, rfl⟩ := gives_get_iff.mp hget
      obtain ⟨expansion, _, hexpand, hpure⟩ := gives_bind_iff.mp hrest
      obtain ⟨-, rfl⟩ := gives_orFail_iff.mp hexpand
      exact ⟨(gives_pure_iff.mp hpure).2, fun hnone => by cases hnone⟩

/-- A group without sources is not made ready; any other group that is made ready has its sources for
roots. -/
theorem of_gives_prepare {s : Surroundings} {host : ProgramHost} {options : CheckOptions} {cwd : Path}
    {group : FileGroup} {session next : Session} {prepared : Option PreparedGroup}
    (h : Gives (group.prepare s host options cwd) session prepared next) :
    ∃ kept configs, session.configs.load session.tree group.configPath = .ok (kept, configs) ∧
      (prepared.map (·.roots)).getD [] = group.sources kept.config := by
  obtain ⟨config, _, hload, h⟩ := gives_bind_iff.mp h
  obtain ⟨kept, configs, hkept, rfl, -⟩ := of_gives_loadConfig hload
  refine ⟨kept, configs, hkept, ?_⟩
  by_cases hempty : (group.sources kept.config).isEmpty = true
  · simp only [hempty, if_true] at h
    obtain ⟨_, _, -, h⟩ := gives_bind_iff.mp h
    obtain ⟨rfl, -⟩ := gives_pure_iff.mp h
    exact (List.isEmpty_iff.mp hempty).symm
  · simp only [hempty] at h
    obtain ⟨⟨selection, compilers⟩, _, -, h⟩ := gives_bind_iff.mp h
    obtain ⟨includes, _, -, h⟩ := gives_bind_iff.mp h
    obtain ⟨closure, _, -, h⟩ := gives_bind_iff.mp h
    obtain ⟨handle, _, -, h⟩ := gives_bind_iff.mp h
    obtain ⟨rfl, -⟩ := gives_pure_iff.mp h
    rfl

/-- The checked files of a group are the sources that it has under its config as it is at the time. -/
theorem of_gives_check {s : Surroundings} {host : ProgramHost} {options : CheckOptions} {cwd : Path}
    {group : FileGroup} {session next : Session} {output : Option GroupOutput}
    (h : Gives (group.check s host options cwd) session output next) :
    ∃ kept configs, session.configs.load session.tree group.configPath = .ok (kept, configs) ∧
      (output.map (·.checkedFiles)).getD [] = group.sources kept.config := by
  obtain ⟨prepared, _, hprepare, h⟩ := gives_bind_iff.mp h
  obtain ⟨kept, configs, hkept, hroots⟩ := of_gives_prepare hprepare
  refine ⟨kept, configs, hkept, ?_⟩
  cases prepared with
  | none =>
      obtain ⟨rfl, -⟩ := gives_pure_iff.mp h
      exact hroots
  | some p =>
      obtain ⟨execution, _, -, h⟩ := gives_bind_iff.mp h
      cases hfailure : execution.systemFailure? with
      | some failure =>
          rw [hfailure] at h
          exact absurd h not_gives_throw
      | none =>
          rw [hfailure] at h
          obtain ⟨_, _, -, h⟩ := gives_bind_iff.mp h
          obtain ⟨rfl, -⟩ := gives_pure_iff.mp h
          exact hroots

end FileGroup

end ScopedCheck
