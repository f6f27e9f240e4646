import ScopedCheck.Proofs.Check.Session
import ScopedCheck.Proofs.TempConfig.Files
/-! # No temporary config outlives a check

A group is made ready by many steps that may fail, and only the last of them writes a temporary config.
What comes after it may fail as well, but not before the config is removed. So the files and what is held
are the same after the check of a group as before it, whatever it came to, and a check leaves nothing
behind that it wrote. -/

namespace ScopedCheck

open FileTree (KeepsBut)
open TempConfig (Handle Registry fileName lastPiece)

/-! ## Registries -/

namespace TempConfig.Registry

/-- The registries that an empty one comes to when temporary configs are created, released and swept. -/
inductive IsReached : Registry → Prop
  | empty : IsReached {}
  | created {registry next : Registry} {tree grown : FileTree} {s : Surroundings} {config : Config}
      {selection : FileSelection} {setupFiles : List Path} {synthesis : Synthesis} {handle : Handle}
      (h : registry.IsReached)
      (hcreate : registry.create tree s config selection setupFiles synthesis =
        .ok (handle, next, grown)) : next.IsReached
  | released {registry : Registry} (h : registry.IsReached) (handle : Handle) (tree : FileTree) :
      (handle.release registry tree).2.1.IsReached
  | swept {registry : Registry} (h : registry.IsReached) (tree : FileTree) :
      (registry.sweep tree).2.1.IsReached

/-- Whether the names of all files that are held have been used up. -/
def IsNumbered (registry : Registry) : Prop :=
  ∀ path ∈ registry.live, ∃ number < registry.nextNumber, lastPiece path = some (fileName number).toList

theorem IsReached.isNumbered {registry : Registry} (h : registry.IsReached) : registry.IsNumbered := by
  induction h with
  | empty => simp [IsNumbered]
  | created _ hcreate ih =>
      obtain ⟨number, place, hnumber, -, rfl, -, hplace, hlast, -, -⟩ := create_spec hcreate
      intro path hpath
      rcases List.mem_cons.mp hpath with rfl | hpath
      · exact ⟨number, Nat.lt_succ_self number, hplace.getLast?_segments.trans hlast⟩
      · obtain ⟨old, hold, hname⟩ := ih path hpath
        exact ⟨old, Nat.lt_succ_of_le (hold.le.trans hnumber), hname⟩
  | released _ handle tree ih =>
      rw [Handle.release]
      split
      · exact fun path hpath => ih path (List.mem_filter.mp hpath).1
      · exact ih
  | swept _ tree => simp [IsNumbered, sweep]

/-- Whether a registry may be what another one comes to. -/
structure Precedes (registry later : Registry) : Prop where
  numbers : registry.nextNumber ≤ later.nextNumber
  reached : registry.IsReached → later.IsReached

theorem Precedes.refl (registry : Registry) : registry.Precedes registry := ⟨Nat.le_refl _, id⟩

theorem Precedes.trans {registry later last : Registry} (h : registry.Precedes later)
    (hlast : later.Precedes last) : registry.Precedes last :=
  ⟨h.numbers.trans hlast.numbers, hlast.reached ∘ h.reached⟩

end TempConfig.Registry

/-! ## Sessions -/

namespace Session

/-- A proper file tree, and a registry as creating, releasing and sweeping make it. -/
structure IsTidy (session : Session) : Prop where
  proper : session.tree.isProper = true
  reached : session.temps.IsReached

/-- Whether all files and all that is held are as they were at the start. -/
structure IsSettled (start session : Session) : Prop where
  files : KeepsBut (fun _ => False) start.tree session.tree
  live : session.temps.live = start.temps.live
  temps : start.temps.Precedes session.temps

/-- Whether all is as it was at the start but for one temporary config that is held. -/
structure HasOpen (start : Session) (handle : Handle) (session : Session) : Prop where
  held : handle.isHeld = true
  live : session.temps.live = handle.path :: start.temps.live
  fresh : handle.path ∉ start.temps.live
  temps : start.temps.Precedes session.temps
  placed : ∃ place, KeepsBut (· = place) start.tree session.tree ∧
    session.tree.Holds handle.path place ∧ ∀ file, start.tree.nodeAt? place ≠ some (.file file)
  isFile : session.tree.isFile handle.path = true

/-- Whether all is as it was at the start, when the file at a path came and went. -/
structure HasClosed (start : Session) (path : Path) (session : Session) : Prop extends
    IsSettled start session where
  fresh : path ∉ start.temps.live
  placed : ∃ place, session.tree.Holds path place
  noFile : session.tree.isFile path = false

variable {start session next : Session}

theorem IsSettled.refl (session : Session) : session.IsSettled session :=
  ⟨.refl _ _, rfl, .refl _⟩

theorem IsSettled.trans (h : start.IsSettled session) (hnext : session.IsSettled next) :
    start.IsSettled next :=
  ⟨h.files.trans hnext.files, hnext.live.trans h.live, h.temps.trans hnext.temps⟩

/-- That all is as it was is a matter of files and the registry only. -/
theorem IsSettled.congr (h : start.IsSettled session) (htree : next.tree = session.tree)
    (htemps : next.temps = session.temps) : start.IsSettled next :=
  ⟨htree ▸ h.files, htemps ▸ h.live, htemps ▸ h.temps⟩

theorem IsSettled.isTidy (h : start.IsSettled session) (htidy : start.IsTidy) : session.IsTidy :=
  ⟨h.files.proper htidy.proper, h.temps.reached htidy.reached⟩

theorem HasOpen.isTidy {handle : Handle} (h : start.HasOpen handle session) (htidy : start.IsTidy) :
    session.IsTidy := by
  obtain ⟨place, hkeeps, -⟩ := h.placed
  exact ⟨hkeeps.proper htidy.proper, h.temps.reached htidy.reached⟩

/-- A file that is gone stays gone while nothing changes. -/
theorem HasClosed.noFile_after {path : Path} (h : start.HasClosed path session)
    (hnext : session.IsSettled next) : next.tree.isFile path = false ∧ path ∉ next.temps.live := by
  obtain ⟨place, hplace⟩ := h.placed
  constructor
  · rw [hnext.files.isFile_eq hplace id, h.noFile]
  · rw [hnext.live, h.live]
    exact h.fresh

/-- A temporary config that is created is the only change. -/
theorem IsSettled.hasOpen_of_create (hsettled : start.IsSettled session) (htidy : start.IsTidy)
    {s : Surroundings} {config : Config} {selection : FileSelection} {setupFiles : List Path}
    {synthesis : Synthesis} {handle : Handle} {temps : Registry} {tree : FileTree}
    (h : session.temps.create session.tree s config selection setupFiles synthesis =
      .ok (handle, temps, tree)) : start.HasOpen handle { session with temps, tree } := by
  obtain ⟨number, place, hnumber, hheld, rfl, hkeeps, hplace, hlast, hfile, hfree⟩ :=
    Registry.create_spec h
  have hcreated : session.temps.Precedes ⟨handle.path :: session.temps.live, number + 1⟩ :=
    ⟨hnumber.trans (Nat.le_succ number), fun hsession => hsession.created h⟩
  refine ⟨hheld, ?_, fun hmem => ?_, hsettled.temps.trans hcreated,
    ⟨place, ?_, hplace, fun file hthere => ?_⟩, hfile⟩
  · simp only [hsettled.live]
  · -- the names of all that was held have lower numbers
    obtain ⟨old, hold, hname⟩ := htidy.reached.isNumbered handle.path hmem
    rw [lastPiece, hplace.getLast?_segments, hlast, Option.some.injEq] at hname
    have hsame := TempConfig.fileName_injective hname
    have hnumbers := hsettled.temps.numbers
    omega
  · exact (hsettled.files.mono fun _ h => h.elim).trans hkeeps
  · exact hfree file ((hsettled.files.files place id file).mp hthere)

/-- When the temporary config that is held is released, all is as it was at the start. -/
theorem HasOpen.hasClosed_of_release {handle : Handle} (h : start.HasOpen handle session)
    (htidy : start.IsTidy) : start.HasClosed handle.path
      { session with
        temps := (handle.release session.temps session.tree).2.1
        tree := (handle.release session.temps session.tree).2.2 } := by
  obtain ⟨place, hkeeps, hplace, hfree⟩ := h.placed
  obtain ⟨hremoves, -, hgone, -⟩ := TempConfig.removed_spec (hkeeps.proper htidy.proper) hplace
  have hholds := hremoves.holds hplace
  have hreached := fun hsession : session.temps.IsReached => hsession.released handle session.tree
  rw [Handle.release, if_pos h.held] at hreached ⊢
  refine ⟨⟨(hkeeps.trans hremoves).restored hfree fun file hthere => ?_, ?_,
    h.temps.trans ⟨Nat.le_refl _, hreached⟩⟩, h.fresh, ⟨place, hholds⟩, hgone⟩
  · rw [Bool.eq_false_iff, ne_eq, FileTree.isFile_iff] at hgone
    exact hgone ⟨file, (hholds.node_iff file).mpr hthere⟩
  · simp only [Registry.forget, h.live, List.filter_cons, bne_self_eq_false, Bool.false_eq_true,
      if_false]
    apply List.filter_eq_self.mpr
    intro path hpath
    rw [bne_iff_ne]
    rintro rfl
    exact h.fresh hpath

end Session

/-! ## Steps -/

namespace Checking

variable {α β : Type} {P E : Session → Prop} {Q : α → Session → Prop} {R : β → Session → Prop}
  {step : Checking α}

/-- Whether a step leaves all files and the registry as they are, be it that it succeeds or fails. -/
def LeavesFiles (step : Checking α) : Prop :=
  ∀ tree temps, Keeps (fun session => session.tree = tree ∧ session.temps = temps) step

theorem LeavesFiles.bind {next : α → Checking β} (h : LeavesFiles step)
    (hnext : ∀ a, LeavesFiles (next a)) : LeavesFiles (step >>= next) :=
  fun tree temps => (h tree temps).bind fun a => hnext a tree temps

theorem leavesFiles_get_bind {next : Session → Checking β} (h : ∀ session, LeavesFiles (next session)) :
    LeavesFiles (get >>= next) :=
  fun tree temps => keeps_get_bind fun session hsession => h session tree temps session hsession

theorem leavesFiles_pure (a : α) : LeavesFiles (pure a) := fun _ _ => keeps_pure a

theorem leavesFiles_throw (failure : Failure) : LeavesFiles (throw failure : Checking α) :=
  fun _ _ => keeps_throw failure

theorem leavesFiles_orFail (result : Except Failure α) : LeavesFiles (orFail result) :=
  fun _ _ => keeps_orFail result

theorem leavesFiles_tell (events : List LogEvent) : LeavesFiles (tell events) := fun _ _ _ h => h

theorem leavesFiles_loadConfig (path : Path) : LeavesFiles (loadConfig path) := by
  refine fun tree temps => keeps_get_bind fun session h => ?_
  cases hload : session.configs.load session.tree path with
  | error failure => exact h
  | ok found => exact h

theorem leavesFiles_discover (host : ProgramHost) (request : ClosureRequest) :
    LeavesFiles (discover host request) := fun _ _ => keeps_get_bind fun _ h => h

/-- Whether a step that starts with one property ends with another one for what it gives, or with a
third one if it fails. -/
def Brings (P : Session → Prop) (step : Checking α) (Q : α → Session → Prop) (E : Session → Prop) :
    Prop :=
  ∀ session, P session →
    match step.run.run session with
    | (.ok a, next) => Q a next
    | (.error _, next) => E next

theorem Brings.bind {next : α → Checking β} (h : Brings P step Q E)
    (hnext : ∀ a, Brings (Q a) (next a) R E) : Brings P (step >>= next) R E := by
  intro session hsession
  have hstep := h session hsession
  rw [run_bind]
  rcases hrun : step.run.run session with ⟨failure | a, mid⟩
  · rw [hrun] at hstep
    exact hstep
  · rw [hrun] at hstep
    exact hnext a mid hstep

/-- What is done with the session is done in that session. -/
theorem brings_get_bind {next : Session → Checking β}
    (h : ∀ session, P session →
      match (next session).run.run session with
      | (.ok b, last) => R b last
      | (.error _, last) => E last) : Brings P (get >>= next) R E := h

theorem brings_pure {a : α} (h : ∀ session, P session → Q a session) : Brings P (pure a) Q E := h

theorem Brings.mono {Q' : α → Session → Prop} {E' : Session → Prop} (h : Brings P step Q E)
    (hQ : ∀ a session, Q a session → Q' a session) (hE : ∀ session, E session → E' session) :
    Brings P step Q' E' := by
  intro session hsession
  have hstep := h session hsession
  split at hstep
  · exact hQ _ _ hstep
  · exact hE _ hstep

/-- What is brought about in any case holds at the end. -/
theorem Brings.ends (h : Brings P step (fun _ => E) E) {session : Session} (hsession : P session) :
    E (step.run.run session).2 := by
  have hstep := h session hsession
  split at hstep <;> rename_i hrun <;> rw [hrun] <;> exact hstep

/-- What is known of files and the registry only goes on to hold. -/
theorem LeavesFiles.brings (h : LeavesFiles step)
    (hP : ∀ {session next : Session}, next.tree = session.tree → next.temps = session.temps → P session →
      P next) : Brings P step (fun _ => P) P := by
  intro session hsession
  obtain ⟨htree, htemps⟩ := h session.tree session.temps session ⟨rfl, rfl⟩
  have hnext := hP htree htemps hsession
  rcases hrun : step.run.run session with ⟨failure | a, next⟩
  · rw [hrun] at hnext
    exact hnext
  · rw [hrun] at hnext
    exact hnext

end Checking

namespace Session

open Checking

variable {α : Type} {start : Session} {step : Checking α}

/-- A step that leaves files and the registry as they are leaves all as it was at the start. -/
theorem brings_isSettled (h : LeavesFiles step) :
    Brings start.IsSettled step (fun _ => start.IsSettled) start.IsSettled :=
  h.brings fun htree htemps hsettled => hsettled.congr htree htemps

theorem brings_hasClosed {path : Path} (h : LeavesFiles step) :
    Brings (start.HasClosed path) step (fun _ => start.HasClosed path) (start.HasClosed path) :=
  h.brings fun htree htemps hclosed =>
    ⟨hclosed.congr htree htemps, hclosed.fresh, htree ▸ hclosed.placed, htree ▸ hclosed.noFile⟩

/-- A temporary config that is written is all that changes, and if it is not written, nothing does. -/
theorem brings_createConfig (htidy : start.IsTidy) (s : Surroundings) (config : Config)
    (selection : FileSelection) (setupFiles : List Path) (synthesis : Synthesis) :
    Brings start.IsSettled (createConfig s config selection setupFiles synthesis) start.HasOpen
      start.IsSettled := by
  refine brings_get_bind fun session hsettled => ?_
  cases hcreate : session.temps.create session.tree s config selection setupFiles synthesis with
  | error failure => exact hsettled
  | ok found => exact hsettled.hasOpen_of_create htidy hcreate

/-- Also a temporary config that somebody else holds leaves a session in which checks can be run. -/
theorem isTidy_createConfig (htidy : start.IsTidy) (s : Surroundings) (config : Config)
    (selection : FileSelection) (setupFiles : List Path) (synthesis : Synthesis) :
    ((createConfig s config selection setupFiles synthesis).run.run start).2.IsTidy := by
  have hcreate := brings_createConfig htidy s config selection setupFiles synthesis
  exact (hcreate.mono (fun _ _ h => h.isTidy htidy) fun _ h => h.isTidy htidy).ends (.refl start)

end Session

/-! ## Groups -/

namespace FileGroup

open Checking

variable {s : Surroundings} {host : ProgramHost} {options : CheckOptions} {cwd : Path}
  {group : FileGroup} {start session : Session}

theorem leavesFiles_chooseCompiler (config : Config) :
    LeavesFiles (chooseCompiler s options config) := by
  refine (leavesFiles_tell _).bind fun _ => leavesFiles_get_bind fun _ => ?_
  refine (leavesFiles_orFail _).bind fun selection => ?_
  exact (leavesFiles_tell _).bind fun _ => leavesFiles_pure _

theorem leavesFiles_chosenIncludes (task : Nat) : LeavesFiles (chosenIncludes options cwd task) := by
  unfold chosenIncludes
  split
  · exact leavesFiles_pure _
  · exact leavesFiles_get_bind fun _ => (leavesFiles_orFail _).bind fun _ => leavesFiles_pure _

/-- A temporary config is written as the last step, or not at all. -/
theorem brings_prepare (s : Surroundings) (host : ProgramHost) (options : CheckOptions) (cwd : Path)
    (group : FileGroup) (htidy : start.IsTidy) :
    Brings start.IsSettled (group.prepare s host options cwd)
      (fun prepared session =>
        match prepared with
        | none => start.IsSettled session
        | some p => start.HasOpen p.handle session)
      start.IsSettled := by
  refine (Session.brings_isSettled (leavesFiles_loadConfig _)).bind fun config => ?_
  simp only
  split
  · exact (Session.brings_isSettled (leavesFiles_tell _)).bind fun _ => brings_pure fun _ h => h
  · refine (Session.brings_isSettled (leavesFiles_chooseCompiler config)).bind fun chosen => ?_
    refine (Session.brings_isSettled (leavesFiles_chosenIncludes _)).bind fun includes => ?_
    refine (Session.brings_isSettled (leavesFiles_discover _ _)).bind fun closure => ?_
    exact (Session.brings_createConfig htidy s config _ _ _).bind fun handle => brings_pure fun _ h => h

/-- The temporary config is removed whatever the compilers do; that they are run does not fail. -/
theorem brings_compile (htidy : start.IsTidy) (p : PreparedGroup) (E : Session → Prop) :
    Brings (start.HasOpen p.handle) (compile options cwd p)
      (fun _ => start.HasClosed p.handle.path) E := by
  refine Brings.bind (Q := fun _ => start.HasOpen p.handle) ?_ fun execution => ?_
  · exact fun session hopen =>
      ⟨hopen.held, hopen.live, hopen.fresh, hopen.temps, hopen.placed, hopen.isFile⟩
  · exact Brings.bind (Q := fun _ => start.HasClosed p.handle.path)
      (fun session hopen => hopen.hasClosed_of_release htidy) fun _ => brings_pure fun _ h => h

/-- What is done with a group that is ready. -/
def finish (options : CheckOptions) (cwd : Path) (p : PreparedGroup) :
    Checking (Option GroupOutput) := do
  let execution ← compile options cwd p
  match execution.systemFailure? with
  | some failure => throw failure
  | none =>
      tell (finishedEvents execution options.verbose)
      return some (outputOf p execution)

theorem check_eq (s : Surroundings) (host : ProgramHost) (options : CheckOptions) (cwd : Path)
    (group : FileGroup) :
    group.check s host options cwd = group.prepare s host options cwd >>= fun prepared =>
      match prepared with
      | none => return none
      | some p => finish options cwd p := rfl

/-- The temporary config is gone before a group fails for what its compilers did. -/
theorem brings_finish (htidy : start.IsTidy) (p : PreparedGroup) :
    Brings (start.HasOpen p.handle) (finish options cwd p)
      (fun _ => start.HasClosed p.handle.path) (start.HasClosed p.handle.path) := by
  refine (brings_compile htidy p _).bind fun execution => ?_
  split
  · exact Session.brings_hasClosed (leavesFiles_throw _)
  · exact Session.brings_hasClosed ((leavesFiles_tell _).bind fun _ => leavesFiles_pure _)

/-- The check of a group leaves all as it was, whatever comes of it. -/
theorem isSettled_check (s : Surroundings) (host : ProgramHost) (options : CheckOptions) (cwd : Path)
    (group : FileGroup) (htidy : session.IsTidy) :
    session.IsSettled ((group.check s host options cwd).run.run session).2 := by
  have hcheck : Brings session.IsSettled (group.check s host options cwd)
      (fun _ => session.IsSettled) session.IsSettled := by
    rw [check_eq]
    refine (brings_prepare s host options cwd group htidy).bind fun prepared => ?_
    cases prepared with
    | none => exact brings_pure fun _ h => h
    | some p => exact (brings_finish htidy p).mono (fun _ _ h => h.toIsSettled) fun _ h => h.toIsSettled
  exact hcheck.ends (.refl session)

/-- A temporary config that was written for a group is gone when the group has been checked. -/
theorem hasClosed_check {p : PreparedGroup} {ready : Session} (htidy : session.IsTidy)
    (h : Gives (group.prepare s host options cwd) session (some p) ready) :
    session.HasOpen p.handle ready ∧
      session.HasClosed p.handle.path ((group.check s host options cwd).run.run session).2 := by
  have hprepared := brings_prepare s host options cwd group htidy session (.refl session)
  rw [h] at hprepared
  refine ⟨hprepared, ?_⟩
  rw [check_eq, run_bind, h]
  exact (brings_finish htidy p).ends hprepared

end FileGroup

/-! ## Checks -/

namespace Check

open Checking

variable {s : Surroundings} {host : ProgramHost} {options : CheckOptions} {cwd : Path}

theorem isSettled_afterTurns (s : Surroundings) (host : ProgramHost) (options : CheckOptions)
    (cwd : Path) (groups : List FileGroup) {session : Session} (htidy : session.IsTidy) :
    session.IsSettled (afterTurns s host options cwd groups session) := by
  induction groups generalizing session with
  | nil => exact .refl session
  | cons group rest ih =>
      have hgroup := FileGroup.isSettled_check s host options cwd group htidy
      exact hgroup.trans (ih (hgroup.isTidy htidy))

/-- The temporary config of every group is there when the group is ready, and gone after all turns. -/
theorem closed_of_mem_turnsOf {groups : List FileGroup} {session : Session} (htidy : session.IsTidy)
    {turn : FileGroup × Session} (hturn : turn ∈ turnsOf s host options cwd groups session)
    {p : PreparedGroup} {ready : Session}
    (h : Gives (turn.1.prepare s host options cwd) turn.2 (some p) ready) :
    (ready.tree.isFile p.handle.path = true ∧ p.handle.path ∈ ready.temps.live) ∧
      (afterTurns s host options cwd groups session).tree.isFile p.handle.path = false ∧
      p.handle.path ∉ (afterTurns s host options cwd groups session).temps.live := by
  induction groups generalizing session with
  | nil => cases hturn
  | cons group rest ih =>
      have hgroup := FileGroup.isSettled_check s host options cwd group htidy
      rcases List.mem_cons.mp hturn with rfl | hturn
      · obtain ⟨hopen, hclosed⟩ := FileGroup.hasClosed_check htidy h
        refine ⟨⟨hopen.isFile, ?_⟩, hclosed.noFile_after ?_⟩
        · rw [hopen.live]
          exact List.mem_cons_self ..
        · exact isSettled_afterTurns s host options cwd rest (hgroup.isTidy htidy)
      · exact ih (hgroup.isTidy htidy) hturn

/-- The groups that a check comes to: none if it fails before. -/
def groupsReached (s : Surroundings) (options : CheckOptions) (patterns : List String)
    (tree : FileTree) : List FileGroup :=
  if options.validate.isOk && !patterns.isEmpty then
    match Grouping.ofPatterns tree (workingDir s options) (options.effectiveProject s.project)
        patterns with
    | .ok grouping => grouping.groups
    | .error _ => []
  else []

/-- Be it that a check fails or not, it leaves the session in which its groups had their turns, but for
what it tells at the end. -/
theorem exists_log_run (s : Surroundings) (host : ProgramHost) (options : CheckOptions)
    (patterns : List String) (session : Session) :
    ∃ log, ((run s host options patterns).run.run session).2 =
      { afterTurns s host options (workingDir s options)
          (groupsReached s options patterns session.tree) session with log } := by
  rw [run, run_bind, groupsReached, run_orFail]
  cases hvalid : options.validate with
  | error failure => exact ⟨session.log, rfl⟩
  | ok _ =>
      cases hpatterns : patterns.isEmpty with
      | true => exact ⟨session.log, rfl⟩
      | false =>
          simp only [Bool.false_eq_true, if_false, run_bind, run_get, Except.isOk, Except.toBool,
            Bool.not_false, Bool.and_self, if_true]
          cases hgrouping : Grouping.ofPatterns session.tree (workingDir s options)
              (options.effectiveProject s.project) patterns with
          | error halt => exact ⟨session.log, rfl⟩
          | ok grouping =>
              simp only [run_bind, run_lift, run_checkGroups, run_orFail]
              -- whether the check stops at a failure makes no difference to the session
              generalize CheckResult.orStop _ _ = result
              cases result with
              | error failure => exact ⟨_, rfl⟩
              | ok result => exact ⟨_, rfl⟩

theorem isSettled_run (s : Surroundings) (host : ProgramHost) (options : CheckOptions)
    (patterns : List String) {session : Session} (htidy : session.IsTidy) :
    session.IsSettled ((run s host options patterns).run.run session).2 := by
  obtain ⟨log, hlog⟩ := exists_log_run s host options patterns session
  have hsettled := isSettled_afterTurns s host options (workingDir s options)
    (groupsReached s options patterns session.tree) htidy
  rw [hlog]
  exact hsettled.congr rfl rfl

/-- Checks can follow one another. -/
theorem isTidy_run (s : Surroundings) (host : ProgramHost) (options : CheckOptions)
    (patterns : List String) {session : Session} (htidy : session.IsTidy) :
    ((run s host options patterns).run.run session).2.IsTidy :=
  (isSettled_run s host options patterns htidy).isTidy htidy

/-- Whether a check leaves nothing behind in the session after it. -/
structure LeavesNothing (s : Surroundings) (host : ProgramHost) (options : CheckOptions)
    (patterns : List String) (session next : Session) : Prop where
  /-- The same files are held as before. -/
  live : next.temps.live = session.temps.live
  /-- Every file is what it was, and there is no new one; only directories may be new. -/
  files : KeepsBut (fun _ => False) session.tree next.tree
  /-- The temporary config of every group was there and was held, and neither is so any more. -/
  closed : ∀ turn ∈ turnsOf s host options (workingDir s options)
      (groupsReached s options patterns session.tree) session,
    ∀ p ready, Gives (turn.1.prepare s host options (workingDir s options)) turn.2 (some p) ready →
      (ready.tree.isFile p.handle.path = true ∧ p.handle.path ∈ ready.temps.live) ∧
        next.tree.isFile p.handle.path = false ∧ p.handle.path ∉ next.temps.live

/-- No temporary config outlives a check: whatever the options and the patterns are, and whatever comes
of the groups and of the check, be it a result or a failure, it leaves nothing behind. -/
theorem leavesNothing_run (s : Surroundings) (host : ProgramHost) (options : CheckOptions)
    (patterns : List String) {session : Session} (htidy : session.IsTidy) :
    LeavesNothing s host options patterns session
      ((run s host options patterns).run.run session).2 := by
  have hsettled := isSettled_run s host options patterns htidy
  refine ⟨hsettled.live, hsettled.files, fun turn hturn p ready h => ?_⟩
  obtain ⟨log, hlog⟩ := exists_log_run s host options patterns session
  rw [hlog]
  exact closed_of_mem_turnsOf htidy hturn h

/-- The project with a broken config, and a temporary config that somebody else holds. -/
def heldSession : Session :=
  ((createConfig bracketSurroundings { configPath := ⟨"/p/tsconfig.json"⟩ } (.exact []) [] {}).run.run
    { tree := mixedProject }).2

/-- One group is checked and the other one fails; what somebody else holds stays held. -/
theorem leavesNothing_run_beside_held :
    heldSession.IsTidy ∧
      heldSession.temps.live = [⟨"/p/node_modules/.cache/tsc-files/tsconfig.0.json"⟩] ∧
      (∃ group p ready,
        (group, heldSession) ∈ turnsOf bracketSurroundings .native bracketOptions ⟨"/p"⟩
          (groupsReached bracketSurroundings bracketOptions ["a.ts", "q/b.ts"] heldSession.tree)
          heldSession ∧
        Gives (group.prepare bracketSurroundings .native bracketOptions ⟨"/p"⟩) heldSession (some p)
          ready ∧
        p.handle.path = ⟨"/p/node_modules/.cache/tsc-files/tsconfig.1.json"⟩) ∧
      LeavesNothing bracketSurroundings .native bracketOptions ["a.ts", "q/b.ts"] heldSession
        ((run bracketSurroundings .native bracketOptions ["a.ts", "q/b.ts"]).run.run heldSession).2 := by
  have htidy : heldSession.IsTidy := Session.isTidy_createConfig ⟨by decide, .empty⟩ _ _ _ _ _
  refine ⟨htidy, by decide +kernel, ?_,
    leavesNothing_run bracketSurroundings .native bracketOptions ["a.ts", "q/b.ts"] htidy⟩
  have hgroups : groupsReached bracketSurroundings bracketOptions ["a.ts", "q/b.ts"] heldSession.tree =
      [⟨⟨"/p/tsconfig.json"⟩, ["a.ts"], [⟨"/p/a.ts"⟩]⟩,
        ⟨⟨"/p/q/tsconfig.json"⟩, ["q/b.ts"], [⟨"/p/q/b.ts"⟩]⟩] := by
    decide +kernel
  obtain ⟨prepared, hprepare, hhandle⟩ := exists_gives
    (show (((FileGroup.mk ⟨"/p/tsconfig.json"⟩ ["a.ts"] [⟨"/p/a.ts"⟩]).prepare bracketSurroundings .native
        bracketOptions ⟨"/p"⟩).run.run heldSession).1.toOption.map (Option.map (·.handle.path)) =
          some (some ⟨"/p/node_modules/.cache/tsc-files/tsconfig.1.json"⟩) by
      decide +kernel)
  obtain ⟨p, rfl, hpath⟩ := Option.map_eq_some_iff.mp hhandle
  refine ⟨_, p, _, ?_, hprepare, hpath⟩
  rw [hgroups]
  exact List.mem_cons_self

end Check

end ScopedCheck
