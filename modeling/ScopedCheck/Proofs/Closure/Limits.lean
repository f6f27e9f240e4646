import Mathlib.Logic.Relation
import ScopedCheck.Proofs.Closure.Exactness
/-! # What a bound cuts off

A walk says that it hit a bound just when an import of a file that it took leads to a file that it did
not take. A hit is never made good later: files are queued in the order of their depth, so that once a
file is too deep or there are too many of them, nothing more is taken. -/

namespace ScopedCheck.ImportWalk

open Relation (ReflTransGen)

variable {targets : Path → Except Setback (List Path)} {limits : Limits} {walk next last : ImportWalk}

/-! ## Walks step by step -/

/-- A walk follows the imports of the first file in its queue. -/
inductive Advances (targets : Path → Except Setback (List Path)) (limits : Limits) :
    ImportWalk → ImportWalk → Prop
  | step {walk : ImportWalk} {file : Path} {depth : Nat} {queue : List (Path × Nat)}
      {found : List Path} (hqueue : walk.queue = (file, depth) :: queue)
      (hfound : targets file = .ok found) :
      Advances targets limits walk
        (({ walk with queue } : ImportWalk).followAll limits depth found)

/-- A walk goes on until nothing is queued. -/
def Ends (targets : Path → Except Setback (List Path)) (limits : Limits)
    (walk last : ImportWalk) : Prop :=
  ReflTransGen (Advances targets limits) walk last ∧ last.queue = []

theorem advances_of_run {fuel : Nat} (h : run targets limits fuel walk = .ok last) :
    ReflTransGen (Advances targets limits) walk last := by
  induction fuel generalizing walk with
  | zero =>
      obtain rfl := Except.ok.inj h
      exact .refl
  | succ fuel ih =>
      unfold run at h
      cases hqueue : walk.queue with
      | nil =>
          rw [hqueue] at h
          obtain rfl := Except.ok.inj h
          exact .refl
      | cons entry queue =>
          obtain ⟨file, depth⟩ := entry
          simp only [hqueue] at h
          obtain ⟨found, hfound, h⟩ := Fallible.bind_eq_ok_iff.mp h
          exact .head (.step hqueue hfound) (ih h)

/-! ## Layers -/

/-- Whether a queue is in the order of depth and spans at most two depths. -/
def IsLayered (queue : List (Path × Nat)) : Prop :=
  queue.Pairwise fun entry later => entry.2 ≤ later.2 ∧ later.2 ≤ entry.2 + 1

theorem IsLayered.le_of_mem {file : Path} {depth : Nat} {queue : List (Path × Nat)}
    (h : IsLayered ((file, depth) :: queue)) {entry : Path × Nat} (hentry : entry ∈ queue) :
    depth ≤ entry.2 ∧ entry.2 ≤ depth + 1 :=
  (List.pairwise_cons.mp h).1 entry hentry

/-- A queue stays in layers when the first entry makes way for some that are one step deeper. -/
theorem IsLayered.step {file : Path} {depth : Nat} {queue : List (Path × Nat)}
    (h : IsLayered ((file, depth) :: queue)) (added : List Path) :
    IsLayered (queue ++ added.map (·, depth + 1)) := by
  refine List.pairwise_append.mpr ⟨(List.pairwise_cons.mp h).2, ?_, fun entry hentry later hlater => ?_⟩
  · exact List.pairwise_map.mpr (List.pairwise_of_forall fun _ _ => by simp)
  · obtain ⟨t, -, rfl⟩ := List.mem_map.mp hlater
    obtain ⟨hlow, hhigh⟩ := h.le_of_mem hentry
    exact ⟨hhigh, Nat.succ_le_succ hlow⟩

/-! ## Walks that hit a bound -/

/-- What holds once a bound was hit: there is no room for what the queued files import, and something
that a taken file imports is left out. -/
structure IsCut (targets : Path → Except Setback (List Path)) (limits : Limits)
    (walk : ImportWalk) : Prop where
  full : ∀ entry ∈ walk.queue, IsFull limits entry.2 walk.taken
  missed : ∃ file ∈ walk.taken, ∃ found, targets file = .ok found ∧
    ∃ t ∈ found, t.listed walk.taken = false

/-- What holds all along a walk in breadth. -/
structure IsPaced (targets : Path → Except Setback (List Path)) (limits : Limits)
    (walk : ImportWalk) : Prop where
  queued : ∀ entry ∈ walk.queue, entry.1 ∈ walk.taken
  layered : IsLayered walk.queue
  cut : walk.limit ≠ none → IsCut targets limits walk

/-- One step of a walk keeps what holds all along it. -/
theorem IsPaced.step (h : IsPaced targets limits walk) (hnext : Advances targets limits walk next) :
    IsPaced targets limits next := by
  cases hnext with
  | @step file depth queue found hqueue hfound =>
      have hlayered := h.layered
      have hfile : file ∈ walk.taken := h.queued (file, depth) (by simp [hqueue])
      rw [hqueue] at hlayered
      obtain ⟨added, hfollows⟩ := followAll_spec limits depth { walk with queue } found
      have htaken := hfollows.taken
      have hqueued := hfollows.deeper
      generalize ({ walk with queue } : ImportWalk).followAll limits depth found = next at *
      refine ⟨fun entry hentry => ?_, hqueued ▸ hlayered.step added, fun hlimit => ?_⟩
      · rw [hqueued] at hentry
        rw [htaken]
        rcases List.mem_append.mp hentry with hentry | hentry
        · exact List.mem_append_left _ (h.queued entry (by simp [hqueue, hentry]))
        · obtain ⟨t, ht, rfl⟩ := List.mem_map.mp hentry
          exact List.mem_append_right _ ht
      · rcases hfollows.ends with ⟨hsame, -⟩ | ⟨-, hlast, hmissed⟩
        · -- the bound was hit before, so that there was no room for the imports of this file either
          have hcut := h.cut (hsame ▸ hlimit)
          obtain rfl := hfollows.room (hcut.full (file, depth) (by simp [hqueue]))
          simp only [List.append_nil, List.map_nil] at htaken hqueued
          refine ⟨fun entry hentry => ?_, htaken ▸ hcut.missed⟩
          rw [hqueued] at hentry
          exact htaken ▸ hcut.full entry (by simp [hqueue, hentry])
        · refine ⟨fun entry hentry => hlast.mono ?_, file, ?_, found, hfound, hmissed⟩
          · rw [hqueued] at hentry
            rcases List.mem_append.mp hentry with hentry | hentry
            · exact (hlayered.le_of_mem hentry).1
            · obtain ⟨t, -, rfl⟩ := List.mem_map.mp hentry
              exact Nat.le_succ depth
          · rw [htaken]
            exact List.mem_append_left _ hfile

theorem IsPaced.of_advances (h : IsPaced targets limits walk)
    (hlast : ReflTransGen (Advances targets limits) walk last) : IsPaced targets limits last := by
  induction hlast with
  | refl => exact h
  | tail _ hstep ih => exact ih.step hstep

/-- The roots are all at the same depth, and no bound was hit yet. -/
theorem isPaced_start (targets : Path → Except Setback (List Path)) (limits : Limits)
    (roots : List Path) : IsPaced targets limits (roots.foldl start {}) := by
  suffices h : ∀ walk : ImportWalk,
      (∀ entry ∈ walk.queue, entry.1 ∈ walk.taken ∧ entry.2 = 0) ∧ walk.limit = none →
        (∀ entry ∈ (roots.foldl start walk).queue,
          entry.1 ∈ (roots.foldl start walk).taken ∧ entry.2 = 0) ∧
          (roots.foldl start walk).limit = none by
    obtain ⟨hqueue, hlimit⟩ := h {} ⟨by simp, rfl⟩
    refine ⟨fun entry hentry => (hqueue entry hentry).1, ?_, fun h => absurd hlimit h⟩
    exact List.pairwise_of_forall_mem_list fun entry hentry later hlater => by
      simp [(hqueue entry hentry).2, (hqueue later hlater).2]
  induction roots with
  | nil => exact fun _ h => h
  | cons root rest ih =>
      intro walk h
      refine ih (walk.start root) ?_
      unfold start
      split
      · exact h
      · refine ⟨fun entry hentry => ?_, h.2⟩
        rcases List.mem_append.mp hentry with hentry | hentry
        · exact ⟨List.mem_append_left _ (h.1 entry hentry).1, (h.1 entry hentry).2⟩
        · obtain rfl := List.mem_singleton.mp hentry
          exact ⟨List.mem_append_right _ (List.mem_singleton_self _), rfl⟩

/-! ## What a walk leaves out -/

/-- Whether nothing that the files of a list import is missing from the list, however they are spelled. -/
def IsClosed (tree : FileTree) (resolver : Import.Resolver) (follows : Import.Kind → Bool)
    (files : List Path) : Prop :=
  ∀ file : Path, file.listed files = true → ∀ target, Imports tree resolver follows file target →
    target.listed files = true

variable {tree : FileTree} {resolver : Import.Resolver} {follows : Import.Kind → Bool}
  {roots : List Path}

theorem listed_files {p : Path} : p.listed walk.files = true ↔ p.listed walk.taken = true := by
  simp only [Path.listed_iff, files, Path.mem_sorted]

/-- A walk that hit a bound left out something that one of its files imports. -/
theorem exists_missed_of_limit (h : ofRoots tree resolver roots limits follows = .ok walk)
    (hlimit : walk.limit ≠ none) : ∃ file ∈ walk.taken, ∃ target,
      Imports tree resolver follows file target ∧ target.listed walk.taken = false := by
  have hpaced := (isPaced_start _ limits roots).of_advances (advances_of_run h)
  obtain ⟨file, hfile, found, hfound, target, htarget, hout⟩ := (hpaced.cut hlimit).missed
  exact ⟨file, hfile, target, imports_of_targetsOf hfound htarget, hout⟩

/-- A walk hit no bound just when its files are closed under imports. -/
theorem limit_eq_none_iff (hroots : ∀ root ∈ roots, tree.IsFaithful root)
    (h : ofRoots tree resolver roots limits follows = .ok walk) :
    walk.limit = none ↔ IsClosed tree resolver follows walk.files := by
  constructor
  · intro hlimit file hlisted target himport
    obtain ⟨q, hq, hparts⟩ := Path.listed_iff.mp (listed_files.mp hlisted)
    have hthere : tree.isFile q = true :=
      (reaches_of_ofRoots h q hq).isFaithful hroots file hparts himport.1
    obtain ⟨found, hfound, hall⟩ := (going_of_ofRoots h).2 q hq
    exact listed_files.mpr
      (hall hlimit target ((mem_targetsOf_iff hfound).mpr (himport.of_parts_eq hparts hthere)))
  · intro hclosed
    by_contra hlimit
    obtain ⟨file, hfile, target, himport, hout⟩ := exists_missed_of_limit h hlimit
    have hin := hclosed file (listed_files.mpr (Path.listed_of_mem hfile)) target himport
    rw [listed_files, hout] at hin
    cases hin

/-- A walk in a readable tree comes to its end, where nothing is queued. It takes only what can be
reached, it hits no bound just when what it takes is closed under imports, and then it takes the places of
everything that can be reached. -/
theorem walk_isClosed_iff (htree : tree.isReadable = true) (resolver : Import.Resolver)
    (hroots : ∀ root ∈ roots, tree.IsFaithful root) (limits : Limits)
    (follows : Import.Kind → Bool) :
    ∃ walk, ofRoots tree resolver roots limits follows = .ok walk ∧
      Ends (targetsOf tree resolver follows) limits (roots.foldl start {}) walk ∧
      (∀ f ∈ walk.files, Reaches tree resolver follows roots f) ∧
      (walk.limit = none ↔ IsClosed tree resolver follows walk.files) ∧
      (walk.limit = none → ∀ p : Path, p.listed walk.files = true ↔
        ∃ f, Reaches tree resolver follows roots f ∧ p.parts = f.parts) := by
  obtain ⟨walk, hwalk, hreached, hall⟩ := ofRoots_spec htree resolver hroots limits follows
  obtain ⟨_, hqueue, -, -⟩ := end_of_ofRoots hwalk
  refine ⟨walk, hwalk, ⟨advances_of_run hwalk, hqueue⟩, fun f hf => ?_,
    limit_eq_none_iff hroots hwalk, fun hlimit p => ?_⟩
  · exact hreached f (Path.mem_sorted.mp hf)
  · rw [listed_files]
    constructor
    · intro hp
      obtain ⟨f, hf, hparts⟩ := Path.listed_iff.mp hp
      exact ⟨f, hreached f hf, hparts⟩
    · rintro ⟨f, hf, hparts⟩
      obtain ⟨q, hq, hsame⟩ := Path.listed_iff.mp (hall hlimit f hf)
      exact Path.listed_iff.mpr ⟨q, hq, hparts.trans hsame⟩

/-- A project with a file that imports another one, which imports the first one in turn and one more. -/
def circularProject : FileTree :=
  ⟨[("p".toList, .dir [("a.ts".toList, .file { content := .text "import './b';" }),
    ("b.ts".toList, .file { content := .text "import './a'; import './c';" }),
    ("c.ts".toList, .file { content := .text "" })])]⟩

/-- The way back is no reason for a limit, but the file that is two steps away is. -/
theorem walk_isClosed_iff_in_circularProject :
    circularProject.isReadable = true ∧
      (∀ root ∈ [(⟨"/p/a.ts"⟩ : Path)], circularProject.IsFaithful root) ∧
      ∃ walk, ofRoots circularProject (.ofConfig { configPath := ⟨"/p/tsconfig.json"⟩ })
          [⟨"/p/a.ts"⟩] { maxDepth := 1 } (fun _ => true) = .ok walk ∧
        Ends (targetsOf circularProject (.ofConfig { configPath := ⟨"/p/tsconfig.json"⟩ }) fun _ => true)
          { maxDepth := 1 } ([⟨"/p/a.ts"⟩].foldl start {}) walk ∧
        walk.limit = some (.depth 1) ∧ walk.taken = [⟨"/p/a.ts"⟩, ⟨"/p/b.ts"⟩] ∧
        ¬IsClosed circularProject (.ofConfig { configPath := ⟨"/p/tsconfig.json"⟩ }) (fun _ => true)
          walk.files := by
  have hreadable : circularProject.isReadable = true := by decide +kernel
  have hfaithful : ∀ root ∈ [(⟨"/p/a.ts"⟩ : Path)], circularProject.IsFaithful root :=
    List.forall_mem_singleton.mpr (FileTree.isFaithful_of_isFile (by decide +kernel))
  obtain ⟨walk, hwalk, hends, -, hclosed, -⟩ := walk_isClosed_iff hreadable
    (.ofConfig { configPath := ⟨"/p/tsconfig.json"⟩ }) hfaithful { maxDepth := 1 } fun _ => true
  obtain ⟨hlimit, htaken⟩ := Prod.mk.inj (Fallible.of_toOption hwalk
    (f := fun walk => (walk.limit, walk.taken))
    (b := (some (.depth 1), [⟨"/p/a.ts"⟩, ⟨"/p/b.ts"⟩])) (by decide +kernel))
  refine ⟨hreadable, hfaithful, walk, hwalk, hends, hlimit, htaken, fun h => ?_⟩
  rw [hclosed.mpr h] at hlimit
  cases hlimit

/-- A root that is spelled with a slash behind it hides the same root without one. No bound is hit, but
what the root imports is left out. -/
theorem slashed_root_hides_import :
    ∃ walk, ofRoots Closure.importingProject (.ofConfig Closure.slashedRequest.config)
        Closure.slashedRequest.roots Closure.slashedRequest.limits (fun _ => true) = .ok walk ∧
      Closure.importingProject.isReadable = true ∧ walk.limit = none ∧
      ¬IsClosed Closure.importingProject (.ofConfig Closure.slashedRequest.config) (fun _ => true)
        walk.files ∧
      ∃ f, Reaches Closure.importingProject (.ofConfig Closure.slashedRequest.config) (fun _ => true)
        Closure.slashedRequest.roots f ∧ f.listed walk.files = false := by
  obtain ⟨walk, hwalk, hvalue⟩ := Fallible.exists_of_toOption
    (show (ofRoots Closure.importingProject (.ofConfig Closure.slashedRequest.config)
      Closure.slashedRequest.roots Closure.slashedRequest.limits fun _ => true).toOption.map
        (fun walk => (walk.limit, (⟨"/p/a.ts"⟩ : Path).listed walk.files,
          (⟨"/p/b.ts"⟩ : Path).listed walk.files)) = some (none, true, false) by decide +kernel)
  obtain ⟨hlimit, hvalue⟩ := Prod.mk.inj hvalue
  obtain ⟨hfile, hout⟩ := Prod.mk.inj hvalue
  refine ⟨walk, hwalk, by decide +kernel, hlimit, fun hclosed => ?_, ⟨"/p/b.ts"⟩,
    .import (.root (by simp [Closure.slashedRequest])) Closure.imports_in_importingProject, hout⟩
  rw [hclosed _ hfile _ Closure.imports_in_importingProject] at hout
  cases hout

end ScopedCheck.ImportWalk
