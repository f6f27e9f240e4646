import ScopedCheck.Proofs.Import.Resolve
/-! # What a walk over imports takes

A walk that hits no bound takes its roots and whatever imports lead to, and nothing else. The files
taken so far are either queued, or what they lead to is taken as well; at the end nothing is queued. -/

namespace ScopedCheck

namespace FileTree

/-! ## Readable trees -/

mutual

/-- Whether all files at a node and below it are texts. -/
def Node.isReadable : Node → Bool
  | .file file => file.content.text?.isSome
  | .link _ => true
  | .dir entries => areReadable entries

/-- Whether all files in entries and below them are texts. -/
def areReadable : List (Name × Node) → Bool
  | [] => true
  | (_, node) :: rest => node.isReadable && areReadable rest

end

/-- Whether all files of a tree are texts. -/
def isReadable (tree : FileTree) : Bool := tree.rootNode.isReadable

theorem Node.isReadable_of_mem {entries : List (Name × Node)} (h : areReadable entries = true)
    {name : Name} {node : Node} (hmem : (name, node) ∈ entries) : node.isReadable = true := by
  induction entries with
  | nil => simp at hmem
  | cons entry rest ih =>
      obtain ⟨first, below⟩ := entry
      simp only [areReadable, Bool.and_eq_true] at h
      rcases List.mem_cons.mp hmem with heq | hmem
      · cases heq
        exact h.1
      · exact ih h.2 hmem

theorem Node.isReadable_get? {node below : Node} {names : Location}
    (hnode : node.isReadable = true) (h : node.get? names = some below) :
    below.isReadable = true := by
  induction names generalizing node with
  | nil =>
      simp only [Node.get?, Option.some.injEq] at h
      exact h ▸ hnode
  | cons name names ih =>
      simp only [Node.get?, Option.bind_eq_some_iff] at h
      obtain ⟨next, hnext, hbelow⟩ := h
      cases node with
      | dir entries => exact ih (isReadable_of_mem hnode (mem_of_entry hnext)) hbelow
      | file _ => simp [Node.entry?, Node.entries] at hnext
      | link _ => simp [Node.entry?, Node.entries] at hnext

/-- Every file of a readable tree can be read. -/
theorem readText_of_isReadable {tree : FileTree} (htree : tree.isReadable = true) {path : Path}
    (h : tree.isFile path = true) : ∃ text, tree.readText path = .ok text := by
  obtain ⟨file, hfile⟩ := isFile_iff.mp h
  obtain ⟨-, _, _, location, -, -, hlocation⟩ := node_eq_ok_iff.mp hfile
  have hreadable : file.content.text?.isSome = true := Node.isReadable_get? htree hlocation
  obtain ⟨text, htext⟩ := Option.isSome_iff_exists.mp hreadable
  exact ⟨text, by simp [readText, hfile, htext, bind, Except.bind]⟩

/-- A spelling that leads to a file if any spelling of the same place does. -/
def IsFaithful (tree : FileTree) (p : Path) : Prop :=
  ∀ q : Path, q.parts = p.parts → tree.isFile q = true → tree.isFile p = true

theorem isFaithful_of_isFile {tree : FileTree} {p : Path} (h : tree.isFile p = true) :
    tree.IsFaithful p :=
  fun _ _ _ => h

theorem isFaithful_normalize {tree : FileTree} (p : Path) : tree.IsFaithful p.normalize :=
  fun _ hparts h => isFile_normalize hparts h

end FileTree

namespace ImportWalk

/-! ## Imports -/

/-- An import of an accepted kind leads from a file to another one. -/
def Imports (tree : FileTree) (resolver : Import.Resolver) (follows : Import.Kind → Bool)
    (file target : Path) : Prop :=
  tree.isFile file = true ∧ ∃ text, tree.readText file = .ok text ∧
    ∃ i ∈ Import.scan text, follows i.kind = true ∧
      (resolver.resolve tree file i.specifier).file? = some target

theorem Imports.isFile {tree : FileTree} {resolver : Import.Resolver} {follows : Import.Kind → Bool}
    {file target : Path} (h : Imports tree resolver follows file target) :
    tree.isFile target = true := by
  obtain ⟨-, _, -, i, -, -, htarget⟩ := h
  exact (Import.Resolver.of_resolve htarget).1

theorem Imports.outside {tree : FileTree} {resolver : Import.Resolver} {follows : Import.Kind → Bool}
    {file target : Path} (h : Imports tree resolver follows file target) :
    target.isInPackages = false := by
  obtain ⟨-, _, -, i, -, -, htarget⟩ := h
  exact (Import.Resolver.of_resolve htarget).2

/-- What imports lead to depends on the place of the importing file only. -/
theorem Imports.of_parts_eq {tree : FileTree} {resolver : Import.Resolver}
    {follows : Import.Kind → Bool} {file other target : Path} (hparts : file.parts = other.parts)
    (hother : tree.isFile other = true) (h : Imports tree resolver follows file target) :
    Imports tree resolver follows other target := by
  obtain ⟨hfile, text, htext, i, hi, hkind, htarget⟩ := h
  refine ⟨hother, text, ?_, i, hi, hkind, ?_⟩
  · obtain ⟨f, hf⟩ := FileTree.isFile_iff.mp hfile
    obtain ⟨g, hg⟩ := FileTree.isFile_iff.mp hother
    have hsame := FileTree.node_eq_of_parts_eq hparts hf hg
    rw [← htext]
    simp only [FileTree.readText, hf, hg, hsame]
  · rw [← Import.Resolver.resolve_eq_of_parts_eq hparts hfile hother]
    exact htarget

theorem Imports.mono {tree : FileTree} {resolver : Import.Resolver}
    {follows more : Import.Kind → Bool} (hmore : ∀ kind, follows kind = true → more kind = true)
    {file target : Path} (h : Imports tree resolver follows file target) :
    Imports tree resolver more file target := by
  obtain ⟨hfile, text, htext, i, hi, hkind, htarget⟩ := h
  exact ⟨hfile, text, htext, i, hi, hmore i.kind hkind, htarget⟩

theorem targetsOf_of_readText {tree : FileTree} {resolver : Import.Resolver}
    {follows : Import.Kind → Bool} {file : Path} {text : String} (hfile : tree.isFile file = true)
    (htext : tree.readText file = .ok text) :
    targetsOf tree resolver follows file =
      .ok (((Import.scan text).filter (follows ·.kind)).filterMap fun i =>
        (resolver.resolve tree file i.specifier).file?) := by
  simp only [targetsOf, hfile, if_true, sourceText, htext]
  rfl

theorem targetsOf_of_unreadable {tree : FileTree} {resolver : Import.Resolver}
    {follows : Import.Kind → Bool} {file : Path} {fault : FileTree.Fault}
    (hfile : tree.isFile file = true) (htext : tree.readText file = .error fault) :
    targetsOf tree resolver follows file = .error (.unreadable file fault) := by
  simp only [targetsOf, hfile, if_true, sourceText, htext]
  rfl

/-- What is found as targets is what is imported. -/
theorem mem_targetsOf_iff {tree : FileTree} {resolver : Import.Resolver}
    {follows : Import.Kind → Bool} {file : Path} {targets : List Path}
    (h : targetsOf tree resolver follows file = .ok targets) {target : Path} :
    target ∈ targets ↔ Imports tree resolver follows file target := by
  by_cases hfile : tree.isFile file = true
  · cases htext : tree.readText file with
    | error fault =>
        rw [targetsOf_of_unreadable hfile htext] at h
        cases h
    | ok text =>
        obtain rfl := Except.ok.inj ((targetsOf_of_readText hfile htext).symm.trans h)
        simp only [Imports, hfile, htext, true_and, Except.ok.injEq, exists_eq_left', List.mem_filterMap,
          List.mem_filter, and_assoc]
  · rw [targetsOf, if_neg hfile] at h
    obtain rfl := Except.ok.inj h
    simp [Imports, hfile]

theorem imports_of_targetsOf {tree : FileTree} {resolver : Import.Resolver}
    {follows : Import.Kind → Bool} {file : Path} {targets : List Path}
    (h : targetsOf tree resolver follows file = .ok targets) {target : Path} (htarget : target ∈ targets) :
    Imports tree resolver follows file target :=
  (mem_targetsOf_iff h).mp htarget

/-- In a readable tree the targets of every file are found. -/
theorem targetsOf_spec {tree : FileTree} (htree : tree.isReadable = true) (resolver : Import.Resolver)
    (follows : Import.Kind → Bool) (file : Path) :
    ∃ targets, targetsOf tree resolver follows file = .ok targets ∧
      ∀ target, target ∈ targets ↔ Imports tree resolver follows file target := by
  suffices h : ∃ targets, targetsOf tree resolver follows file = .ok targets by
    obtain ⟨targets, htargets⟩ := h
    exact ⟨targets, htargets, fun _ => mem_targetsOf_iff htargets⟩
  by_cases hfile : tree.isFile file = true
  · obtain ⟨text, htext⟩ := FileTree.readText_of_isReadable htree hfile
    exact ⟨_, targetsOf_of_readText hfile htext⟩
  · exact ⟨[], by rw [targetsOf, if_neg hfile]; rfl⟩

/-! ## One step of a walk -/

/-- A walk after more files were taken, each of which is queued. -/
structure Grows (walk more : ImportWalk) (added : List Path) : Prop where
  taken : more.taken = walk.taken ++ added
  queue : more.queue.map (·.1) = walk.queue.map (·.1) ++ added
  limit : more.limit = none → walk.limit = none

/-- Whether there is no room for what a file at some depth imports. -/
def IsFull (limits : Limits) (depth : Nat) (taken : List Path) : Prop :=
  limits.maxDepth ≤ depth ∨ limits.maxFiles ≤ taken.length

theorem IsFull.mono {limits : Limits} {depth deeper : Nat} {taken : List Path}
    (h : IsFull limits depth taken) (hdepth : depth ≤ deeper) : IsFull limits deeper taken :=
  h.imp_left fun hmax => Nat.le_trans hmax hdepth

/-- A walk after it followed what a file at some depth imports. What it took is queued one step deeper,
and where there is no room it took nothing. Either all imports are taken then, or a bound was hit, there is
no room in the end, and something is left out. -/
structure Follows (limits : Limits) (depth : Nat) (found : List Path) (walk more : ImportWalk)
    (added : List Path) : Prop extends Grows walk more added where
  deeper : more.queue = walk.queue ++ added.map (·, depth + 1)
  mem : ∀ t ∈ added, t ∈ found
  small : more.taken.length ≤ max walk.taken.length limits.maxFiles
  room : IsFull limits depth walk.taken → added = []
  ends : (more.limit = walk.limit ∧ ∀ t ∈ found, t.listed more.taken = true) ∨
    (more.limit ≠ none ∧ IsFull limits depth more.taken ∧ ∃ t ∈ found, t.listed more.taken = false)

section Follows

variable {limits : Limits} {depth : Nat} {target : Path} {found added : List Path}
  {walk more : ImportWalk}

theorem Grows.listed (h : Grows walk more added) {p : Path} (hp : p.listed walk.taken = true) :
    p.listed more.taken = true := by
  obtain ⟨q, hq, hparts⟩ := Path.listed_iff.mp hp
  rw [h.taken]
  exact Path.listed_iff.mpr ⟨q, List.mem_append_left _ hq, hparts⟩

/-- As long as no bound is hit all imports are taken. -/
theorem Follows.listed_of_limit (h : Follows limits depth found walk more added)
    (hlimit : more.limit = none) : ∀ t ∈ found, t.listed more.taken = true := by
  rcases h.ends with ⟨-, hall⟩ | ⟨hhit, -⟩
  · exact hall
  · exact absurd hlimit hhit

theorem follows_nil : Follows limits depth [] walk walk [] where
  taken := by simp
  queue := by simp
  limit := id
  deeper := by simp
  mem := by simp
  small := by omega
  room _ := rfl
  ends := Or.inl ⟨rfl, by simp⟩

/-- A file that was taken before is passed over. -/
theorem Follows.pass (hlisted : target.listed walk.taken = true)
    (h : Follows limits depth found walk more added) :
    Follows limits depth (target :: found) walk more added where
  toGrows := h.toGrows
  deeper := h.deeper
  mem t ht := List.mem_cons_of_mem _ (h.mem t ht)
  small := h.small
  room := h.room
  ends := by
    rcases h.ends with ⟨hlimit, hall⟩ | ⟨hhit, hfull, t, ht, hout⟩
    · exact Or.inl ⟨hlimit, List.forall_mem_cons.mpr ⟨h.listed hlisted, hall⟩⟩
    · exact Or.inr ⟨hhit, hfull, t, List.mem_cons_of_mem _ ht, hout⟩

/-- Where there is no room a bound is hit. -/
theorem follows_hit (hnew : target.listed walk.taken = false) (hfull : IsFull limits depth walk.taken)
    (limit : LimitHit) : Follows limits depth (target :: found) walk (walk.hit limit) [] where
  taken := by simp [hit]
  queue := by simp [hit]
  limit := by simp [hit]
  deeper := by simp [hit]
  mem := by simp
  small := by
    simp only [hit]
    omega
  room _ := rfl
  ends := Or.inr ⟨by simp [hit], hfull, target, List.mem_cons_self .., hnew⟩

/-- Where there is room a new file is taken. -/
theorem Follows.take (hroom : ¬IsFull limits depth walk.taken)
    (h : Follows limits depth found { walk with
      taken := walk.taken ++ [target], queue := walk.queue ++ [(target, depth + 1)] } more added) :
    Follows limits depth (target :: found) walk more (target :: added) where
  taken := by simp [h.taken]
  queue := by simp [h.queue]
  limit := h.limit
  deeper := by simp [h.deeper]
  mem t ht := by
    rcases List.mem_cons.mp ht with rfl | ht
    · exact List.mem_cons_self ..
    · exact List.mem_cons_of_mem _ (h.mem t ht)
  small := by
    have hsmall := h.small
    simp only [IsFull, not_or, List.length_append, List.length_singleton] at hroom hsmall
    omega
  room hfull := absurd hfull hroom
  ends := by
    rcases h.ends with ⟨hlimit, hall⟩ | ⟨hhit, hfull, t, ht, hout⟩
    · exact Or.inl ⟨hlimit, List.forall_mem_cons.mpr ⟨h.listed (Path.listed_of_mem (by simp)), hall⟩⟩
    · exact Or.inr ⟨hhit, hfull, t, List.mem_cons_of_mem _ ht, hout⟩

end Follows

/-- Taking targets takes some of them, and all of them unless a bound is hit. -/
theorem followAll_spec (limits : Limits) (depth : Nat) (walk : ImportWalk) (found : List Path) :
    ∃ added, Follows limits depth found walk (walk.followAll limits depth found) added := by
  induction found generalizing walk with
  | nil => exact ⟨[], follows_nil⟩
  | cons target rest ih =>
      unfold followAll
      split
      · rename_i hlisted
        obtain ⟨added, hfollows⟩ := ih walk
        exact ⟨added, hfollows.pass hlisted⟩
      · rename_i hlisted
        have hnew : target.listed walk.taken = false := Bool.eq_false_iff.mpr hlisted
        split
        · rename_i hdeep
          exact ⟨[], follows_hit hnew (Or.inl hdeep) _⟩
        · split
          · rename_i hmany
            exact ⟨[], follows_hit hnew (Or.inr hmany) _⟩
          · rename_i hshallow hfew
            obtain ⟨added, hfollows⟩ := ih { walk with
              taken := walk.taken ++ [target], queue := walk.queue ++ [(target, depth + 1)] }
            exact ⟨target :: added, hfollows.take (not_or.mpr ⟨hshallow, hfew⟩)⟩

/-! ## Whole walks -/

/-- What holds all along a walk: what is taken can be reached, a taken file is still queued or what it
leads to is taken as well unless a bound was hit, and every taken file was queued once. -/
structure Going (targets : Path → Except Setback (List Path)) (reached : Path → Prop) (bound : Nat)
    (walk : ImportWalk) (done : Nat) : Prop where
  reached : ∀ f ∈ walk.taken, reached f
  queued : ∀ f ∈ walk.queue.map (·.1), f ∈ walk.taken
  followed : ∀ f ∈ walk.taken, f ∈ walk.queue.map (·.1) ∨
    ∃ found, targets f = .ok found ∧ (walk.limit = none → ∀ t ∈ found, t.listed walk.taken = true)
  count : walk.taken.length = done + walk.queue.length
  small : walk.taken.length ≤ bound

section Run

variable {targets : Path → Except Setback (List Path)} {reached : Path → Prop} {bound : Nat}
  {limits : Limits}

/-- One step of a walk keeps what holds all along it. -/
theorem Going.step (hclosed : ∀ f found, reached f → targets f = .ok found → ∀ t ∈ found, reached t)
    (hbound : limits.maxFiles ≤ bound) {walk : ImportWalk} {done : Nat} {file : Path} (depth : Nat)
    {queue : List (Path × Nat)} (h : Going targets reached bound walk done)
    (hqueue : walk.queue = (file, depth) :: queue) {found : List Path}
    (hfound : targets file = .ok found) :
    Going targets reached bound (({ walk with queue } : ImportWalk).followAll limits depth found)
      (done + 1) := by
  have hfile : file ∈ walk.taken := h.queued file (by simp [hqueue])
  obtain ⟨added, hgrows⟩ := followAll_spec limits depth { walk with queue } found
  generalize ({ walk with queue } : ImportWalk).followAll limits depth found = next at *
  constructor
  case reached =>
    intro f hf
    rw [hgrows.taken] at hf
    rcases List.mem_append.mp hf with hf | hf
    · exact h.reached f hf
    · exact hclosed file found (h.reached file hfile) hfound f (hgrows.mem f hf)
  case queued =>
    intro f hf
    rw [hgrows.queue] at hf
    rw [hgrows.taken]
    rcases List.mem_append.mp hf with hf | hf
    · exact List.mem_append_left _ (h.queued f (by simp [hqueue, hf]))
    · exact List.mem_append_right _ hf
  case followed =>
    intro f hf
    rw [hgrows.taken] at hf
    rcases List.mem_append.mp hf with hf | hf
    · rcases h.followed f hf with hqueued | ⟨targets', htargets, hlimit⟩
      · rw [hqueue, List.map_cons] at hqueued
        rcases List.mem_cons.mp hqueued with rfl | hqueued
        · exact Or.inr ⟨found, hfound, hgrows.listed_of_limit⟩
        · refine Or.inl ?_
          rw [hgrows.queue]
          exact List.mem_append_left _ hqueued
      · exact Or.inr ⟨targets', htargets, fun hnone t ht => hgrows.listed (hlimit (hgrows.limit hnone) t ht)⟩
    · refine Or.inl ?_
      rw [hgrows.queue]
      exact List.mem_append_right _ hf
  case count =>
    have hlength := congrArg List.length hgrows.queue
    have hcount := h.count
    rw [hqueue] at hcount
    rw [hgrows.taken]
    simp only [List.length_map, List.length_append, List.length_cons] at hlength hcount ⊢
    omega
  case small =>
    have := h.small
    have hsmall := hgrows.small
    simp only at hsmall
    omega

/-- A walk that comes to its end with enough fuel has an empty queue there, and gives up nothing on the
way. -/
theorem Going.of_run (hclosed : ∀ f found, reached f → targets f = .ok found → ∀ t ∈ found, reached t)
    (hbound : limits.maxFiles ≤ bound) {walk last : ImportWalk} {done : Nat}
    (h : Going targets reached bound walk done) {fuel : Nat} (hfuel : bound ≤ done + fuel)
    (hrun : ImportWalk.run targets limits fuel walk = .ok last) :
    ∃ done', last.queue = [] ∧ Going targets reached bound last done' ∧
      ∀ f ∈ walk.taken, f ∈ last.taken := by
  induction fuel generalizing walk done with
  | zero =>
      obtain rfl := Except.ok.inj hrun
      refine ⟨done, ?_, h, fun _ hf => hf⟩
      have hcount := h.count
      have hsmall := h.small
      exact List.eq_nil_of_length_eq_zero (by omega)
  | succ fuel ih =>
      unfold ImportWalk.run at hrun
      cases hqueue : walk.queue with
      | nil =>
          rw [hqueue] at hrun
          obtain rfl := Except.ok.inj hrun
          exact ⟨done, hqueue, h, fun _ hf => hf⟩
      | cons entry queue =>
          obtain ⟨file, depth⟩ := entry
          simp only [hqueue] at hrun
          obtain ⟨found, hfound, hrun⟩ := Fallible.bind_eq_ok_iff.mp hrun
          have hnext := h.step hclosed hbound depth hqueue hfound
          obtain ⟨added, hgrows⟩ := followAll_spec limits depth { walk with queue } found
          obtain ⟨done', hempty, hlast, htaken⟩ := ih hnext (by omega) hrun
          refine ⟨done', hempty, hlast, fun f hf => htaken f ?_⟩
          rw [hgrows.taken]
          exact List.mem_append_left _ hf

end Run

/-- Starting takes roots that are not there yet, and queues what it takes. -/
theorem foldl_start_spec (roots : List Path) (walk : ImportWalk)
    (hqueue : walk.queue.map (·.1) = walk.taken) :
    ∃ added, (∀ root ∈ added, root ∈ roots) ∧ added.length ≤ roots.length ∧
      (roots.foldl start walk).taken = walk.taken ++ added ∧
      (roots.foldl start walk).queue.map (·.1) = (roots.foldl start walk).taken ∧
      ∀ root ∈ roots, root.listed (roots.foldl start walk).taken = true := by
  induction roots generalizing walk with
  | nil => exact ⟨[], by simp, by simp, by simp, hqueue, by simp⟩
  | cons root rest ih =>
      rw [List.foldl_cons]
      by_cases hlisted : root.listed walk.taken = true
      · have hstart : walk.start root = walk := by simp [start, hlisted]
        obtain ⟨added, hadded, hlength, htaken, hqueued, hall⟩ := ih walk hqueue
        rw [hstart]
        refine ⟨added, fun r hr => List.mem_cons_of_mem _ (hadded r hr), ?_, htaken, hqueued, ?_⟩
        · rw [List.length_cons]
          omega
        · intro r hr
          rcases List.mem_cons.mp hr with rfl | hr
          · obtain ⟨q, hq, hparts⟩ := Path.listed_iff.mp hlisted
            rw [htaken]
            exact Path.listed_iff.mpr ⟨q, List.mem_append_left _ hq, hparts⟩
          · exact hall r hr
      · have hstart : walk.start root =
            { walk with taken := walk.taken ++ [root], queue := walk.queue ++ [(root, 0)] } := by
          simp [start, hlisted]
        rw [hstart]
        have hqueue' : (({ walk with
            taken := walk.taken ++ [root], queue := walk.queue ++ [(root, 0)] } : ImportWalk).queue.map
              (·.1)) = walk.taken ++ [root] := by
          simp [hqueue]
        obtain ⟨added, hadded, hlength, htaken, hqueued, hall⟩ := ih _ hqueue'
        refine ⟨root :: added, ?_, ?_, ?_, hqueued, ?_⟩
        · intro r hr
          rcases List.mem_cons.mp hr with rfl | hr
          · exact List.mem_cons_self ..
          · exact List.mem_cons_of_mem _ (hadded r hr)
        · rw [List.length_cons, List.length_cons]
          omega
        · rw [htaken]
          simp
        · intro r hr
          rcases List.mem_cons.mp hr with rfl | hr
          · rw [htaken]
            exact Path.listed_of_mem (by simp)
          · exact hall r hr

section Follow

variable {targets others : Path → Except Setback (List Path)} {reached : Path → Prop} {limits : Limits}

/-- A walk takes only what can be reached, whatever it comes to in the end. -/
theorem reached_of_run (hclosed : ∀ f found, reached f → targets f = .ok found → ∀ t ∈ found, reached t)
    {fuel : Nat} {walk last : ImportWalk} (hrun : run targets limits fuel walk = .ok last)
    (htaken : ∀ f ∈ walk.taken, reached f) (hqueue : ∀ f ∈ walk.queue.map (·.1), reached f) :
    ∀ f ∈ last.taken, reached f := by
  induction fuel generalizing walk with
  | zero => exact Except.ok.inj hrun ▸ htaken
  | succ fuel ih =>
      unfold run at hrun
      cases hfirst : walk.queue with
      | nil =>
          rw [hfirst] at hrun
          exact Except.ok.inj hrun ▸ htaken
      | cons entry queue =>
          obtain ⟨file, depth⟩ := entry
          simp only [hfirst] at hrun
          rw [hfirst, List.map_cons] at hqueue
          obtain ⟨hfile, hrest⟩ := List.forall_mem_cons.mp hqueue
          obtain ⟨found, hfound, hrun⟩ := Fallible.bind_eq_ok_iff.mp hrun
          obtain ⟨added, hgrows⟩ := followAll_spec limits depth { walk with queue } found
          have hnew : ∀ f ∈ added, reached f := fun f hf => hclosed file found hfile hfound f (hgrows.mem f hf)
          refine ih hrun ?_ ?_
          · rw [hgrows.taken]
            exact List.forall_mem_append.mpr ⟨htaken, hnew⟩
          · rw [hgrows.queue]
            exact List.forall_mem_append.mpr ⟨hrest, hnew⟩

/-- A walk comes to its end if the imports of everything that can be reached are found. -/
theorem exists_run (hclosed : ∀ f found, reached f → targets f = .ok found → ∀ t ∈ found, reached t)
    (htotal : ∀ f, reached f → ∃ found, targets f = .ok found) (fuel : Nat) {walk : ImportWalk}
    (hqueue : ∀ f ∈ walk.queue.map (·.1), reached f) :
    ∃ last, run targets limits fuel walk = .ok last := by
  induction fuel generalizing walk with
  | zero => exact ⟨walk, rfl⟩
  | succ fuel ih =>
      unfold run
      cases hfirst : walk.queue with
      | nil => exact ⟨walk, rfl⟩
      | cons entry queue =>
          obtain ⟨file, depth⟩ := entry
          rw [hfirst, List.map_cons] at hqueue
          obtain ⟨hfile, hrest⟩ := List.forall_mem_cons.mp hqueue
          obtain ⟨found, hfound⟩ := htotal file hfile
          obtain ⟨added, hgrows⟩ := followAll_spec limits depth { walk with queue } found
          simp only [hfound]
          refine ih ?_
          rw [hgrows.queue]
          exact List.forall_mem_append.mpr
            ⟨hrest, fun f hf => hclosed file found hfile hfound f (hgrows.mem f hf)⟩

/-- Walks are alike if the imports of everything that can be reached are. -/
theorem run_congr (hclosed : ∀ f found, reached f → targets f = .ok found → ∀ t ∈ found, reached t)
    (hsame : ∀ f, reached f → others f = targets f) {fuel : Nat} {walk : ImportWalk}
    (hqueue : ∀ f ∈ walk.queue.map (·.1), reached f) :
    run others limits fuel walk = run targets limits fuel walk := by
  induction fuel generalizing walk with
  | zero => rfl
  | succ fuel ih =>
      unfold run
      cases hfirst : walk.queue with
      | nil => rfl
      | cons entry queue =>
          obtain ⟨file, depth⟩ := entry
          rw [hfirst, List.map_cons] at hqueue
          obtain ⟨hfile, hrest⟩ := List.forall_mem_cons.mp hqueue
          simp only [hsame file hfile]
          cases hfound : targets file with
          | error setback => rfl
          | ok found =>
              obtain ⟨added, hgrows⟩ := followAll_spec limits depth { walk with queue } found
              refine ih ?_
              rw [hgrows.queue]
              exact List.forall_mem_append.mpr
                ⟨hrest, fun f hf => hclosed file found hfile hfound f (hgrows.mem f hf)⟩

end Follow

/-- All that is queued and taken at the start of a walk are roots. -/
theorem start_roots (roots : List Path) :
    (∀ f ∈ (roots.foldl start {}).taken, f ∈ roots) ∧
      ∀ f ∈ (roots.foldl start {}).queue.map (·.1), f ∈ roots := by
  obtain ⟨added, hadded, -, htaken, hqueued, -⟩ := foldl_start_spec roots {} rfl
  rw [hqueued, htaken]
  exact ⟨fun f hf => hadded f (by simpa using hf), fun f hf => hadded f (by simpa using hf)⟩

/-- A walk that starts at roots is under way from the beginning. -/
theorem going_start {targets : Path → Except Setback (List Path)} {reached : Path → Prop}
    {roots : List Path} (hroots : ∀ root ∈ roots, reached root) {bound : Nat}
    (hbound : roots.length ≤ bound) : Going targets reached bound (roots.foldl start {}) 0 := by
  obtain ⟨added, hadded, hlength, htaken, hqueued, -⟩ := foldl_start_spec roots {} rfl
  generalize roots.foldl start {} = walk at htaken hqueued
  have hcount := congrArg List.length hqueued
  rw [List.length_map] at hcount
  constructor
  case reached =>
    intro f hf
    rw [htaken] at hf
    exact hroots f (hadded f (by simpa using hf))
  case queued =>
    intro f hf
    rw [← hqueued]
    exact hf
  case followed =>
    intro f hf
    rw [← hqueued] at hf
    exact Or.inl hf
  case count => omega
  case small =>
    rw [htaken]
    simp only [List.nil_append]
    omega

/-! ## What can be reached -/

/-- A file can be reached from roots over imports of accepted kinds. -/
inductive Reaches (tree : FileTree) (resolver : Import.Resolver) (follows : Import.Kind → Bool)
    (roots : List Path) : Path → Prop
  | root {path : Path} (h : path ∈ roots) : Reaches tree resolver follows roots path
  | import {file target : Path} (hfile : Reaches tree resolver follows roots file)
      (h : Imports tree resolver follows file target) : Reaches tree resolver follows roots target

/-- Everything that is reached is spelled faithfully if the roots are: what an import leads to is
there. -/
theorem Reaches.isFaithful {tree : FileTree} {resolver : Import.Resolver}
    {follows : Import.Kind → Bool} {roots : List Path}
    (hroots : ∀ root ∈ roots, tree.IsFaithful root) {path : Path}
    (h : Reaches tree resolver follows roots path) : tree.IsFaithful path := by
  cases h with
  | root h => exact hroots path h
  | «import» _ h => exact fun _ _ _ => h.isFile

theorem Reaches.mono {tree : FileTree} {resolver : Import.Resolver}
    {follows more : Import.Kind → Bool} (hmore : ∀ kind, follows kind = true → more kind = true)
    {roots : List Path} {path : Path} (h : Reaches tree resolver follows roots path) :
    Reaches tree resolver more roots path := by
  induction h with
  | root h => exact .root h
  | «import» _ h ih => exact .import ih (h.mono hmore)

/-- A walk takes only what can be reached. -/
theorem reaches_of_ofRoots {tree : FileTree} {resolver : Import.Resolver} {roots : List Path}
    {limits : Limits} {follows : Import.Kind → Bool} {walk : ImportWalk}
    (h : ofRoots tree resolver roots limits follows = .ok walk) :
    ∀ f ∈ walk.taken, Reaches tree resolver follows roots f :=
  reached_of_run (fun _ _ hf hfound _ ht => .import hf (imports_of_targetsOf hfound ht)) h
    (fun f hf => .root ((start_roots roots).1 f hf)) fun f hf => .root ((start_roots roots).2 f hf)

/-- Walks in two trees are alike if everything that can be reached in the first one imports the same in
both. -/
theorem ofRoots_congr {tree other : FileTree} {resolver : Import.Resolver} {roots : List Path}
    (limits : Limits) {follows : Import.Kind → Bool}
    (hsame : ∀ f, Reaches tree resolver follows roots f →
      targetsOf other resolver follows f = targetsOf tree resolver follows f) :
    ofRoots other resolver roots limits follows = ofRoots tree resolver roots limits follows :=
  run_congr (fun _ _ hf hfound _ ht => .import hf (imports_of_targetsOf hfound ht)) hsame
    fun f hf => .root ((start_roots roots).2 f hf)

/-- At the end of a walk nothing is queued, and what it started with is still taken. -/
theorem end_of_ofRoots {tree : FileTree} {resolver : Import.Resolver} {roots : List Path}
    {limits : Limits} {follows : Import.Kind → Bool} {walk : ImportWalk}
    (h : ofRoots tree resolver roots limits follows = .ok walk) :
    ∃ done, walk.queue = [] ∧
      Going (targetsOf tree resolver follows) (Reaches tree resolver follows roots)
        (max roots.length limits.maxFiles) walk done ∧
      ∀ f ∈ (roots.foldl start {}).taken, f ∈ walk.taken :=
  (going_start (fun _ hroot => .root hroot) (Nat.le_max_left ..)).of_run
    (fun _ _ hf hfound _ ht => .import hf (imports_of_targetsOf hfound ht))
    (Nat.le_max_right ..) (Nat.le_of_eq (Nat.zero_add _).symm) h

/-- The imports of everything that a walk took were found. -/
theorem going_of_ofRoots {tree : FileTree} {resolver : Import.Resolver} {roots : List Path}
    {limits : Limits} {follows : Import.Kind → Bool} {walk : ImportWalk}
    (h : ofRoots tree resolver roots limits follows = .ok walk) :
    (∀ root ∈ roots, root.listed walk.taken = true) ∧
      ∀ f ∈ walk.taken, ∃ found, targetsOf tree resolver follows f = .ok found ∧
        (walk.limit = none → ∀ t ∈ found, t.listed walk.taken = true) := by
  obtain ⟨done, hqueue, hlast, hkept⟩ := end_of_ofRoots h
  obtain ⟨_, -, -, -, -, hstarted⟩ := foldl_start_spec roots {} rfl
  refine ⟨fun root hroot => ?_, fun f hf => ?_⟩
  · obtain ⟨q, hq, hparts⟩ := Path.listed_iff.mp (hstarted root hroot)
    exact Path.listed_iff.mpr ⟨q, hkept q hq, hparts⟩
  · rcases hlast.followed f hf with hqueued | hfollowed
    · simp [hqueue] at hqueued
    · exact hfollowed

/-- A walk that hits no bound takes everything that can be reached. -/
theorem listed_of_reaches {tree : FileTree} {resolver : Import.Resolver} {roots : List Path}
    (hroots : ∀ root ∈ roots, tree.IsFaithful root) {limits : Limits} {follows : Import.Kind → Bool}
    {walk : ImportWalk} (h : ofRoots tree resolver roots limits follows = .ok walk)
    (hlimit : walk.limit = none) {f : Path} (hf : Reaches tree resolver follows roots f) :
    f.listed walk.taken = true := by
  obtain ⟨hstarted, hfollowed⟩ := going_of_ofRoots h
  induction hf with
  | @root path hroot => exact hstarted path hroot
  | @«import» file target hfile himport ih =>
      -- the taken spelling of the file leads to it as well, so that its imports are the same
      obtain ⟨q, hq, hparts⟩ := Path.listed_iff.mp ih
      have hthere : tree.isFile q = true :=
        (reaches_of_ofRoots h q hq).isFaithful hroots file hparts himport.1
      obtain ⟨found, hfound, hall⟩ := hfollowed q hq
      exact hall hlimit target ((mem_targetsOf_iff hfound).mpr (himport.of_parts_eq hparts hthere))

/-- A walk comes to its end if the imports of everything that can be reached are found. -/
theorem exists_ofRoots {tree : FileTree} {resolver : Import.Resolver} {roots : List Path}
    (limits : Limits) {follows : Import.Kind → Bool}
    (htotal : ∀ f, Reaches tree resolver follows roots f →
      ∃ found, targetsOf tree resolver follows f = .ok found) :
    ∃ walk, ofRoots tree resolver roots limits follows = .ok walk :=
  exists_run (fun _ _ hf hfound _ ht => .import hf (imports_of_targetsOf hfound ht)) htotal _
    fun f hf => .root ((start_roots roots).2 f hf)

/-- A walk in a readable tree comes to its end. It takes only what can be reached, and it takes all of
that if it hits no bound. -/
theorem ofRoots_spec {tree : FileTree} (htree : tree.isReadable = true) (resolver : Import.Resolver)
    {roots : List Path} (hroots : ∀ root ∈ roots, tree.IsFaithful root) (limits : Limits)
    (follows : Import.Kind → Bool) :
    ∃ walk, ofRoots tree resolver roots limits follows = .ok walk ∧
      (∀ f ∈ walk.taken, Reaches tree resolver follows roots f) ∧
      (walk.limit = none →
        ∀ f, Reaches tree resolver follows roots f → f.listed walk.taken = true) := by
  have hend : ∃ walk, ofRoots tree resolver roots limits follows = .ok walk :=
    exists_ofRoots limits fun f _ =>
      (targetsOf_spec htree resolver follows f).imp fun _ htargets => htargets.1
  obtain ⟨walk, hwalk⟩ := hend
  exact ⟨walk, hwalk, reaches_of_ofRoots hwalk, fun hlimit f => listed_of_reaches hroots hwalk hlimit⟩

/-! ## Roots in another order -/

/-- Everything that is reached from normal forms is spelled as one. -/
theorem Reaches.normalize {tree : FileTree} {resolver : Import.Resolver}
    {follows : Import.Kind → Bool} {roots : List Path} (hroots : ∀ root ∈ roots, root.normalize = root)
    {path : Path} (h : Reaches tree resolver follows roots path) : path.normalize = path := by
  cases h with
  | root h => exact hroots path h
  | «import» _ h =>
      obtain ⟨-, _, -, i, -, -, htarget⟩ := h
      exact Import.Resolver.normalize_of_resolve htarget

theorem Reaches.of_roots {tree : FileTree} {resolver : Import.Resolver}
    {follows : Import.Kind → Bool} {roots others : List Path} (hothers : ∀ root ∈ roots, root ∈ others)
    {path : Path} (h : Reaches tree resolver follows roots path) :
    Reaches tree resolver follows others path := by
  induction h with
  | root h => exact .root (hothers _ h)
  | «import» _ h ih => exact .import ih h

/-- A walk that hits no bound takes what can be reached and nothing else, if its roots are normal
forms. -/
theorem mem_taken_iff {tree : FileTree} {resolver : Import.Resolver} {roots : List Path}
    (hroots : ∀ root ∈ roots, root.normalize = root) {limits : Limits} {follows : Import.Kind → Bool}
    {walk : ImportWalk} (h : ofRoots tree resolver roots limits follows = .ok walk)
    (hlimit : walk.limit = none) {f : Path} :
    f ∈ walk.taken ↔ Reaches tree resolver follows roots f := by
  refine ⟨reaches_of_ofRoots h f, fun hf => ?_⟩
  have hfaithful : ∀ root ∈ roots, tree.IsFaithful root :=
    fun root hroot => hroots root hroot ▸ FileTree.isFaithful_normalize root
  obtain ⟨q, hq, hparts⟩ := Path.listed_iff.mp (listed_of_reaches hfaithful h hlimit hf)
  have hnormal : ∀ {p}, Reaches tree resolver follows roots p → p.normalize = p :=
    fun hp => hp.normalize hroots
  rwa [Path.eq_of_parts_eq (hnormal hf) (hnormal (reaches_of_ofRoots h q hq)) hparts]

/-- Walks that hit no bound take the same files from the same roots, in whatever order these stand. -/
theorem ofRoots_of_same_roots {tree : FileTree} {resolver : Import.Resolver} {roots others : List Path}
    (hroots : ∀ root ∈ roots, root.normalize = root) (hsame : ∀ root, root ∈ others ↔ root ∈ roots)
    {limits : Limits} {follows : Import.Kind → Bool} {walk : ImportWalk}
    (h : ofRoots tree resolver roots limits follows = .ok walk) (hlimit : walk.limit = none) :
    ∃ other, ofRoots tree resolver others limits follows = .ok other ∧
      (other.limit = none → ∀ f, f ∈ other.taken ↔ f ∈ walk.taken) := by
  have hreaches : ∀ f, Reaches tree resolver follows others f ↔ Reaches tree resolver follows roots f :=
    fun f => ⟨.of_roots fun root => (hsame root).mp, .of_roots fun root => (hsame root).mpr⟩
  have htotal : ∀ f, Reaches tree resolver follows others f →
      ∃ found, targetsOf tree resolver follows f = .ok found := by
    intro f hf
    obtain ⟨found, hfound, -⟩ :=
      (going_of_ofRoots h).2 f ((mem_taken_iff hroots h hlimit).mpr ((hreaches f).mp hf))
    exact ⟨found, hfound⟩
  obtain ⟨other, hother⟩ := exists_ofRoots limits htotal
  refine ⟨other, hother, fun hnone f => ?_⟩
  rw [mem_taken_iff (fun root hroot => hroots root ((hsame root).mp hroot)) hother hnone, hreaches,
    mem_taken_iff hroots h hlimit]

end ImportWalk

end ScopedCheck
