import Mathlib.Data.List.Induction
import ScopedCheck.Config.Locate
import ScopedCheck.Proofs.Config.Cycles
import ScopedCheck.Proofs.FileTree.Times
/-! # Configs that are kept

A kept config is used again as long as its documents have their times. What the documents say is the same
then, but not always what they build on: a file that is created where the ending of a name was left out,
or in a directory of packages, takes the place of a document that has not changed. Apart from this, a
config that is kept is what loading gives. -/

namespace ScopedCheck

namespace Config

open FileTree (NewSince)

variable {tree next : FileTree}

/-! ## Loading again -/

theorem readDocument_congr {here : Path} (h : next.node here = tree.node here) :
    readDocument next here = readDocument tree here := by
  simp only [readDocument, FileTree.readText, h]

theorem exists_file_of_readDocument {here : Path} {document : Document}
    (h : readDocument tree here = .ok document) : ∃ file, tree.node here = .ok (.file file) :=
  FileTree.isFile_iff.mp (isFile_of_readDocument h)

/-- Whether what a document builds on is found where it was found. -/
def BuildsAlike (tree next : FileTree) (here : Path) : Prop :=
  ∀ document, readDocument tree here = .ok document → ∀ specifier ∈ document.specifiers,
    ∀ base, baseOf tree here specifier = .ok base →
      ∃ found, baseOf next here specifier = .ok found ∧ next.canonical found = tree.canonical base

/-- Whether a config and what its documents build on are found where they were found. -/
structure LeadsAlike (tree next : FileTree) (path : Path) (chain : List Path) : Prop where
  leaf : next.canonical path = tree.canonical path
  bases : ∀ here ∈ chain, BuildsAlike tree next here

/-- Loading goes as it went, if all documents that were read have their times and what they build on is
found where it was. -/
theorem loadLayer_replay {time : Nat} (htree : tree.IsStamped time) (hnew : NewSince time tree next)
    {fuel : Nat} {trail : List Path} {path other : Path} {loaded : Layer × List Path}
    (hload : loadLayer tree fuel trail path = .ok loaded)
    (htrail : IsTrail tree trail (tree.canonical path))
    (hother : next.canonical other = tree.canonical path) (hnext : next.IsFound (tree.canonical path))
    (hfresh : ∀ here ∈ loaded.2, next.modified? here = tree.modified? here)
    (halike : ∀ here ∈ loaded.2, BuildsAlike tree next here) :
    loadLayer next fuel trail other = .ok loaded := by
  induction fuel generalizing trail path other loaded with
  | zero => cases hload
  | succ fuel ih =>
      by_cases hmem : tree.canonical path ∈ trail
      · rw [loadLayer_of_mem htrail.normal hmem] at hload
        cases hload
      · rw [loadLayer_of_notMem htrail.normal hmem] at hload
        obtain ⟨document, hread, hload⟩ := Fallible.bind_eq_ok_iff.mp hload
        obtain ⟨bases, hbases, hload⟩ := Fallible.bind_eq_ok_iff.mp hload
        obtain rfl := Except.ok.inj hload
        have hhere : tree.canonical path ∈ (layered (tree.canonical path) document bases).2 :=
          List.mem_cons_self ..
        have hreadNext : readDocument next (tree.canonical path) = .ok document := by
          obtain ⟨file, hfile⟩ := exists_file_of_readDocument hread
          rw [← hread]
          apply readDocument_congr
          rw [hfile]
          exact hnew.node_eq htree htrail.found hnext hfile (hfresh _ hhere)
        have hsame : ∀ specifier ∈ document.specifiers,
            loadBase next fuel trail (tree.canonical path) specifier =
              loadBase tree fuel trail (tree.canonical path) specifier := by
          intro specifier hspecifier
          obtain ⟨below, hbelow, hloadBase⟩ := Fallible.exists_of_mapM hbases hspecifier
          rw [hloadBase]
          obtain ⟨base, hbase, hdown⟩ := Fallible.bind_eq_ok_iff.mp hloadBase
          obtain ⟨found, hbaseNext, hcanonical⟩ := halike _ hhere document hread specifier hspecifier
            base hbase
          have hmore : ∀ here ∈ below.2, here ∈ (layered (tree.canonical path) document bases).2 := by
            intro here hchain
            apply List.mem_cons_of_mem
            exact List.mem_flatten.mpr ⟨below.2, List.mem_map_of_mem hbelow, hchain⟩
          rw [loadBase, hbaseNext]
          refine ih hdown (htrail.down hmem hread hspecifier hbase) hcanonical ?_ ?_ ?_
          · rw [← hcanonical]
            exact isFound_of_baseOf hbaseNext
          · intro here hchain
            exact hfresh here (hmore here hchain)
          · intro here hchain
            exact halike here (hmore here hchain)
        rw [loadLayer_of_notMem htrail.normal (by rwa [hother]), hother, hreadNext]
        simp only [bind, Except.bind, Fallible.mapM_congr hsame, hbases]
        rfl

/-- A config is the same when it is loaded again, if its documents have their times and what they build
on is found where it was. -/
theorem load_replay {time : Nat} (htree : tree.IsStamped time) (hnew : NewSince time tree next)
    {path : Path} (hpath : path.normalize = path) {config : Config} (hload : load tree path = .ok config)
    (hfresh : ∀ here ∈ config.chain, next.modified? here = tree.modified? here)
    (halike : LeadsAlike tree next path config.chain) : load next path = .ok config := by
  obtain ⟨⟨layer, chain⟩, hlayer, hconfig⟩ := Fallible.bind_eq_ok_iff.mp hload
  obtain rfl := Except.ok.inj hconfig
  have hother : next.canonical (next.canonical path) = tree.canonical (tree.canonical path) := by
    rw [FileTree.canonical_canonical (.inr hpath), FileTree.canonical_canonical (.inr hpath), halike.leaf]
  -- with fuel for both trees neither of them runs out of it
  rw [← loadLayer_add (.start (isFound_leaf tree path)) (by simp) next.fileCount] at hlayer
  have hagain := loadLayer_replay htree hnew hlayer (.start (isFound_leaf tree path)) hother
    ⟨next.canonical path, .inr (FileTree.normalize_canonical next path), hother⟩ hfresh halike.bases
  rw [Nat.add_right_comm, Nat.add_comm tree.fileCount, Nat.add_right_comm,
    loadLayer_add (.start (isFound_leaf next path)) (by simp) tree.fileCount, halike.leaf] at hagain
  rw [load, halike.leaf]
  simp only [hagain, bind, Except.bind]
  rfl

end Config

/-! ## Histories -/

namespace ConfigCache

/-- What happens to a file tree and to the configs that are kept: files are written, links and directories
are made, anything is removed, and configs are loaded. -/
inductive Event
  | write (path : Path) (file : File)
  | link (path target : Path)
  | makeDirs (path : Path)
  | remove (path : Path)
  | load (path : Path)

/-- A file tree with a clock, and the configs that are kept. -/
structure World where
  tree : FileTree
  time : Nat
  cache : ConfigCache := {}

namespace World

/-- The file tree after an event. A file that is written has the time of the clock. -/
def edited (world : World) : Event → FileTree
  | .write path file =>
      (world.tree.write path (.file { file with modified := world.time })).toOption.getD world.tree
  | .link path target => (world.tree.write path (.link target)).toOption.getD world.tree
  | .makeDirs path => (world.tree.makeDirs path).toOption.getD world.tree
  | .remove path => world.tree.remove path
  | .load _ => world.tree

/-- What is kept after an event. -/
def kept (world : World) : Event → ConfigCache
  | .load path => ((world.cache.load world.tree path).toOption.map (·.2)).getD world.cache
  | _ => world.cache

/-- The state after an event. The clock goes on. -/
def apply (world : World) (event : Event) : World :=
  ⟨world.edited event, world.time + 1, world.kept event⟩

/-- The state after a history. -/
def after (world : World) (events : List Event) : World := events.foldl apply world

theorem after_append (world : World) (front rear : List Event) :
    world.after (front ++ rear) = (world.after front).after rear := List.foldl_append

/-- Whether the clock is ahead of all files. -/
structure IsClocked (world : World) : Prop where
  running : 0 < world.time
  stamped : world.tree.IsStamped world.time

variable {world start : World}

theorem IsClocked.edited (h : world.IsClocked) (event : Event) :
    FileTree.Edited (·.modified = world.time) world.tree (world.edited event) := by
  have hproper := h.stamped.proper
  cases event with
  | write path file =>
      rw [World.edited]
      cases hwrite : world.tree.write path (.file { file with modified := world.time }) with
      | error fault => exact .refl hproper
      | ok next =>
          apply (FileTree.edited_write hproper rfl rfl hwrite).mono
          intro added hadded
          rw [← FileTree.Node.file.inj hadded]
  | link path target =>
      rw [World.edited]
      cases hwrite : world.tree.write path (.link target) with
      | error fault => exact .refl hproper
      | ok next =>
          apply (FileTree.edited_write hproper rfl rfl hwrite).mono
          intro added hadded
          cases hadded
  | makeDirs path =>
      rw [World.edited]
      cases hmade : world.tree.makeDirs path with
      | error fault => exact .refl hproper
      | ok next => exact FileTree.edited_makeDirs hproper hmade
  | remove path => exact FileTree.edited_remove hproper path
  | load path => exact .refl hproper

theorem IsClocked.apply (h : world.IsClocked) (event : Event) : (world.apply event).IsClocked :=
  ⟨Nat.succ_pos world.time, (h.edited event).isStamped h.stamped h.running⟩

theorem IsClocked.after (h : world.IsClocked) (events : List Event) : (world.after events).IsClocked := by
  induction events generalizing world with
  | nil => exact h
  | cons event rest ih => exact ih (h.apply event)

/-- Whatever happens, a file that is where a file was is that file, or it is newer. -/
theorem IsClocked.newSince (h : world.IsClocked) (events : List Event) :
    FileTree.NewSince world.time world.tree (world.after events).tree := by
  induction events generalizing world with
  | nil => exact .refl world.time world.tree
  | cons event rest ih =>
      have hstep := (h.edited event).newSince
      exact hstep.trans (Nat.le_succ world.time) (ih (h.apply event))

/-! ## What is kept -/

/-- Whether a config is kept when a path is loaded. -/
def Keeps (world : World) (asked : Path) (kept : KeptConfig) : Prop :=
  ∃ cache, world.cache.reload world.tree (world.tree.canonical asked) = .ok (kept, cache)

theorem Keeps.spec {asked : Path} {kept : KeptConfig} (h : world.Keeps asked kept) :
    kept.path = world.tree.canonical asked ∧ Config.load world.tree kept.path = .ok kept.config ∧
      kept.stamps = kept.config.chain.map fun here => (here, world.tree.modified? here) := by
  obtain ⟨cache, hreload⟩ := h
  obtain ⟨config, hload, hkept⟩ := Fallible.bind_eq_ok_iff.mp hreload
  obtain ⟨rfl, -⟩ := Prod.mk.inj (Except.ok.inj hkept)
  exact ⟨rfl, hload, rfl⟩

/-- A config that is kept after a load was kept before, or it is kept by this load. -/
theorem mem_kept_load {asked : Path} {kept : KeptConfig} (h : kept ∈ (world.kept (.load asked)).kept) :
    kept ∈ world.cache.kept ∨ world.Keeps asked kept := by
  have hreload : ∀ {found}, world.cache.reload world.tree (world.tree.canonical asked) = .ok found →
      kept ∈ found.2.kept → kept ∈ world.cache.kept ∨ world.Keeps asked kept := by
    rintro ⟨new, cache⟩ hreload hmem
    obtain ⟨config, hload, hkept⟩ := Fallible.bind_eq_ok_iff.mp hreload
    obtain ⟨rfl, rfl⟩ := Prod.mk.inj (Except.ok.inj hkept)
    rcases List.mem_cons.mp hmem with rfl | hold
    · exact Or.inr ⟨_, hreload⟩
    · exact Or.inl (List.mem_filter.mp hold).1
  rw [World.kept] at h
  cases hload : world.cache.load world.tree asked with
  | error failure =>
      rw [hload] at h
      exact Or.inl h
  | ok found =>
      rw [hload] at h
      unfold ConfigCache.load at hload
      simp only at hload
      split at hload
      · split at hload
        · obtain rfl := Except.ok.inj hload
          exact Or.inl h
        · exact hreload hload h
      · exact hreload hload h

/-- Every kept config was kept by one of the loads. -/
theorem exists_load_of_mem_kept (hempty : start.cache.kept = []) (events : List Event) {kept : KeptConfig}
    (h : kept ∈ (start.after events).cache.kept) :
    ∃ front asked rear, events = front ++ .load asked :: rear ∧ (start.after front).Keeps asked kept := by
  induction events using List.reverseRecOn with
  | nil =>
      have hnone : kept ∈ start.cache.kept := h
      rw [hempty] at hnone
      cases hnone
  | append_singleton events event ih =>
      have hbefore : kept ∈ (start.after events).cache.kept →
          ∃ front asked rear, events ++ [event] = front ++ .load asked :: rear ∧
            (start.after front).Keeps asked kept := by
        intro hmem
        obtain ⟨front, asked, rear, rfl, hkeeps⟩ := ih hmem
        exact ⟨front, asked, rear ++ [event], by simp, hkeeps⟩
      rw [after_append] at h
      cases event with
      | load asked =>
          rcases mem_kept_load h with hmem | hkeeps
          · exact hbefore hmem
          · exact ⟨events, asked, [], rfl, hkeeps⟩
      | write path file => exact hbefore h
      | link path target => exact hbefore h
      | makeDirs path => exact hbefore h
      | remove path => exact hbefore h

/-! ## What is answered -/

/-- The config with which a path is answered, kept or loaded. -/
def answer (world : World) (path : Path) : Except Failure Config :=
  (world.cache.load world.tree path).map (·.1.config)

/-- The config that loading gives for the canonical form of a path. -/
def fresh (world : World) (path : Path) : Except Failure Config :=
  Config.load world.tree (world.tree.canonical path)

/-- For a path that leads somewhere loading gives the same as for its canonical form. -/
theorem fresh_eq_load {path : Path} (h : ∃ location, world.tree.locate path = .ok location) :
    world.fresh path = Config.load world.tree path := by
  rw [fresh, Config.load, Config.load, FileTree.canonical_canonical (.inl h)]

theorem map_reload (cache : ConfigCache) (tree : FileTree) (path : Path) :
    (cache.reload tree path).map (·.1.config) = Config.load tree path := by
  rw [reload]
  cases Config.load tree path <;> rfl

/-- What is not kept, or not with the times that its documents have, is loaded. -/
theorem answer_eq_fresh {path : Path}
    (h : ∀ kept, world.cache.get? (world.tree.canonical path) = some kept →
      kept.isFresh world.tree = false) : world.answer path = world.fresh path := by
  rw [answer, ConfigCache.load]
  cases hget : world.cache.get? (world.tree.canonical path) with
  | none => exact map_reload _ _ _
  | some kept =>
      simp only [h kept hget, Bool.false_eq_true, if_false]
      exact map_reload _ _ _

/-- Whether a path is answered with a config that an earlier load has kept and whose documents all have
their times, though by now it is made of something else. -/
structure IsMoved (earlier now : World) (asked path : Path) (kept : KeptConfig) : Prop where
  keeps : earlier.Keeps asked kept
  key : kept.path = now.tree.canonical path
  fresh : kept.isFresh now.tree = true
  moved : ¬Config.LeadsAlike earlier.tree now.tree kept.path kept.config.chain
  answer : now.cache.load now.tree path = .ok (kept, now.cache)

/-- What is kept with the times that its documents have is what loading gives, unless it has moved. -/
theorem answer_or_isMoved {earlier now : World} (hearlier : earlier.IsClocked)
    (hnew : FileTree.NewSince earlier.time earlier.tree now.tree) {asked path : Path} {kept : KeptConfig}
    (hkeeps : earlier.Keeps asked kept)
    (hget : now.cache.get? (now.tree.canonical path) = some kept) (hfresh : kept.isFresh now.tree = true) :
    now.answer path = now.fresh path ∨ IsMoved earlier now asked path kept := by
  obtain ⟨hpath, hload, hstamps⟩ := hkeeps.spec
  have hnormal : kept.path.normalize = kept.path := by
    rw [hpath]
    exact FileTree.normalize_canonical earlier.tree asked
  have hkey : kept.path = now.tree.canonical path := by
    have hsame := List.find?_some hget
    exact (Path.eq_of_parts_eq (FileTree.normalize_canonical now.tree path) hnormal
      (Path.same_iff.mp hsame)).symm
  have hanswer : now.cache.load now.tree path = .ok (kept, now.cache) := by
    rw [ConfigCache.load]
    simp only [hget, if_pos hfresh]
  have hdocuments : ∀ here ∈ kept.config.chain,
      now.tree.modified? here = earlier.tree.modified? here := by
    intro here hhere
    rw [KeptConfig.isFresh, hstamps, List.all_map, List.all_eq_true] at hfresh
    exact beq_iff_eq.mp (hfresh here hhere)
  by_cases halike : Config.LeadsAlike earlier.tree now.tree kept.path kept.config.chain
  · left
    rw [answer, hanswer, fresh, ← hkey]
    exact (Config.load_replay hearlier.stamped hnew hnormal hload hdocuments halike).symm
  · exact Or.inr ⟨hkeeps, hkey, hfresh, halike, hanswer⟩

/-- A path is answered with what loading gives, unless something that was kept by one of the loads has
moved since. -/
theorem answer_after (hstart : start.IsClocked) (hempty : start.cache.kept = []) (events : List Event)
    (path : Path) :
    ((∃ location, (start.after events).tree.locate path = .ok location) →
      (start.after events).fresh path = Config.load (start.after events).tree path) ∧
    ((start.after events).answer path = (start.after events).fresh path ∨
      ∃ front asked rear kept, events = front ++ .load asked :: rear ∧
        IsMoved (start.after front) (start.after events) asked path kept) := by
  refine ⟨fresh_eq_load, ?_⟩
  by_cases hkept : ∃ kept,
      (start.after events).cache.get? ((start.after events).tree.canonical path) = some kept ∧
        kept.isFresh (start.after events).tree = true
  · obtain ⟨kept, hget, hfresh⟩ := hkept
    obtain ⟨front, asked, rear, rfl, hkeeps⟩ :=
      exists_load_of_mem_kept hempty events (List.mem_of_find?_eq_some hget)
    have hnew := (hstart.after front).newSince (.load asked :: rear)
    rw [← after_append] at hnew
    rcases answer_or_isMoved (hstart.after front) hnew hkeeps hget hfresh with hanswer | hmoved
    · exact Or.inl hanswer
    · exact Or.inr ⟨front, asked, rear, kept, rfl, hmoved⟩
  · left
    apply answer_eq_fresh
    intro kept hget
    rw [Bool.eq_false_iff]
    intro hfresh
    exact hkept ⟨kept, hget, hfresh⟩

/-! ## A base that moves -/

/-- A file with a text, written first. -/
def firstFile (name text : String) : FileTree.Name × FileTree.Node :=
  (name.toList, .file { content := .text text, modified := 1 })

/-- A project whose config builds on a document whose ending is left out. -/
def shortProject : World where
  tree := ⟨[firstFile "tsconfig.json" "\x7b\"extends\": \"./base\"\x7d",
    firstFile "base.json" "\x7b\"compilerOptions\": \x7b\"allowJs\": false\x7d\x7d",
    ("linked.json".toList, .link ⟨"/tsconfig.json"⟩)]⟩
  time := 2

theorem isClocked_shortProject : shortProject.IsClocked := by
  refine ⟨by decide, FileTree.isStamped_of_places (by decide) ?_⟩
  decide

/-- The document is loaded, and then a file is written under the short name. -/
def shortNameTaken : List Event :=
  [.load ⟨"/tsconfig.json"⟩,
    .write ⟨"/base"⟩ { content := .text "\x7b\"compilerOptions\": \x7b\"allowJs\": true\x7d\x7d" }]

/-- A file that is created in the place of a base is missed. -/
theorem created_base_is_missed :
    shortProject.IsClocked ∧ shortProject.cache.kept = [] ∧
      (shortProject.after shortNameTaken).answer ⟨"/tsconfig.json"⟩ ≠
        Config.load (shortProject.after shortNameTaken).tree ⟨"/tsconfig.json"⟩ ∧
      -- a path that leads nowhere is answered for its normal form
      shortProject.answer ⟨"/none/../linked.json"⟩ ≠
        Config.load shortProject.tree ⟨"/none/../linked.json"⟩ := by
  have hkept : ((shortProject.after shortNameTaken).answer ⟨"/tsconfig.json"⟩).toOption.map
      (·.options.allowJs) = some (some false) := by decide +kernel
  have hloaded : (Config.load (shortProject.after shortNameTaken).tree ⟨"/tsconfig.json"⟩).toOption.map
      (·.options.allowJs) = some (some true) := by decide +kernel
  have hnormal : (shortProject.answer ⟨"/none/../linked.json"⟩).toOption.map (·.configPath) =
      some ⟨"/tsconfig.json"⟩ := by decide +kernel
  have hlost : (Config.load shortProject.tree ⟨"/none/../linked.json"⟩).toOption.map (·.configPath) =
      some ⟨"/linked.json"⟩ := by decide +kernel
  refine ⟨isClocked_shortProject, rfl, ?_, ?_⟩
  · intro hsame
    rw [hsame, hloaded] at hkept
    cases hkept
  · intro hsame
    rw [hsame, hlost] at hnormal
    exact absurd hnormal (by decide)

theorem answer_after_shortNameTaken :
    shortProject.IsClocked ∧ shortProject.cache.kept = [] ∧
    ((∃ location, (shortProject.after shortNameTaken).tree.locate ⟨"/tsconfig.json"⟩ = .ok location) →
      (shortProject.after shortNameTaken).fresh ⟨"/tsconfig.json"⟩ =
        Config.load (shortProject.after shortNameTaken).tree ⟨"/tsconfig.json"⟩) ∧
    ((shortProject.after shortNameTaken).answer ⟨"/tsconfig.json"⟩ =
        (shortProject.after shortNameTaken).fresh ⟨"/tsconfig.json"⟩ ∨
      ∃ front asked rear kept, shortNameTaken = front ++ .load asked :: rear ∧
        IsMoved (shortProject.after front) (shortProject.after shortNameTaken) asked ⟨"/tsconfig.json"⟩
          kept) :=
  ⟨isClocked_shortProject, rfl, answer_after isClocked_shortProject rfl shortNameTaken ⟨"/tsconfig.json"⟩⟩

end World

end ConfigCache

end ScopedCheck
