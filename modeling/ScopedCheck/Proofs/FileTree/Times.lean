import ScopedCheck.Proofs.FileTree.Canonical
import ScopedCheck.Proofs.FileTree.Change
/-! # Times of files

A clock goes on with every file that is written. What was written before a time and is still at its
place later with its old time has not been touched since: whatever else is written, made or removed, a
file at a place is either the one that was there or has a new time. -/

namespace ScopedCheck.FileTree

open ScopedCheck.Path (AreNames)
open Fallible (bind_eq_ok_iff)

variable {tree next last : FileTree} {path : Path}

/-! ## Trees that are edited -/

/-- Whether a tree has come out of another one by adding certain files and by making and removing other
things: no file has moved. -/
structure Edited (added : File → Prop) (tree next : FileTree) : Prop where
  proper : next.isProper = true
  files : ∀ location file, next.nodeAt? location = some (.file file) →
    tree.nodeAt? location = some (.file file) ∨ added file

theorem Edited.refl {added : File → Prop} (htree : tree.isProper = true) : Edited added tree tree :=
  ⟨htree, fun _ _ hfile => Or.inl hfile⟩

theorem Edited.trans {added : File → Prop} (h : Edited added tree next) (hlast : Edited added next last) :
    Edited added tree last := by
  constructor
  · exact hlast.proper
  · intro location file hfile
    rcases hlast.files location file hfile with hnext | hadded
    · exact h.files location file hnext
    · exact Or.inr hadded

theorem Edited.mono {added more : File → Prop} (h : Edited added tree next)
    (hmore : ∀ file, added file → more file) : Edited more tree next :=
  ⟨h.proper, fun location file hfile => (h.files location file hfile).imp_right (hmore file)⟩

/-- To make directories adds no file. -/
theorem KeepsBut.edited {added : File → Prop} (h : KeepsBut (fun _ => False) tree next)
    (htree : tree.isProper = true) : Edited added tree next :=
  ⟨h.proper htree, fun location file hfile => Or.inl ((h.files location id file).mpr hfile)⟩

section Directory

variable {dir : Location} {name : Name} {entries : List (Name × Node)}

/-- What is put into a directory and is no directory itself is the only thing that is added. -/
theorem edited_put (htree : tree.isProper = true) (hdir : tree.nodeAt? dir = some (.dir entries))
    (hname : isName name = true) {node : Node} (hnode : node.entries = []) (hproper : node.isProper = true) :
    Edited (node = .file ·) tree (tree.put (dir ++ [name]) node) := by
  constructor
  · exact isProper_put htree hdir hname hproper
  · intro location file hfile
    by_cases hlocation : dir ++ [name] <+: location
    · obtain ⟨rest, rfl⟩ := hlocation
      rw [nodeAt?_put_append hdir] at hfile
      cases rest with
      | nil => exact Or.inr (Option.some.inj hfile)
      | cons first rest => simp [Node.get?, Node.entry?, hnode] at hfile
    · have hbare := Node.bare_get?_alter tree.rootNode hlocation fun _ => some node
      rw [← nodeAt?_put] at hbare
      exact Or.inl (((nodeAt?_iff_of_bare hbare).1 file).mpr hfile)

/-- To remove something adds nothing. -/
theorem edited_without {added : File → Prop} (htree : tree.isProper = true)
    (hdir : tree.nodeAt? dir = some (.dir entries)) (hname : isName name = true) :
    Edited added tree (tree.without (dir ++ [name])) := by
  constructor
  · exact isProper_without htree hdir hname
  · intro location file hfile
    by_cases hlocation : dir ++ [name] <+: location
    · obtain ⟨rest, rfl⟩ := hlocation
      rw [nodeAt?_without_append htree hdir] at hfile
      cases hfile
    · have hbare := Node.bare_get?_alter tree.rootNode hlocation fun _ => none
      rw [← nodeAt?_without] at hbare
      exact Or.inl (((nodeAt?_iff_of_bare hbare).1 file).mpr hfile)

end Directory

/-! ## Operations -/

theorem edited_makeDirs {added : File → Prop} (htree : tree.isProper = true)
    (h : tree.makeDirs path = .ok next) : Edited added tree next :=
  (keepsBut_makeDirs h).edited htree

theorem edited_remove {added : File → Prop} (htree : tree.isProper = true) (path : Path) :
    Edited added tree (tree.remove path) := by
  unfold remove
  split
  · rename_i dir name hholder
    obtain ⟨-, -, -, -, -, ⟨entries, hdir⟩, -⟩ := holder_spec hholder
    exact edited_without htree hdir (isName_of_holder hholder)
  · exact .refl htree

/-- What is put at a place to which a path leads is put into a directory. -/
theorem edited_put_of_locate (htree : tree.isProper = true) {location : Location}
    (h : tree.locate path = .ok location) (file : File) :
    Edited (· = file) tree (tree.put location (.file file)) := by
  rcases List.eq_nil_or_concat location with rfl | ⟨dir, name, rfl⟩
  · exact .refl htree
  · rw [List.concat_eq_append] at h ⊢
    obtain ⟨node, hnode, -⟩ := (locate_spec h).2
    obtain ⟨entries, hdir⟩ := isDir_of_nodeAt?_concat hnode
    have hname : isName name = true := (Node.isProper_get? htree hnode).1 name (by simp)
    exact (edited_put htree hdir hname rfl rfl).mono fun _ heq => (Node.file.inj heq).symm

/-- What is written is the only file that is added. -/
theorem edited_write (htree : tree.isProper = true) {node : Node} (hnode : node.entries = [])
    (hproper : node.isProper = true) (h : tree.write path node = .ok next) :
    Edited (node = .file ·) tree next := by
  obtain ⟨grown, hgrown, hput⟩ := bind_eq_ok_iff.mp h
  have hmade : Edited (node = .file ·) tree grown := edited_makeDirs htree hgrown
  apply hmade.trans
  split at hput
  · rename_i file location hlocate
    obtain rfl := Except.ok.inj hput
    exact (edited_put_of_locate hmade.proper hlocate file).mono fun _ heq => by rw [heq]
  · obtain ⟨⟨dir, found⟩, hholder, hput⟩ := bind_eq_ok_iff.mp hput
    cases found with
    | none => cases hput
    | some name =>
        obtain rfl := Except.ok.inj hput
        obtain ⟨-, -, -, -, -, ⟨entries, hdir⟩, -⟩ := holder_spec hholder
        exact edited_put hmade.proper hdir (isName_of_holder hholder) hnode hproper

/-! ## Times -/

/-- Whether a tree is proper and all its files were written before a time, and after the beginning. -/
structure IsStamped (time : Nat) (tree : FileTree) : Prop where
  proper : tree.isProper = true
  files : ∀ location file, tree.nodeAt? location = some (.file file) →
    0 < file.modified ∧ file.modified < time

/-- Whether what is at a place is no file, or one that was written before a time and after the
beginning. -/
def stampedAt (tree : FileTree) (time : Nat) (location : Location) : Bool :=
  match tree.nodeAt? location with
  | some (.file file) => 0 < file.modified && file.modified < time
  | _ => true

/-- The times of files can be checked place by place. -/
theorem isStamped_of_places {time : Nat} (hproper : tree.isProper = true)
    (h : tree.rootNode.filePlaces.all (tree.stampedAt time) = true) : tree.IsStamped time := by
  constructor
  · exact hproper
  · intro location file hfile
    have hplace := List.all_eq_true.mp h location (Node.mem_filePlaces hfile)
    rw [stampedAt, hfile, Bool.and_eq_true, decide_eq_true_iff, decide_eq_true_iff] at hplace
    exact hplace

/-- Whether all files of a later tree are those of an earlier one or have been written since a time. -/
def NewSince (time : Nat) (tree next : FileTree) : Prop :=
  ∀ location file, next.nodeAt? location = some (.file file) →
    tree.nodeAt? location = some (.file file) ∨ time ≤ file.modified

theorem NewSince.refl (time : Nat) (tree : FileTree) : NewSince time tree tree :=
  fun _ _ hfile => Or.inl hfile

theorem NewSince.trans {time later : Nat} (h : NewSince time tree next) (hlater : time ≤ later)
    (hlast : NewSince later next last) : NewSince time tree last := by
  intro location file hfile
  rcases hlast location file hfile with hnext | hnew
  · exact h location file hnext
  · exact Or.inr (Nat.le_trans hlater hnew)

theorem Edited.newSince {time : Nat} (h : Edited (·.modified = time) tree next) :
    NewSince time tree next := by
  intro location file hfile
  exact (h.files location file hfile).imp_right fun heq => Nat.le_of_eq heq.symm

theorem Edited.isStamped {time : Nat} (h : Edited (·.modified = time) tree next)
    (htree : tree.IsStamped time) (htime : 0 < time) : next.IsStamped (time + 1) := by
  constructor
  · exact h.proper
  · intro location file hfile
    rcases h.files location file hfile with hold | heq
    · obtain ⟨hpositive, hbefore⟩ := htree.files location file hold
      exact ⟨hpositive, Nat.lt_succ_of_lt hbefore⟩
    · rw [heq]
      exact ⟨htime, Nat.lt_succ_self time⟩

theorem modified?_of_file {file : File} (h : tree.node path = .ok (.file file)) :
    tree.modified? path = some file.modified := by
  rw [modified?, h]

/-- What has a time after the beginning is a file, since directories have none. -/
theorem exists_file_of_modified? {time : Nat} (h : tree.modified? path = some time) (htime : 0 < time) :
    ∃ file, tree.node path = .ok (.file file) ∧ file.modified = time := by
  unfold modified? at h
  split at h
  · rename_i file hfile
    exact ⟨file, hfile, Option.some.inj h⟩
  · obtain rfl := Option.some.inj h
    exact absurd htime (Nat.lt_irrefl 0)
  · cases h

/-- A document that is found at the same canonical path with the time that it had is the same file. -/
theorem NewSince.node_eq {time : Nat} (hnew : NewSince time tree next) (htree : tree.IsStamped time)
    {here : Path} (hhere : tree.IsFound here) (hnext : next.IsFound here) {file : File}
    (hfile : tree.node here = .ok (.file file)) (hsame : next.modified? here = tree.modified? here) :
    next.node here = .ok (.file file) := by
  obtain ⟨location, rfl, hnames, hthere⟩ := hhere.exists_place hfile
  obtain ⟨hpositive, hbefore⟩ := htree.files location file hthere
  rw [modified?_of_file hfile] at hsame
  obtain ⟨other, hother, hmodified⟩ := exists_file_of_modified? hsame hpositive
  obtain ⟨place, hplace, hnames', hthere'⟩ := hnext.exists_place hother
  obtain rfl := Path.pathOf_injective hnames hnames' hplace
  rcases hnew location other hthere' with hold | hlate
  · obtain rfl := Node.file.inj (Option.some.inj (hthere.symm.trans hold))
    exact hother
  · omega

end ScopedCheck.FileTree
