import Mathlib.Data.List.Induction
import ScopedCheck.FileTree.Change
import ScopedCheck.Proofs.Fallible
import ScopedCheck.Proofs.Path.Spelling
/-! # Lookups in file trees

A lookup as a relation: from a place, with a number of links that may still be followed, the pieces
of a path lead to a place and leave a number of links. A lookup may be cut anywhere, and what it ends
at is there and is no link. -/

namespace ScopedCheck.FileTree

open ScopedCheck.Path (AreNames)
open Fallible (bind_eq_ok_iff)

/-! ## Nodes below a node -/

theorem Node.get?_append (node : Node) (front rear : Location) :
    node.get? (front ++ rear) = (node.get? front).bind (·.get? rear) := by
  induction front generalizing node with
  | nil => rfl
  | cons name names ih =>
      simp only [List.cons_append, Node.get?]
      cases node.entry? name with
      | none => rfl
      | some below => exact ih below

theorem nodeAt?_append (tree : FileTree) (front rear : Location) :
    tree.nodeAt? (front ++ rear) = (tree.nodeAt? front).bind (·.get? rear) :=
  Node.get?_append ..

theorem nodeAt?_concat (tree : FileTree) (location : Location) (name : Name) :
    tree.nodeAt? (location ++ [name]) = (tree.nodeAt? location).bind fun node => node.entry? name := by
  rw [nodeAt?_append]
  congr 1
  funext node
  simp [Node.get?]

/-- Whatever is in something is in a directory. -/
theorem isDir_of_nodeAt?_concat {tree : FileTree} {location : Location} {name : Name} {below : Node}
    (h : tree.nodeAt? (location ++ [name]) = some below) :
    ∃ entries, tree.nodeAt? location = some (.dir entries) := by
  rw [nodeAt?_concat, Option.bind_eq_some_iff] at h
  obtain ⟨node, hnode, hbelow⟩ := h
  cases node with
  | dir entries => exact ⟨entries, hnode⟩
  | file _ => simp [Node.entry?, Node.entries] at hbelow
  | link _ => simp [Node.entry?, Node.entries] at hbelow

/-! ## Proper trees -/

mutual

/-- Whether the entries of all directories at a node and below it have different names that may stand
in a directory. -/
def Node.isProper : Node → Bool
  | .dir entries => areProper entries
  | _ => true

/-- Whether entries have different names that may stand in a directory, and so all the way down. -/
def areProper : List (Name × Node) → Bool
  | [] => true
  | (name, node) :: rest =>
      isName name && rest.all (·.1 != name) && node.isProper && areProper rest

end

/-- Whether all entries of a tree have names that file systems allow. -/
def isProper (tree : FileTree) : Bool := tree.rootNode.isProper

theorem areProper_cons {name : Name} {node : Node} {rest : List (Name × Node)} :
    areProper ((name, node) :: rest) = true ↔
      isName name = true ∧ (∀ entry ∈ rest, entry.1 ≠ name) ∧ node.isProper = true ∧
        areProper rest = true := by
  simp [areProper, and_assoc]

theorem Node.isProper_of_mem {entries : List (Name × Node)} (h : areProper entries = true)
    {name : Name} {node : Node} (hmem : (name, node) ∈ entries) :
    isName name = true ∧ node.isProper = true ∧ Node.entry? (.dir entries) name = some node := by
  induction entries with
  | nil => simp at hmem
  | cons entry rest ih =>
      obtain ⟨first, below⟩ := entry
      obtain ⟨hname, hfresh, hbelow, hrest⟩ := areProper_cons.mp h
      rcases List.mem_cons.mp hmem with heq | hmem
      · cases heq
        exact ⟨hname, hbelow, by simp [Node.entry?, Node.entries]⟩
      · obtain ⟨hn, hp, hentry⟩ := ih hrest hmem
        refine ⟨hn, hp, ?_⟩
        have hne : first ≠ name := fun heq => hfresh _ hmem heq.symm
        simpa [Node.entry?, Node.entries, List.find?_cons, hne] using hentry

theorem Node.mem_of_entry {entries : List (Name × Node)} {name : Name} {node : Node}
    (h : Node.entry? (.dir entries) name = some node) : (name, node) ∈ entries := by
  simp only [Node.entry?, Node.entries, Option.map_eq_some_iff] at h
  obtain ⟨⟨found, below⟩, hfind, rfl⟩ := h
  have hname := List.find?_some hfind
  simp only [beq_iff_eq] at hname
  exact hname ▸ List.mem_of_find?_eq_some hfind

theorem Node.isProper_entry {node below : Node} {name : Name} (hnode : node.isProper = true)
    (h : node.entry? name = some below) : isName name = true ∧ below.isProper = true := by
  cases node with
  | dir entries =>
      have hproper := isProper_of_mem (by simpa [Node.isProper] using hnode) (mem_of_entry h)
      exact ⟨hproper.1, hproper.2.1⟩
  | file _ => simp [Node.entry?, Node.entries] at h
  | link _ => simp [Node.entry?, Node.entries] at h

theorem Node.isProper_get? {node below : Node} {names : Location} (hnode : node.isProper = true)
    (h : node.get? names = some below) : AreNames names ∧ below.isProper = true := by
  induction names generalizing node with
  | nil =>
      simp only [Node.get?, Option.some.injEq] at h
      exact ⟨by simp [AreNames], h ▸ hnode⟩
  | cons name names ih =>
      simp only [Node.get?, Option.bind_eq_some_iff] at h
      obtain ⟨next, hnext, hbelow⟩ := h
      obtain ⟨hname, hproper⟩ := isProper_entry hnode hnext
      obtain ⟨hnames, hbelow⟩ := ih hproper hbelow
      refine ⟨fun n hn => ?_, hbelow⟩
      rcases List.mem_cons.mp hn with rfl | hn
      · exact hname
      · exact hnames n hn

/-! ## Lookups as a relation -/

/-- From a place, with a number of links that may be followed, pieces lead to a place and leave a
number of links. -/
inductive Leads (tree : FileTree) : Nat → Location → List Name → Nat → Location → Prop
  | done (links : Nat) (here : Location) : Leads tree links here [] links here
  | stay {links left : Nat} {here there : Location} {piece : Name} {rest : List Name}
      {entries : List (Name × Node)} (hdir : tree.nodeAt? here = some (.dir entries))
      (hpiece : piece = [] ∨ piece = ['.']) (hrest : Leads tree links here rest left there) :
      Leads tree links here (piece :: rest) left there
  | up {links left : Nat} {here there : Location} {rest : List Name}
      {entries : List (Name × Node)} (hdir : tree.nodeAt? here = some (.dir entries))
      (hrest : Leads tree links here.dropLast rest left there) :
      Leads tree links here (['.', '.'] :: rest) left there
  | enter {links left : Nat} {here there : Location} {name : Name} {rest : List Name}
      {node : Node} (hname : name ≠ [] ∧ name ≠ ['.'] ∧ name ≠ ['.', '.'])
      (hshort : isTooLong name = false) (hnode : tree.nodeAt? (here ++ [name]) = some node)
      (hkind : ∀ target, node ≠ .link target)
      (hrest : Leads tree links (here ++ [name]) rest left there) :
      Leads tree links here (name :: rest) left there
  | jump {links left : Nat} {here there : Location} {name : Name} {rest : List Name}
      {target : Path} (hname : name ≠ [] ∧ name ≠ ['.'] ∧ name ≠ ['.', '.'])
      (hshort : isTooLong name = false) (hnode : tree.nodeAt? (here ++ [name]) = some (.link target))
      (hrest : Leads tree links (if target.isAbsolute then [] else here)
        (target.segments ++ rest) left there) :
      Leads tree (links + 1) here (name :: rest) left there

/-- Pieces that are followed up to a link lead on when the link does. -/
theorem Leads.of_followBy {tree : FileTree} {links : Nat} {here there : Location}
    {pieces : List Name} {jump : Location → List Name → Except Fault Location}
    (hjump : ∀ here pieces, jump here pieces = .ok there →
      ∃ fewer left, links = fewer + 1 ∧ Leads tree fewer here pieces left there)
    (h : tree.followBy jump here pieces = .ok there) :
    ∃ left, Leads tree links here pieces left there := by
  fun_induction tree.followBy jump here pieces with
  | case1 here =>
      cases h
      exact ⟨links, .done links _⟩
  | case2 here piece rest entries hdir hpiece ih =>
      obtain ⟨left, hrest⟩ := ih h
      exact ⟨left, .stay hdir (by simpa using hpiece) hrest⟩
  | case3 here rest entries hdir hpiece ih =>
      obtain ⟨left, hrest⟩ := ih h
      exact ⟨left, .up hdir hrest⟩
  | case4 => cases h
  | case5 => cases h
  | case6 here name rest entries hdir hpiece hup hshort target hnode =>
      have hname : name ≠ [] ∧ name ≠ ['.'] := by simpa using hpiece
      obtain ⟨fewer, left, rfl, hrest⟩ := hjump _ _ h
      exact ⟨left, .jump ⟨hname.1, hname.2, hup⟩ (by simpa using hshort) hnode hrest⟩
  | case7 here name rest entries hdir hpiece hup hshort node hkind hnode ih =>
      have hname : name ≠ [] ∧ name ≠ ['.'] := by simpa using hpiece
      obtain ⟨left, hrest⟩ := ih h
      exact ⟨left, .enter ⟨hname.1, hname.2, hup⟩ (by simpa using hshort) hnode hkind hrest⟩
  | case8 => cases h

theorem Leads.of_follow {tree : FileTree} {links : Nat} {here there : Location}
    {pieces : List Name} (h : tree.follow links here pieces = .ok there) :
    ∃ left, Leads tree links here pieces left there := by
  induction links generalizing here pieces with
  | zero => exact of_followBy (by simp) h
  | succ fewer ih =>
      refine of_followBy (fun here pieces h => ?_) h
      obtain ⟨left, hleads⟩ := ih h
      exact ⟨fewer, left, rfl, hleads⟩

/-- A lookup follows pieces up to a link, and then does what its number of links allows. -/
theorem follow_eq_followBy (tree : FileTree) (links : Nat) :
    ∃ jump, tree.follow links = tree.followBy jump := by
  cases links with
  | zero => exact ⟨_, rfl⟩
  | succ fewer => exact ⟨_, rfl⟩

theorem Leads.follow_eq {tree : FileTree} {links left : Nat} {here there : Location}
    {pieces : List Name} (h : Leads tree links here pieces left there) :
    tree.follow links here pieces = .ok there := by
  induction h with
  | done links here =>
      obtain ⟨jump, hjump⟩ := follow_eq_followBy tree links
      rw [hjump, followBy]
  | @stay links _ _ _ _ _ _ hdir hpiece _ ih =>
      obtain ⟨jump, hjump⟩ := follow_eq_followBy tree links
      rw [hjump] at ih ⊢
      rw [followBy]
      rcases hpiece with rfl | rfl <;> simpa [hdir] using ih
  | @up links _ _ _ _ _ hdir _ ih =>
      obtain ⟨jump, hjump⟩ := follow_eq_followBy tree links
      rw [hjump] at ih ⊢
      rw [followBy]
      simpa [hdir] using ih
  | @enter links _ _ _ _ _ _ hname hshort hnode hkind _ ih =>
      obtain ⟨jump, hjump⟩ := follow_eq_followBy tree links
      obtain ⟨entries, hdir⟩ := isDir_of_nodeAt?_concat hnode
      rw [hjump] at ih ⊢
      rw [followBy]
      simpa [hdir, hname, hshort, hnode] using ih
  | jump hname hshort hnode _ ih =>
      obtain ⟨entries, hdir⟩ := isDir_of_nodeAt?_concat hnode
      rw [follow, followBy]
      simpa [hdir, hname, hshort, hnode] using ih

/-- A lookup may be cut anywhere. -/
theorem Leads.append_iff {tree : FileTree} {links left : Nat} {here there : Location}
    {front rear : List Name} :
    Leads tree links here (front ++ rear) left there ↔
      ∃ links' mid, Leads tree links here front links' mid ∧ Leads tree links' mid rear left there := by
  constructor
  · intro h
    generalize hp : front ++ rear = pieces at h
    induction h generalizing front with
    | done links here =>
        obtain ⟨rfl, rfl⟩ := List.append_eq_nil_iff.mp hp
        exact ⟨links, here, .done links here, .done links here⟩
    | @stay links _ here _ piece rest entries hdir hpiece hrest ih =>
        cases front with
        | nil =>
            obtain rfl : rear = piece :: rest := hp
            exact ⟨links, here, .done .., .stay hdir hpiece hrest⟩
        | cons first front =>
            obtain ⟨rfl, rfl⟩ := List.cons.inj hp
            obtain ⟨links', mid, hfront, hrear⟩ := ih rfl
            exact ⟨links', mid, .stay hdir hpiece hfront, hrear⟩
    | @up links _ here _ rest entries hdir hrest ih =>
        cases front with
        | nil =>
            obtain rfl : rear = ['.', '.'] :: rest := hp
            exact ⟨links, here, .done .., .up hdir hrest⟩
        | cons first front =>
            obtain ⟨rfl, rfl⟩ := List.cons.inj hp
            obtain ⟨links', mid, hfront, hrear⟩ := ih rfl
            exact ⟨links', mid, .up hdir hfront, hrear⟩
    | @enter links _ here _ name rest node hname hshort hnode hkind hrest ih =>
        cases front with
        | nil =>
            obtain rfl : rear = name :: rest := hp
            exact ⟨links, here, .done .., .enter hname hshort hnode hkind hrest⟩
        | cons first front =>
            obtain ⟨rfl, rfl⟩ := List.cons.inj hp
            obtain ⟨links', mid, hfront, hrear⟩ := ih rfl
            exact ⟨links', mid, .enter hname hshort hnode hkind hfront, hrear⟩
    | @jump links _ here _ name rest target hname hshort hnode hrest ih =>
        cases front with
        | nil =>
            obtain rfl : rear = name :: rest := hp
            exact ⟨links + 1, here, .done .., .jump hname hshort hnode hrest⟩
        | cons first front =>
            obtain ⟨rfl, rfl⟩ := List.cons.inj hp
            obtain ⟨links', mid, hfront, hrear⟩ := ih (List.append_assoc _ front rear)
            exact ⟨links', mid, .jump hname hshort hnode hfront, hrear⟩
  · rintro ⟨links', mid, hfront, hrear⟩
    induction hfront with
    | done => exact hrear
    | stay hdir hpiece _ ih => exact .stay hdir hpiece (ih hrear)
    | up hdir _ ih => exact .up hdir (ih hrear)
    | enter hname hshort hnode hkind _ ih => exact .enter hname hshort hnode hkind (ih hrear)
    | jump hname hshort hnode _ ih =>
        exact .jump hname hshort hnode (by simpa using ih hrear)

/-- A place where a lookup may stand: something is there, and it is no link. -/
def IsPlace (tree : FileTree) (location : Location) : Prop :=
  ∃ node, tree.nodeAt? location = some node ∧ ∀ target, node ≠ .link target

theorem isPlace_nil (tree : FileTree) : tree.IsPlace [] :=
  ⟨tree.rootNode, rfl, fun _ h => by cases h⟩

theorem IsPlace.dropLast {tree : FileTree} {location : Location} (h : tree.IsPlace location) :
    tree.IsPlace location.dropLast := by
  rcases List.eq_nil_or_concat location with rfl | ⟨front, last, rfl⟩
  · exact h
  · obtain ⟨node, hnode, -⟩ := h
    rw [List.concat_eq_append] at hnode
    obtain ⟨entries, hdir⟩ := isDir_of_nodeAt?_concat hnode
    refine ⟨.dir entries, ?_, fun _ h => by cases h⟩
    simpa using hdir

/-- A lookup that starts at a place ends at a place. -/
theorem Leads.isPlace {tree : FileTree} {links left : Nat} {here there : Location}
    {pieces : List Name} (h : Leads tree links here pieces left there) (hhere : tree.IsPlace here) :
    tree.IsPlace there := by
  induction h with
  | done => exact hhere
  | stay _ _ _ ih => exact ih hhere
  | up _ _ ih => exact ih hhere.dropLast
  | enter _ _ hnode hkind _ ih => exact ih ⟨_, hnode, hkind⟩
  | @jump _ _ here _ _ _ target _ _ _ _ ih =>
      apply ih
      split
      · exact isPlace_nil tree
      · exact hhere

/-! ## What paths lead to -/

theorem text_ne_of_isAbsolute {path : Path} (h : path.isAbsolute = true) :
    path.text.isEmpty = false := by
  obtain ⟨cs, hcs⟩ := Path.chars_eq_of_isAbsolute h
  cases htext : path.text.isEmpty with
  | false => rfl
  | true =>
      rw [String.isEmpty_iff] at htext
      simp [Path.chars, htext] at hcs

theorem segmentsOf_eq {path : Path} {pieces : List Name} (h : segmentsOf path = .ok pieces) :
    pieces = path.segments := by
  unfold segmentsOf at h
  split at h
  · cases h
  · split at h
    · cases h
    · exact (Except.ok.inj h).symm

theorem segments_eq_concat (path : Path) : ∃ front last, path.segments = front ++ [last] := by
  have hne : path.segments ≠ [] := Text.splitOn_ne_nil _ _
  exact ⟨path.segments.dropLast, path.segments.getLast hne, (List.dropLast_concat_getLast hne).symm⟩

theorem follow_eq_ok_iff {tree : FileTree} {links : Nat} {here there : Location}
    {pieces : List Name} :
    tree.follow links here pieces = .ok there ↔ ∃ left, Leads tree links here pieces left there :=
  ⟨Leads.of_follow, fun ⟨_, h⟩ => h.follow_eq⟩

theorem locate_eq_ok_iff {tree : FileTree} {path : Path} {location : Location} :
    tree.locate path = .ok location ↔ path.text.isEmpty = false ∧ ∃ pieces left,
      segmentsOf path = .ok pieces ∧ Leads tree maxLinks [] pieces left location := by
  cases hempty : path.text.isEmpty with
  | true => simp [locate, hempty]
  | false => simp [locate, hempty, bind_eq_ok_iff, follow_eq_ok_iff]

theorem node_eq_ok_iff_locate {tree : FileTree} {path : Path} {node : Node} :
    tree.node path = .ok node ↔
      ∃ location, tree.locate path = .ok location ∧ tree.nodeAt? location = some node := by
  rw [FileTree.node, bind_eq_ok_iff]
  refine exists_congr fun location => and_congr_right fun _ => ?_
  cases tree.nodeAt? location with
  | none => simp
  | some found => simp

theorem node_eq_ok_iff {tree : FileTree} {path : Path} {node : Node} :
    tree.node path = .ok node ↔ path.text.isEmpty = false ∧
      ∃ pieces left location, segmentsOf path = .ok pieces ∧
        Leads tree maxLinks [] pieces left location ∧ tree.nodeAt? location = some node := by
  rw [node_eq_ok_iff_locate]
  simp only [locate_eq_ok_iff]
  constructor
  · rintro ⟨location, ⟨hempty, pieces, left, hpieces, hleads⟩, hnode⟩
    exact ⟨hempty, pieces, left, location, hpieces, hleads, hnode⟩
  · rintro ⟨hempty, pieces, left, location, hpieces, hleads, hnode⟩
    exact ⟨location, ⟨hempty, pieces, left, hpieces, hleads⟩, hnode⟩

/-- Whether a piece at the end of a path is a name there. -/
def IsLastName (piece : Name) : Prop := piece ≠ [] ∧ piece ≠ ['.'] ∧ piece ≠ ['.', '.']

theorem unfollowed_eq_ok_iff {tree : FileTree} {path : Path} {node : Node} :
    tree.unfollowed path = .ok node ↔
      ∃ found, tree.holder path = .ok found ∧
        tree.nodeAt? (found.1 ++ found.2.toList) = some node := by
  rw [unfollowed, bind_eq_ok_iff]
  refine exists_congr fun ⟨dir, name⟩ => and_congr_right fun _ => ?_
  cases hfound : tree.nodeAt? (dir ++ name.toList) with
  | none => simp [hfound]
  | some found => simp [hfound]

/-- A path that ends in a name is held by the directory that the pieces in front of it lead to. -/
theorem holder_eq_ok_iff_of_isLastName {tree : FileTree} {path : Path} {front : List Name}
    {last : Name} (hpieces : segmentsOf path = .ok (front ++ [last])) (hlast : IsLastName last)
    {found : Location × Option Name} :
    tree.holder path = .ok found ↔ ∃ left dir, Leads tree maxLinks [] front left dir ∧
      (∃ entries, tree.nodeAt? dir = some (.dir entries)) ∧ isTooLong last = false ∧
        found = (dir, some last) := by
  obtain ⟨hblank, hdot, hup⟩ := hlast
  have hnamed : (decide False || decide False || decide False) = false := by decide
  simp only [holder, hpieces, bind, Except.bind, List.getLast?_concat, hblank, hdot, hup, hnamed,
    Bool.false_eq_true, if_false, List.dropLast_concat]
  cases hfollow : tree.follow maxLinks [] front with
  | error fault =>
      have hlost : ∀ left dir, ¬Leads tree maxLinks [] front left dir := by
        intro left dir hleads
        rw [hleads.follow_eq] at hfollow
        cases hfollow
      simp [hlost]
  | ok dir =>
      have hleads : ∀ other, (∃ left, Leads tree maxLinks [] front left other) ↔ dir = other := by
        intro other
        rw [← follow_eq_ok_iff, hfollow, Except.ok.injEq]
      rw [exists_comm]
      simp only [exists_and_right, hleads, exists_eq_left']
      split
      · rename_i entries hdir
        cases isTooLong last <;> simp [hdir, pure, Except.pure, eq_comm]
      · rename_i hdir
        have hnot : ¬∃ entries, tree.nodeAt? dir = some (.dir entries) := by
          rintro ⟨entries, h⟩
          exact hdir entries h
        simp [hnot]

/-- At the end of a path that ends in a name stands whatever the directory in front of the name has
for it. -/
theorem unfollowed_eq_ok_iff_of_isLastName {tree : FileTree} {path : Path} {front : List Name}
    {last : Name} (hpieces : segmentsOf path = .ok (front ++ [last])) (hlast : IsLastName last)
    {node : Node} :
    tree.unfollowed path = .ok node ↔
      ∃ left dir, Leads tree maxLinks [] front left dir ∧ isTooLong last = false ∧
        tree.nodeAt? (dir ++ [last]) = some node := by
  simp only [unfollowed_eq_ok_iff, holder_eq_ok_iff_of_isLastName hpieces hlast]
  constructor
  · rintro ⟨found, ⟨left, dir, hleads, -, hshort, rfl⟩, hnode⟩
    exact ⟨left, dir, hleads, hshort, hnode⟩
  · rintro ⟨left, dir, hleads, hshort, hnode⟩
    exact ⟨_, ⟨left, dir, hleads, isDir_of_nodeAt?_concat hnode, hshort, rfl⟩, hnode⟩

/-- A path that ends in no name is held by what it leads to. -/
theorem holder_of_not_isLastName {tree : FileTree} {path : Path} {front : List Name} {last : Name}
    (hpieces : segmentsOf path = .ok (front ++ [last])) (hlast : ¬IsLastName last) :
    tree.holder path = (do
      let location ← tree.follow maxLinks [] (front ++ [last])
      return (location, none)) := by
  have hblank : last = [] ∨ last = ['.'] ∨ last = ['.', '.'] := by
    by_cases hempty : last = []
    · exact Or.inl hempty
    · by_cases hdot : last = ['.']
      · exact Or.inr (Or.inl hdot)
      · exact Or.inr (Or.inr (Decidable.byContradiction fun hup => hlast ⟨hempty, hdot, hup⟩))
  rcases hblank with rfl | rfl | rfl <;> simp [holder, hpieces, bind, Except.bind]

/-- At the end of a path that ends in no name stands what the path leads to. -/
theorem unfollowed_eq_ok_iff_of_not_isLastName {tree : FileTree} {path : Path} {front : List Name}
    {last : Name} (hpieces : segmentsOf path = .ok (front ++ [last])) (hlast : ¬IsLastName last)
    {node : Node} :
    tree.unfollowed path = .ok node ↔
      ∃ left location, Leads tree maxLinks [] (front ++ [last]) left location ∧
        tree.nodeAt? location = some node := by
  rw [unfollowed_eq_ok_iff, holder_of_not_isLastName hpieces hlast]
  constructor
  · rintro ⟨found, hfound, hnode⟩
    obtain ⟨location, hfollow, hlocation⟩ := bind_eq_ok_iff.mp hfound
    obtain ⟨left, hleads⟩ := Leads.of_follow hfollow
    obtain rfl := Except.ok.inj hlocation
    exact ⟨left, location, hleads, by simpa using hnode⟩
  · rintro ⟨left, location, hleads, hnode⟩
    exact ⟨(location, none), bind_eq_ok_iff.mpr ⟨location, hleads.follow_eq, rfl⟩, by simpa using hnode⟩

/-- The node that a path leads to stands at the end of the path, or a link does. -/
theorem unfollowed_of_node {tree : FileTree} {path : Path} {node : Node}
    (h : tree.node path = .ok node) :
    tree.unfollowed path = .ok node ∨ ∃ target, tree.unfollowed path = .ok (.link target) := by
  obtain ⟨-, pieces, left, location, hpieces, hleads, hnode⟩ := node_eq_ok_iff.mp h
  obtain ⟨front, last, hconcat⟩ := segments_eq_concat path
  obtain rfl : pieces = front ++ [last] := (segmentsOf_eq hpieces).trans hconcat
  by_cases hlast : IsLastName last
  · simp only [unfollowed_eq_ok_iff_of_isLastName hpieces hlast]
    obtain ⟨_, dir, hfront, hrear⟩ := Leads.append_iff.mp hleads
    cases hrear with
    | stay _ hpiece => exact absurd hpiece (not_or.mpr ⟨hlast.1, hlast.2.1⟩)
    | up => exact absurd rfl hlast.2.2
    | enter _ hshort _ _ hrest =>
        cases hrest
        exact Or.inl ⟨_, dir, hfront, hshort, hnode⟩
    | @jump _ _ _ _ _ _ target _ hshort hlink _ =>
        exact Or.inr ⟨target, _, dir, hfront, hshort, hlink⟩
  · exact Or.inl ((unfollowed_eq_ok_iff_of_not_isLastName hpieces hlast).mpr
      ⟨left, location, hleads, hnode⟩)

theorem segmentsOf_of_unfollowed {tree : FileTree} {path : Path} {node : Node}
    (h : tree.unfollowed path = .ok node) : segmentsOf path = .ok path.segments := by
  obtain ⟨found, hfound, -⟩ := unfollowed_eq_ok_iff.mp h
  obtain ⟨pieces, hpieces, -⟩ := bind_eq_ok_iff.mp hfound
  rw [hpieces, segmentsOf_eq hpieces]

/-- What stands at the end of a path and is no link is what the path leads to. -/
theorem node_of_unfollowed {tree : FileTree} {path : Path} (habs : path.isAbsolute = true)
    {node : Node} (h : tree.unfollowed path = .ok node) (hkind : ∀ target, node ≠ .link target) :
    tree.node path = .ok node := by
  obtain ⟨front, last, hconcat⟩ := segments_eq_concat path
  have hpieces := segmentsOf_of_unfollowed h
  rw [hconcat] at hpieces
  rw [node_eq_ok_iff]
  refine ⟨text_ne_of_isAbsolute habs, ?_⟩
  by_cases hlast : IsLastName last
  · obtain ⟨left, dir, hfront, hshort, hnode⟩ :=
      (unfollowed_eq_ok_iff_of_isLastName hpieces hlast).mp h
    have hrear : Leads tree left dir [last] left (dir ++ [last]) :=
      .enter hlast hshort hnode hkind (.done left _)
    exact ⟨_, left, dir ++ [last], hpieces, Leads.append_iff.mpr ⟨left, dir, hfront, hrear⟩, hnode⟩
  · obtain ⟨left, location, hleads, hnode⟩ :=
      (unfollowed_eq_ok_iff_of_not_isLastName hpieces hlast).mp h
    exact ⟨_, left, location, hpieces, hleads, hnode⟩

/-! ## The directory above a file -/

theorem isFile_iff {tree : FileTree} {path : Path} :
    tree.isFile path = true ↔ ∃ file, tree.node path = .ok (.file file) := by
  simp only [isFile, file?]
  constructor
  · intro h
    split at h
    · exact ⟨_, ‹_›⟩
    · simp at h
  · rintro ⟨file, hfile⟩
    simp [hfile]

theorem upToLastStep_concat (absolute : Bool) (front : List Name) {last : Name}
    (h : Path.isStep last = true) :
    Path.upToLastStep absolute (front ++ [last]) = front ++ [last] := by
  cases front with
  | nil => simp [Path.upToLastStep, h]
  | cons first front => simp [Path.upToLastStep, h]

/-- What is cut off behind the last step is no step. -/
theorem upToLastStep_append_blanks (absolute : Bool) (pieces : List Name) :
    ∃ blanks, pieces = Path.upToLastStep absolute pieces ++ blanks ∧
      ∀ blank ∈ blanks, Path.isStep blank = false := by
  induction pieces using List.reverseRecOn with
  | nil => exact ⟨[], rfl, by simp⟩
  | append_singleton front last ih =>
      cases hlast : Path.isStep last with
      | true => exact ⟨[], by rw [upToLastStep_concat absolute front hlast, List.append_nil], by simp⟩
      | false =>
          cases front with
          | nil =>
              by_cases hdot : (!absolute && last == ['.']) = true
              · exact ⟨[], by simp [Path.upToLastStep, hlast, hdot], by simp⟩
              · exact ⟨[last], by simp [Path.upToLastStep, hlast, hdot], by simpa using hlast⟩
          | cons first front =>
              obtain ⟨blanks, hfront, hblanks⟩ := ih
              have hcut : Path.upToLastStep absolute (first :: front ++ [last]) =
                  Path.upToLastStep absolute (first :: front) := by
                simp [Path.upToLastStep, hlast]
              refine ⟨blanks ++ [last], ?_, ?_⟩
              · rw [hcut, ← List.append_assoc, ← hfront]
              · intro blank hblank
                rcases List.mem_append.mp hblank with hblank | hblank
                · exact hblanks blank hblank
                · rw [List.mem_singleton.mp hblank, hlast]

/-- Pieces that are no steps lead nowhere else. -/
theorem Leads.eq_of_blanks {tree : FileTree} {links left : Nat} {here there : Location}
    {blanks : List Name} (h : Leads tree links here blanks left there)
    (hblanks : ∀ blank ∈ blanks, Path.isStep blank = false) : there = here := by
  induction h with
  | done => rfl
  | stay _ _ _ ih => exact ih fun blank hblank => hblanks blank (by simp [hblank])
  | up => exact absurd (hblanks ['.', '.'] (by simp)) (by decide)
  | enter hname | jump hname =>
      have hblank := hblanks _ (List.mem_cons_self ..)
      simp [Path.isStep, hname] at hblank

/-- A path to a file ends in a name, and what is in front of it leads to a directory. -/
theorem isFile_concat {tree : FileTree} {path : Path} (h : tree.isFile path = true) :
    ∃ front last left dir entries, path.segments = front ++ [last] ∧ IsLastName last ∧
      Leads tree maxLinks [] front left dir ∧ tree.nodeAt? dir = some (.dir entries) := by
  obtain ⟨file, hfile⟩ := isFile_iff.mp h
  obtain ⟨-, pieces, left, location, hpieces, hleads, hlocation⟩ := node_eq_ok_iff.mp hfile
  obtain ⟨front, last, hconcat⟩ := segments_eq_concat path
  obtain rfl : pieces = front ++ [last] := (segmentsOf_eq hpieces).trans hconcat
  obtain ⟨_, dir, hfront, hrear⟩ := Leads.append_iff.mp hleads
  cases hrear with
  | stay hdir _ hrest =>
      cases hrest
      rw [hdir] at hlocation
      simp at hlocation
  | @up _ _ _ _ _ entries hdir hrest =>
      cases hrest
      rcases List.eq_nil_or_concat dir with rfl | ⟨above, name, rfl⟩
      · rw [List.dropLast_nil, hdir] at hlocation
        simp at hlocation
      · rw [List.concat_eq_append] at hdir hlocation
        obtain ⟨_, habove⟩ := isDir_of_nodeAt?_concat hdir
        rw [List.dropLast_concat, habove] at hlocation
        simp at hlocation
  | enter hname _ hentry =>
      obtain ⟨entries, hdir⟩ := isDir_of_nodeAt?_concat hentry
      exact ⟨front, last, _, dir, entries, hconcat, hname, hfront, hdir⟩
  | jump hname _ hentry =>
      obtain ⟨entries, hdir⟩ := isDir_of_nodeAt?_concat hentry
      exact ⟨front, last, _, dir, entries, hconcat, hname, hfront, hdir⟩

/-- The path above a path that ends in a name. -/
theorem parent_eq {path : Path} {front : List Name} {last : Name}
    (hconcat : path.segments = front ++ [last]) (hlast : IsLastName last) :
    path.parent = Path.ofSegments path.isAbsolute (Path.upToLastStep path.isAbsolute front) := by
  have hstep : Path.isStep last = true := by simp [Path.isStep, hlast.1, hlast.2.1]
  have hparent : path.parent? =
      some (Path.ofSegments path.isAbsolute (Path.upToLastStep path.isAbsolute front)) := by
    rw [Path.parent?, hconcat, upToLastStep_concat _ front hstep]
    cases front with
    | nil => rfl
    | cons first front => simp [List.dropLast_cons_of_ne_nil]
  rw [Path.parent, hparent, Option.getD_some]

theorem parent_eq_pathOf {path : Path} (habs : path.isAbsolute = true) {front : List Name}
    {last : Name} (hconcat : path.segments = front ++ [last]) (hlast : IsLastName last) :
    path.parent = pathOf (Path.upToLastStep true front) := by
  rw [parent_eq hconcat hlast, habs, pathOf]

/-- What is in front of the name of a file leads to the same place as the path above the file. -/
theorem leads_parent {tree : FileTree} {path : Path} {front : List Name} {last : Name}
    (hconcat : path.segments = front ++ [last]) {left : Nat} {dir : Location}
    (hfront : Leads tree maxLinks [] front left dir) :
    ∃ left', Leads tree maxLinks []
      (pathOf (Path.upToLastStep true front)).segments left' dir := by
  obtain ⟨blanks, hcut, hblanks⟩ := upToLastStep_append_blanks true front
  rw [hcut] at hfront
  obtain ⟨left', mid, hsteps, hrest⟩ := Leads.append_iff.mp hfront
  obtain rfl := hrest.eq_of_blanks hblanks
  by_cases hempty : Path.upToLastStep true front = []
  · rw [hempty] at hsteps ⊢
    cases hsteps
    exact ⟨maxLinks, .stay rfl (Or.inl rfl) (.done ..)⟩
  · have hslash : ∀ piece ∈ Path.upToLastStep true front, '/' ∉ piece := by
      intro piece hpiece
      have hmem : piece ∈ path.segments := by
        rw [hconcat, hcut]
        simp [hpiece]
      exact Text.notMem_of_mem_splitOn hmem
    have hsegments : (pathOf (Path.upToLastStep true front)).segments =
        Path.upToLastStep true front := by
      rw [Path.segments_of_chars (Path.chars_pathOf _), Text.splitOn_joinWith hempty hslash]
    exact ⟨left', by rw [hsegments]; exact hsteps⟩

/-- Above a file is no file. -/
theorem isFile_parent {tree : FileTree} {path : Path} (habs : path.isAbsolute = true)
    (h : tree.isFile path = true) :
    path.parent.isAbsolute = true ∧ tree.isFile path.parent = false := by
  obtain ⟨front, last, left, dir, entries, hconcat, hlast, hfront, hdir⟩ := isFile_concat h
  obtain ⟨left', hparent⟩ := leads_parent hconcat hfront
  rw [← parent_eq_pathOf habs hconcat hlast] at hparent
  have habove : path.parent.isAbsolute = true := by
    rw [parent_eq_pathOf habs hconcat hlast]
    exact Path.isAbsolute_pathOf _
  refine ⟨habove, ?_⟩
  cases hnode : tree.node path.parent with
  | error fault => simp [isFile, file?, hnode]
  | ok node =>
      obtain ⟨-, pieces, _, location, hpieces, hleads, hlocation⟩ := node_eq_ok_iff.mp hnode
      rw [segmentsOf_eq hpieces] at hleads
      obtain rfl : location = dir := Except.ok.inj (hleads.follow_eq.symm.trans hparent.follow_eq)
      obtain rfl : Node.dir entries = node := Option.some.inj (hdir.symm.trans hlocation)
      simp [isFile, file?, hnode]

end ScopedCheck.FileTree
