import ScopedCheck.Proofs.FileTree.Lookup
/-! # Growing trees

A tree grows when more is created in it and all that was there stays: directories may have more
entries, anything else is as it was. What a path led to is still found by it afterwards. -/

namespace ScopedCheck.FileTree

open Fallible (bind_eq_ok_iff)

namespace Node

/-- Whether a node stays while more is created: a directory is still one, and anything else is as it
was. -/
def Stays (node grown : Node) : Prop := if node.isDir then grown.isDir = true else grown = node

theorem Stays.refl (node : Node) : node.Stays node := by
  unfold Stays
  split
  · assumption
  · rfl

theorem Stays.exists_entries {entries : List (Name × Node)} {grown : Node}
    (h : Stays (.dir entries) grown) : ∃ more, grown = .dir more := by
  cases grown with
  | dir more => exact ⟨more, rfl⟩
  | file _ => cases h
  | link _ => cases h

/-- Whether everything at and below a node stays. -/
def Grows (node grown : Node) : Prop :=
  ∀ names below, node.get? names = some below →
    ∃ other, grown.get? names = some other ∧ below.Stays other

theorem entry?_cons (first : Name × Node) (rest : List (Name × Node)) (name : Name) :
    entry? (.dir (first :: rest)) name =
      if first.1 = name then some first.2 else entry? (.dir rest) name := by
  by_cases h : first.1 = name <;> simp [Node.entries, entry?, h]

/-- Setting an entry changes what its name stands for, and nothing else. -/
theorem entry?_setEntry (entries : List (Name × Node)) (name other : Name) (node : Node) :
    entry? (.dir (setEntry entries name (some node))) other =
      if other = name then some node else entry? (.dir entries) other := by
  induction entries with
  | nil =>
      rw [setEntry, entry?_cons]
      simp only [eq_comm]
  | cons first rest ih =>
      rw [setEntry, entry?_cons]
      by_cases hfirst : first.1 = name
      · rw [if_pos hfirst, hfirst, Option.map_some, Option.toList_some, List.singleton_append, entry?_cons]
        simp only [eq_comm]
        split <;> rfl
      · rw [if_neg hfirst, entry?_cons, ih]
        by_cases hother : first.1 = other
        · rw [if_pos hother, if_pos hother, if_neg fun heq => hfirst (hother.trans heq)]
        · rw [if_neg hother, if_neg hother]

/-- A directory grows with the entry that is set, if there was less for its name before. -/
theorem grows_setEntry {entries : List (Name × Node)} {name : Name} {node : Node}
    (h : ∀ below, entry? (.dir entries) name = some below → below.Grows node) :
    Grows (.dir entries) (.dir (setEntry entries name (some node))) := by
  intro names below hbelow
  cases names with
  | nil =>
      obtain rfl := Option.some.inj hbelow
      exact ⟨_, rfl, rfl⟩
  | cons first rest =>
      simp only [get?, Option.bind_eq_some_iff, entry?_setEntry] at hbelow ⊢
      obtain ⟨next, hnext, hbelow⟩ := hbelow
      by_cases hfirst : first = name
      · subst hfirst
        obtain ⟨other, hother, hstays⟩ := h next hnext rest below hbelow
        exact ⟨other, ⟨node, if_pos rfl, hother⟩, hstays⟩
      · exact ⟨below, ⟨next, by rw [if_neg hfirst, hnext], hbelow⟩, .refl below⟩

/-- A change further down is a change of one entry. -/
theorem exists_alter_cons {node next : Node} {first : Name} (hnext : node.entry? first = some next)
    (names : Location) (name : Name) : ∃ entries, node = .dir entries ∧
      ∀ change, node.alter (first :: (names ++ [name])) change =
        .dir (setEntry entries first (some (next.alter (names ++ [name]) change))) := by
  cases node with
  | file _ => cases hnext
  | link _ => cases hnext
  | dir entries =>
      obtain ⟨second, more, hmore⟩ := List.exists_cons_of_ne_nil (List.append_ne_nil_of_right_ne_nil
        names (List.cons_ne_nil name []))
      refine ⟨entries, rfl, fun change => ?_⟩
      rw [hmore]
      simp only [alter, hnext]

/-- Something new below a node lets it grow, and is found where it was put. -/
theorem alter_spec (new : Node) {node : Node} {names : Location} {name : Name}
    {entries : List (Name × Node)} (hdir : node.get? names = some (.dir entries))
    (hfree : entry? (.dir entries) name = none) :
    node.Grows (node.alter (names ++ [name]) fun _ => some new) ∧
      (node.alter (names ++ [name]) fun _ => some new).get? (names ++ [name]) = some new := by
  induction names generalizing node with
  | nil =>
      obtain rfl := Option.some.inj hdir
      refine ⟨grows_setEntry fun below hbelow => ?_, ?_⟩
      · rw [hfree] at hbelow
        cases hbelow
      · simp [alter, get?, entry?_setEntry]
  | cons first rest ih =>
      simp only [get?, Option.bind_eq_some_iff] at hdir
      obtain ⟨next, hnext, hdir⟩ := hdir
      obtain ⟨hgrows, hfound⟩ := ih hdir
      obtain ⟨outer, rfl, halter⟩ := exists_alter_cons hnext rest name
      rw [List.cons_append, halter]
      refine ⟨grows_setEntry fun below hbelow => ?_, ?_⟩
      · rwa [← Option.some.inj (hnext.symm.trans hbelow)]
      · rw [get?, entry?_setEntry, if_pos rfl]
        exact hfound

end Node

/-- Whether all that is in a tree stays in another one. -/
def Grows (tree grown : FileTree) : Prop := tree.rootNode.Grows grown.rootNode

/-- Something new in a directory lets a tree grow, and is found where it was put. -/
theorem put_spec {tree : FileTree} {dir : Location} {name : Name} {entries : List (Name × Node)}
    (hdir : tree.nodeAt? dir = some (.dir entries)) (hfree : tree.nodeAt? (dir ++ [name]) = none)
    (new : Node) :
    tree.Grows (tree.put (dir ++ [name]) new) ∧
      (tree.put (dir ++ [name]) new).nodeAt? (dir ++ [name]) = some new := by
  rw [nodeAt?_concat, hdir] at hfree
  obtain ⟨hgrows, hfound⟩ := Node.alter_spec new hdir hfree
  obtain ⟨_, hroot, hstays⟩ := hgrows [] tree.rootNode rfl
  obtain ⟨more, hmore⟩ := hstays.exists_entries
  obtain rfl := Option.some.inj hroot
  have hput : (tree.put (dir ++ [name]) new).rootNode =
      tree.rootNode.alter (dir ++ [name]) fun _ => some new := by
    rw [put, rootNode, hmore]
    rfl
  rw [Grows, nodeAt?, hput]
  exact ⟨hgrows, hfound⟩

/-! ## Lookups in grown trees -/

theorem Leads.grow {tree grown : FileTree} {links left : Nat} {here there : Location}
    {pieces : List Name} (h : Leads tree links here pieces left there) (hgrows : tree.Grows grown) :
    Leads grown links here pieces left there := by
  have hdirs : ∀ {location entries}, tree.nodeAt? location = some (.dir entries) →
      ∃ more, grown.nodeAt? location = some (.dir more) := by
    intro location entries hdir
    obtain ⟨other, hother, hstays⟩ := hgrows location _ hdir
    obtain ⟨more, rfl⟩ := hstays.exists_entries
    exact ⟨more, hother⟩
  induction h with
  | done links here => exact .done links here
  | stay hdir hpiece _ ih =>
      obtain ⟨more, hmore⟩ := hdirs hdir
      exact .stay hmore hpiece ih
  | up hdir _ ih =>
      obtain ⟨more, hmore⟩ := hdirs hdir
      exact .up hmore ih
  | @enter _ _ _ _ _ _ node hname hshort hnode hkind _ ih =>
      obtain ⟨other, hother, hstays⟩ := hgrows _ _ hnode
      refine .enter hname hshort hother ?_ ih
      rintro target rfl
      cases node with
      | dir _ => cases hstays
      | file _ => cases hstays
      | link _ => exact hkind _ rfl
  | jump hname hshort hnode _ ih =>
      obtain ⟨other, hother, hstays⟩ := hgrows _ _ hnode
      obtain rfl : other = _ := hstays
      exact .jump hname hshort hother ih

theorem Grows.node {tree grown : FileTree} (h : tree.Grows grown) {path : Path} {node : Node}
    (hnode : tree.node path = .ok node) : ∃ other, grown.node path = .ok other ∧ node.Stays other := by
  obtain ⟨hempty, pieces, left, location, hpieces, hleads, hnode⟩ := node_eq_ok_iff.mp hnode
  obtain ⟨other, hother, hstays⟩ := h location node hnode
  exact ⟨other, node_eq_ok_iff.mpr ⟨hempty, pieces, left, location, hpieces, hleads.grow h, hother⟩, hstays⟩

/-- What was there keeps its time. -/
theorem Grows.modified? {tree grown : FileTree} (h : tree.Grows grown) {path : Path} {time : Nat}
    (htime : tree.modified? path = some time) : grown.modified? path = some time := by
  unfold FileTree.modified? at htime ⊢
  cases hnode : tree.node path with
  | error fault =>
      rw [hnode] at htime
      cases htime
  | ok node =>
      obtain ⟨other, hother, hstays⟩ := h.node hnode
      rw [hnode] at htime
      rw [hother]
      cases node with
      | file file =>
          obtain rfl : other = _ := hstays
          exact htime
      | link target =>
          obtain rfl : other = _ := hstays
          exact htime
      | dir entries =>
          obtain ⟨more, rfl⟩ := hstays.exists_entries
          exact htime

/-! ## Creating a file -/

/-- A path that ends in a name is not empty. -/
theorem text_ne_of_isLastName {path : Path} {front : List Name} {last : Name}
    (hconcat : path.segments = front ++ [last]) (hlast : IsLastName last) :
    path.text.isEmpty = false := by
  cases htext : path.text.isEmpty with
  | false => rfl
  | true =>
      obtain rfl : path = ⟨""⟩ := congrArg Path.mk (String.isEmpty_iff.mp htext)
      have hpieces : front ++ [last] = [] ++ [[]] := hconcat.symm
      exact absurd (List.singleton_inj.mp (List.append_inj' hpieces rfl).2) hlast.1

/-- A created file is found by its path, and the tree has grown. -/
theorem createFile_spec {tree grown : FileTree} {path : Path} {file : File}
    (h : tree.createFile path file = .ok grown) :
    tree.Grows grown ∧ grown.node path = .ok (.file file) := by
  obtain ⟨found, hholder, h⟩ := bind_eq_ok_iff.mp h
  obtain ⟨pieces, hpieces, -⟩ := bind_eq_ok_iff.mp hholder
  obtain ⟨front, last, hconcat⟩ := segments_eq_concat path
  obtain rfl : pieces = front ++ [last] := (segmentsOf_eq hpieces).trans hconcat
  by_cases hlast : IsLastName last
  · obtain ⟨left, dir, hleads, ⟨entries, hdir⟩, hshort, rfl⟩ :=
      (holder_eq_ok_iff_of_isLastName hpieces hlast).mp hholder
    simp only at h
    cases hfree : tree.nodeAt? (dir ++ [last]) with
    | some node =>
        rw [hfree] at h
        cases h
    | none =>
        rw [hfree] at h
        obtain rfl := Except.ok.inj h
        obtain ⟨hgrows, hfound⟩ := put_spec hdir hfree (.file file)
        have hempty := text_ne_of_isLastName hconcat hlast
        refine ⟨hgrows, node_eq_ok_iff.mpr ⟨hempty, _, left, dir ++ [last], hpieces, ?_, hfound⟩⟩
        have hrear : Leads (tree.put (dir ++ [last]) (.file file)) left dir [last] left
            (dir ++ [last]) := .enter hlast hshort hfound (by simp) (.done left _)
        exact Leads.append_iff.mpr ⟨left, dir, hleads.grow hgrows, hrear⟩
  · rw [holder_of_not_isLastName hpieces hlast] at hholder
    obtain ⟨location, -, hlocation⟩ := bind_eq_ok_iff.mp hholder
    obtain rfl := Except.ok.inj hlocation
    cases h

end ScopedCheck.FileTree
