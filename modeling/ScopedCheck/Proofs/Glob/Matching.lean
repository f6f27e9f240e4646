import ScopedCheck.Glob.Expansion
import ScopedCheck.Proofs.FileTree.Walk
import ScopedCheck.Proofs.Path.Order
/-! # What patterns find below a directory

A walk with patterns finds the files that it comes to and that are taken in and accepted. What it comes to
below a directory that it has come to is what a walk from there would find (`comesTo_append_iff`). -/

namespace ScopedCheck.FileTree

open ScopedCheck.Path (AreNames)

variable {tree : FileTree}

theorem mem_walkMatching (htree : tree.isProper = true) {start : Path} {includes excludes : PathFilter}
    {accepts : Path → Bool} {p : Path} :
    p ∈ tree.walkMatching start includes excludes accepts ↔
      ∃ names file, tree.ComesTo excludes.isMatch start names (.file file) ∧
        includes.isMatch (start.through names) = true ∧ accepts (start.through names) = true ∧
        (start.through names).normalize = p := by
  simp only [walkMatching, Path.mem_sorted, List.mem_map, List.mem_filter, Bool.and_eq_true, beq_iff_eq]
  have hwalk := mem_walk htree excludes.isMatch start
  constructor
  · rintro ⟨visit, ⟨hvisit, ⟨hkind, hincluded⟩, haccepts⟩, hp⟩
    obtain ⟨names, file, hcomes, hpath⟩ := (hwalk visit.path).mp ⟨visit, hvisit, hkind, rfl⟩
    rw [hpath] at hincluded haccepts hp
    exact ⟨names, file, hcomes, hincluded, haccepts, hp⟩
  · rintro ⟨names, file, hcomes, hincluded, haccepts, hp⟩
    obtain ⟨visit, hvisit, hkind, hpath⟩ := (hwalk _).mpr ⟨names, file, hcomes, rfl⟩
    rw [← hpath] at hincluded haccepts hp
    exact ⟨visit, ⟨hvisit, ⟨hkind, hincluded⟩, haccepts⟩, hp⟩

/-! ## Walks that go on from where another one comes to -/

/-- A lookup of names that lead to something through directories alone ends right there. -/
theorem Leads.eq_straight {links left : Nat} {here there : Location} {names : Location} {node : Node}
    (h : Leads tree links here names left there) (hnames : AreNames names)
    (hnode : tree.nodeAt? (here ++ names) = some node) (hkind : ∀ target, node ≠ .link target) :
    there = here ++ names := by
  induction names generalizing here links with
  | nil =>
    cases h
    rw [List.append_nil]
  | cons name names ih =>
    obtain ⟨hname, hnames⟩ := List.forall_mem_cons.mp hnames
    obtain ⟨hblank, hdot, hup, -⟩ := isName_iff.mp hname
    rw [List.append_cons] at hnode ⊢
    cases h with
    | stay _ hpiece => exact absurd hpiece (not_or.mpr ⟨hblank, hdot⟩)
    | up => exact absurd rfl hup
    | enter _ _ _ _ hrest => exact ih hrest hnames hnode
    | @jump _ _ _ _ _ _ target _ _ hlink _ =>
      -- there is nothing below a link
      rw [nodeAt?_append, hlink] at hnode
      cases names with
      | nil => exact absurd (Option.some.inj hnode).symm (hkind target)
      | cons next names => simp [Node.get?, Node.entry?, Node.entries] at hnode

theorem exists_leads_of_node {location : Location} (hlocation : AreNames location) {node : Node}
    (h : tree.node (pathOf location) = .ok node) :
    ∃ left place, Leads tree maxLinks [] location left place ∧ tree.nodeAt? place = some node := by
  obtain ⟨-, pieces, left, place, hpieces, hleads, hnode⟩ := node_eq_ok_iff.mp h
  obtain rfl := segmentsOf_eq hpieces
  by_cases hroot : location = []
  · subst hroot
    have hplace : place = [] := hleads.eq_of_blanks (by decide)
    exact ⟨maxLinks, [], .done maxLinks [], hplace ▸ hnode⟩
  · rw [Path.segments_pathOf hroot hlocation] at hleads
    exact ⟨left, place, hleads, hnode⟩

/-- What stands at the end of a path is what is below a directory on the way, unless there is a link in
between. -/
theorem eq_of_unfollowed_below {location way : Location} (hlocation : AreNames location)
    (hway : AreNames way) (hne : way ≠ []) {top below found : Node}
    (htop : tree.node (pathOf location) = .ok top) (hbelow : top.get? way = some below)
    (hfound : tree.unfollowed (pathOf (location ++ way)) = .ok found) : found = below := by
  obtain ⟨_, place, hplace, htop⟩ := exists_leads_of_node hlocation htop
  obtain ⟨front, last, rfl⟩ := (List.eq_nil_or_concat' way).resolve_left hne
  obtain ⟨hblank, hdot, hup, -⟩ := isName_iff.mp (hway last (by simp))
  have hpieces := segmentsOf_of_unfollowed hfound
  rw [Path.segments_pathOf (by simp) (hlocation.append hway), ← List.append_assoc] at hpieces
  rw [← List.append_assoc] at hfound
  obtain ⟨_, dir, hleads, -, hfound⟩ :=
    (unfollowed_eq_ok_iff_of_isLastName hpieces ⟨hblank, hdot, hup⟩).mp hfound
  obtain ⟨_, mid, hmid, hfront⟩ := Leads.append_iff.mp hleads
  obtain rfl : place = mid := Except.ok.inj (hplace.follow_eq.symm.trans hmid.follow_eq)
  have hend : tree.nodeAt? (place ++ (front ++ [last])) = some below := by
    rw [nodeAt?_append, htop]
    exact hbelow
  rw [← List.append_assoc] at hend
  obtain ⟨entries, hdir⟩ := isDir_of_nodeAt?_concat hend
  obtain rfl := hfront.eq_straight (fun name hname => hway name (List.mem_append_left _ hname)) hdir (by simp)
  exact Option.some.inj (hfound.symm.trans hend)

/-- A walk comes to what is at another path, and it is no link: the walk is held up nowhere in between. -/
def IsOnTheWay (tree : FileTree) (excluded : Path → Bool) (start there : Path) : Prop :=
  ∃ names node, there = start.through names ∧ tree.ComesTo excluded start names node ∧
    ∀ target, node ≠ .link target

section Cut

variable {excluded : Path → Bool} {location way names : Location} {last : Node}

theorem ComesTo.node_eq {start : Path} (habs : start.isAbsolute = true)
    (h : tree.ComesTo excluded start names last) :
    ∃ top, tree.node start = .ok top ∧ top.get? names = some last := by
  obtain ⟨top, hfrom, hcomes⟩ := h
  exact ⟨top, hfrom.node_eq habs, hcomes.get?_eq⟩

theorem ComesTo.areNames (htree : tree.isProper = true) {start : Path} (habs : start.isAbsolute = true)
    (h : tree.ComesTo excluded start names last) : AreNames names := by
  obtain ⟨top, htop, hlast⟩ := h.node_eq habs
  obtain ⟨-, _, _, place, -, -, hplace⟩ := node_eq_ok_iff.mp htop
  exact (Node.isProper_get? (Node.isProper_get? htree hplace).2 hlast).1

/-- From the path of a place a walk finds paths of places. -/
theorem mem_walkMatching_pathOf (htree : tree.isProper = true) (hlocation : AreNames location)
    {includes excludes : PathFilter} {accepts : Path → Bool} {p : Path} :
    p ∈ tree.walkMatching (pathOf location) includes excludes accepts ↔
      ∃ names file, AreNames names ∧ tree.ComesTo excludes.isMatch (pathOf location) names (.file file) ∧
        includes.isMatch (pathOf (location ++ names)) = true ∧ accepts (pathOf (location ++ names)) = true ∧
        pathOf (location ++ names) = p := by
  rw [mem_walkMatching htree]
  refine exists₂_congr fun names file => ?_
  by_cases hcomes : tree.ComesTo excludes.isMatch (pathOf location) names (.file file)
  · have hnames := hcomes.areNames htree (Path.isAbsolute_pathOf location)
    rw [Path.pathOf_through hlocation hnames, Path.normalize_pathOf (hlocation.append hnames)]
    simp only [hcomes, hnames, true_and]
  · simp only [hcomes, false_and, and_false]

/-- Where a walk comes to something, it goes on as a walk from there would. -/
theorem ComesTo.append (hlocation : AreNames location) (hway : AreNames way) {mid : Node}
    (h : tree.ComesTo excluded (pathOf location) way mid) (hkind : ∀ target, mid ≠ .link target)
    (hnames : tree.ComesTo excluded (pathOf (location ++ way)) names last) :
    tree.ComesTo excluded (pathOf location) (way ++ names) last := by
  obtain ⟨top, hfrom, hcomes⟩ := h
  obtain ⟨node, hnode, hrest⟩ := hnames
  have htop := hfrom.node_eq (Path.isAbsolute_pathOf location)
  have hsame : node = mid := by
    by_cases hne : way = []
    · subst hne
      cases hcomes
      rw [List.append_nil] at hnode
      exact Except.ok.inj ((hnode.node_eq (Path.isAbsolute_pathOf location)).symm.trans htop)
    · cases hnode with
      | here hend => exact eq_of_unfollowed_below hlocation hway hne htop hcomes.get?_eq hend
      | behind hlink =>
        have hlast := eq_of_unfollowed_below hlocation hway hne htop hcomes.get?_eq hlink
        exact absurd hlast.symm (hkind _)
  subst hsame
  refine ⟨top, hfrom, comes_append_iff.mpr ⟨node, hcomes, ?_⟩⟩
  rwa [Path.pathOf_through hlocation hway]

/-- On its way to a file a walk comes to everything in front of it. -/
theorem ComesTo.isOnTheWay {start : Path} {file : File}
    (h : tree.ComesTo excluded start (way ++ names) (.file file)) :
    tree.IsOnTheWay excluded start (start.through way) := by
  obtain ⟨top, hfrom, hcomes⟩ := h
  obtain ⟨mid, hway, hrest⟩ := comes_append_iff.mp hcomes
  refine ⟨way, mid, rfl, ⟨top, hfrom, hway⟩, ?_⟩
  rintro target rfl
  cases hrest

end Cut

end ScopedCheck.FileTree
