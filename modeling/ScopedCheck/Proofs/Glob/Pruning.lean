import Mathlib.Data.List.Nodup
import ScopedCheck.Proofs.Glob.Matching
import ScopedCheck.Proofs.Path.Algebra
/-! # Pruned walks

A walk with patterns leaves out whole directories. It finds what a walk through everything below its root
would find whose files are sifted afterwards, by the names on the way to them and by the patterns: in
ascending order, and each file once (`walkMatching_sifts_iff`). A link at the root is the exception. The walk
goes on behind it although the link itself is excluded (`excluded_link_is_walked`). -/

namespace ScopedCheck

namespace Path

/-- Different normal forms ascend when they are sorted. -/
theorem pairwise_sorted_of_normal {paths : List Path} (hnormal : ∀ p ∈ paths, p.normalize = p)
    (hdistinct : paths.Nodup) : (sorted paths).Pairwise Precedes := by
  have hdistinct : (sorted paths).Nodup := (List.mergeSort_perm paths le).nodup_iff.mpr hdistinct
  refine ((pairwise_sorted paths).and hdistinct).imp_of_mem fun {p q} hp hq h => ?_
  refine precedes_of_le h.1 fun hparts => h.2 ?_
  exact eq_of_parts_eq (hnormal p (mem_sorted.mp hp)) (hnormal q (mem_sorted.mp hq)) hparts

end Path

namespace FileTree

open ScopedCheck.Path (AreNames Precedes)

/-! ## Everything below a node -/

mutual

/-- The names that lead from a node to itself and to everything below it, in the order of the entries. -/
def Node.ways : Node → List Location
  | .dir entries => [] :: waysAmong entries
  | _ => [[]]

/-- The names that lead to entries and to everything below them. -/
def waysAmong : List (Name × Node) → List Location
  | [] => []
  | (name, node) :: rest => node.ways.map (name :: ·) ++ waysAmong rest

end

theorem exists_of_mem_waysAmong {entries : List (Name × Node)} {way : Location} (h : way ∈ waysAmong entries) :
    ∃ entry ∈ entries, ∃ later, way = entry.1 :: later := by
  induction entries with
  | nil => simp [waysAmong] at h
  | cons entry rest ih =>
    obtain ⟨name, node⟩ := entry
    rw [waysAmong, List.mem_append, List.mem_map] at h
    rcases h with ⟨later, -, rfl⟩ | h
    · exact ⟨(name, node), List.mem_cons_self .., later, rfl⟩
    · obtain ⟨entry, hentry, hway⟩ := ih h
      exact ⟨entry, List.mem_cons_of_mem _ hentry, hway⟩

mutual

theorem Node.areNames_of_mem_ways {node : Node} (hnode : node.isProper = true) {way : Location}
    (h : way ∈ node.ways) : AreNames way := by
  cases node with
  | file _ => rw [List.mem_singleton.mp h]; simp [AreNames]
  | link _ => rw [List.mem_singleton.mp h]; simp [AreNames]
  | dir entries =>
    rcases List.mem_cons.mp h with rfl | h
    · simp [AreNames]
    · exact areNames_of_mem_waysAmong hnode h

theorem areNames_of_mem_waysAmong {entries : List (Name × Node)} (hentries : areProper entries = true)
    {way : Location} (h : way ∈ waysAmong entries) : AreNames way := by
  cases entries with
  | nil => simp [waysAmong] at h
  | cons entry rest =>
    obtain ⟨name, node⟩ := entry
    obtain ⟨hname, -, hnode, hrest⟩ := areProper_cons.mp hentries
    rw [waysAmong, List.mem_append, List.mem_map] at h
    rcases h with ⟨later, hlater, rfl⟩ | h
    · exact List.forall_mem_cons.mpr ⟨hname, Node.areNames_of_mem_ways hnode hlater⟩
    · exact areNames_of_mem_waysAmong hrest h

end

mutual

theorem Node.nodup_ways {node : Node} (hnode : node.isProper = true) : node.ways.Nodup := by
  cases node with
  | file _ => exact List.nodup_singleton _
  | link _ => exact List.nodup_singleton _
  | dir entries =>
    refine List.nodup_cons.mpr ⟨fun h => ?_, nodup_waysAmong hnode⟩
    obtain ⟨_, -, _, hempty⟩ := exists_of_mem_waysAmong h
    cases hempty

theorem nodup_waysAmong {entries : List (Name × Node)} (hentries : areProper entries = true) :
    (waysAmong entries).Nodup := by
  cases entries with
  | nil => exact List.nodup_nil
  | cons entry rest =>
    obtain ⟨name, node⟩ := entry
    obtain ⟨-, hfresh, hnode, hrest⟩ := areProper_cons.mp hentries
    rw [waysAmong]
    refine List.nodup_append.mpr ⟨(Node.nodup_ways hnode).map List.cons_injective, nodup_waysAmong hrest, ?_⟩
    rintro _ hfirst _ hlater rfl
    obtain ⟨later, -, rfl⟩ := List.mem_map.mp hfirst
    obtain ⟨entry, hentry, _, heq⟩ := exists_of_mem_waysAmong hlater
    exact hfresh entry hentry (List.cons.inj heq).1.symm

end

/-! ## What walks leave out -/

mutual

/-- A walk meets a part of everything, in the same order. -/
theorem paths_walkNode_sublist (admits : Visit → Bool) (visit : Visit) (node : Node) :
    ((walkNode admits visit node).map (·.path)).Sublist (node.ways.map visit.path.through) := by
  cases node with
  | file _ => simp only [walkNode]; split <;> simp [Node.ways]
  | link _ => simp only [walkNode]; split <;> simp [Node.ways]
  | dir entries =>
    simp only [walkNode]
    split
    · exact (paths_walkEntries_sublist admits visit.path (visit.depth + 1) entries).cons_cons visit.path
    · exact List.nil_sublist _

theorem paths_walkEntries_sublist (admits : Visit → Bool) (path : Path) (depth : Nat)
    (entries : List (Name × Node)) :
    ((walkEntries admits path depth entries).map (·.path)).Sublist ((waysAmong entries).map path.through) := by
  cases entries with
  | nil => exact List.nil_sublist _
  | cons entry rest =>
    obtain ⟨name, node⟩ := entry
    rw [walkEntries, waysAmong, List.map_append, List.map_append, List.map_map]
    exact (paths_walkNode_sublist admits (.below path depth name node.kind) node).append
      (paths_walkEntries_sublist admits path depth rest)

end

/-- Whether a link stands at a path. -/
def IsLinkAt (tree : FileTree) (path : Path) : Prop := ∃ target, tree.unfollowed path = .ok (.link target)

section Roots

variable {tree : FileTree} {root : Path} {entries : List (Name × Node)}

theorem paths_walk_sublist (hroot : tree.node root = .ok (.dir entries)) (admits : Visit → Bool) :
    ((tree.walk admits root).map (·.path)).Sublist ((Node.dir entries).ways.map root.through) := by
  rcases unfollowed_of_node hroot with hend | ⟨target, hlink⟩
  · simp only [walk, hend]
    exact paths_walkNode_sublist admits ⟨root, 0, root.name.toList, .dir⟩ (.dir entries)
  · simp only [walk, hlink, hroot, List.map_append]
    exact (paths_walkNode_sublist admits ⟨root, 0, root.name.toList, .link⟩ (.link target)).append
      (paths_walkEntries_sublist admits root 1 entries)

theorem pairwise_walkMatching (htree : tree.isProper = true) (hroot : tree.node root = .ok (.dir entries))
    (includes excludes : PathFilter) (accepts : Path → Bool) :
    (tree.walkMatching root includes excludes accepts).Pairwise Precedes := by
  have hnode : (Node.dir entries).isProper = true := areProper_of_node htree hroot
  refine Path.pairwise_sorted_of_normal (fun p hp => ?_) ?_
  · obtain ⟨visit, -, rfl⟩ := List.mem_map.mp hp
    exact Path.normalize_normalize _
  · have hways : ((Node.dir entries).ways.map fun way => (root.through way).normalize).Nodup :=
      (Node.nodup_ways hnode).map_on fun way hway other hother heq =>
        Path.eq_of_normalize_through_eq (Node.areNames_of_mem_ways hnode hway)
          (Node.areNames_of_mem_ways hnode hother) heq
    refine hways.sublist ?_
    have hwalk := (paths_walk_sublist hroot
      fun visit => !visit.isPassedBy && !excludes.isMatch visit.path).map Path.normalize
    rw [List.map_map, List.map_map] at hwalk
    exact ((List.filter_sublist).map _).trans hwalk

/-! ## Sifting -/

theorem comes_iff_kept {excluded : Path → Bool} {path : Path} {node last : Node} {names : Location} :
    Comes excluded path node names last ↔ Comes (fun _ => false) path node names last ∧
      ∀ way, way <+: names → way ≠ [] → excluded (path.through way) = false := by
  constructor
  · intro h
    induction h with
    | here => exact ⟨.here _ _, fun way hway hne => absurd (List.prefix_nil.mp hway) hne⟩
    | @into path entries name below last names hentry hopen hkept _ ih =>
      refine ⟨.into hentry hopen rfl ih.1, fun way hway hne => ?_⟩
      obtain ⟨first, later, rfl⟩ := List.exists_cons_of_ne_nil hne
      obtain ⟨rfl, hlater⟩ := List.cons_prefix_cons.mp hway
      by_cases hone : later = []
      · subst hone
        exact hkept
      · exact ih.2 later hlater hone
  · rintro ⟨h, hkept⟩
    induction h with
    | here => exact .here _ _
    | @into path entries name below last names hentry hopen _ _ ih =>
      refine .into hentry hopen (hkept [name] ?_ (List.cons_ne_nil _ _)) (ih fun way hway _ => ?_)
      · exact List.cons_prefix_cons.mpr ⟨rfl, List.nil_prefix⟩
      · exact hkept (name :: way) (List.cons_prefix_cons.mpr ⟨rfl, hway⟩) (List.cons_ne_nil _ _)

/-- A walk starts from a directory that is not excluded, and from one behind a link in any case. -/
theorem startsFrom_dir_iff (hroot : tree.node root = .ok (.dir entries)) {excluded : Path → Bool} {node : Node} :
    tree.StartsFrom excluded root node ↔
      node = .dir entries ∧ (tree.IsLinkAt root ∨ excluded root = false) := by
  rcases unfollowed_of_node hroot with hend | ⟨target, hlink⟩
  · have hno : ¬tree.IsLinkAt root := by
      rintro ⟨target, hlink⟩
      cases hend.symm.trans hlink
    rw [startsFrom_iff hend (by simp), or_iff_right hno]
  · rw [startsFrom_link_iff hlink, hroot]
    constructor
    · rintro ⟨others, rfl, hsame⟩
      exact ⟨(Except.ok.inj hsame).symm, .inl ⟨target, hlink⟩⟩
    · rintro ⟨rfl, -⟩
      exact ⟨entries, rfl, rfl⟩

theorem exists_comesTo_file_iff (hroot : tree.node root = .ok (.dir entries)) {excluded : Path → Bool}
    {names : Location} : (∃ file, tree.ComesTo excluded root names (.file file)) ↔
      tree.HasSourceBelow root names ∧ (tree.IsLinkAt root ∨ excluded root = false) ∧
        ∀ way, way <+: names → way ≠ [] → excluded (root.through way) = false := by
  have hsource : tree.HasSourceBelow root names ↔
      ∃ file, Comes (fun _ => false) root (.dir entries) names (.file file) := by
    simp only [HasSourceBelow, hroot, Except.ok.injEq, exists_eq_left', hasSource_iff root]
    refine and_iff_right_of_imp ?_
    rintro ⟨file, hfile⟩ rfl
    cases hfile
  simp only [ComesTo, startsFrom_dir_iff hroot, and_assoc, exists_eq_left, hsource]
  constructor
  · rintro ⟨file, hopen, hcomes⟩
    obtain ⟨hall, hkept⟩ := comes_iff_kept.mp hcomes
    exact ⟨⟨file, hall⟩, hopen, hkept⟩
  · rintro ⟨⟨file, hall⟩, hopen, hkept⟩
    exact ⟨file, hopen, comes_iff_kept.mpr ⟨hall, hkept⟩⟩

end Roots

/-- What is sifted out of all files below a root: a file in no directory that walks pass by, which is taken in
and accepted, and neither it nor a directory below the root on the way to it is excluded. -/
structure IsSifted (tree : FileTree) (root : Path) (includes excludes : PathFilter) (accepts : Path → Bool)
    (names : Location) : Prop where
  source : tree.HasSourceBelow root names
  included : includes.isMatch (root.through names) = true
  accepted : accepts (root.through names) = true
  kept : ∀ way, way <+: names → way ≠ [] → excludes.isMatch (root.through way) = false

/-- A list of exactly the files that are sifted out, in ascending order and each once. There are none if the
root is excluded. -/
structure Sifts (tree : FileTree) (root : Path) (includes excludes : PathFilter) (accepts : Path → Bool)
    (found : List Path) : Prop where
  ascending : found.Pairwise Precedes
  exact (p : Path) : p ∈ found ↔ ∃ names, tree.IsSifted root includes excludes accepts names ∧
    excludes.isMatch root = false ∧ (root.through names).normalize = p

section Sifting

variable {tree : FileTree} {root : Path}

theorem mem_walkMatching_iff_isSifted (htree : tree.isProper = true) {entries : List (Name × Node)}
    (hroot : tree.node root = .ok (.dir entries)) {includes excludes : PathFilter} {accepts : Path → Bool}
    {p : Path} : p ∈ tree.walkMatching root includes excludes accepts ↔
      ∃ names, tree.IsSifted root includes excludes accepts names ∧
        (tree.IsLinkAt root ∨ excludes.isMatch root = false) ∧ (root.through names).normalize = p := by
  rw [mem_walkMatching htree]
  refine exists_congr fun names => ?_
  rw [exists_and_right, exists_comesTo_file_iff hroot]
  constructor
  · rintro ⟨⟨hsource, hopen, hkept⟩, hincluded, haccepted, hp⟩
    exact ⟨⟨hsource, hincluded, haccepted, hkept⟩, hopen, hp⟩
  · rintro ⟨⟨hsource, hincluded, haccepted, hkept⟩, hopen, hp⟩
    exact ⟨⟨hsource, hopen, hkept⟩, hincluded, haccepted, hp⟩

/-- Walking finds what sifting finds, but for what is behind a link that is excluded itself. -/
theorem walkMatching_sifts_iff (htree : tree.isProper = true) (hroot : tree.isDir root = true)
    (includes excludes : PathFilter) (accepts : Path → Bool) :
    tree.Sifts root includes excludes accepts (tree.walkMatching root includes excludes accepts) ↔
      (tree.IsLinkAt root → excludes.isMatch root = true →
        ∀ names, ¬tree.IsSifted root includes excludes accepts names) := by
  obtain ⟨entries, hroot⟩ : ∃ entries, tree.node root = .ok (.dir entries) := by
    unfold isDir at hroot
    split at hroot
    · rename_i node hnode
      cases node with
      | dir entries => exact ⟨entries, hnode⟩
      | file _ => cases hroot
      | link _ => cases hroot
    · cases hroot
  constructor
  · rintro ⟨-, hexact⟩ hlink hexcluded names hsifted
    have hmem := (mem_walkMatching_iff_isSifted htree hroot).mpr ⟨names, hsifted, .inl hlink, rfl⟩
    obtain ⟨_, -, hopen, -⟩ := (hexact _).mp hmem
    exact absurd hexcluded (Bool.eq_false_iff.mp hopen)
  · intro hnone
    refine ⟨pairwise_walkMatching htree hroot includes excludes accepts, fun p => ?_⟩
    rw [mem_walkMatching_iff_isSifted htree hroot]
    refine exists_congr fun names => and_congr_right fun hsifted => and_congr_left fun _ => ?_
    refine or_iff_right_of_imp fun hlink => Bool.eq_false_iff.mpr fun hexcluded => ?_
    exact hnone hlink hexcluded names hsifted

end Sifting

/-! ## Roots with filters -/

/-- A hidden project with a source file, and others that are not found: in an installed package, below a hidden
directory, behind a link, and in a directory of its own. -/
def hiddenProject : FileTree :=
  let file : Node := .file { content := .text "" }
  ⟨[(".p".toList, .dir [
    ("src".toList, .dir [("a.ts".toList, file), (".cache".toList, .dir [("b.ts".toList, file)]),
      ("link".toList, .link ⟨"/.p/out"⟩)]),
    (Path.packagesName.toList, .dir [("c.ts".toList, file)]),
    ("out".toList, .dir [("d.ts".toList, file)])])]⟩

/-- A directory with a file, and a link to the directory. -/
def linkedProject : FileTree :=
  ⟨[("lib".toList, .dir [("a.ts".toList, .file { content := .text "" })]), ("link".toList, .link ⟨"lib"⟩)]⟩

/-- What a walk finds from a root with include and exclude patterns, from the patterns on. -/
theorem exists_filters (tree : FileTree) (root : Path) (included excluded : List String) (found : List Path)
    (isExcluded : Bool)
    (h : ((PathFilter.ofPatterns included).toOption.bind fun includes =>
        (PathFilter.ofPatterns excluded).toOption.map fun excludes =>
          (tree.walkMatching root includes excludes fun _ => true, excludes.isMatch root)) =
      some (found, isExcluded)) :
    ∃ includes excludes, PathFilter.ofPatterns included = .ok includes ∧
      PathFilter.ofPatterns excluded = .ok excludes ∧
      tree.walkMatching root includes excludes (fun _ => true) = found ∧ excludes.isMatch root = isExcluded := by
  simp only [Option.bind_eq_some_iff, Option.map_eq_some_iff, Fallible.toOption_eq_some_iff,
    Prod.mk.injEq] at h
  obtain ⟨includes, hincludes, excludes, hexcludes, hfound, hexcluded⟩ := h
  exact ⟨includes, excludes, hincludes, hexcludes, hfound, hexcluded⟩

theorem walkMatching_sifts_in_hiddenProject :
    hiddenProject.isProper = true ∧ hiddenProject.isDir ⟨"/.p"⟩ = true ∧
      ∃ includes excludes, PathFilter.ofPatterns ["/.p/**/*"] = .ok includes ∧
        PathFilter.ofPatterns ["/.p/out"] = .ok excludes ∧
        hiddenProject.walkMatching ⟨"/.p"⟩ includes excludes (fun _ => true) = [⟨"/.p/src/a.ts"⟩] ∧
        hiddenProject.Sifts ⟨"/.p"⟩ includes excludes (fun _ => true) [⟨"/.p/src/a.ts"⟩] := by
  obtain ⟨includes, excludes, hincludes, hexcludes, hfound, hkept⟩ := exists_filters hiddenProject ⟨"/.p"⟩
    ["/.p/**/*"] ["/.p/out"] [⟨"/.p/src/a.ts"⟩] false (by decide +kernel)
  refine ⟨by decide +kernel, by decide +kernel, includes, excludes, hincludes, hexcludes, hfound, ?_⟩
  rw [← hfound]
  refine (walkMatching_sifts_iff (by decide +kernel) (by decide +kernel) includes excludes _).mpr ?_
  intro _ hexcluded
  exact absurd hexcluded (Bool.eq_false_iff.mp hkept)

/-- A walk from an excluded link finds what is behind it. From the directory itself, excluded by the same
pattern, it finds nothing. -/
theorem excluded_link_is_walked :
    linkedProject.isProper = true ∧ linkedProject.isDir ⟨"/link"⟩ = true ∧
      ∃ includes excludes, PathFilter.ofPatterns ["/**/*.ts"] = .ok includes ∧
        PathFilter.ofPatterns ["/l*"] = .ok excludes ∧
        linkedProject.walkMatching ⟨"/link"⟩ includes excludes (fun _ => true) = [⟨"/link/a.ts"⟩] ∧
        linkedProject.walkMatching ⟨"/lib"⟩ includes excludes (fun _ => true) = [] ∧
        ¬linkedProject.Sifts ⟨"/link"⟩ includes excludes (fun _ => true)
          (linkedProject.walkMatching ⟨"/link"⟩ includes excludes fun _ => true) := by
  obtain ⟨includes, excludes, hincludes, hexcludes, hfound, hexcluded⟩ := exists_filters linkedProject ⟨"/link"⟩
    ["/**/*.ts"] ["/l*"] [⟨"/link/a.ts"⟩] true (by decide +kernel)
  obtain ⟨includes', excludes', hincludes', hexcludes', hnone, -⟩ := exists_filters linkedProject ⟨"/lib"⟩
    ["/**/*.ts"] ["/l*"] [] true (by decide +kernel)
  obtain rfl : includes = includes' := Except.ok.inj (hincludes.symm.trans hincludes')
  obtain rfl : excludes = excludes' := Except.ok.inj (hexcludes.symm.trans hexcludes')
  refine ⟨by decide +kernel, by decide +kernel, includes, excludes, hincludes, hexcludes, hfound, hnone, ?_⟩
  rintro ⟨-, hexact⟩
  obtain ⟨_, -, hopen, -⟩ := (hexact ⟨"/link/a.ts"⟩).mp (by rw [hfound]; exact List.mem_singleton_self _)
  exact absurd hexcluded (Bool.eq_false_iff.mp hopen)

end FileTree

end ScopedCheck
