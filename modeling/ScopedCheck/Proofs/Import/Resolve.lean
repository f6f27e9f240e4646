import ScopedCheck.Closure.Walk
import ScopedCheck.Proofs.Fallible
import ScopedCheck.Proofs.Path.Normal
/-! # What imports lead to

An import leads from one file to another. It does not depend on how the importing file is spelled, and
what it leads to is there and in no installed package. -/

namespace ScopedCheck

theorem Text.toList_of_withoutEnd? {s ending stem : String} (h : withoutEnd? s ending = some stem) :
    s.toList = stem.toList ++ ending.toList := by
  simp only [withoutEnd?, endsWith, List.isSuffixOf_iff_suffix, Option.ite_none_right_eq_some,
    Option.some.injEq] at h
  obtain ⟨⟨front, hfront⟩, rfl⟩ := h
  simp [← hfront]

namespace Import.Resolver

variable {tree : FileTree} {r : Import.Resolver}

theorem atPath_eq_of_normalize_eq {p q : Path} (h : p.normalize = q.normalize) :
    r.atPath tree p = r.atPath tree q := by
  have hcandidates : r.candidates p = r.candidates q := by rw [candidates, candidates, h]
  unfold atPath
  rw [hcandidates]

/-- Resolvers that allow untyped sources alike find the same at a path. -/
theorem atPath_congr {r other : Import.Resolver} (h : r.allowsUntyped = other.allowsUntyped)
    (tree : FileTree) (path : Path) : r.atPath tree path = other.atPath tree path := by
  have hcandidates : r.candidates path = other.candidates path := by
    simp only [candidates, ownCandidates, h]
  unfold atPath
  rw [hcandidates]

/-- What a specifier stands for depends on the place of the importing file only. -/
theorem resolve_eq_of_parts_eq {p q : Path} (hparts : p.parts = q.parts)
    (hp : tree.isFile p = true) (hq : tree.isFile q = true) (specifier : String) :
    r.resolve tree p specifier = r.resolve tree q specifier := by
  unfold resolve
  by_cases habs : (⟨Alias.plain specifier⟩ : Path).isAbsolute = true
  · simp only [habs, if_true]
  · have hnext : r.atPath tree (p.parent.child (Alias.plain specifier)) =
        r.atPath tree (q.parent.child (Alias.plain specifier)) :=
      atPath_eq_of_normalize_eq
        (FileTree.normalize_parent_child hparts hp hq (Bool.eq_false_iff.mpr habs))
    simp only [hnext]

/-! ## Candidates -/

theorem isEnding_of_mem_endings {allowUntyped : Bool} {ending : String}
    (h : ending ∈ endings allowUntyped) : Path.isEnding ending.toList = true :=
  have hall : ∀ untyped, ∀ ending ∈ endings untyped, Path.isEnding ending.toList = true := by decide
  hall allowUntyped ending h

theorem isEnding_of_mem_typedEndings {entry : String × List String} (h : entry ∈ typedEndings) :
    '/' ∉ entry.1.toList ∧ ∀ ending ∈ entry.2, Path.isEnding ending.toList = true :=
  have hall : ∀ entry ∈ typedEndings,
      '/' ∉ entry.1.toList ∧ ∀ ending ∈ entry.2, Path.isEnding ending.toList = true := by decide
  hall entry h

/-- What an ending may stand for replaces it. -/
theorem chars_of_mem_typedSources {name : String} {sources : List Path}
    (h : typedSources? name = some sources) {source : Path} (hsource : source ∈ sources) :
    ∃ stem ending new, name.toList = stem ++ ending ∧ '/' ∉ ending ∧ Path.isEnding new = true ∧
      source = ⟨String.ofList (stem ++ new)⟩ := by
  obtain ⟨entry, hentry, hsome⟩ := List.exists_of_findSome?_eq_some h
  obtain ⟨stem, hstem, rfl⟩ := Option.map_eq_some_iff.mp hsome
  obtain ⟨ending, hending, rfl⟩ := List.mem_map.mp hsource
  obtain ⟨hslash, hnew⟩ := isEnding_of_mem_typedEndings hentry
  refine ⟨stem.toList, entry.1.toList, ending.toList, Text.toList_of_withoutEnd? hstem, hslash,
    hnew ending hending, ?_⟩
  rw [String.ofList_append, String.ofList_toList, String.ofList_toList]

/-- Every candidate is a normal form. -/
theorem normalize_of_mem_candidates {path candidate : Path} (h : candidate ∈ r.candidates path) :
    candidate.normalize = candidate := by
  have hbase := Path.normalize_normalize path
  have hindex : (path.normalize.child "index").normalize = path.normalize.child "index" :=
    have hname : FileTree.isName "index".toList = true := by decide
    Path.normalize_child_of_isName hbase hname
  simp only [candidates, List.mem_append, List.mem_map] at h
  rcases h with (hown | ⟨ending, hending, rfl⟩) | ⟨ending, hending, rfl⟩
  · unfold ownCandidates at hown
    split at hown
    · rw [List.mem_singleton.mp hown, hbase]
    · split at hown
      · rename_i sources hsources
        rcases List.mem_append.mp hown with hsource | hself
        · obtain ⟨stem, ending, new, hchars, hslash, hnew, rfl⟩ :=
            chars_of_mem_typedSources hsources hsource
          exact Path.normalize_of_ending hbase hchars hslash hnew
        · split at hself
          · rw [List.mem_singleton.mp hself, hbase]
          · cases hself
      · cases hown
  · exact Path.normalize_append hbase (isEnding_of_mem_endings hending)
  · exact Path.normalize_append hindex (isEnding_of_mem_endings hending)

/-! ## Targets -/

/-- What a path stands for is there, in no installed package, and spelled as a normal form. -/
theorem of_atPath {p target : Path} (h : (r.atPath tree p).file? = some target) :
    tree.isFile target = true ∧ target.isInPackages = false ∧ target.normalize = target := by
  unfold atPath at h
  split at h
  · rename_i found hfound
    split at h
    · cases h
    · rename_i hpackages
      obtain rfl := Option.some.inj h
      exact ⟨List.find?_some hfound, by simpa using hpackages,
        normalize_of_mem_candidates (List.mem_of_find?_eq_some hfound)⟩
  · cases h

/-- What a specifier stands for is what some path does. -/
theorem exists_atPath_of_resolve {file target : Path} {specifier : String}
    (h : (r.resolve tree file specifier).file? = some target) :
    ∃ p, (r.atPath tree p).file? = some target := by
  unfold resolve at h
  simp only at h
  split at h
  · cases h
  · split at h
    · cases h
    · split at h
      · exact ⟨_, h⟩
      · split at h
        · exact ⟨_, h⟩
        · split at h
          · rename_i found hfound
            obtain rfl := Option.some.inj h
            cases halias : r.byAlias tree (Alias.plain specifier) with
            | some aliased =>
                obtain ⟨a, -, htarget⟩ := Option.bind_eq_some_iff.mp halias
                obtain ⟨path, -, hpath⟩ := List.exists_of_findSome?_eq_some htarget
                rw [halias] at hfound
                obtain rfl := Option.some.inj hfound
                exact ⟨_, hpath⟩
            | none =>
                rw [halias] at hfound
                obtain ⟨baseUrl, -, hpath⟩ := Option.bind_eq_some_iff.mp hfound
                exact ⟨_, hpath⟩
          · cases h

/-- A specifier only stands for files that are there and in no installed package. -/
theorem of_resolve {file target : Path} {specifier : String}
    (h : (r.resolve tree file specifier).file? = some target) :
    tree.isFile target = true ∧ target.isInPackages = false := by
  obtain ⟨p, hp⟩ := exists_atPath_of_resolve h
  obtain ⟨hfile, houtside, -⟩ := of_atPath hp
  exact ⟨hfile, houtside⟩

/-- The file that a specifier stands for is spelled as a normal form. -/
theorem normalize_of_resolve {file target : Path} {specifier : String}
    (h : (r.resolve tree file specifier).file? = some target) : target.normalize = target := by
  obtain ⟨p, hp⟩ := exists_atPath_of_resolve h
  exact (of_atPath hp).2.2

end Import.Resolver

end ScopedCheck
