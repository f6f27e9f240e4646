import ScopedCheck.Proofs.Closure.Discovery
import ScopedCheck.Proofs.FileTree.Canonical
import ScopedCheck.Proofs.Path.Order
/-! # The roots of a closure

A closure lists its roots, as they are spelled, unless they lie in installed packages. This holds of a
closure that is used again as well: requests with one key have the same roots, and a normal form is the
only one of its place. -/

namespace ScopedCheck

/-- The files that a selection names one by one. -/
def FileSelection.files : FileSelection → List Path
  | .exact files => files
  | .patterns _ files => files

theorem ClosureRequest.exists_root_of_mem_key {request : ClosureRequest} {place : Place}
    (h : place ∈ request.key.roots) : ∃ root ∈ request.roots, root.parts = place := by
  obtain ⟨root, hroot, rfl⟩ := List.mem_map.mp h
  exact ⟨root, Path.mem_of_mem_sortedUnique hroot, rfl⟩

theorem ClosureRequest.parts_mem_key {request : ClosureRequest} {root : Path}
    (h : root ∈ request.roots) : root.parts ∈ request.key.roots := by
  obtain ⟨other, hother, hparts⟩ :=
    Path.listed_iff.mp (Path.listed_sortedUnique.mpr (Path.listed_of_mem h))
  exact List.mem_map.mpr ⟨other, hother, hparts.symm⟩

namespace Closure

variable {tree : FileTree} {host : ProgramHost} {request : ClosureRequest}

/-- A closure that is computed lists every root outside of installed packages. -/
theorem mem_files_of_root {r : Recognizer} {scan : ProjectScan} {closure : Closure}
    (hcompute : (compute tree host request r scan).run.value = .ok closure)
    (hnormal : ∀ root ∈ request.roots, root.normalize = root) {root : Path} (hroot : root ∈ request.roots)
    (houtside : root.isInPackages = false) : root ∈ closure.files := by
  obtain ⟨program, more, limit, generated, setupFiles, -, -, -, -, rfl⟩ := value_compute_iff.mp hcompute
  -- the roots come first, so that a place of one keeps the spelling of a root
  have hfirst : ∃ other, (Path.sortedUnique
      (request.roots.reverse ++ program ++ more ++ scan.ambient)).find? root.same = some other ∧
      other ∈ request.roots := by
    have hmem : ∃ other ∈ request.roots.reverse, root.same other = true :=
      ⟨root, List.mem_reverse.mpr hroot, Path.same_iff.mpr rfl⟩
    obtain ⟨other, hother⟩ := Option.isSome_iff_exists.mp (List.find?_isSome.mpr hmem)
    refine ⟨other, ?_, List.mem_reverse.mp (List.mem_of_find?_eq_some hother)⟩
    simp only [Path.find?_sortedUnique, List.append_assoc, List.find?_append, hother, Option.some_or]
  obtain ⟨other, hfound, hother⟩ := hfirst
  have hsame : root = other :=
    Path.eq_of_parts_eq (hnormal root hroot) (hnormal other hother)
      (Path.same_iff.mp (List.find?_some hfound))
  subst hsame
  refine List.mem_filter.mpr ⟨?_, by simp [houtside]⟩
  apply List.mem_of_find?_eq_some (p := root.same)
  rw [Path.find?_sortedUnique, List.append_assoc, List.find?_append, hfound, Option.some_or]

end Closure

/-- Whether a kept closure lists, in its normal form, every root that it was asked for and that lies
outside of installed packages. -/
def KeptClosure.ListsRoots (kept : KeptClosure) : Prop :=
  ∀ root : Path, root.normalize = root → root.parts ∈ kept.key.roots → root.isInPackages = false →
    root ∈ kept.closure.files

namespace ClosureCache

variable {cache : ClosureCache} {tree : FileTree} {host : ProgramHost} {request : ClosureRequest}

theorem listsRoots_discover (hkept : ∀ kept ∈ cache.kept, kept.ListsRoots)
    (hnormal : ∀ root ∈ request.roots, root.normalize = root) :
    ∀ kept ∈ (cache.discover tree host request).value.2.kept, kept.ListsRoots := by
  refine forall_kept_discover hkept fun r scan closure _ hcompute root hroot hkey houtside => ?_
  obtain ⟨other, hother, hparts⟩ := ClosureRequest.exists_root_of_mem_key hkey
  obtain rfl := Path.eq_of_parts_eq hroot (hnormal other hother) hparts.symm
  exact Closure.mem_files_of_root hcompute hnormal hother houtside

/-- What is selected for a discovered closure names every root outside of installed packages; without a
closure it names all roots. -/
theorem mem_selection_of_root (hkept : ∀ kept ∈ cache.kept, kept.ListsRoots)
    (hnormal : ∀ root ∈ request.roots, root.normalize = root) {closure : Closure}
    {next : ClosureCache} (hfound : (cache.discover tree host request).value = (closure, next))
    {root : Path} (hroot : root ∈ request.roots)
    (houtside : closure.discovered = true → root.isInPackages = false) :
    root ∈ (closure.selection request.roots).files := by
  cases hdiscovered : closure.discovered with
  | false => simpa [Closure.selection, hdiscovered, FileSelection.files] using hroot
  | true =>
      simp only [Closure.selection, hdiscovered, if_true, FileSelection.files]
      have hways := cache.discovers tree host request
      rw [hfound] at hways
      cases hways with
      | again hscan hhit =>
          obtain ⟨kept, hget, rfl, -⟩ := lookup_eq_hit_iff.mp hhit
          obtain ⟨hmem, hkey⟩ := mem_of_get? hget
          exact hkept kept hmem root (hnormal root hroot) (hkey ▸ ClosureRequest.parts_mem_key hroot)
            (houtside hdiscovered)
      | anew hscan hkept hcompute =>
          exact Closure.mem_files_of_root hcompute hnormal hroot (houtside hdiscovered)
      | unscanned => cases hdiscovered
      | lost => cases hdiscovered

end ClosureCache

end ScopedCheck
