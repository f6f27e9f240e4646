import ScopedCheck.Proofs.Path.Spelling
/-! # The order of paths

Paths compare by what they mean, so that the order is total on places. A sorted list without repeats
is strictly ascending, and it lists the same places as the paths that it was made of. -/

namespace ScopedCheck.Path

open Std (TransCmp LawfulEqCmp OrientedCmp)

instance : TransCmp Part.order := inferInstanceAs (TransCmp (compareLex _ _))

theorem Part.eq_of_order {p q : Part} (h : Part.order p q = .eq) : p = q := by
  simp only [Part.order, compareLex, Ordering.then_eq_eq, compareOn] at h
  obtain ⟨hrank, hname⟩ := h
  have hrank := Std.LawfulEqCmp.eq_of_compare hrank
  have hname := Std.LawfulEqCmp.eq_of_compare hname
  cases p <;> cases q <;> simp_all [Part.rank, Part.nameText]

instance : LawfulEqCmp Part.order where
  compare_self := Std.ReflCmp.compare_self
  eq_of_compare := Part.eq_of_order

/-- Two paths compare as equal exactly when they mean the same place. -/
theorem order_eq_iff {p q : Path} : order p q = .eq ↔ p.parts = q.parts := by
  constructor
  · exact fun h => LawfulEqCmp.eq_of_compare h
  · intro h
    rw [order, h]
    exact Std.ReflCmp.compare_self

theorem transCmp_parts : TransCmp (List.compareLex Part.order) := inferInstance

instance : TransCmp order where
  eq_swap := transCmp_parts.eq_swap
  isLE_trans := transCmp_parts.isLE_trans

theorem transCmp_order : TransCmp order := inferInstance

theorem le_total (p q : Path) : (le p q || le q p) = true := by
  have hswap : order q p = (order p q).swap := OrientedCmp.eq_swap
  simp only [le, hswap]
  cases order p q <;> rfl

theorem le_trans {p q r : Path} (hpq : le p q = true) (hqr : le q r = true) : le p r = true :=
  transCmp_order.isLE_trans hpq hqr

theorem pairwise_sorted (paths : List Path) : (sorted paths).Pairwise fun p q => le p q = true :=
  @List.pairwise_mergeSort Path le (fun _ _ _ hpq hqr => le_trans hpq hqr) le_total paths

theorem mem_sorted {paths : List Path} {p : Path} : p ∈ sorted paths ↔ p ∈ paths :=
  (List.mergeSort_perm paths _).mem_iff

theorem length_sorted (paths : List Path) : (sorted paths).length = paths.length :=
  List.length_mergeSort paths

/-- A path comes before another one and is not the same place. -/
def Precedes (p q : Path) : Prop := order p q = .lt

theorem precedes_of_le {p q : Path} (hle : le p q = true) (hne : p.parts ≠ q.parts) :
    p.Precedes q := by
  unfold Precedes
  cases h : order p q with
  | lt => rfl
  | eq => exact absurd (order_eq_iff.mp h) hne
  | gt => simp [le, h] at hle

theorem Precedes.trans {p q r : Path} (hpq : p.Precedes q) (hqr : q.Precedes r) : p.Precedes r :=
  TransCmp.lt_trans hpq hqr

theorem mem_dropRepeats {paths : List Path} {p : Path} (h : p ∈ dropRepeats paths) : p ∈ paths := by
  fun_induction dropRepeats paths with
  | case1 => exact h
  | case2 => exact h
  | case3 p q rest hsame ih =>
      rcases List.mem_cons.mp (ih h) with rfl | h
      · simp
      · simp [h]
  | case4 p q rest hsame ih =>
      rcases List.mem_cons.mp h with rfl | h
      · simp
      · exact List.mem_cons_of_mem _ (ih h)

/-- Dropping repeats keeps every place. -/
theorem listed_dropRepeats {paths : List Path} {p : Path} :
    p.listed (dropRepeats paths) = true ↔ p.listed paths = true := by
  fun_induction dropRepeats paths with
  | case1 => rfl
  | case2 => rfl
  | case3 first second rest hsame ih =>
      rw [ih]
      have hparts := same_iff.mp hsame
      simp [listed, same, hparts]
  | case4 first second rest hsame ih =>
      simp only [listed, List.any_cons, Bool.or_eq_true] at ih ⊢
      rw [ih]

/-- Of an ascending list, dropping repeats leaves a strictly ascending one. -/
theorem pairwise_dropRepeats {paths : List Path} (h : paths.Pairwise fun p q => le p q = true) :
    (dropRepeats paths).Pairwise Precedes := by
  fun_induction dropRepeats paths with
  | case1 => exact List.Pairwise.nil
  | case2 => simp
  | case3 p q rest hsame ih =>
      obtain ⟨hp, hrest⟩ := List.pairwise_cons.mp h
      obtain ⟨-, hrest⟩ := List.pairwise_cons.mp hrest
      refine ih (List.pairwise_cons.mpr ⟨fun r hr => hp r (by simp [hr]), hrest⟩)
  | case4 p q rest hsame ih =>
      obtain ⟨hp, hrest⟩ := List.pairwise_cons.mp h
      refine List.pairwise_cons.mpr ⟨fun r hr => ?_, ih hrest⟩
      have hpq : p.Precedes q := precedes_of_le (hp q (by simp)) fun h => hsame (same_iff.mpr h)
      rcases List.mem_cons.mp (mem_dropRepeats hr) with rfl | hr
      · exact hpq
      · exact TransCmp.lt_of_lt_of_isLE hpq ((List.pairwise_cons.mp hrest).1 r hr)

theorem pairwise_sortedUnique (paths : List Path) : (sortedUnique paths).Pairwise Precedes :=
  pairwise_dropRepeats (pairwise_sorted paths)

/-- A list in order only loses its repeats. -/
theorem sortedUnique_eq_dropRepeats {paths : List Path} (h : paths.Pairwise fun p q => le p q = true) :
    sortedUnique paths = dropRepeats paths := by
  rw [sortedUnique, sorted, List.mergeSort_of_pairwise h]

theorem mem_of_mem_sortedUnique {paths : List Path} {p : Path} (h : p ∈ sortedUnique paths) :
    p ∈ paths :=
  mem_sorted.mp (mem_dropRepeats h)

theorem listed_sortedUnique {paths : List Path} {p : Path} :
    p.listed (sortedUnique paths) = true ↔ p.listed paths = true := by
  rw [sortedUnique, listed_dropRepeats]
  simp only [listed_iff, mem_sorted]

/-! ## Which spelling is kept -/

/-- Sorting leaves the spellings of one place in their order. -/
theorem filter_same_sorted (p : Path) (paths : List Path) :
    (sorted paths).filter p.same = paths.filter p.same := by
  have hsorted : (paths.filter p.same).Pairwise fun q r => le q r = true := by
    apply List.pairwise_of_forall_mem_list
    intro q hq r hr
    have hparts := (same_iff.mp (List.mem_filter.mp hq).2).symm.trans (same_iff.mp (List.mem_filter.mp hr).2)
    rw [le, order_eq_iff.mpr hparts]
    rfl
  have hsub : (paths.filter p.same).Sublist (sorted paths) :=
    @List.sublist_mergeSort Path le paths (fun _ _ _ hqr hrs => le_trans hqr hrs) le_total _ hsorted
      List.filter_sublist
  have hkept := hsub.filter p.same
  rw [List.filter_filter] at hkept
  simp only [Bool.and_self] at hkept
  refine (hkept.eq_of_length ?_).symm
  exact ((List.mergeSort_perm paths le).filter p.same).length_eq.symm

theorem find?_sorted (p : Path) (paths : List Path) : (sorted paths).find? p.same = paths.find? p.same := by
  rw [← List.head?_filter, ← List.head?_filter, filter_same_sorted]

theorem find?_dropRepeats (p : Path) (paths : List Path) :
    (dropRepeats paths).find? p.same = paths.find? p.same := by
  fun_induction dropRepeats paths with
  | case1 => rfl
  | case2 => rfl
  | case3 first second rest hsame ih =>
      have hboth : p.same first = p.same second := by
        rw [same, same, same_iff.mp hsame]
      rw [ih, List.find?_cons, List.find?_cons, List.find?_cons, ← hboth]
      cases p.same first <;> rfl
  | case4 first second rest hsame ih => rw [List.find?_cons, List.find?_cons, ih]

/-- Of several spellings of a place the first one is kept. -/
theorem find?_sortedUnique (p : Path) (paths : List Path) :
    (sortedUnique paths).find? p.same = paths.find? p.same := by
  rw [sortedUnique, find?_dropRepeats, find?_sorted]

end ScopedCheck.Path
