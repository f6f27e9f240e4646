import Mathlib.Data.List.Pairwise
import Mathlib.Data.List.Sort
import Mathlib.Data.Set.List
import ScopedCheck.Proofs.Path.Normal
import ScopedCheck.Proofs.Path.Order
/-! # Lists with the same spellings

A sorted list without repeats depends only on which spelling a list keeps of every place. -/

namespace ScopedCheck.Path

open FileTree (Location pathOf)

/-- Whether lists keep the same spelling of every place. -/
def Alike (paths others : List Path) : Prop :=
  ∀ p : Path, paths.find? p.same = others.find? p.same

theorem Alike.append {paths others more rest : List Path} (h : Alike paths others)
    (hmore : Alike more rest) : Alike (paths ++ more) (others ++ rest) := by
  intro p
  rw [List.find?_append, List.find?_append, h p, hmore p]

/-- Normal forms have one spelling, so that their order and their repeats do not count. -/
theorem alike_of_normal {paths others : List Path} (hnormal : ∀ p ∈ paths, p.normalize = p)
    (hsame : ∀ p, p ∈ others ↔ p ∈ paths) : Alike paths others := by
  intro p
  cases hfound : paths.find? p.same with
  | none =>
      rw [List.find?_eq_none] at hfound
      exact (List.find?_eq_none.mpr fun q hq => hfound q ((hsame q).mp hq)).symm
  | some q =>
      have hq := List.mem_of_find?_eq_some hfound
      have hsome : (others.find? p.same).isSome :=
        List.find?_isSome.mpr ⟨q, (hsame q).mpr hq, List.find?_some hfound⟩
      obtain ⟨other, hother⟩ := Option.isSome_iff_exists.mp hsome
      have hmem := (hsame other).mp (List.mem_of_find?_eq_some hother)
      have hparts := (same_iff.mp (List.find?_some hfound)).symm.trans
        (same_iff.mp (List.find?_some hother))
      rw [hother, eq_of_parts_eq (hnormal q hq) (hnormal other hmem) hparts]

theorem mem_sortedUnique_iff {paths : List Path} {p : Path} :
    p ∈ sortedUnique paths ↔ paths.find? p.same = some p := by
  rw [← find?_sortedUnique]
  refine ⟨fun h => ?_, List.mem_of_find?_eq_some⟩
  have hsome : ((sortedUnique paths).find? p.same).isSome :=
    List.find?_isSome.mpr ⟨p, h, same_iff.mpr rfl⟩
  obtain ⟨q, hq⟩ := Option.isSome_iff_exists.mp hsome
  have hparts := same_iff.mp (List.find?_some hq)
  rw [hq, Option.some.injEq]
  by_contra hne
  have : Std.Symm fun p q : Path => p.parts ≠ q.parts := ⟨fun _ _ h => h.symm⟩
  have hdistinct : (sortedUnique paths).Pairwise fun p q => p.parts ≠ q.parts :=
    (pairwise_sortedUnique paths).imp fun hlt heq => by
      rw [Precedes, order_eq_iff.mpr heq] at hlt
      cases hlt
  exact hdistinct.forall h (List.mem_of_find?_eq_some hq) (Ne.symm hne) hparts

/-- A list of normal forms keeps all of them. -/
theorem mem_sortedUnique_of_normal {paths : List Path} (hnormal : ∀ p ∈ paths, p.normalize = p) {p : Path} :
    p ∈ sortedUnique paths ↔ p ∈ paths := by
  refine ⟨mem_of_mem_sortedUnique, fun hp => ?_⟩
  obtain ⟨q, hq, hparts⟩ := listed_iff.mp (listed_sortedUnique.mpr (listed_of_mem hp))
  rwa [eq_of_parts_eq (hnormal p hp) (hnormal q (mem_of_mem_sortedUnique hq)) hparts]

/-- An ascending list is known by what it holds. -/
theorem eq_of_precedes {paths others : List Path} (hpaths : paths.Pairwise Precedes)
    (hothers : others.Pairwise Precedes) (hsame : ∀ p, p ∈ paths ↔ p ∈ others) : paths = others := by
  have : Std.Irrefl Precedes := ⟨fun p hlt => by
    rw [Precedes, order_eq_iff.mpr rfl] at hlt
    cases hlt⟩
  have : Std.Antisymm Precedes := ⟨fun p q hpq hqp => (Std.Irrefl.irrefl p (hpq.trans hqp)).elim⟩
  exact hpaths.eq_of_mem_iff hothers fun p => hsame p

/-- Lists with the same spellings are listed in one way. -/
theorem sortedUnique_congr {paths others : List Path} (h : Alike paths others) :
    sortedUnique paths = sortedUnique others := by
  refine eq_of_precedes (pairwise_sortedUnique paths) (pairwise_sortedUnique others) fun p => ?_
  rw [mem_sortedUnique_iff, mem_sortedUnique_iff, h p]

/-! ## Lists of what is in a directory -/

theorem compareLex_append (front rest others : List Part) :
    List.compareLex Part.order (front ++ rest) (front ++ others) = List.compareLex Part.order rest others := by
  induction front with
  | nil => rfl
  | cons part front ih =>
    have hself : Part.order part part = .eq := Std.ReflCmp.compare_self
    rw [List.cons_append, List.cons_append, List.compareLex_cons_cons, hself, ih]
    rfl

/-- What is in a directory has the order of the names that lead there. -/
theorem order_pathOf_append {place names others : Location} (hplace : AreNames place) (hnames : AreNames names)
    (hothers : AreNames others) : order (pathOf (place ++ names)) (pathOf (place ++ others)) =
      List.compareLex Part.order (names.map .name) (others.map .name) := by
  rw [order, parts_pathOf (hplace.append hnames), parts_pathOf (hplace.append hothers), List.map_append,
    List.map_append, ← List.cons_append, ← List.cons_append, compareLex_append]

/-- The same things in two directories are listed in the same order. -/
theorem exists_sortedUnique {place next : Location} (hplace : AreNames place) (hnext : AreNames next)
    {paths others : List Path} (found : Location → Prop) (hfound : ∀ names, found names → AreNames names)
    (hpaths : ∀ p, p ∈ paths ↔ ∃ names, found names ∧ pathOf (place ++ names) = p)
    (hothers : ∀ p, p ∈ others ↔ ∃ names, found names ∧ pathOf (next ++ names) = p) :
    ∃ listed : List Location, sortedUnique paths = listed.map (fun names => pathOf (place ++ names)) ∧
      sortedUnique others = listed.map (fun names => pathOf (next ++ names)) := by
  have hnormal : ∀ {dir : Location}, AreNames dir → ∀ {names}, found names →
      (pathOf (dir ++ names)).normalize = pathOf (dir ++ names) :=
    fun hdir _ hnames => normalize_pathOf (hdir.append (hfound _ hnames))
  have hmem : ∀ p, p ∈ sortedUnique paths ↔ ∃ names, found names ∧ pathOf (place ++ names) = p := by
    intro p
    rw [mem_sortedUnique_of_normal, hpaths]
    intro q hq
    obtain ⟨names, hnames, rfl⟩ := (hpaths q).mp hq
    exact hnormal hplace hnames
  have hmem' : ∀ p, p ∈ sortedUnique others ↔ ∃ names, found names ∧ pathOf (next ++ names) = p := by
    intro p
    rw [mem_sortedUnique_of_normal, hothers]
    intro q hq
    obtain ⟨names, hnames, rfl⟩ := (hothers q).mp hq
    exact hnormal hnext hnames
  have hrange : sortedUnique paths ∈ Set.range (List.map fun names : {names // found names} =>
      pathOf (place ++ names.val)) := by
    rw [Set.range_list_map]
    intro p hp
    obtain ⟨names, hnames, rfl⟩ := (hmem p).mp hp
    exact ⟨⟨names, hnames⟩, rfl⟩
  obtain ⟨listed, hlisted⟩ := hrange
  refine ⟨listed.map (·.val), by rw [List.map_map, ← hlisted]; rfl, ?_⟩
  refine eq_of_precedes (pairwise_sortedUnique others) ?_ fun p => ?_
  · have hascending := pairwise_sortedUnique paths
    rw [← hlisted, List.pairwise_map] at hascending
    rw [List.map_map, List.pairwise_map]
    refine hascending.imp fun {names other} hlt => ?_
    rw [Precedes, order_pathOf_append hplace (hfound _ names.property) (hfound _ other.property)] at hlt
    rwa [Precedes, Function.comp, Function.comp,
      order_pathOf_append hnext (hfound _ names.property) (hfound _ other.property)]
  · rw [hmem', List.map_map, List.mem_map]
    constructor
    · rintro ⟨names, hnames, rfl⟩
      have hthere := (hmem _).mpr ⟨names, hnames, rfl⟩
      rw [← hlisted, List.mem_map] at hthere
      obtain ⟨other, hother, heq⟩ := hthere
      have heq := pathOf_injective (hplace.append (hfound _ other.property)) (hplace.append (hfound _ hnames)) heq
      exact ⟨other, hother, by rw [Function.comp, List.append_cancel_left heq]⟩
    · rintro ⟨names, -, rfl⟩
      exact ⟨names.val, names.property, rfl⟩

end ScopedCheck.Path
