import ScopedCheck.Path.Kind
import ScopedCheck.Proofs.Path.Normal
/-! # Names of sources

Whether a path is a source depends on its place only, and every declaration file is one. What the text of
a normal form ends in, its name ends in as well. -/

namespace ScopedCheck.Path

/-- Whether a path is a source depends on the place only. -/
theorem isSource_eq {p q : Path} (h : p.parts = q.parts) (allowUntyped : Bool) :
    p.isSource allowUntyped = q.isSource allowUntyped := by
  simp only [isSource, endsInOneOf, name, name?, h]

/-- The name ends of the sources that a compiler loads. -/
def sourceExtensions (allowUntyped : Bool) : List String :=
  typedExtensions ++ if allowUntyped then untypedExtensions else []

theorem isSource_iff {p : Path} {allowUntyped : Bool} :
    p.isSource allowUntyped = true ↔
      ∃ ending ∈ sourceExtensions allowUntyped, ending.toList <:+ p.name.toList := by
  cases allowUntyped <;> simp [isSource, endsInOneOf, sourceExtensions, or_and_right, exists_or]

/-- A declaration file is a source, whether or not untyped ones are allowed. -/
theorem isSource_of_isDeclaration {p : Path} (h : p.isDeclaration = true) (allowUntyped : Bool) :
    p.isSource allowUntyped = true := by
  have hshort : ∀ ending ∈ declarationExtensions,
      ∃ short ∈ typedExtensions, short.toList <:+ ending.toList := by decide
  simp only [isDeclaration, endsInOneOf, List.any_eq_true, List.isSuffixOf_iff_suffix] at h
  obtain ⟨ending, hending, hends⟩ := h
  obtain ⟨short, hshort, hwithin⟩ := hshort ending hending
  exact isSource_iff.mpr ⟨short, List.mem_append_left _ hshort, hwithin.trans hends⟩

-- what is no declaration may be a source, but a data file never is
example : (⟨"/p/env.d.mts"⟩ : Path).isSource false = true ∧ (⟨"/p/a.js"⟩ : Path).isSource true = true ∧
    (⟨"/p/data.json"⟩ : Path).isSource true = false := by decide +kernel

/-! ## Normal forms -/

/-- What the text of a normal form ends in, its name ends in as well. -/
theorem suffix_name_of_suffix {p : Path} (hp : p.normalize = p) {ending : List Char}
    (hending : isEnding ending = true) (h : ending <:+ p.chars) : ending <:+ p.name.toList := by
  obtain ⟨⟨last, hlast, -⟩, hslash⟩ := isEnding_iff.mp hending
  obtain ⟨start, hchars⟩ := h
  obtain ⟨absolute, location, hnames, rfl⟩ := exists_ofSegments hp
  rcases List.eq_nil_or_concat' location with rfl | ⟨before, final, rfl⟩
  · -- there is nothing but a slash, which no such ending has
    have hmem : last ∈ (ofSegments absolute []).chars :=
      hchars ▸ List.mem_append_right _ (List.mem_of_getLast? hlast)
    have hroot : last = '/' := by
      cases absolute with
      | true => simpa [chars_ofSegments, Text.joinWith] using hmem
      | false => simp [chars_ofSegments, Text.joinWith] at hmem
    exact absurd (hroot ▸ List.mem_of_getLast? hlast) hslash
  · obtain ⟨front, hfront, hends⟩ := exists_front absolute before
    obtain ⟨stem, hstem, -⟩ := exists_of_ending hfront hslash ((hends final).symm.trans hchars.symm)
    have hbefore : AreNames before := fun name hname => hnames name (List.mem_append_left _ hname)
    rw [name_ofSegments_concat absolute hbefore (hnames final (by simp)), String.toList_ofList]
    exact ⟨stem, hstem.symm⟩

/-- A normal form whose text ends like the name of a source is one. -/
theorem isSource_of_suffix {p : Path} (hp : p.normalize = p) {allowUntyped : Bool} {ending : String}
    (hending : ending ∈ sourceExtensions allowUntyped) (h : ending.toList <:+ p.chars) :
    p.isSource allowUntyped = true :=
  have hall : ∀ untyped, ∀ ending ∈ sourceExtensions untyped, isEnding ending.toList = true := by decide
  isSource_iff.mpr ⟨ending, hending, suffix_name_of_suffix hp (hall _ ending hending) h⟩

end ScopedCheck.Path
