import ScopedCheck.Proofs.Text.Pattern
/-! # Searches piece by piece

What a search finds from a place on. A text in which no match starts may be passed over, and a search goes
on behind what it has found, so that the matches in a text are put together from those in its pieces. -/

namespace ScopedCheck.Text.Pattern

variable {pattern : Pattern} {before : Option Char} {offset : Nat}

/-- All matches from a place on. -/
def findFrom (pattern : Pattern) (here : Place) : List Found :=
  pattern.findAmong here.offset here.onward

theorem findAll_eq_findFrom (pattern : Pattern) (cs : List Char) :
    pattern.findAll cs = pattern.findFrom (Place.start cs) := findAll_eq pattern cs

theorem le_offset_of_mem_onward {cs : List Char} {here : Place}
    (h : here ∈ Place.onward ⟨before, offset, cs⟩) : offset ≤ here.offset := by
  induction cs generalizing before offset with
  | nil =>
    rw [Place.onward_nil] at h
    exact List.mem_singleton.mp h ▸ Nat.le_refl offset
  | cons c cs ih =>
    rw [Place.onward_cons] at h
    rcases List.mem_cons.mp h with rfl | h
    · exact Nat.le_refl _
    · have := ih h
      omega

theorem start_of_matchAt? {here : Place} {found : Found} (h : pattern.matchAt? here = .some found) :
    found.start = here := by
  obtain ⟨stop, known, hfound⟩ := exists_of_first? h
  exact (Option.some.inj hfound) ▸ rfl

theorem findAmong_of_le {stop offset : Nat} (hstop : stop ≤ offset) {places : List Place}
    (h : ∀ here ∈ places, offset ≤ here.offset) :
    pattern.findAmong stop places = pattern.findAmong offset places := by
  induction places with
  | nil => rfl
  | cons here later ih =>
    obtain ⟨hhere, hlater⟩ := List.forall_mem_cons.mp h
    have hreached : ¬here.offset < stop := by omega
    have hreached' : ¬here.offset < offset := by omega
    simp only [findAmong, hreached, hreached', if_false, ih hlater]

/-- A search that stopped behind some characters passes over them. -/
theorem findAmong_onward {stop : Nat} {cs rest : List Char} (hstop : offset + cs.length ≤ stop) :
    pattern.findAmong stop (Place.onward ⟨before, offset, cs ++ rest⟩)
      = pattern.findAmong stop (Place.onward ⟨lastChar before cs, offset + cs.length, rest⟩) := by
  induction cs generalizing before offset with
  | nil => rfl
  | cons c cs ih =>
    rw [List.length_cons] at hstop
    have hpassed : offset < stop := by omega
    rw [List.cons_append, Place.onward_cons, findAmong, if_pos hpassed, ih (by omega), lastChar_cons,
      List.length_cons]
    congr 3
    omega

theorem findFrom_nil (h : pattern.matchAt? ⟨before, offset, []⟩ = none) :
    pattern.findFrom ⟨before, offset, []⟩ = [] := by
  simp [findFrom, Place.onward_nil, findAmong, h]

/-- A character at which no match starts may be passed over. -/
theorem findFrom_cons {c : Char} {rest : List Char}
    (h : pattern.matchAt? ⟨before, offset, c :: rest⟩ = none) :
    pattern.findFrom ⟨before, offset, c :: rest⟩
      = pattern.findFrom ⟨.some c, offset + 1, rest⟩ := by
  have hlater : ∀ here ∈ Place.onward ⟨.some c, offset + 1, rest⟩, offset + 1 ≤ here.offset :=
    fun _ hmem => le_offset_of_mem_onward hmem
  simp only [findFrom, Place.onward_cons, findAmong, Nat.lt_irrefl, if_false, h]
  exact findAmong_of_le (Nat.le_succ offset) hlater

/-- A text in which no match starts may be passed over. -/
theorem findFrom_append {cs rest : List Char}
    (h : ∀ taken c left, taken ++ c :: left = cs →
      pattern.matchAt? ⟨lastChar before taken, offset + taken.length, c :: left ++ rest⟩ = none) :
    pattern.findFrom ⟨before, offset, cs ++ rest⟩
      = pattern.findFrom ⟨lastChar before cs, offset + cs.length, rest⟩ := by
  induction cs generalizing before offset with
  | nil => rfl
  | cons c cs ih =>
    have hc : pattern.matchAt? ⟨before, offset, c :: (cs ++ rest)⟩ = none := h [] c cs rfl
    rw [List.cons_append, findFrom_cons hc, ih ?_, lastChar_cons, List.length_cons]
    · congr 2
      omega
    · intro taken d left hcs
      have := h (c :: taken) d left (by rw [List.cons_append, hcs])
      simpa [Nat.add_assoc, Nat.add_comm 1] using this

/-- No match starts in a text with these neighbours. -/
def Silent (pattern : Pattern) (before : Option Char) (cs rest : List Char) : Prop :=
  ∀ taken c left, taken ++ c :: left = cs → ∀ offset,
    pattern.matchAt? ⟨lastChar before taken, offset, c :: left ++ rest⟩ = none

theorem Silent.findFrom {cs rest : List Char} (h : Silent pattern before cs rest) :
    pattern.findFrom ⟨before, offset, cs ++ rest⟩
      = pattern.findFrom ⟨lastChar before cs, offset + cs.length, rest⟩ :=
  findFrom_append fun taken c left hcs => h taken c left hcs _

theorem Silent.append {cs ds rest : List Char} (hcs : Silent pattern before cs (ds ++ rest))
    (hds : Silent pattern (lastChar before cs) ds rest) : Silent pattern before (cs ++ ds) rest := by
  intro taken c left h offset
  rcases List.append_eq_append_iff.mp h with ⟨more, rfl, hleft⟩ | ⟨more, rfl, hds'⟩
  · cases more with
    | nil =>
      rw [List.append_nil] at hds
      exact hds [] c left hleft offset
    | cons d more =>
      obtain ⟨rfl, htail⟩ := List.cons.inj hleft
      have hrest : c :: left ++ rest = c :: more ++ (ds ++ rest) := by
        rw [htail]
        exact List.append_assoc (c :: more) ds rest
      rw [hrest]
      exact hcs taken c more rfl offset
  · rw [lastChar_append]
    exact hds more c left hds'.symm offset

/-- A search goes on behind what it has found. -/
theorem findFrom_of_matchAt? {cs rest : List Char} {found : Found}
    (h : pattern.matchAt? ⟨before, offset, cs ++ rest⟩ = .some found) (hcs : cs ≠ [])
    (hstop : found.stop = ⟨lastChar before cs, offset + cs.length, rest⟩) :
    pattern.findFrom ⟨before, offset, cs ++ rest⟩ = found :: pattern.findFrom found.stop := by
  have hlonger : offset < offset + cs.length := by
    have := List.length_pos_iff.mpr hcs
    omega
  have hpassed : pattern.findAmong (offset + cs.length) (Place.onward ⟨before, offset, cs ++ rest⟩)
      = pattern.findAmong (offset + cs.length)
          (Place.onward ⟨lastChar before cs, offset + cs.length, rest⟩) :=
    findAmong_onward (Nat.le_refl _)
  obtain ⟨c, tail, rfl⟩ := List.exists_cons_of_ne_nil hcs
  rw [List.cons_append] at h hpassed ⊢
  rw [Place.onward_cons, findAmong, if_pos hlonger] at hpassed
  simp only [findFrom, Place.onward_cons, findAmong, Nat.lt_irrefl, if_false, h, hstop, hlonger, if_true,
    hpassed]

end ScopedCheck.Text.Pattern
