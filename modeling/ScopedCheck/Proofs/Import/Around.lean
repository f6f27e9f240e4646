import ScopedCheck.Proofs.Import.Shape
/-! # Matches around a string

Two texts that differ in what one string holds are searched alike in front of the string and behind it. A
match in front of the string does not see what it holds: its specifier starts at an earlier quote, and ends
at the string at the latest. Only what is exported in braces may stretch over the string. -/

namespace ScopedCheck.Import

open Text Text.Pattern

/-! ## Matches that are alike -/

/-- Offsets that are the same as seen from a string with one content or another: they lie up to its opening
quote, or from its closing quote on. -/
def OffsetsAlike (front content other : List Char) (n m : Nat) : Prop :=
  (n ≤ front.length + 1 ∧ m = n) ∨
    ∃ k, n = front.length + content.length + 2 + k ∧ m = front.length + other.length + 2 + k

/-- Matches that stop at offsets that are alike and stand for the same import. -/
structure FoundAlike (kind : Kind) (front content other : List Char) (found found' : Found) : Prop where
  stop : OffsetsAlike front content other found.stop.offset found'.stop.offset
  entry : entryOf kind found = entryOf kind found'

/-- What a match ends with. -/
def finish (here : Place) : Place → Groups → Option Found := fun stop groups => some ⟨here, stop, groups⟩

theorem entryOf_eq {kind : Kind} {found found' : Found}
    (h : remembered found.groups = remembered found'.groups) :
    entryOf kind found = entryOf kind found' := by
  simp only [entryOf, Found.group, group?_eq, h]

section Alike

variable {kind : Kind} {front content other behind : List Char} {quote : Char} {here here' : Place}
  {groups groups' : Groups} {before : Option Char} {offset : Nat}

theorem rel_finish {stop stop' : Place} (hstop : OffsetsAlike front content other stop.offset stop'.offset)
    (hgroups : remembered groups = remembered groups') :
    Option.Rel (FoundAlike kind front content other) (finish here stop groups) (finish here' stop' groups') :=
  .some ⟨hstop, entryOf_eq hgroups⟩

/-- A pattern that asks of places for boundaries only finds alike behind the string. -/
theorem rel_first?_behind {pattern : Pattern} (havoids : pattern.Avoids fun _ => false) (k : Nat)
    (left : List Char) (hgroups : remembered groups = remembered groups') :
    Option.Rel (FoundAlike kind front content other)
      (pattern.first? (finish here) ⟨before, front.length + content.length + 2 + k, left⟩ groups)
      (pattern.first? (finish here') ⟨before, front.length + other.length + 2 + k, left⟩ groups') := by
  have hrel : Option.Rel (FoundAlike kind front content other)
      (pattern.first? (finish here) ⟨before, front.length + content.length + 2 + k, left ++ []⟩ groups)
      (pattern.first? (finish here') ⟨before, front.length + other.length + 2 + k, left ++ []⟩ groups') := by
    refine rel_first? havoids rfl rfl rfl (fun taken later _ _ groups groups' hgroups => ?_) hgroups
    refine rel_finish (.inr ⟨k + taken.length, ?_, ?_⟩) hgroups <;> simp only [Nat.add_assoc]
  rwa [List.append_nil] at hrel

theorem remembered_specifierGroup (start : Nat) (body rest : List Char) :
    remembered (specifierGroup quote start body rest :: groups) = (2, body) :: remembered groups := by
  simp only [remembered, specifierGroup, List.map_cons, Place.textUpTo_append]

/-- A text with a character of a class is split at the first one. -/
theorem exists_first {p : Char → Bool} (cs : List Char) : (∀ c ∈ cs, p c = false) ∨
    ∃ taken c left, cs = taken ++ c :: left ∧ p c = true ∧ ∀ d ∈ taken, p d = false := by
  cases hfind : cs.find? p with
  | none =>
    refine .inl fun c hc => ?_
    simpa using List.find?_eq_none.mp hfind c hc
  | some c =>
    obtain ⟨hc, taken, left, hcs, htaken⟩ := List.find?_eq_some_iff_append.mp hfind
    exact .inr ⟨taken, c, left, hcs, hc, fun d hd => by simpa using htaken d hd⟩

/-- A specifier that starts in front of the string is found alike, if that goes on alike: behind the
specifier, or within the string if its opening quote ends the specifier. -/
theorem rel_quotedSpecifier (hquote : isQuote quote = true) {first : Char} (hfirst : isQuote first = true)
    {goOn goOn' : Place → Groups → Option Found} {left : List Char}
    (hoffset : offset + (first :: left).length = front.length)
    (hwithin : ∀ before offset left groups groups', offset + left.length = front.length →
      remembered groups = remembered groups' → Option.Rel (FoundAlike kind front content other)
        (goOn ⟨before, offset, left ++ quote :: (content ++ quote :: behind)⟩ groups)
        (goOn' ⟨before, offset, left ++ quote :: (other ++ quote :: behind)⟩ groups'))
    (hopening : left ≠ [] → (∀ c ∈ left, isQuote c = false ∧ c ≠ '\n') → ∀ groups groups',
      remembered groups = remembered groups' → Option.Rel (FoundAlike kind front content other)
        (goOn ⟨some quote, front.length + 1, content ++ quote :: behind⟩ groups)
        (goOn' ⟨some quote, front.length + 1, other ++ quote :: behind⟩ groups'))
    (hgroups : remembered groups = remembered groups') :
    Option.Rel (FoundAlike kind front content other)
      (quotedSpecifier.first? goOn
        ⟨before, offset, first :: (left ++ quote :: (content ++ quote :: behind))⟩ groups)
      (quotedSpecifier.first? goOn'
        ⟨before, offset, first :: (left ++ quote :: (other ++ quote :: behind))⟩ groups') := by
  rw [List.length_cons] at hoffset
  rcases exists_first (p := fun c => isQuote c || c == '\n') left with hplain | ⟨body, c, later, rfl, hc, hbody⟩
  · -- the second quote is the opening one of the string
    have hleft : ∀ c ∈ left, isQuote c = false ∧ c ≠ '\n' := fun c hc => by simpa using hplain c hc
    by_cases hne : left = []
    · subst hne
      rw [List.nil_append, List.nil_append, first?_quotedSpecifier_empty hfirst hquote,
        first?_quotedSpecifier_empty hfirst hquote]
      exact .none
    · have hend : offset + 1 + left.length + 1 = front.length + 1 := by omega
      rw [first?_quotedSpecifier hfirst hquote hne hleft, first?_quotedSpecifier hfirst hquote hne hleft, hend]
      refine hopening hne hleft _ _ ?_
      rw [remembered_specifierGroup, remembered_specifierGroup, hgroups]
  · have hplain : ∀ c ∈ body, isQuote c = false ∧ c ≠ '\n' := fun c hc => by simpa using hbody c hc
    rw [List.append_assoc, List.append_assoc, List.cons_append, List.cons_append]
    by_cases hline : c = '\n'
    · subst hline
      rw [first?_quotedSpecifier_line hfirst hplain, first?_quotedSpecifier_line hfirst hplain]
      exact .none
    · have hclose : isQuote c = true := by simpa [hline] using hc
      by_cases hne : body = []
      · subst hne
        rw [List.nil_append, List.nil_append, first?_quotedSpecifier_empty hfirst hclose,
          first?_quotedSpecifier_empty hfirst hclose]
        exact .none
      · rw [first?_quotedSpecifier hfirst hclose hne hplain, first?_quotedSpecifier hfirst hclose hne hplain]
        refine hwithin _ _ later _ _ ?_ ?_
        · rw [List.length_append, List.length_cons] at hoffset
          omega
        · rw [remembered_specifierGroup, remembered_specifierGroup, hgroups]

/-- What a pattern without quotes leads to before a specifier is found alike, if it does not take all that
stands in front of the string. -/
theorem rel_first?_quotedSpecifier (hquote : isQuote quote = true) {pattern : Pattern}
    (havoids : pattern.Avoids isQuote) {more : List Pattern} {cs : List Char}
    (hoffset : offset + cs.length = front.length)
    (hapart : (∀ c ∈ cs, isQuote c = false) → ¬pattern.Fits cs)
    (hwithin : ∀ before offset left groups groups', offset + left.length = front.length →
      remembered groups = remembered groups' → Option.Rel (FoundAlike kind front content other)
        ((all more).first? (finish here) ⟨before, offset, left ++ quote :: (content ++ quote :: behind)⟩ groups)
        ((all more).first? (finish here') ⟨before, offset, left ++ quote :: (other ++ quote :: behind)⟩ groups'))
    (hopening : ∀ taken first left, cs = taken ++ first :: left → pattern.Fits taken →
      isQuote first = true → left ≠ [] → (∀ c ∈ left, isQuote c = false ∧ c ≠ '\n') → ∀ groups groups',
      remembered groups = remembered groups' → Option.Rel (FoundAlike kind front content other)
        ((all more).first? (finish here) ⟨some quote, front.length + 1, content ++ quote :: behind⟩ groups)
        ((all more).first? (finish here') ⟨some quote, front.length + 1, other ++ quote :: behind⟩ groups'))
    (hgroups : remembered groups = remembered groups') :
    Option.Rel (FoundAlike kind front content other)
      (pattern.first? ((all (quotedSpecifier :: more)).first? (finish here))
        ⟨before, offset, cs ++ quote :: (content ++ quote :: behind)⟩ groups)
      (pattern.first? ((all (quotedSpecifier :: more)).first? (finish here'))
        ⟨before, offset, cs ++ quote :: (other ++ quote :: behind)⟩ groups') := by
  rcases exists_first (p := isQuote) cs with hplain | ⟨taken, first, left, rfl, hfirst, htaken⟩
  · have hnone : ∀ (here : Place) (groups : Groups) (rest : List Char),
        pattern.first? ((all (quotedSpecifier :: more)).first? (finish here))
          ⟨before, offset, cs ++ quote :: rest⟩ groups = none := fun here groups rest =>
      first?_eq_none_of_quote havoids refuses_quotedSpecifier hquote hplain
        fun hfits => absurd hfits (hapart hplain)
    rw [hnone, hnone]
    exact .none
  · rw [List.length_append] at hoffset
    rw [List.append_assoc, List.append_assoc, List.cons_append, List.cons_append]
    refine rel_first? havoids (by simpa using hfirst) (by simpa using hfirst) rfl
      (fun part rest hsplit hfits groups groups' hgroups => ?_) hgroups
    cases rest with
    | nil =>
      obtain rfl : part = taken := by simpa using hsplit
      refine rel_quotedSpecifier hquote hfirst (by omega) hwithin ?_ hgroups
      exact hopening part first left rfl hfits hfirst
    | cons c rest =>
      have hc : (!isQuote c) = true := by rw [htaken c (by simp [← hsplit])]; rfl
      have hnone : ∀ (here there : Place) (groups : Groups), there.rest.head? = some c →
          (all (quotedSpecifier :: more)).first? (finish here) there groups = none := by
        intro here there groups hnext
        exact refuses_quotedSpecifier there groups (by simpa [Place.nextIs, hnext] using hc)
      rw [hnone _ _ _ rfl, hnone _ _ _ rfl]
      exact .none

/-- A pattern without quotes finds alike in front of the string. -/
theorem rel_first?_within (hquote : isQuote quote = true) {pattern : Pattern}
    (havoids : pattern.Avoids isQuote) {left : List Char} (hoffset : offset + left.length = front.length)
    (hgroups : remembered groups = remembered groups') :
    Option.Rel (FoundAlike kind front content other)
      (pattern.first? (finish here) ⟨before, offset, left ++ quote :: (content ++ quote :: behind)⟩ groups)
      (pattern.first? (finish here') ⟨before, offset, left ++ quote :: (other ++ quote :: behind)⟩ groups') := by
  have hfinish : ∀ part rest us : List Char, part ++ rest = us → us.length ≤ left.length →
      ∀ (before : Option Char) (text text' : List Char) groups groups', remembered groups = remembered groups' →
      Option.Rel (FoundAlike kind front content other)
        (finish here ⟨before, offset + part.length, text⟩ groups)
        (finish here' ⟨before, offset + part.length, text'⟩ groups') := by
    intro part rest us hsplit hle before text text' groups groups' hgroups
    refine rel_finish (.inl ⟨?_, rfl⟩) hgroups
    rw [← hsplit, List.length_append] at hle
    show offset + part.length ≤ front.length + 1
    omega
  rcases exists_first (p := isQuote) left with hplain | ⟨us, first, vs, rfl, hfirst, -⟩
  · exact rel_first? havoids (by simpa using hquote) (by simpa using hquote) rfl
      (fun part rest hsplit _ => hfinish part rest left hsplit (Nat.le_refl _) _ _ _) hgroups
  · rw [List.append_assoc, List.append_assoc, List.cons_append, List.cons_append]
    exact rel_first? havoids (by simpa using hfirst) (by simpa using hfirst) rfl
      (fun part rest hsplit _ => hfinish part rest us hsplit (by simp) _ _ _) hgroups

/-- Nothing but a specifier behind a pattern without quotes. -/
theorem rel_first?_specifier (hquote : isQuote quote = true) {parts : List Pattern}
    (havoids : (all parts).Avoids isQuote) {cs : List Char} (hoffset : offset + cs.length = front.length)
    (hapart : ¬(all parts).Fits cs) (hgroups : remembered groups = remembered groups') :
    Option.Rel (FoundAlike kind front content other)
      ((all (parts ++ [quotedSpecifier])).first? (finish here)
        ⟨before, offset, cs ++ quote :: (content ++ quote :: behind)⟩ groups)
      ((all (parts ++ [quotedSpecifier])).first? (finish here')
        ⟨before, offset, cs ++ quote :: (other ++ quote :: behind)⟩ groups') := by
  rw [first?_all_append, first?_all_append]
  refine rel_first?_quotedSpecifier hquote havoids hoffset (fun _ => hapart) ?_ ?_ hgroups
  · intro before offset left groups groups' hoffset hgroups
    exact rel_first?_within hquote (show (all []).Avoids isQuote from trivial) hoffset hgroups
  · intro _ _ _ _ _ _ _ _ groups groups' hgroups
    exact rel_finish (.inl ⟨Nat.le_refl _, rfl⟩) hgroups

theorem many_avoids_nothing (prefer : Preference) (accepts : Char → Bool) :
    (many prefer accepts).Avoids fun _ => false := fun _ h => nomatch h

theorem quotedSpecifier_avoids_nothing : quotedSpecifier.Avoids fun _ => false := by
  have hchar : ∀ accepts, (char accepts).Avoids fun _ => false := fun _ _ h => nomatch h
  refine avoids_all ?_
  simp only [List.forall_mem_cons]
  exact ⟨hchar _, ⟨hchar _, many_avoids_nothing _ _⟩, hchar _, by simp⟩

/-- The patterns ask of places for nothing but boundaries. -/
theorem Shape.pattern_avoids_nothing (s : Shape) : s.pattern.Avoids fun _ => false := by
  have htext : ∀ s : String, (text s).Avoids fun _ => false := fun s => avoids_text (by simp)
  have hboundary := avoids_boundary fun _ => false
  have hmany := many_avoids_nothing
  have hsome : ∀ prefer accepts, (Pattern.some prefer accepts).Avoids fun _ => false :=
    fun _ _ => ⟨(fun _ h => nomatch h), hmany _ _⟩
  have hspecifier := quotedSpecifier_avoids_nothing
  have hmark := Shape.typeMark_avoids_isQuote.mono (fun _ h => nomatch h : ∀ c, false = true → isQuote c = true)
  have hclause : exportClause.Avoids fun _ => false := by
    refine ⟨avoids_all ?_, avoids_all ?_⟩ <;> simp only [List.forall_mem_cons]
    · refine ⟨htext _, ⟨avoids_all ?_, trivial⟩, by simp⟩
      simp only [List.forall_mem_cons]
      exact ⟨hsome _ _, htext _, hsome _ _, hsome _ _, by simp⟩
    · exact ⟨htext _, hmany _ _, htext _, by simp⟩
  rw [s.pattern_eq]
  refine avoids_all ?_
  cases s <;> simp only [head, tail, List.cons_append, List.nil_append, List.forall_mem_cons]
  case static =>
    exact ⟨hboundary, htext _, hsome _ _, hmark, hsome _ _, hboundary, htext _, hmany _ _, hspecifier, by simp⟩
  case sideEffect => exact ⟨hboundary, htext _, hmany _ _, hspecifier, by simp⟩
  case reExport =>
    exact ⟨hboundary, htext _, hsome _ _, hmark, hclause, hmany _ _, htext _, hmany _ _, hspecifier, by simp⟩
  case dynamic => exact ⟨hboundary, htext _, hmany _ _, htext _, hmany _ _, hspecifier, by simp⟩
  case require =>
    exact ⟨hboundary, htext _, hmany _ _, htext _, hmany _ _, hspecifier, hmany _ _, htext _, by simp⟩

end Alike

/-! ## In front of a string -/

/-- Whether a text ends in what stands in front of a specifier: an import or an export up to its `from`, the
word of an import of effects, or a call of `import` or `require` up to its bracket. -/
def Announces (front : List Char) : Prop :=
  ∃ (s : Shape) (taken cs : List Char), front = taken ++ cs ∧
    (lastChar none taken).any isWordChar = false ∧ (all s.head).Fits cs

/-- Whether a text ends within the braces of an export. -/
def OpensBraces (front : List Char) : Prop :=
  ∃ taken cs, front = taken ++ cs ∧ (lastChar none taken).any isWordChar = false ∧
    (all [boundary, text "export", blank, typeMark, text "\x7b", many .more (· != '}')]).Fits cs

/-- A text with a string in it. -/
def around (front : List Char) (quote : Char) (content behind : List Char) : List Char :=
  front ++ quote :: (content ++ quote :: behind)

/-- Whether a match has one of its ends within what a string holds, and the other one outside of the
string. -/
def straddles (front content : List Char) (found : Found) : Bool :=
  (found.start.offset ≤ front.length && front.length + 1 < found.stop.offset
      && found.stop.offset ≤ front.length + content.length + 1) ||
    (front.length < found.start.offset && found.start.offset ≤ front.length + content.length + 1
      && front.length + content.length + 2 < found.stop.offset)

/-- Whether all matches of all shapes lie within a string or outside of what it holds. -/
def KeepsApart (front : List Char) (quote : Char) (content behind : List Char) : Prop :=
  ∀ s ∈ Shape.inOrder, ∀ place ∈ (Place.start (around front quote content behind)).onward,
    (s.pattern.matchAt? place).all (!straddles front content ·) = true

theorem mem_onward (before : Option Char) (offset : Nat) (taken left : List Char) :
    ⟨lastChar before taken, offset + taken.length, left⟩ ∈ Place.onward ⟨before, offset, taken ++ left⟩ := by
  induction taken generalizing before offset with
  | nil =>
    obtain ⟨later, hlater⟩ := Place.head_onward ⟨before, offset, left⟩
    rw [List.nil_append, hlater]
    exact List.mem_cons_self
  | cons c taken ih =>
    rw [List.cons_append, Place.onward_cons, lastChar_cons, List.length_cons]
    refine List.mem_cons_of_mem _ ?_
    have hlater := ih (some c) (offset + 1)
    rwa [Nat.add_assoc, Nat.add_comm 1] at hlater

theorem Shape.mem_inOrder (s : Shape) : s ∈ inOrder := by
  cases s <;> decide

section Front

variable {s : Shape} {front content other behind taken cs : List Char} {quote : Char}

theorem KeepsApart.straddles_eq_false (h : KeepsApart front quote content behind) {left : List Char}
    (htext : taken ++ left = around front quote content behind) {found : Found}
    (hfound : s.pattern.matchAt? ⟨lastChar none taken, taken.length, left⟩ = some found) :
    straddles front content found = false := by
  have hplace := mem_onward none 0 taken left
  rw [Nat.zero_add, htext] at hplace
  have hall := h s s.mem_inOrder _ hplace
  rw [hfound] at hall
  simpa using hall

/-- Whether a match ends within what a string holds. -/
def EndsWithin (front content : List Char) (found : Found) : Prop :=
  front.length + 1 < found.stop.offset ∧ found.stop.offset ≤ front.length + content.length + 1

/-- A call that is closed behind the opening quote of a string is closed within the string. -/
theorem endsWithin_of_tail (hquote : isQuote quote = true) {here : Place} {before : Option Char}
    {groups : Groups} {found : Found} (h : (all Shape.require.tail).first? (finish here)
      ⟨before, front.length + 1, content ++ quote :: behind⟩ groups = some found) :
    EndsWithin front content found := by
  refine of_first? (p := EndsWithin front content) (fun closing left hsplit hfits groups found hfinish => ?_) h
  obtain rfl := Option.some.inj hfinish
  obtain ⟨gap, _, rfl, hgap, mark, _, rfl, hmark, rfl⟩ := hfits
  obtain rfl := fits_text.mp hmark
  have hplain : ∀ c ∈ gap ++ (")".toList ++ []), isQuote c = false :=
    List.forall_mem_append.mpr ⟨fun c hc => isQuote_of_isBlank (hgap c hc), by decide⟩
  obtain ⟨more, hcontent, -⟩ := exists_append_of_append_eq hplain hquote hsplit
  rw [EndsWithin, hcontent]
  simp only [List.length_append]
  change front.length + 1 < front.length + 1 + (gap.length + (1 + 0)) ∧
    front.length + 1 + (gap.length + (1 + 0)) ≤ front.length + (gap.length + (1 + 0) + more.length) + 1
  omega

/-- A call of `require` whose specifier ends in the opening quote of a string ends within the string. -/
theorem endsWithin_of_matchAt?_require (hquote : isQuote quote = true) (hfront : front = taken ++ cs)
    {us : List Char} {first : Char} {vs : List Char} (hcs : cs = us ++ first :: vs)
    (hus : ∀ c ∈ us, isQuote c = false) (hfirst : isQuote first = true) (hne : vs ≠ [])
    (hvs : ∀ c ∈ vs, isQuote c = false ∧ c ≠ '\n') {found : Found}
    (h : requirePattern.matchAt?
      ⟨lastChar none taken, taken.length, cs ++ quote :: (content ++ quote :: behind)⟩ = some found) :
    EndsWithin front content found := by
  rw [matchAt?, show requirePattern = all (Shape.require.head ++ quotedSpecifier :: Shape.require.tail) from
    Shape.pattern_eq .require, first?_all_append] at h
  refine of_first? (p := EndsWithin front content) (fun part left hsplit hfits groups found hgoOn => ?_) h
  -- the text up to the first quote is taken
  have hjoined : part ++ left = us ++ first :: (vs ++ quote :: (content ++ quote :: behind)) := by
    rw [hsplit, hcs, List.append_assoc, List.cons_append]
  obtain ⟨more, hpart, rfl⟩ := exists_append_of_append_eq
    (hfits.of_avoids (Shape.head_avoids_isQuote (by decide))) hfirst hjoined
  cases more with
  | cons c more =>
    have hc : (!isQuote c) = true := by rw [hus c (by simp [hpart])]; rfl
    rw [refuses_quotedSpecifier _ groups (by simpa [Place.nextIs] using hc)] at hgoOn
    cases hgoOn
  | nil =>
    obtain rfl : us = part := by simpa using hpart
    have hoffset : taken.length + us.length + 1 + vs.length + 1 = front.length + 1 := by
      rw [hfront, hcs]
      simp only [List.length_append, List.length_cons]
      omega
    rw [List.nil_append, first?_all_cons, first?_quotedSpecifier hfirst hquote hne hvs, hoffset] at hgoOn
    exact endsWithin_of_tail hquote hgoOn

/-- No call of `require` whose specifier ends in the opening quote of a string is found if matches keep
apart. -/
theorem matchAt?_require_eq_none (hquote : isQuote quote = true)
    (hapart : KeepsApart front quote content behind) (hfront : front = taken ++ cs)
    {us : List Char} {first : Char} {vs : List Char} (hcs : cs = us ++ first :: vs)
    (hus : ∀ c ∈ us, isQuote c = false) (hfirst : isQuote first = true) (hne : vs ≠ [])
    (hvs : ∀ c ∈ vs, isQuote c = false ∧ c ≠ '\n') :
    requirePattern.matchAt?
      ⟨lastChar none taken, taken.length, cs ++ quote :: (content ++ quote :: behind)⟩ = none := by
  refine Option.eq_none_iff_forall_ne_some.mpr fun found hfound => ?_
  have htext : taken ++ (cs ++ quote :: (content ++ quote :: behind)) = around front quote content behind := by
    rw [hfront, around, List.append_assoc]
  have hwithin := endsWithin_of_matchAt?_require hquote hfront hcs hus hfirst hne hvs hfound
  have hstart : found.start.offset ≤ front.length := by
    rw [start_of_matchAt? hfound, hfront, List.length_append]
    exact Nat.le_add_right ..
  have hout := hapart.straddles_eq_false (s := .require) htext hfound
  simp [straddles, hstart, hwithin.1, hwithin.2] at hout

theorem Shape.tail_avoids_isQuote (s : Shape) : (all s.tail).Avoids isQuote := by
  refine avoids_all ?_
  cases s with
  | require =>
    rw [tail]
    simp only [List.forall_mem_cons]
    exact ⟨fun _ => isBlank_of_isQuote, avoids_text (by decide), by simp⟩
  | _ => simp [tail]

/-- In front of a string, matches in all shapes but that of exports are found alike. -/
theorem rel_matchAt?_of_ne (hs : s ≠ .reExport) (hquote : isQuote quote = true)
    (hannounces : ¬Announces front) (hcontent : KeepsApart front quote content behind)
    (hother : KeepsApart front quote other behind) (hfront : front = taken ++ cs) :
    Option.Rel (FoundAlike s.kind front content other)
      (s.pattern.matchAt? ⟨lastChar none taken, taken.length, cs ++ quote :: (content ++ quote :: behind)⟩)
      (s.pattern.matchAt? ⟨lastChar none taken, taken.length, cs ++ quote :: (other ++ quote :: behind)⟩) := by
  cases hword : (lastChar none taken).any isWordChar with
  | true =>
    rw [Shape.matchAt?_eq_none_of_word hword, Shape.matchAt?_eq_none_of_word hword]
    exact .none
  | false =>
    have hoffset : taken.length + cs.length = front.length := by rw [hfront, List.length_append]
    by_cases hcall : s = .require ∧ ∃ us first vs, cs = us ++ first :: vs ∧
        (∀ c ∈ us, isQuote c = false) ∧ isQuote first = true ∧ vs ≠ [] ∧
        ∀ c ∈ vs, isQuote c = false ∧ c ≠ '\n'
    · obtain ⟨rfl, us, first, vs, hcs, hus, hfirst, hne, hvs⟩ := hcall
      have hnone := matchAt?_require_eq_none hquote hcontent hfront hcs hus hfirst hne hvs
      have hnone' := matchAt?_require_eq_none hquote hother hfront hcs hus hfirst hne hvs
      rw [Shape.pattern, hnone, hnone']
      exact .none
    · rw [matchAt?, matchAt?, Shape.pattern_eq, first?_all_append, first?_all_append]
      refine rel_first?_quotedSpecifier hquote (Shape.head_avoids_isQuote hs) hoffset
        (fun _ hfits => hannounces ⟨s, taken, cs, hfront, hword, hfits⟩)
        (fun _ _ _ _ _ hoffset hgroups => rel_first?_within hquote s.tail_avoids_isQuote hoffset hgroups)
        (fun us first vs hcs hfits hfirst hne hvs groups groups' hgroups => ?_) rfl
      by_cases hrequire : s = .require
      · exact absurd ⟨hrequire, us, first, vs, hcs, hfits.of_avoids (Shape.head_avoids_isQuote hs), hfirst, hne,
          hvs⟩ hcall
      · have htail : s.tail = [] := by
          cases s with
          | require => exact absurd rfl hrequire
          | _ => rfl
        rw [htail]
        exact rel_finish (.inl ⟨Nat.le_refl _, rfl⟩) hgroups

/-- What stands between what is exported and a specifier. -/
def fromParts : List Pattern := [blanks, text "from", blanks]

theorem fromParts_avoids_isQuote : (all fromParts).Avoids isQuote := by
  refine avoids_all ?_
  simp only [fromParts, List.forall_mem_cons]
  exact ⟨fun _ => isBlank_of_isQuote, avoids_text (by decide), fun _ => isBlank_of_isQuote, by simp⟩

/-- The mark for everything that is exported. -/
def starParts : List Pattern :=
  [text "*", Pattern.optional (all [blank, text "as", blank, Pattern.some .more isNameChar])]

theorem starParts_avoids_isQuote : (all starParts).Avoids isQuote := by
  have hnames : ∀ c, isQuote c = true → isNameChar c = false := by
    intro c hc
    simp only [isQuote, Bool.or_eq_true, beq_iff_eq] at hc
    rcases hc with rfl | rfl <;> decide
  refine avoids_all ?_
  simp only [starParts, List.forall_mem_cons]
  refine ⟨avoids_text (by decide), ⟨avoids_all ?_, trivial⟩, by simp⟩
  simp only [List.forall_mem_cons]
  exact ⟨Shape.blank_avoids_isQuote, avoids_text (by decide), Shape.blank_avoids_isQuote,
    ⟨hnames, hnames⟩, by simp⟩

/-- What is exported in braces, up to its specifier. -/
def bracesParts : List Pattern :=
  text "\x7b" :: many .more (· != '}') :: text "\x7d" :: (fromParts ++ [quotedSpecifier])

section Braces

variable {here here' : Place} {before : Option Char} {offset : Nat} {groups groups' : Groups}

/-- Braces that are open in front of the string and not closed in it are closed alike. -/
theorem rel_openBraces {ds : List Char} (hoffset : offset + 1 + ds.length = front.length) (hds : '}' ∉ ds)
    (hcontent : '}' ∉ content) (hother : '}' ∉ other) (hquote : isQuote quote = true)
    (hgroups : remembered groups = remembered groups') :
    Option.Rel (FoundAlike .reExport front content other)
      ((all bracesParts).first? (finish here)
        ⟨before, offset, '{' :: (ds ++ quote :: (content ++ quote :: behind))⟩ groups)
      ((all bracesParts).first? (finish here')
        ⟨before, offset, '{' :: (ds ++ quote :: (other ++ quote :: behind))⟩ groups') := by
  have hclosing : quote ≠ '}' := by
    rintro rfl
    exact absurd hquote (by decide)
  have hopen : ∀ {content es : List Char}, '}' ∉ content → '}' ∉ es →
      '}' ∉ ds ++ quote :: (content ++ quote :: es) := by
    intro content es hcontent hes
    simp [hds, hcontent, hes, hclosing.symm]
  rcases exists_first (p := (· == '}')) behind with hnone | ⟨es, c, fs, rfl, hc, hes⟩
  · have hbehind : '}' ∉ behind := fun h => by simpa using hnone '}' h
    rw [bracesParts, Shape.first?_braces_eq_none (hopen hcontent hbehind),
      Shape.first?_braces_eq_none (hopen hother hbehind)]
    exact .none
  · obtain rfl : c = '}' := by simpa using hc
    have hes : '}' ∉ es := fun h => by simpa using hes '}' h
    have hjoined : ∀ content : List Char, ds ++ quote :: (content ++ quote :: (es ++ '}' :: fs))
        = (ds ++ quote :: (content ++ quote :: es)) ++ '}' :: fs := by
      intro content
      simp only [List.append_assoc, List.cons_append]
    have hlength : ∀ content : List Char, offset + 1 + (ds ++ quote :: (content ++ quote :: es)).length + 1
        = front.length + content.length + 2 + (es.length + 1) := by
      intro content
      simp only [List.length_append, List.length_cons]
      omega
    rw [hjoined, hjoined, bracesParts, Shape.first?_braces (hopen hcontent hes),
      Shape.first?_braces (hopen hother hes), hlength, hlength]
    refine rel_first?_behind (avoids_all (List.forall_mem_append.mpr ⟨?_, ?_⟩)) (es.length + 1) fs hgroups
    · simp only [fromParts, List.forall_mem_cons]
      exact ⟨many_avoids_nothing _ _, avoids_text (by decide), many_avoids_nothing _ _, by simp⟩
    · exact List.forall_mem_singleton.mpr quotedSpecifier_avoids_nothing

/-- Members in braces are found alike: the braces are closed in front of the string or behind it. -/
theorem rel_braces (hquote : isQuote quote = true) {left : List Char}
    (hoffset : offset + left.length = front.length)
    (hapart : ∀ ds fs, left = '{' :: (ds ++ '}' :: fs) → '}' ∉ ds → ¬(all fromParts).Fits fs)
    (hopen : ∀ ds, left = '{' :: ds → '}' ∉ ds → '}' ∉ content ∧ '}' ∉ other)
    (hgroups : remembered groups = remembered groups') :
    Option.Rel (FoundAlike .reExport front content other)
      ((all bracesParts).first? (finish here)
        ⟨before, offset, left ++ quote :: (content ++ quote :: behind)⟩ groups)
      ((all bracesParts).first? (finish here')
        ⟨before, offset, left ++ quote :: (other ++ quote :: behind)⟩ groups') := by
  have hbrace : ∀ (here : Place) (groups : Groups) (c : Char) (rest : List Char), c ≠ '{' →
      (all bracesParts).first? (finish here) ⟨before, offset, c :: rest⟩ groups = none := by
    intro here groups c rest hc
    rw [bracesParts, first?_all_cons]
    exact first?_text_eq_none fun hstarts => hc (List.cons_prefix_cons.mp hstarts).1.symm
  cases left with
  | nil =>
    have hother : quote ≠ '{' := by
      rintro rfl
      exact absurd hquote (by decide)
    rw [List.nil_append, List.nil_append, hbrace _ _ quote _ hother, hbrace _ _ quote _ hother]
    exact .none
  | cons c ds =>
    rw [List.length_cons] at hoffset
    rw [List.cons_append, List.cons_append]
    by_cases hc : c = '{'
    · subst hc
      rcases exists_first (p := (· == '}')) ds with hnone | ⟨es, c, fs, rfl, hc, hes⟩
      · have hds : '}' ∉ ds := fun h => by simpa using hnone '}' h
        obtain ⟨hcontent, hother⟩ := hopen ds rfl hds
        exact rel_openBraces (by omega) hds hcontent hother hquote hgroups
      · obtain rfl : c = '}' := by simpa using hc
        have hes : '}' ∉ es := fun h => by simpa using hes '}' h
        rw [List.length_append, List.length_cons] at hoffset
        rw [List.append_assoc, List.append_assoc, List.cons_append, List.cons_append, bracesParts,
          Shape.first?_braces hes, Shape.first?_braces hes]
        exact rel_first?_specifier hquote fromParts_avoids_isQuote (by omega) (hapart es fs rfl hes) hgroups
    · rw [hbrace _ _ c _ hc, hbrace _ _ c _ hc]
      exact .none

/-- What is exported is found alike, if no specifier of an export starts at the string and no brace is
closed in it. -/
theorem rel_exports (hquote : isQuote quote = true) {left : List Char}
    (hoffset : offset + left.length = front.length) (hapart : ¬(all (exportClause :: fromParts)).Fits left)
    (hopen : ∀ ds, left = '{' :: ds → '}' ∉ ds → '}' ∉ content ∧ '}' ∉ other)
    (hgroups : remembered groups = remembered groups') :
    Option.Rel (FoundAlike .reExport front content other)
      ((all (exportClause :: (fromParts ++ [quotedSpecifier]))).first? (finish here)
        ⟨before, offset, left ++ quote :: (content ++ quote :: behind)⟩ groups)
      ((all (exportClause :: (fromParts ++ [quotedSpecifier]))).first? (finish here')
        ⟨before, offset, left ++ quote :: (other ++ quote :: behind)⟩ groups') := by
  have hclause : ∀ (here place : Place) (groups : Groups),
      (all (exportClause :: (fromParts ++ [quotedSpecifier]))).first? (finish here) place groups
        = ((all ((starParts ++ fromParts) ++ [quotedSpecifier])).first? (finish here) place groups).or
            ((all bracesParts).first? (finish here) place groups) := by
    intro here place groups
    rw [first?_all_cons, exportClause, first?_either, List.append_assoc, first?_all_append starParts]
    rfl
  rw [hclause, hclause]
  refine rel_or (rel_first?_specifier hquote ?_ hoffset (fun hfits => hapart ?_) hgroups)
    (rel_braces hquote hoffset (fun ds fs hleft hds hfits => hapart ?_) hopen hgroups)
  · exact starParts_avoids_isQuote.append fromParts_avoids_isQuote
  · obtain ⟨clause, rest, hleft, hstar, hfrom⟩ := fits_all_append.mp hfits
    exact ⟨clause, rest, hleft, .inl hstar, hfrom⟩
  · refine ⟨'{' :: (ds ++ ['}']), fs, by simp [hleft], .inr ?_, hfits⟩
    refine ⟨['{'], ds ++ ['}'], rfl, fits_text.mpr rfl, ds, ['}'], rfl, ?_, ['}'], [], rfl,
      fits_text.mpr rfl, rfl⟩
    exact fun c hc => bne_iff_ne.mpr fun h => hds (h ▸ hc)

end Braces

/-- In front of a string, exports are found alike. -/
theorem rel_matchAt?_reExport (hquote : isQuote quote = true) (hannounces : ¬Announces front)
    (hbraces : OpensBraces front → '}' ∉ content ∧ '}' ∉ other) (hfront : front = taken ++ cs) :
    Option.Rel (FoundAlike .reExport front content other)
      (exportPattern.matchAt? ⟨lastChar none taken, taken.length, cs ++ quote :: (content ++ quote :: behind)⟩)
      (exportPattern.matchAt? ⟨lastChar none taken, taken.length, cs ++ quote :: (other ++ quote :: behind)⟩) := by
  cases hword : (lastChar none taken).any isWordChar with
  | true =>
    rw [show exportPattern = Shape.reExport.pattern from rfl, Shape.matchAt?_eq_none_of_word hword,
      Shape.matchAt?_eq_none_of_word hword]
    exact .none
  | false =>
    -- up to the first quote the texts are the same, so that the words in front of what is exported are
    -- taken alike
    obtain ⟨us, vs, rfl, hus, hvs⟩ : ∃ us vs, cs = us ++ vs ∧ (∀ c ∈ us, isQuote c = false) ∧
        vs.head?.all isQuote = true := by
      rcases exists_first (p := isQuote) cs with hplain | ⟨us, first, vs, rfl, hfirst, hus⟩
      · exact ⟨cs, [], (List.append_nil cs).symm, hplain, rfl⟩
      · exact ⟨us, first :: vs, rfl, hus, by simpa using hfirst⟩
    have hrest : ∀ rest, (vs ++ quote :: rest).head?.all isQuote = true := by
      intro rest
      cases vs with
      | nil => simpa using hquote
      | cons c vs => simpa using hvs
    have hsplit : exportPattern = all ([boundary, text "export", blank, typeMark]
        ++ (exportClause :: (fromParts ++ [quotedSpecifier]))) := rfl
    rw [matchAt?, matchAt?, hsplit, first?_all_append, first?_all_append, List.append_assoc, List.append_assoc]
    refine rel_first? ?_ (hrest _) (hrest _) ?_ (fun part left hpart hfits groups groups' hgroups => ?_) rfl
    · refine avoids_all ?_
      simp only [List.forall_mem_cons]
      exact ⟨avoids_boundary _, avoids_text (by decide), Shape.blank_avoids_isQuote,
        Shape.typeMark_avoids_isQuote, by simp⟩
    · cases vs <;> rfl
    · have hleft : ∀ rest, left ++ (vs ++ rest) = (left ++ vs) ++ rest := fun rest => (List.append_assoc ..).symm
      have hcs : us ++ vs = part ++ (left ++ vs) := by rw [← hpart, List.append_assoc]
      rw [hleft, hleft]
      refine rel_exports hquote ?_ (fun hclause => hannounces ?_) (fun ds hds hopen => hbraces ?_) hgroups
      · rw [hfront, hcs]
        simp only [List.length_append]
        omega
      · exact ⟨.reExport, taken, us ++ vs, hfront, hword,
          fits_all_append.mpr ⟨part, left ++ vs, hcs, hfits, hclause⟩⟩
      · refine ⟨taken, us ++ vs, hfront, hword, fits_all_append.mpr ⟨part, left ++ vs, hcs, hfits, ?_⟩⟩
        refine ⟨['{'], ds, hds, fits_text.mpr rfl, ds, [], (List.append_nil ds).symm, ?_, rfl⟩
        exact fun c hc => bne_iff_ne.mpr fun h => hopen (h ▸ hc)

/-- In front of a string, matches are found alike. -/
theorem rel_matchAt? (s : Shape) (hquote : isQuote quote = true) (hannounces : ¬Announces front)
    (hbraces : OpensBraces front → '}' ∉ content ∧ '}' ∉ other)
    (hcontent : KeepsApart front quote content behind) (hother : KeepsApart front quote other behind)
    (hfront : front = taken ++ cs) :
    Option.Rel (FoundAlike s.kind front content other)
      (s.pattern.matchAt? ⟨lastChar none taken, taken.length, cs ++ quote :: (content ++ quote :: behind)⟩)
      (s.pattern.matchAt? ⟨lastChar none taken, taken.length, cs ++ quote :: (other ++ quote :: behind)⟩) := by
  by_cases hs : s = .reExport
  · subst hs
    exact rel_matchAt?_reExport hquote hannounces hbraces hfront
  · exact rel_matchAt?_of_ne hs hquote hannounces hcontent hother hfront

end Front

end ScopedCheck.Import
