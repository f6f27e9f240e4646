import ScopedCheck.Proofs.Import.Masked
/-! # The shapes of imports

Imports are searched for in five shapes. Every one starts with a word of its own and ends in a specifier.
In all but one, what stands between the two holds no quote, so that the first quote behind the word is
that of the specifier. -/

namespace ScopedCheck.Import

open Text Text.Pattern

/-! ## Specifiers -/

theorem isWordChar_of_isQuote {c : Char} (h : isQuote c = true) : isWordChar c = false := by
  simp only [isQuote, Bool.or_eq_true, beq_iff_eq] at h
  rcases h with rfl | rfl <;> decide

theorem isBlank_of_isQuote {c : Char} (h : isQuote c = true) : isBlank c = false := by
  simp only [isQuote, Bool.or_eq_true, beq_iff_eq] at h
  rcases h with rfl | rfl <;> decide

theorem isQuote_of_isBlank {c : Char} (h : isBlank c = true) : isQuote c = false := by
  cases hquote : isQuote c with
  | false => rfl
  | true => exact absurd ((isBlank_of_isQuote hquote).symm.trans h) Bool.false_ne_true

theorem isClauseChar_of_isQuote {c : Char} (h : isQuote c = true) : isClauseChar c = false := by
  simp only [isQuote, Bool.or_eq_true, beq_iff_eq] at h
  rcases h with rfl | rfl <;> decide

theorem isQuote_of_isClauseChar {c : Char} (h : isClauseChar c = true) : isQuote c = false := by
  cases hquote : isQuote c with
  | false => rfl
  | true => exact absurd ((isClauseChar_of_isQuote hquote).symm.trans h) Bool.false_ne_true

/-- The characters of a text that are no blanks. -/
def ink (cs : List Char) : List Char := cs.filter (!isBlank ·)

theorem ink_append (cs ds : List Char) : ink (cs ++ ds) = ink cs ++ ink ds := List.filter_append ..

theorem ink_eq_nil {cs : List Char} : ink cs = [] ↔ ∀ c ∈ cs, isBlank c = true := by
  simp [ink, List.filter_eq_nil_iff]

/-- A text that does not start with a blank has more in it than every later part. -/
theorem ink_ne_of_cons {c : Char} (hc : isBlank c = false) (front behind : List Char) :
    ink (c :: front ++ behind) ≠ ink behind := by
  intro h
  rw [ink_append, List.append_left_eq_self, ink_eq_nil] at h
  exact absurd (hc.symm.trans (h c List.mem_cons_self)) Bool.false_ne_true

section Quoted

variable {α : Type} {goOn : Place → Groups → Option α} {before : Option Char} {offset : Nat}
  {groups : Groups} {tail : List Pattern} {quote close : Char}

/-- What a specifier between quotes leaves behind. -/
def specifierGroup (quote : Char) (offset : Nat) (body rest : List Char) : Nat × Place × Place :=
  (2, ⟨.some quote, offset + 1, body ++ rest⟩,
    ⟨lastChar (.some quote) body, offset + 1 + body.length, rest⟩)

/-- A specifier between quotes is taken up to the second quote. -/
theorem first?_quotedSpecifier (hquote : isQuote quote = true) (hclose : isQuote close = true)
    {body : List Char} (hne : body ≠ []) (hbody : ∀ c ∈ body, isQuote c = false ∧ c ≠ '\n')
    (rest : List Char) :
    quotedSpecifier.first? goOn ⟨before, offset, quote :: (body ++ close :: rest)⟩ groups
      = goOn ⟨.some close, offset + 1 + body.length + 1, rest⟩
          (specifierGroup quote offset body (close :: rest) :: groups) := by
  have hplain : ∀ c ∈ body, (!isQuote c && c != '\n') = true := by
    intro c hc
    simp [hbody c hc]
  have hstop : ∀ c, (!isQuote c && c != '\n') = true → isQuote c = false := by
    intro c hc
    simp at hc
    exact hc.1
  rw [quotedSpecifier, first?_all_cons, first?_char hquote, first?_all_cons, first?_capture,
    first?_some (.capture (.all (refuses_char hstop)) 2 _) hne hplain (by simp [hclose]),
    first?_all_cons, first?_char hclose, first?_all_nil]
  rfl

theorem first?_quotedSpecifier_eq_none {cs : List Char} (h : cs.head?.any isQuote = false) :
    quotedSpecifier.first? goOn ⟨before, offset, cs⟩ groups = none := first?_char_eq_none h

/-- Between two quotes without anything in between there is no specifier. -/
theorem first?_quotedSpecifier_empty (hquote : isQuote quote = true) (hclose : isQuote close = true)
    (rest : List Char) :
    quotedSpecifier.first? goOn ⟨before, offset, quote :: close :: rest⟩ groups = none := by
  rw [quotedSpecifier, first?_all_cons, first?_char hquote, first?_all_cons, first?_capture]
  exact first?_some_eq_none (by simp [hclose])

/-- A line that ends behind a single quote has no specifier there. -/
theorem first?_quotedSpecifier_line (hquote : isQuote quote = true) {cs : List Char}
    (hcs : ∀ c ∈ cs, isQuote c = false ∧ c ≠ '\n') (rest : List Char) :
    quotedSpecifier.first? goOn ⟨before, offset, quote :: (cs ++ '\n' :: rest)⟩ groups = none := by
  have hplain : ∀ c ∈ cs, (!isQuote c && c != '\n') = true := by
    intro c hc
    simp [hcs c hc]
  have hstop : ∀ c, (!isQuote c && c != '\n') = true → isQuote c = false := by
    intro c hc
    simp at hc
    exact hc.1
  rw [quotedSpecifier, first?_all_cons, first?_char hquote, first?_all_cons, first?_capture]
  cases cs with
  | nil => exact first?_some_eq_none (by rfl)
  | cons c cs =>
    rw [first?_some (.capture (.all (refuses_char hstop)) 2 _) (List.cons_ne_nil c cs) hplain (by rfl),
      first?_all_cons, first?_char_cons_eq_none (by rfl)]

/-- A text without quotes at the start of another one ends at its first quote at the latest. -/
theorem exists_append_of_append_eq {taken left cs rest : List Char}
    (htaken : ∀ c ∈ taken, isQuote c = false) (hquote : isQuote quote = true)
    (h : taken ++ left = cs ++ quote :: rest) :
    ∃ more, cs = taken ++ more ∧ left = more ++ quote :: rest := by
  rcases List.append_eq_append_iff.mp h with ⟨more, hcs, hleft⟩ | ⟨more, htaken', hrest⟩
  · exact ⟨more, hcs, hleft⟩
  · cases more with
    | nil => exact ⟨[], by simpa using htaken'.symm, by simpa using hrest.symm⟩
    | cons c more =>
      obtain ⟨rfl, -⟩ := List.cons.inj hrest
      have := htaken quote (by simp [htaken'])
      rw [hquote] at this
      cases this

/-- Where only a quote lets go on, a pattern without quotes takes everything up to the first one, or nothing
is found. -/
theorem first?_eq_none_of_quote {pattern : Pattern} (havoids : pattern.Avoids isQuote)
    (hrefuses : Refuses goOn fun c => !isQuote c) (hquote : isQuote quote = true) {cs rest : List Char}
    (hcs : ∀ c ∈ cs, isQuote c = false)
    (h : pattern.Fits cs → ∀ groups,
      goOn ⟨lastChar before cs, offset + cs.length, quote :: rest⟩ groups = none) :
    pattern.first? goOn ⟨before, offset, cs ++ quote :: rest⟩ groups = none := by
  refine first?_eq_none fun taken left hsplit htaken known => ?_
  obtain ⟨more, rfl, rfl⟩ := exists_append_of_append_eq (htaken.of_avoids havoids) hquote hsplit
  cases more with
  | nil =>
    rw [List.append_nil] at h
    exact h htaken known
  | cons c more =>
    refine hrefuses _ _ ?_
    simp [Place.nextIs, hcs c (by simp)]

theorem refuses_quotedSpecifier :
    Refuses ((all (quotedSpecifier :: tail)).first? goOn) fun c => !isQuote c := by
  intro here groups hnext
  refine first?_quotedSpecifier_eq_none ?_
  rw [Place.nextIs] at hnext
  cases hrest : here.rest with
  | nil => rfl
  | cons c rest => simpa [hrest] using hnext

end Quoted

/-! ## Shapes -/

/-- The shapes in which imports are searched for. -/
inductive Shape
  | static
  | sideEffect
  | reExport
  | dynamic
  | require
  deriving DecidableEq

namespace Shape

/-- All shapes in the order of the searches. -/
def inOrder : List Shape := [static, sideEffect, reExport, dynamic, require]

/-- What is searched for. -/
def pattern : Shape → Pattern
  | static => staticPattern
  | sideEffect => sideEffectPattern
  | reExport => exportPattern
  | dynamic => dynamicPattern
  | require => requirePattern

/-- The kind of the imports of a shape, those of types left aside. -/
def kind : Shape → Kind
  | static => .static
  | sideEffect => .sideEffect
  | reExport => .reExport
  | dynamic => .dynamic
  | require => .require

/-- The word that an import of a shape starts with. -/
def keyword : Shape → String
  | reExport => "export"
  | require => "require"
  | _ => "import"

/-- What stands between the start of an import and its specifier. -/
def head : Shape → List Pattern
  | static =>
      [boundary, text "import", blank, typeMark, some .fewer isClauseChar, boundary, text "from", blanks]
  | sideEffect => [boundary, text "import", blanks]
  | reExport =>
      [boundary, text "export", blank, typeMark, exportClause, blanks, text "from", blanks]
  | dynamic => [boundary, text "import", blanks, text "(", blanks]
  | require => [boundary, text "require", blanks, text "(", blanks]

/-- What stands behind the specifier. -/
def tail : Shape → List Pattern
  | require => [blanks, text ")"]
  | _ => []

theorem ofMasked_eq (masked : Masked) :
    ofMasked masked = inOrder.flatMap fun s => ofShape masked s.pattern s.kind := by
  simp [ofMasked, inOrder, pattern, kind]

theorem pattern_eq (s : Shape) : s.pattern = Pattern.all (s.head ++ quotedSpecifier :: s.tail) := by
  cases s <;> rfl

theorem exists_pattern_eq (s : Shape) :
    ∃ more, s.pattern = Pattern.all (boundary :: text s.keyword :: more) := by
  cases s <;> exact ⟨_, rfl⟩

theorem blank_avoids_isQuote : blank.Avoids isQuote :=
  ⟨fun _ => isBlank_of_isQuote, fun _ => isBlank_of_isQuote⟩

theorem typeMark_avoids_isQuote : typeMark.Avoids isQuote :=
  ⟨avoids_all (List.forall_mem_cons.mpr ⟨avoids_text (by decide), by simpa using blank_avoids_isQuote⟩),
    trivial⟩

theorem head_avoids_isQuote {s : Shape} (hs : s ≠ reExport) : (Pattern.all s.head).Avoids isQuote := by
  have hblanks : blanks.Avoids isQuote := fun _ => isBlank_of_isQuote
  have hboundary := avoids_boundary isQuote
  have htext : ∀ s ∈ ["import", "from", "require", "("], (text s).Avoids isQuote := by
    intro s hs
    refine avoids_text ?_
    revert s
    decide
  simp only [List.forall_mem_cons] at htext
  refine avoids_all ?_
  cases s with
  | static =>
    simp only [head, List.forall_mem_cons, hblanks, blank_avoids_isQuote, typeMark_avoids_isQuote, hboundary, htext, true_and]
    exact ⟨⟨fun _ => isClauseChar_of_isQuote, fun _ => isClauseChar_of_isQuote⟩, by simp⟩
  | reExport => exact absurd rfl hs
  | _ => simp only [head, List.forall_mem_cons, hblanks, hboundary, htext, true_and]; simp

end Shape

theorem kind_of_mem_references {sourceLines : List (List Char)} :
    ∀ found ∈ references sourceLines, found.kind = .reference := by
  induction sourceLines with
  | nil => simp [references]
  | cons line rest ih =>
    simp only [references]
    split
    · split
      · exact List.forall_mem_cons.mpr ⟨rfl, ih⟩
      · exact ih
    · split
      · exact ih
      · simp

theorem kind_of_mem_ofMasked {masked : Masked} : ∀ found ∈ ofMasked masked, found.kind ≠ .reference := by
  intro found hfound
  rw [Shape.ofMasked_eq] at hfound
  obtain ⟨s, -, hfound⟩ := List.mem_flatMap.mp hfound
  obtain ⟨known, -, rfl⟩ := List.mem_map.mp hfound
  cases known.group? 1 with
  | some text => simp
  | none => cases s <;> simp [Shape.kind]

/-- Only path directives give imports of their kind. -/
theorem filter_scan (source : String) :
    (scan source).filter (fun found => found.kind ≠ .reference) = ofMasked (mask source.toList) := by
  have hdirectives : (references (lines source.toList)).filter (fun found => found.kind ≠ .reference) = [] :=
    List.filter_eq_nil_iff.mpr fun found hfound => by simp [kind_of_mem_references found hfound]
  have hothers : (ofMasked (mask source.toList)).filter (fun found => found.kind ≠ .reference)
      = ofMasked (mask source.toList) :=
    List.filter_eq_self.mpr fun found hfound => by simp [kind_of_mem_ofMasked found hfound]
  rw [scan, List.filter_append, hdirectives, hothers, List.nil_append]

namespace Shape

/-! ## Where no import starts -/

section Nothing

variable {s : Shape} {before : Option Char} {offset : Nat} {quote : Char}

theorem matchAt?_eq_none_of_not_prefix {cs : List Char} (h : ¬s.keyword.toList <+: cs) :
    s.pattern.matchAt? ⟨before, offset, cs⟩ = none := by
  obtain ⟨more, hpattern⟩ := s.exists_pattern_eq
  rw [matchAt?, hpattern, first?_all_cons]
  cases hplace : Place.isBoundary ⟨before, offset, cs⟩ with
  | false => exact first?_place_eq_none hplace
  | true => rw [first?_boundary hplace, first?_all_cons, first?_text_eq_none h]

/-- The first character of a word. -/
theorem exists_keyword (s : Shape) :
    ∃ c rest, s.keyword.toList = c :: rest ∧ isWordChar c = true ∧ c ∈ ['i', 'e', 'r'] := by
  cases s <;> exact ⟨_, _, rfl, by decide, by decide⟩

/-- No import starts within a longer word. -/
theorem matchAt?_eq_none_of_word (h : before.any isWordChar = true) (cs : List Char) :
    s.pattern.matchAt? ⟨before, offset, cs⟩ = none := by
  by_cases hstarts : s.keyword.toList <+: cs
  · obtain ⟨rest, rfl⟩ := hstarts
    obtain ⟨c, tail, hkeyword, hword, -⟩ := s.exists_keyword
    obtain ⟨more, hpattern⟩ := s.exists_pattern_eq
    have hplace : Place.isBoundary ⟨before, offset, s.keyword.toList ++ rest⟩ = false := by
      simp [Place.isBoundary, h, hkeyword, hword]
    rw [matchAt?, hpattern, first?_all_cons]
    exact first?_place_eq_none hplace
  · exact matchAt?_eq_none_of_not_prefix hstarts

theorem silent_of_notMem {cs : List Char} (h : ∀ c ∈ cs, c ∉ ['i', 'e', 'r']) (rest : List Char) :
    Silent s.pattern before cs rest := by
  intro taken c left hcs offset
  refine matchAt?_eq_none_of_not_prefix fun hstarts => ?_
  obtain ⟨d, tail, hkeyword, -, hd⟩ := s.exists_keyword
  rw [hkeyword, List.cons_append, List.cons_prefix_cons] at hstarts
  exact h c (by simp [← hcs]) (hstarts.1 ▸ hd)

/-- What stands in front of the first quote is the whole text in front of a specifier. -/
theorem matchAt?_eq_none_of_not_fits (hs : s ≠ reExport) (hquote : isQuote quote = true)
    {cs : List Char} (hcs : ∀ c ∈ cs, isQuote c = false) (h : ¬(Pattern.all s.head).Fits cs)
    (rest : List Char) : s.pattern.matchAt? ⟨before, offset, cs ++ quote :: rest⟩ = none := by
  rw [matchAt?, pattern_eq, first?_all_append]
  exact first?_eq_none_of_quote (head_avoids_isQuote hs) refuses_quotedSpecifier hquote hcs
    fun hfits => absurd hfits h

/-- On a line with a single quote no import starts in front of the quote. -/
theorem silent_line (hs : s ≠ reExport) (hquote : isQuote quote = true) {cs line : List Char}
    (hcs : ∀ c ∈ cs, isQuote c = false) (hline : ∀ c ∈ line, isQuote c = false ∧ c ≠ '\n')
    (rest : List Char) : Silent s.pattern before cs (quote :: (line ++ '\n' :: rest)) := by
  intro taken c left h offset
  have hleft : ∀ d ∈ c :: left, isQuote d = false := fun d hd => hcs d (h ▸ List.mem_append_right _ hd)
  rw [matchAt?, pattern_eq, first?_all_append]
  exact first?_eq_none_of_quote (head_avoids_isQuote hs) refuses_quotedSpecifier hquote hleft
    fun _ _ => first?_quotedSpecifier_line hquote hline rest

/-- The last two characters of a text that are no blanks, the last one first. -/
def lastTwo (cs : List Char) : List Char := (ink cs).reverse.take 2

theorem lastTwo_append {cs : List Char} (h : (lastTwo cs).length = 2) (front : List Char) :
    lastTwo (front ++ cs) = lastTwo cs := by
  have hlength : 2 ≤ (ink cs).reverse.length := by
    rw [lastTwo, List.length_take] at h
    omega
  rw [lastTwo, ink_append, List.reverse_append, List.take_append_of_le_length hlength, lastTwo]

/-- How the text in front of a specifier ends. -/
def ending : Shape → List Char
  | static => ['m', 'o']
  | sideEffect => ['t', 'r']
  | reExport => ['m', 'o']
  | dynamic => ['(', 't']
  | require => ['(', 'e']

theorem lastTwo_of_fits {cs : List Char} (h : (Pattern.all s.head).Fits cs) :
    lastTwo cs = s.ending := by
  have hblanks : ∀ {gap : List Char}, blanks.Fits gap → ink gap = [] := ink_eq_nil.mpr
  -- two shapes end alike, whatever stands in front
  have hfrom : ∀ (front : List Char) {word gap : List Char}, (text "from").Fits word →
      blanks.Fits gap → lastTwo (front ++ (word ++ (gap ++ []))) = ['m', 'o'] := by
    intro front word gap hword hgap
    have hend : lastTwo (word ++ (gap ++ [])) = ['m', 'o'] := by
      rw [fits_text.mp hword, lastTwo, ink_append, List.append_nil, hblanks hgap]
      decide
    rw [lastTwo_append (by rw [hend]; rfl), hend]
  cases s with
  | static =>
    obtain ⟨f₁, _, rfl, -, f₂, _, rfl, -, f₃, _, rfl, -, f₄, _, rfl, -, f₅, _, rfl, -, f₆, _, rfl, -,
      word, _, rfl, hword, gap, _, rfl, hgap, rfl⟩ := h
    simpa only [List.append_assoc, ending] using
      hfrom (f₁ ++ (f₂ ++ (f₃ ++ (f₄ ++ (f₅ ++ f₆))))) hword hgap
  | reExport =>
    obtain ⟨f₁, _, rfl, -, f₂, _, rfl, -, f₃, _, rfl, -, f₄, _, rfl, -, f₅, _, rfl, -, f₆, _, rfl, -,
      word, _, rfl, hword, gap, _, rfl, hgap, rfl⟩ := h
    simpa only [List.append_assoc, ending] using
      hfrom (f₁ ++ (f₂ ++ (f₃ ++ (f₄ ++ (f₅ ++ f₆))))) hword hgap
  | sideEffect =>
    obtain ⟨_, _, rfl, rfl, word, _, rfl, hword, gap, _, rfl, hgap, rfl⟩ := h
    rw [List.nil_append, fits_text.mp hword, lastTwo, ink_append, List.append_nil, hblanks hgap]
    decide
  | dynamic =>
    obtain ⟨_, _, rfl, rfl, word, _, rfl, hword, gap, _, rfl, hgap, mark, _, rfl, hmark, gap', _, rfl,
      hgap', rfl⟩ := h
    rw [List.nil_append, fits_text.mp hword, fits_text.mp hmark]
    simp only [lastTwo, ink_append, hblanks hgap, hblanks hgap']
    decide
  | require =>
    obtain ⟨_, _, rfl, rfl, word, _, rfl, hword, gap, _, rfl, hgap, mark, _, rfl, hmark, gap', _, rfl,
      hgap', rfl⟩ := h
    rw [List.nil_append, fits_text.mp hword, fits_text.mp hmark]
    simp only [lastTwo, ink_append, hblanks hgap, hblanks hgap']
    decide

/-- No import starts in front of a quote that stands behind another ending. -/
theorem silent_of_lastTwo_ne (hs : s ≠ reExport) (hquote : isQuote quote = true) {cs : List Char}
    (hcs : ∀ c ∈ cs, isQuote c = false) (h : lastTwo cs ≠ s.ending) (rest : List Char) :
    Silent s.pattern before cs (quote :: rest) := by
  intro taken c left hsplit offset
  have hleft : ∀ d ∈ c :: left, isQuote d = false :=
    fun d hd => hcs d (hsplit ▸ List.mem_append_right _ hd)
  refine matchAt?_eq_none_of_not_fits hs hquote hleft (fun hfits => h ?_) rest
  have hend := lastTwo_of_fits hfits
  have htwo : (lastTwo (c :: left)).length = 2 := by
    rw [hend]
    cases s <;> rfl
  rw [← hsplit, lastTwo_append htwo, hend]

/-! ## Exports -/

/-- Whether a character may start what is exported. -/
def startsExports (c : Char) : Bool := c == '*' || c == '{'

theorem first?_exportClause_eq_none {α : Type} {goOn : Place → Groups → Option α} {groups : Groups}
    {cs : List Char} (h : cs.head?.any startsExports = false) :
    exportClause.first? goOn ⟨before, offset, cs⟩ groups = none := by
  have hmark : ∀ mark : String, mark.toList.head?.any startsExports = true → ¬mark.toList <+: cs := by
    rintro mark hstarts ⟨rest, rfl⟩
    cases hmark : mark.toList with
    | nil => simp [hmark] at hstarts
    | cons c tail =>
      rw [hmark] at h hstarts
      exact absurd (h.symm.trans hstarts) Bool.false_ne_true
  rw [exportClause, first?_either, first?_all_cons, first?_text_eq_none (hmark "*" (by decide)),
    first?_all_cons, first?_text_eq_none (hmark "\x7b" (by decide)), Option.none_or]

section Braces

variable {α : Type} {goOn : Place → Groups → Option α} {groups : Groups} {more : List Pattern}
  {cs : List Char}

/-- Braces are closed by the first closing brace. -/
theorem first?_braces (hcs : '}' ∉ cs) (rest : List Char) :
    (Pattern.all (text "\x7b" :: many .more (· != '}') :: text "\x7d" :: more)).first? goOn
        ⟨before, offset, '{' :: (cs ++ '}' :: rest)⟩ groups
      = (Pattern.all more).first? goOn ⟨.some '}', offset + 1 + cs.length + 1, rest⟩ groups := by
  have hopening : ∀ cs, '{' :: cs = "\x7b".toList ++ cs := fun _ => rfl
  have hclosing : ∀ cs, '}' :: cs = "\x7d".toList ++ cs := fun _ => rfl
  have hcs : ∀ c ∈ cs, (c != '}') = true := fun c hc => bne_iff_ne.mpr fun h => hcs (h ▸ hc)
  rw [first?_all_cons, hopening, first?_text, first?_all_cons,
    first?_more (.all (refuses_text (by decide))) hcs (by rfl), first?_all_cons, hclosing, first?_text]
  rfl

/-- Without a closing brace nothing stands in braces. -/
theorem first?_braces_eq_none (hcs : '}' ∉ cs) :
    (Pattern.all (text "\x7b" :: many .more (· != '}') :: text "\x7d" :: more)).first? goOn
        ⟨before, offset, '{' :: cs⟩ groups = none := by
  have hopening : '{' :: cs = "\x7b".toList ++ cs := rfl
  rw [first?_all_cons, hopening, first?_text, first?_all_cons]
  refine first?_eq_none fun taken left hsplit _ groups => ?_
  rw [first?_all_cons]
  refine first?_text_eq_none fun hstarts => hcs ?_
  have hbrace : '}' ∈ left := hstarts.subset (by decide)
  exact hsplit ▸ List.mem_append_right taken hbrace

end Braces

/-- No export starts where what stands behind the word and its blanks is not exported. -/
theorem matchAt?_reExport_eq_none {cs : List Char}
    (h : before.any isWordChar = false → ∀ mid left, cs = "export".toList ++ (mid ++ left) →
      (Pattern.all [blank, typeMark]).Fits mid → left.head?.any startsExports = false) :
    exportPattern.matchAt? ⟨before, offset, cs⟩ = none := by
  cases hword : before.any isWordChar with
  | true => exact matchAt?_eq_none_of_word (s := reExport) hword cs
  | false =>
    by_cases hstarts : "export".toList <+: cs
    · obtain ⟨rest, rfl⟩ := hstarts
      have hsplit : exportPattern = Pattern.all ([boundary, text "export"] ++ ([blank, typeMark]
          ++ [exportClause, blanks, text "from", blanks, quotedSpecifier])) := rfl
      have hplace : Place.isBoundary ⟨before, offset, "export".toList ++ rest⟩ = true := by
        rw [Place.isBoundary, hword]
        rfl
      rw [matchAt?, hsplit, List.cons_append, first?_all_cons, first?_boundary hplace,
        List.cons_append, first?_all_cons, first?_text, List.nil_append, first?_all_append]
      refine first?_eq_none fun mid left hrest hmid groups => ?_
      rw [first?_all_cons]
      exact first?_exportClause_eq_none (h hword mid left (by rw [hrest]) hmid)
    · exact matchAt?_eq_none_of_not_prefix (s := reExport) hstarts

/-- No export starts in a text in which no blank stands behind the word, up to a quote. -/
theorem silent_reExport_of_word (hquote : isQuote quote = true) {cs : List Char}
    (h : ∀ front rest b, cs = front ++ ("export".toList ++ b :: rest) → isBlank b = true →
      (lastChar before front).any isWordChar = true) (rest : List Char) :
    Silent exportPattern before cs (quote :: rest) := by
  intro taken c left hsplit offset
  refine matchAt?_reExport_eq_none fun hword mid left' hrest hmid => ?_
  obtain ⟨gap, mark, rfl, hgap, -⟩ := hmid
  obtain ⟨hne, hgap⟩ := fits_some.mp hgap
  obtain ⟨b, gap, rfl⟩ := List.exists_cons_of_ne_nil hne
  have hb : isBlank b = true := hgap b List.mem_cons_self
  have hfixed : ∀ d ∈ "export".toList ++ [b], isQuote d = false :=
    List.forall_mem_append.mpr ⟨by decide, List.forall_mem_singleton.mpr (isQuote_of_isBlank hb)⟩
  have hjoined : ("export".toList ++ [b]) ++ (gap ++ mark ++ left') = c :: left ++ quote :: rest := by
    rw [hrest]
    simp only [List.append_assoc, List.cons_append, List.nil_append]
  obtain ⟨more, hleft, -⟩ := exists_append_of_append_eq hfixed hquote hjoined
  have hin := h taken more b (by rw [← hsplit, hleft, List.append_assoc]; rfl) hb
  rw [hword] at hin
  cases hin

/-- No export starts in a text in which nothing is exported behind the second letter of the word. -/
theorem silent_reExport_of_letter (hquote : isQuote quote = true) {cs : List Char}
    (h : ∀ front rest, cs = front ++ 'x' :: rest → ∀ c ∈ rest, startsExports c = false)
    (rest : List Char) : Silent exportPattern before cs (quote :: rest) := by
  intro taken c left hsplit offset
  refine matchAt?_reExport_eq_none fun _ mid left' hrest hmid => ?_
  have hmidQuotes : ∀ d ∈ mid, isQuote d = false :=
    hmid.of_avoids (avoids_all (by simp [blank_avoids_isQuote, typeMark_avoids_isQuote]))
  have hfixed : ∀ d ∈ "export".toList ++ mid, isQuote d = false :=
    List.forall_mem_append.mpr ⟨by decide, hmidQuotes⟩
  have hjoined : ("export".toList ++ mid) ++ left' = c :: left ++ quote :: rest := by
    rw [hrest, List.append_assoc]
  obtain ⟨more, hleft, rfl⟩ := exists_append_of_append_eq hfixed hquote hjoined
  cases more with
  | nil =>
    rw [List.nil_append, List.head?_cons, Option.any_some]
    simp only [isQuote, Bool.or_eq_true, beq_iff_eq] at hquote
    rcases hquote with rfl | rfl <;> decide
  | cons d more =>
    have hsplit' : cs = (taken ++ ['e']) ++ 'x' :: ("port".toList ++ mid ++ d :: more) := by
      rw [← hsplit, hleft]
      simp only [List.append_assoc]
      rfl
    exact h _ _ hsplit' d (by simp)

end Nothing

end Shape

end ScopedCheck.Import
