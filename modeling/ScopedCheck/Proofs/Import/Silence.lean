import ScopedCheck.Proofs.Import.Printed
/-! # Statements are found in no other shape

Two shapes mostly differ in how the text in front of a specifier ends. What is exported starts with a mark
that no import has behind the letters of the word. An import of names could start within an export of names
alone, at a name that ends in `import`. -/

namespace ScopedCheck.Import

open Text Text.Pattern

/-! ## Endings -/

/-- How the text in front of a specifier ends. -/
def Shape.last : Shape → List Char
  | static => "from".toList ++ [' ']
  | sideEffect => "import".toList ++ [' ']
  | reExport => "from".toList ++ [' ']
  | dynamic => "import".toList ++ ['(']
  | require => "require".toList ++ ['(']

theorem Shape.lastTwo_last (s : Shape) : lastTwo s.last = s.ending := by
  cases s <;> decide

theorem Phrase.exists_front_eq (phrase : Phrase) : ∃ front, phrase.front = front ++ phrase.shape.last := by
  have hfrom : ∀ words : List (List Char),
      spaced (words ++ ["from".toList]) ++ [] = spaced words ++ Shape.last .static := by
    intro words
    rw [spaced_append, List.append_nil, spaced_cons]
    rfl
  cases phrase with
  | importNames clause => exact ⟨_, hfrom ("import".toList :: clause.words)⟩
  | importTypes members => exact ⟨_, hfrom ("import".toList :: "type".toList :: bracedWords members)⟩
  | importEffects => exact ⟨[], rfl⟩
  | exportAll => exact ⟨_, hfrom ["export".toList, ['*']]⟩
  | exportNames members => exact ⟨_, hfrom ("export".toList :: bracedWords members)⟩
  | exportTypes members => exact ⟨_, hfrom ("export".toList :: "type".toList :: bracedWords members)⟩
  | importCall name => exact ⟨_, rfl⟩
  | requireCall name => exact ⟨_, rfl⟩
  | importRequire name => exact ⟨_, rfl⟩

theorem Phrase.lastTwo_front (phrase : Phrase) : Shape.lastTwo phrase.front = phrase.shape.ending := by
  obtain ⟨front, hfront⟩ := phrase.exists_front_eq
  have htwo : (Shape.lastTwo phrase.shape.last).length = 2 := by
    rw [Shape.lastTwo_last]
    cases phrase.shape <;> rfl
  rw [hfront, Shape.lastTwo_append htwo, Shape.lastTwo_last]

/-- Whether nothing in a text could be exported behind its first `x`. -/
def IsExportless (cs : List Char) : Prop :=
  ∃ front rest, cs = front ++ rest ∧ 'x' ∉ front ∧ ∀ c ∈ rest, Shape.startsExports c = false

theorem IsExportless.of_forall {cs : List Char} (h : ∀ c ∈ cs, Shape.startsExports c = false) :
    IsExportless cs :=
  ⟨[], cs, rfl, by simp, h⟩

theorem IsExportless.behind {cs : List Char} (h : IsExportless cs) (before behind : List Char)
    (hcs : cs = before ++ 'x' :: behind) : ∀ c ∈ behind, Shape.startsExports c = false := by
  obtain ⟨front, rest, rfl, hfront, hrest⟩ := h
  rcases List.append_eq_append_iff.mp hcs with ⟨more, -, hmore⟩ | ⟨more, rfl, hmore⟩
  · intro c hc
    exact hrest c (by rw [hmore]; simp [hc])
  · cases more with
    | nil =>
      intro c hc
      exact hrest c (by rw [← List.nil_append rest, ← hmore]; simp [hc])
    | cons d more =>
      obtain ⟨rfl, -⟩ := List.cons.inj hmore
      exact absurd (by simp) hfront

theorem Identifier.startsExports_eq_false (name : Identifier) :
    ∀ c ∈ name.chars, Shape.startsExports c = false := by
  intro c hc
  cases hstarts : Shape.startsExports c with
  | false => rfl
  | true =>
    simp only [Shape.startsExports, Bool.or_eq_true, beq_iff_eq] at hstarts
    rcases hstarts with rfl | rfl <;> exact absurd (name.parts _ hc) (by decide)

theorem startsExports_members (members : List Member) :
    ∀ c ∈ (' ' :: spaced (memberWords members) ++ ['}']) ++ [' '] ++ ("from".toList ++ [' ']),
      Shape.startsExports c = false := by
  have hmembers : ∀ c ∈ spaced (memberWords members), Shape.startsExports c = false :=
    forall_mem_spaced (forall_mem_memberWords (fun name _ => name.startsExports_eq_false) (by decide)
      (by decide)) (by decide)
  simp only [List.forall_mem_append, List.forall_mem_cons]
  exact ⟨⟨⟨⟨by decide, hmembers⟩, by decide, by simp⟩, by decide, by simp⟩, by decide, by decide, by simp⟩

theorem isExportless_call (words : List (List Char)) (word : String)
    (hwords : ∀ word ∈ words, ∀ c ∈ word, Shape.startsExports c = false)
    (hword : ∀ c ∈ word.toList, Shape.startsExports c = false) :
    IsExportless (spaced words ++ word.toList) :=
  .of_forall (List.forall_mem_append.mpr ⟨forall_mem_spaced hwords (by decide), hword⟩)

theorem startsExports_constantWords (name : Identifier) :
    ∀ word ∈ constantWords name, ∀ c ∈ word, Shape.startsExports c = false := by
  simp only [constantWords, List.forall_mem_cons]
  exact ⟨by decide, name.startsExports_eq_false, by decide, by simp⟩

theorem Clause.isExportless (clause : Clause) : IsExportless (Phrase.importNames clause).front := by
  have hfront := Phrase.front_importNames clause
  cases clause with
  | one name =>
    refine ⟨"import".toList ++ [' '], name.chars ++ [' '] ++ ("from".toList ++ [' ']), ?_, by decide, ?_⟩
    · rw [hfront]
      simp only [Clause.words, spaced, List.flatMap_singleton, List.append_assoc, List.singleton_append]
    · simp only [List.forall_mem_append]
      exact ⟨⟨name.startsExports_eq_false, by decide⟩, by decide, by decide⟩
  | named members =>
    rw [Clause.words, spaced_bracedWords] at hfront
    refine ⟨"import".toList ++ [' ', '{'], _, hfront.trans ?_, by decide, startsExports_members members⟩
    simp only [List.append_assoc, List.cons_append, List.nil_append]
  | whole name =>
    refine ⟨"import".toList ++ [' ', '*'],
      ' ' :: ("as".toList ++ ' ' :: (name.chars ++ [' '])) ++ ("from".toList ++ [' ']), ?_, by decide, ?_⟩
    · have hwords : spaced (Clause.whole name).words
          = '*' :: ' ' :: ("as".toList ++ ' ' :: (name.chars ++ [' '])) := by
        rw [Clause.words, spaced_cons, spaced_cons, spaced_cons]
        rfl
      rw [hfront, hwords]
      simp only [List.append_assoc, List.cons_append, List.nil_append]
    · simp only [List.forall_mem_append, List.forall_mem_cons]
      exact ⟨⟨by decide, by decide, by decide, name.startsExports_eq_false, by decide, by simp⟩, by decide,
        by decide, by simp⟩

/-- What an import says holds nothing that could be exported behind an `x`. -/
theorem Phrase.isExportless {phrase : Phrase} (h : phrase.shape ≠ .reExport) :
    IsExportless phrase.front := by
  cases phrase with
  | importNames clause => exact clause.isExportless
  | importTypes members =>
    have hfront := front_importTypes members
    rw [spaced_bracedWords] at hfront
    refine ⟨"import".toList ++ ' ' :: ("type".toList ++ [' ', '{']), _, hfront.trans ?_, by decide,
      startsExports_members members⟩
    simp only [List.append_assoc, List.cons_append, List.nil_append]
  | importEffects => exact ⟨_, [], (List.append_nil _).symm, by decide, by simp⟩
  | exportAll => exact absurd rfl h
  | exportNames members => exact absurd rfl h
  | exportTypes members => exact absurd rfl h
  | importCall name =>
    exact isExportless_call (constantWords name) "import(" (startsExports_constantWords name) (by decide)
  | requireCall name =>
    exact isExportless_call (constantWords name) "require(" (startsExports_constantWords name) (by decide)
  | importRequire name =>
    refine isExportless_call ["import".toList, name.chars, ['=']] "require(" ?_ (by decide)
    simp only [List.forall_mem_cons]
    exact ⟨by decide, name.startsExports_eq_false, by decide, by simp⟩

/-- The texts in front of the first blank of a text are the same. -/
theorem eq_of_append_blank {cs ds rest rest' : List Char} {b b' : Char}
    (hcs : ∀ c ∈ cs, isBlank c = false) (hds : ∀ d ∈ ds, isBlank d = false) (hb : isBlank b = true)
    (hb' : isBlank b' = true) (h : cs ++ b :: rest = ds ++ b' :: rest') : cs = ds := by
  have hfirst : ∀ {cs : List Char} {b : Char} (rest : List Char), (∀ c ∈ cs, isBlank c = false) →
      isBlank b = true → (cs ++ b :: rest).takeWhile (!isBlank ·) = cs := by
    intro cs b rest hcs hb
    rw [List.takeWhile_append_of_pos (fun c hc => by rw [hcs c hc]; rfl),
      List.takeWhile_cons_of_neg (by simp [hb]), List.append_nil]
  rw [← hfirst rest hcs hb, h, hfirst rest' hds hb']

theorem any_lastChar_none {before : Option Char} {cs : List Char} {p : Char → Bool}
    (h : (lastChar before cs).any p = false) : (lastChar none cs).any p = false := by
  cases cs with
  | nil => rfl
  | cons c cs => exact h

/-- A word with a blank behind it ends one of the words with blanks behind them. -/
theorem exists_word_of_spaced {words : List (List Char)} {word : List Char} {b : Char}
    (hwords : ∀ word ∈ words, ∀ c ∈ word, isBlank c = false) (hword : ∀ c ∈ word, isBlank c = false)
    (hne : word ≠ []) (hb : isBlank b = true) {before : Option Char} {taken more : List Char}
    (h : spaced words = taken ++ (word ++ b :: more))
    (hbefore : (lastChar before taken).any isWordChar = false) :
    ∃ longer ∈ words, ∃ front, longer = front ++ word ∧ (lastChar none front).any isWordChar = false := by
  induction words generalizing before taken with
  | nil => simp [spaced, hne] at h
  | cons first rest ih =>
    obtain ⟨hfirst, hrest⟩ := List.forall_mem_cons.mp hwords
    rw [spaced_cons] at h
    rcases List.append_eq_append_iff.mp h with ⟨passed, rfl, hpassed⟩ | ⟨last, rfl, hlast⟩
    · cases passed with
      | nil =>
        obtain ⟨c, tail, rfl⟩ := List.exists_cons_of_ne_nil hne
        obtain rfl : ' ' = c := (List.cons.inj hpassed).1
        exact absurd (hword ' ' List.mem_cons_self) (by decide)
      | cons d passed =>
        obtain ⟨hd, hmore⟩ := List.cons.inj hpassed
        rw [lastChar_append, lastChar_cons] at hbefore
        obtain ⟨longer, hlonger, hends⟩ := ih hrest hmore hbefore
        exact ⟨longer, List.mem_cons_of_mem _ hlonger, hends⟩
    · have hsame : word = last := eq_of_append_blank hword
        (fun c hc => hfirst c (List.mem_append_right _ hc)) hb (by decide) hlast
      exact ⟨_, List.mem_cons_self, taken, by rw [hsame], any_lastChar_none hbefore⟩

/-- Of the fixed words none other ends in `import`. -/
theorem append_import_ne {front word : List Char} (h : ¬"import".toList <:+ word) :
    front ++ "import".toList ≠ word :=
  fun hsame => h ⟨front, hsame⟩

/-- Only a name ends in `import` among the words of a member. -/
theorem Member.exists_name_of_mem_words {m : Member} {mark front : List Char} (hmark : mark = [] ∨ mark = [','])
    (h : front ++ "import".toList ∈ m.words mark) :
    ∃ name ∈ m.name :: m.alias?.toList, name.chars = front ++ "import".toList := by
  have hmarked : ∀ other : Identifier, front ++ "import".toList = other.chars ++ mark →
      other.chars = front ++ "import".toList := by
    intro other hother
    rcases hmark with rfl | rfl
    · rw [hother, List.append_nil]
    · have hlast := congrArg List.getLast? hother
      rw [List.getLast?_append, List.getLast?_append] at hlast
      cases hlast
  obtain ⟨name, alias?⟩ := m
  cases alias? with
  | none => exact ⟨name, List.mem_cons_self, hmarked name (List.mem_singleton.mp h)⟩
  | some other =>
    rw [words, List.mem_cons, List.mem_cons, List.mem_singleton] at h
    rcases h with h | h | h
    · exact ⟨name, List.mem_cons_self, h.symm⟩
    · exact absurd h (append_import_ne (by decide))
    · exact ⟨other, by simp, hmarked other h⟩

/-- Only a name ends in `import` among members. -/
theorem exists_name_of_mem_memberWords {members : List Member} {front : List Char}
    (h : front ++ "import".toList ∈ memberWords members) :
    ∃ name ∈ namesOf members, name.chars = front ++ "import".toList := by
  induction members with
  | nil => cases h
  | cons m rest ih =>
    have hfirst : ∀ name ∈ m.name :: m.alias?.toList, name ∈ namesOf (m :: rest) :=
      fun name hin => List.mem_append_left _ hin
    cases rest with
    | nil =>
      obtain ⟨name, hin, hname⟩ := Member.exists_name_of_mem_words (.inl rfl) h
      exact ⟨name, hfirst name hin, hname⟩
    | cons next rest =>
      rcases List.mem_append.mp h with h | h
      · obtain ⟨name, hin, hname⟩ := Member.exists_name_of_mem_words (.inr rfl) h
        exact ⟨name, hfirst name hin, hname⟩
      · obtain ⟨name, hin, hname⟩ := ih h
        exact ⟨name, List.mem_append_right _ hin, hname⟩

/-- Only a name ends in `import` among members in braces. -/
theorem exists_name_of_mem_bracedWords {members : List Member} {front : List Char}
    (h : front ++ "import".toList ∈ bracedWords members) :
    ∃ name ∈ namesOf members, name.chars = front ++ "import".toList := by
  rw [bracedWords, List.mem_cons, List.mem_append, List.mem_singleton] at h
  rcases h with h | h | h
  · exact absurd h (append_import_ne (by decide))
  · exact exists_name_of_mem_memberWords h
  · exact absurd h (append_import_ne (by decide))

/-- No word of an export ends in the word `import`, as long as no name does. -/
theorem Phrase.append_import_notMem_words {phrase : Phrase} (h : phrase.IsLegible)
    (hshape : phrase.shape = .reExport) {front : List Char}
    (hends : (lastChar none front).any isWordChar = false) : front ++ "import".toList ∉ phrase.words := by
  have hmembers : ∀ members, (∀ name ∈ namesOf members, ¬name.EndsInImport) →
      front ++ "import".toList ∉ bracedWords members := by
    intro members hnames hin
    obtain ⟨name, hname, hchars⟩ := exists_name_of_mem_bracedWords hin
    exact hnames name hname ⟨front, hchars, hends⟩
  cases phrase with
  | exportAll =>
    simp only [words, List.mem_cons, List.not_mem_nil, or_false, not_or]
    exact ⟨append_import_ne (by decide), append_import_ne (by decide), append_import_ne (by decide)⟩
  | exportNames members =>
    simp only [words, List.mem_cons, List.mem_append, List.not_mem_nil, or_false, not_or]
    exact ⟨append_import_ne (by decide), hmembers members h, append_import_ne (by decide)⟩
  | exportTypes members =>
    simp only [words, List.mem_cons, List.mem_append, List.not_mem_nil, or_false, not_or]
    exact ⟨append_import_ne (by decide), append_import_ne (by decide), hmembers members h,
      append_import_ne (by decide)⟩
  | _ => cases hshape

/-- No import of names starts in an export whose names do not end in the word. -/
theorem Phrase.silent_static {phrase : Phrase} (h : phrase.IsLegible) (hshape : phrase.shape = .reExport)
    (before : Option Char) (rest : List Char) :
    Silent staticPattern before phrase.front ('\'' :: rest) := by
  have hwords : ∀ word ∈ phrase.words, ∀ c ∈ word, isBlank c = false :=
    fun word hword c hc => isBlank_of_isWordPart (isWordPart_of_mem_words phrase word hword c hc)
  have hfront : phrase.front = spaced phrase.words := by
    cases phrase <;> first | exact List.append_nil _ | cases hshape
  intro taken c left hsplit offset
  cases hbefore : (lastChar before taken).any isWordChar with
  | true => exact Shape.matchAt?_eq_none_of_word (s := .static) hbefore _
  | false =>
    have hplain : ∀ d ∈ c :: left, isQuote d = false :=
      fun d hd => (isPlain_of_mem_front phrase d (hsplit ▸ List.mem_append_right _ hd)).2
    refine Shape.matchAt?_eq_none_of_not_fits (s := .static) (by decide) (by decide) hplain ?_ rest
    rintro ⟨_, _, hwhole, rfl, word, _, rfl, hword, gap, _, rfl, hgap, -⟩
    obtain rfl := fits_text.mp hword
    obtain ⟨hne, hgap⟩ := fits_some.mp hgap
    obtain ⟨b, gap, rfl⟩ := List.exists_cons_of_ne_nil hne
    rw [hwhole, hfront] at hsplit
    obtain ⟨longer, hlonger, front, rfl, hends⟩ := exists_word_of_spaced hwords (by decide) (by decide)
      (hgap b List.mem_cons_self) hsplit.symm hbefore
    exact append_import_notMem_words h hshape hends hlonger

/-- No match in another shape starts in the text in front of a specifier. -/
theorem Phrase.silent_front {phrase : Phrase} (h : phrase.IsLegible) {s : Shape} (hs : phrase.shape ≠ s)
    (before : Option Char) (rest : List Char) : Silent s.pattern before phrase.front ('\'' :: rest) := by
  have hquote : isQuote '\'' = true := by decide
  by_cases hexport : s = .reExport
  · subst hexport
    exact Shape.silent_reExport_of_letter hquote (isExportless hs).behind rest
  · have hplain : ∀ c ∈ phrase.front, isQuote c = false :=
      fun c hc => (isPlain_of_mem_front phrase c hc).2
    by_cases hends : phrase.shape.ending = s.ending
    · have hstatic : phrase.shape = .reExport ∧ s = .static := by
        have hsame : ∀ own other : Shape, own ≠ other → other ≠ .reExport → own.ending = other.ending →
            own = .reExport ∧ other = .static := by
          intro own other
          cases own <;> cases other <;> decide
        exact hsame _ s hs hexport hends
      obtain ⟨hshape, rfl⟩ := hstatic
      exact silent_static h hshape before rest
    · exact Shape.silent_of_lastTwo_ne hexport hquote hplain (phrase.lastTwo_front ▸ hends) rest

/-! ## Strings -/

/-- Whether no export starts in a text that stands between quotes. -/
def IsWordless (cs : List Char) : Prop :=
  ∀ front rest b, cs = front ++ ("export".toList ++ b :: rest) → isBlank b = true →
    (lastChar none front).any isWordChar = true

theorem isWordChar_of_isBlank {c : Char} (h : isBlank c = true) : isWordChar c = false := by
  have hlow : ∀ n ∈ List.range 0x100, isBlank (Char.ofNat n) = true →
      isWordChar (Char.ofNat n) = false := by decide +kernel
  have hhigh : ∀ n ∈ [0x1680, 0x2028, 0x2029, 0x202F, 0x205F, 0x3000] ++ List.range' 0x2000 11,
      isWordChar (Char.ofNat n) = false := by decide +kernel
  rw [← Char.ofNat_toNat c] at h ⊢
  by_cases hsmall : c.toNat < 0x100
  · exact hlow _ (List.mem_range.mpr hsmall) h
  · refine hhigh _ ?_
    rw [Char.ofNat_toNat] at h
    simp only [isBlank, Bool.or_eq_true, Bool.and_eq_true, decide_eq_true_eq, beq_iff_eq] at h
    simp only [List.mem_append, List.mem_cons, List.mem_range'_1, List.not_mem_nil]
    omega

theorem Specifier.isWordless (source : Specifier) : IsWordless source.text.toList := by
  intro front rest b hsplit hb
  have hblank := (source.plain b (by simp [hsplit])).1
  exact absurd (hblank.symm.trans hb) Bool.false_ne_true

theorem Content.isWordless (content : Content) : IsWordless content.chars := by
  intro front rest b hsplit hb
  cases hfront : (lastChar none front).any isWordChar with
  | true => rfl
  | false => exact absurd ⟨front, b :: rest, hsplit, hfront, isWordChar_of_isBlank hb⟩ content.wordless

/-- No match starts on a line of code if none starts in front of its string. -/
theorem silent_codeLine {s : Shape} {front body behind : List Char} {quote : Char}
    {before : Option Char} {rest : List Char} (hquote : isQuote quote = true)
    (hfront : ∀ rest, Silent s.pattern before front (quote :: rest))
    (hbody : ∀ c ∈ body, isQuote c = false) (hwordless : IsWordless body)
    (hbehind : ∀ c ∈ behind, isQuote c = false ∧ c ≠ '\n')
    (hletters : ∀ c ∈ behind, c ∉ ['i', 'e', 'r']) :
    Silent s.pattern before (codeLine front quote body behind ++ ['\n']) rest := by
  have hopening : Silent s.pattern (lastChar before front) [quote]
      (body ++ quote :: (behind ++ '\n' :: rest)) := by
    refine Shape.silent_of_notMem (List.forall_mem_singleton.mpr ?_) _
    simp only [isQuote, Bool.or_eq_true, beq_iff_eq] at hquote
    rcases hquote with rfl | rfl <;> decide
  have hinside : Silent s.pattern (.some quote) body (quote :: (behind ++ '\n' :: rest)) := by
    by_cases hs : s = .reExport
    · subst hs
      refine Shape.silent_reExport_of_word hquote (fun front rest b hsplit hb => ?_) _
      have hword := hwordless front rest b hsplit hb
      cases front with
      | nil => cases hword
      | cons c front => exact hword
    · exact Shape.silent_line hs hquote hbody hbehind rest
  have hclosing : Silent s.pattern (lastChar (.some quote) body) (quote :: (behind ++ ['\n'])) rest := by
    refine Shape.silent_of_notMem ?_ rest
    simp only [List.forall_mem_cons, List.forall_mem_append]
    refine ⟨?_, hletters, by decide, by simp⟩
    simp only [isQuote, Bool.or_eq_true, beq_iff_eq] at hquote
    rcases hquote with rfl | rfl <;> decide
  have hjoined : codeLine front quote body behind ++ ['\n']
      = front ++ ([quote] ++ (body ++ (quote :: (behind ++ ['\n'])))) := by
    simp only [codeLine, List.append_assoc, List.cons_append, List.nil_append]
  rw [hjoined]
  refine Silent.append ?_ (Silent.append ?_ (Silent.append ?_ ?_))
  · exact hfront _
  · simpa using hopening
  · simpa using hinside
  · simpa using hclosing

/-- No match starts on the line of a constant for a text. -/
theorem silent_constant {s : Shape} (name : Identifier) (before : Option Char) (rest : List Char) :
    Silent s.pattern before (spaced (constantWords name)) ('"' :: rest) := by
  have hquote : isQuote '"' = true := by decide
  by_cases hs : s = .reExport
  · subst hs
    have hnone : ∀ c ∈ spaced (constantWords name), Shape.startsExports c = false := by
      refine forall_mem_spaced ?_ (by decide)
      simp only [constantWords, List.forall_mem_cons]
      exact ⟨by decide, name.startsExports_eq_false, by decide, by simp⟩
    exact Shape.silent_reExport_of_letter hquote
      (fun front rest hsplit c hc => hnone c (by simp [hsplit, hc])) rest
  · have hplain : ∀ c ∈ spaced (constantWords name), isQuote c = false :=
      fun c hc => (isPlain_of_mem_spaced (isWordPart_of_mem_constantWords name) c hc).2
    refine Shape.silent_of_lastTwo_ne hs hquote hplain (fun hends => ?_) rest
    have hlast : (Shape.lastTwo (spaced (constantWords name))).head? = .some '=' := by
      have hsplit : spaced (constantWords name) = spaced ["const".toList, name.chars] ++ ['=', ' '] :=
        spaced_append ["const".toList, name.chars] [['=']]
      rw [hsplit, Shape.lastTwo, ink_append, List.reverse_append]
      rfl
    rw [hends] at hlast
    revert hlast
    cases s <;> decide

end ScopedCheck.Import
