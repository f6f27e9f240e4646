import ScopedCheck.Proofs.Import.Statement
/-! # Statements are found in their own shape

The text in front of a specifier is taken by the searches of its shape part by part, so that the statement
is found with its specifier, whatever stands on the other lines. -/

namespace ScopedCheck.Import

open Text Text.Pattern

/-! ## Statements in their own shape -/

/-- The text in front of a specifier is what a shape has there. It is taken as soon as only a quote lets
go on and something is found from the quote on. -/
def Reads (s : Shape) (typed : Bool) (cs : List Char) : Prop :=
  ∀ (goOn : Place → Groups → Option Found) (found : Groups → Found) (before : Option Char)
    (offset : Nat) (rest : List Char), before.any isWordChar = false →
    Refuses goOn (fun c => !isQuote c) →
    (∀ groups, goOn ⟨lastChar before cs, offset + cs.length, '\'' :: rest⟩ groups = .some (found groups)) →
    ∃ groups : Groups, (groups.find? (·.1 == 1)).isSome = typed ∧
      (all s.head).first? goOn ⟨before, offset, cs ++ '\'' :: rest⟩ [] = .some (found groups)

section Reads

variable {goOn : Place → Groups → Option Found} {before : Option Char} {offset : Nat} {groups : Groups}

/-- A word is found where no other one ends. -/
theorem first?_word (hbefore : before.any isWordChar = false) {word : String}
    (hword : word.toList.head?.any isWordChar = true) (more : List Pattern) (cs : List Char) :
    (all (boundary :: text word :: more)).first? goOn ⟨before, offset, word.toList ++ cs⟩ groups
      = (all more).first? goOn ⟨lastChar before word.toList, offset + word.toList.length, cs⟩ groups := by
  have hplace : Place.isBoundary ⟨before, offset, word.toList ++ cs⟩ = true := by
    cases hchars : word.toList with
    | nil => simp [hchars] at hword
    | cons c rest => simpa [Place.isBoundary, hbefore, hchars] using hword
  rw [first?_all_cons, first?_boundary hplace, first?_all_cons, first?_text]

/-- Blanks in front of a quote are taken where only a quote lets go on. -/
theorem first?_blanks_quote (hrefuses : Refuses goOn fun c => !isQuote c) {gap : List Char}
    (hgap : ∀ c ∈ gap, isBlank c = true) (rest : List Char) :
    (all [blanks]).first? goOn ⟨before, offset, gap ++ '\'' :: rest⟩ groups
      = goOn ⟨lastChar before gap, offset + gap.length, '\'' :: rest⟩ groups :=
  first?_more (hrefuses.mono fun c hc => by simp [isQuote_of_isBlank hc]) hgap (by rfl)

theorem reads_sideEffect : Reads .sideEffect false ("import".toList ++ [' ']) := by
  intro goOn found before offset rest hbefore hrefuses hgoOn
  refine ⟨[], rfl, ?_⟩
  rw [Shape.head, List.append_assoc, first?_word hbefore (by decide),
    first?_blanks_quote hrefuses (by decide)]
  simpa [Nat.add_assoc] using hgoOn []

/-- A call of a function. -/
theorem first?_call (hrefuses : Refuses goOn fun c => !isQuote c) (rest : List Char) :
    (all [blanks, text "(", blanks]).first? goOn ⟨before, offset, '(' :: '\'' :: rest⟩ groups
      = goOn ⟨.some '(', offset + 1, '\'' :: rest⟩ groups := by
  have hsplit : '(' :: '\'' :: rest = "(".toList ++ ([] ++ '\'' :: rest) := rfl
  rw [first?_all_cons, blanks, first?_many_of_head? .more (by rfl), first?_all_cons, hsplit, first?_text]
  exact first?_blanks_quote hrefuses (by simp) rest

theorem reads_dynamic : Reads .dynamic false ("import".toList ++ ['(']) := by
  intro goOn found before offset rest hbefore hrefuses hgoOn
  refine ⟨[], rfl, ?_⟩
  rw [Shape.head, List.append_assoc, first?_word hbefore (by decide), List.singleton_append,
    first?_call hrefuses]
  simpa [Nat.add_assoc] using hgoOn []

theorem reads_require : Reads .require false ("require".toList ++ ['(']) := by
  intro goOn found before offset rest hbefore hrefuses hgoOn
  refine ⟨[], rfl, ?_⟩
  rw [Shape.head, List.append_assoc, first?_word hbefore (by decide), List.singleton_append,
    first?_call hrefuses]
  simpa [Nat.add_assoc] using hgoOn []

/-- The last `from` in front of a quote ends a clause. -/
theorem first?_clause (hrefuses : Refuses goOn fun c => !isQuote c) {c : Char} {mid : List Char}
    (hclause : ∀ d ∈ c :: (mid ++ [' ']), isClauseChar d = true) {rest : List Char} {found : Found}
    (hgoOn : goOn ⟨lastChar before (c :: (mid ++ [' ']) ++ ("from".toList ++ [' '])),
      offset + (c :: (mid ++ [' ']) ++ ("from".toList ++ [' '])).length, '\'' :: rest⟩ groups = .some found) :
    (all [some .fewer isClauseChar, boundary, text "from", blanks]).first? goOn
      ⟨before, offset, c :: (mid ++ [' ']) ++ ("from".toList ++ [' ']) ++ '\'' :: rest⟩ groups
        = .some found := by
  obtain ⟨hc, hmid⟩ := List.forall_mem_cons.mp hclause
  have hfirst : (all [some .fewer isClauseChar, boundary, text "from", blanks]).first? goOn
      ⟨before, offset, c :: (mid ++ [' ']) ++ ("from".toList ++ [' ']) ++ '\'' :: rest⟩ groups
      = (many .fewer isClauseChar).first? ((all [boundary, text "from", blanks]).first? goOn)
          ⟨.some c, offset + 1, (mid ++ [' ']) ++ ("from".toList ++ ([' '] ++ '\'' :: rest))⟩ groups := by
    have hjoined : c :: (mid ++ [' ']) ++ ("from".toList ++ [' ']) ++ '\'' :: rest
        = c :: ((mid ++ [' ']) ++ ("from".toList ++ ([' '] ++ '\'' :: rest))) := by simp
    rw [hjoined, first?_all_cons]
    exact first?_char hc _
  rw [hfirst]
  refine first?_fewer hmid (fun taken d left hsplit => ?_) ?_
  · -- an earlier end of the clause would leave more than the word in front of the quote
    have hleft : ∀ e ∈ d :: left ++ ("from".toList ++ [' ']), isQuote e = false :=
      List.forall_mem_append.mpr ⟨fun e he => isQuote_of_isClauseChar (hmid e (hsplit ▸ List.mem_append_right _ he)),
        by decide⟩
    have hjoined : d :: left ++ ("from".toList ++ ([' '] ++ '\'' :: rest))
        = d :: left ++ ("from".toList ++ [' ']) ++ '\'' :: rest := by simp
    rw [hjoined]
    refine first?_eq_none_of_quote ?_ hrefuses (by decide) hleft fun hfits => ?_
    · exact avoids_all (by
        simp only [List.forall_mem_cons]
        exact ⟨avoids_boundary _, avoids_text (by decide), fun _ => isBlank_of_isQuote, by simp⟩)
    · obtain ⟨_, _, hwhole, rfl, word, _, rfl, hword, gap, _, rfl, hgap, rfl⟩ := hfits
      obtain rfl := fits_text.mp hword
      have hd : isBlank d = false := by
        obtain rfl : d = 'f' := by simpa using congrArg List.head? hwhole
        decide
      refine absurd ?_ (ink_ne_of_cons hd left ("from".toList ++ [' ']))
      rw [hwhole, List.nil_append, List.append_nil, ink_append, ink_append, ink_eq_nil.mpr hgap]
      rfl
  · have hlast : lastChar (.some c) (mid ++ [' ']) = .some ' ' := by simp
    rw [hlast, first?_word (by decide) (by decide), first?_blanks_quote hrefuses (by decide)]
    simpa [Nat.add_assoc, Nat.add_comm 1] using hgoOn

/-- The word for types is remembered if something is found behind it. -/
theorem exists_first?_typeMark {cs : List Char} (hcs : cs.head?.any isBlank = false) :
    ∃ mark : Nat × Place × Place, mark.1 = 1 ∧ ∀ found : Found,
      goOn ⟨.some ' ', offset + "type".toList.length + 1, cs⟩ (mark :: groups) = .some found →
      typeMark.first? goOn ⟨before, offset, "type".toList ++ ' ' :: cs⟩ groups = .some found := by
  refine ⟨(1, ⟨before, offset, "type".toList ++ ' ' :: cs⟩,
    ⟨.some ' ', offset + "type".toList.length + 1, cs⟩), rfl, fun found h => ?_⟩
  rw [typeMark, Pattern.optional, first?_either, first?_capture, first?_all_cons, first?_text,
    first?_all_cons, blank, first?_some_single .more (by decide) hcs, first?_all_nil, h, Option.some_or]

/-- Without the word for types in front, the clause starts at once. -/
theorem first?_typeMark_none (hrefuses : Refuses goOn fun c => !isQuote c) {cs : List Char}
    (hcs : ∀ c ∈ cs, isQuote c = false)
    (hmark : ¬(all [text "type", blank, some .fewer isClauseChar, boundary, text "from", blanks]).Fits cs)
    (rest : List Char) :
    (all [typeMark, some .fewer isClauseChar, boundary, text "from", blanks]).first? goOn
        ⟨before, offset, cs ++ '\'' :: rest⟩ groups
      = (all [some .fewer isClauseChar, boundary, text "from", blanks]).first? goOn
        ⟨before, offset, cs ++ '\'' :: rest⟩ groups := by
  have hmarkAvoids : (capture 1 (all [text "type", blank])).Avoids isQuote := by
    refine avoids_all ?_
    simp only [List.forall_mem_cons]
    exact ⟨avoids_text (by decide), Shape.blank_avoids_isQuote, by simp⟩
  have hclauseAvoids :
      (all [some .fewer isClauseChar, boundary, text "from", blanks]).Avoids isQuote := by
    refine avoids_all ?_
    simp only [List.forall_mem_cons]
    exact ⟨⟨fun _ => isClauseChar_of_isQuote, fun _ => isClauseChar_of_isQuote⟩, avoids_boundary _,
      avoids_text (by decide), fun _ => isBlank_of_isQuote, by simp⟩
  have hnone : (seq (capture 1 (all [text "type", blank]))
      (all [some .fewer isClauseChar, boundary, text "from", blanks])).first? goOn
        ⟨before, offset, cs ++ '\'' :: rest⟩ groups = none := by
    have havoids : (seq (capture 1 (all [text "type", blank]))
        (all [some .fewer isClauseChar, boundary, text "from", blanks])).Avoids isQuote :=
      ⟨hmarkAvoids, hclauseAvoids⟩
    refine first?_eq_none_of_quote havoids hrefuses (by decide) hcs fun hfits => ?_
    obtain ⟨_, clause, rfl, ⟨mark, _, rfl, hword, gap, _, rfl, hgap, rfl⟩, hclause⟩ := hfits
    exact absurd ⟨mark, gap ++ clause, by simp, hword, gap, clause, rfl, hgap, hclause⟩ hmark
  rw [first?_all_cons, typeMark, Pattern.optional, first?_either]
  change ((seq (capture 1 (all [text "type", blank]))
      (all [some .fewer isClauseChar, boundary, text "from", blanks])).first? goOn _ groups).or _ = _
  rw [hnone, Option.none_or]
  rfl

/-- An import of names, the clause with a blank behind it. -/
theorem reads_importNames {c : Char} {mid : List Char}
    (hclause : ∀ d ∈ c :: (mid ++ [' ']), isClauseChar d = true) (hc : isBlank c = false)
    (hmark : ¬(all [text "type", blank, some .fewer isClauseChar, boundary, text "from", blanks]).Fits
      (c :: (mid ++ [' ']) ++ ("from".toList ++ [' ']))) :
    Reads .static false ("import".toList ++ ' ' :: (c :: (mid ++ [' ']) ++ ("from".toList ++ [' ']))) := by
  intro goOn found before offset rest hbefore hrefuses hgoOn
  have hplain : ∀ d ∈ c :: (mid ++ [' ']) ++ ("from".toList ++ [' ']), isQuote d = false :=
    List.forall_mem_append.mpr ⟨fun d hd => isQuote_of_isClauseChar (hclause d hd), by decide⟩
  refine ⟨[], rfl, ?_⟩
  rw [Shape.head, List.append_assoc, first?_word hbefore (by decide), first?_all_cons, List.cons_append,
    blank, first?_some_single .more (by decide) (by exact hc), first?_typeMark_none hrefuses hplain hmark]
  refine first?_clause hrefuses hclause ?_
  simpa [Nat.add_assoc, Nat.add_comm, Nat.add_left_comm] using hgoOn []

/-- An import of types, the clause with a blank behind it. -/
theorem reads_importTypes {c : Char} {mid : List Char}
    (hclause : ∀ d ∈ c :: (mid ++ [' ']), isClauseChar d = true) (hc : isBlank c = false) :
    Reads .static true ("import".toList ++ ' ' :: ("type".toList ++ ' ' ::
      (c :: (mid ++ [' ']) ++ ("from".toList ++ [' '])))) := by
  intro goOn found before offset rest hbefore hrefuses hgoOn
  have hjoined : "import".toList ++ ' ' :: ("type".toList ++ ' ' ::
      (c :: (mid ++ [' ']) ++ ("from".toList ++ [' ']))) ++ '\'' :: rest
      = "import".toList ++ ' ' :: ("type".toList ++ ' ' ::
        (c :: (mid ++ [' ']) ++ ("from".toList ++ [' ']) ++ '\'' :: rest)) := by
    simp only [List.append_assoc, List.cons_append]
  obtain ⟨mark, hmark, hfound⟩ := exists_first?_typeMark
    (show (c :: (mid ++ [' ']) ++ ("from".toList ++ [' ']) ++ '\'' :: rest).head?.any isBlank = false
      from hc)
  refine ⟨[mark], by simp [hmark], ?_⟩
  rw [hjoined, Shape.head, first?_word hbefore (by decide), first?_all_cons, blank,
    first?_some_single .more (by decide) (any_head?_text (by decide) _), first?_all_cons]
  refine hfound _ (first?_clause hrefuses hclause ?_)
  simpa [Nat.add_assoc, Nat.add_comm, Nat.add_left_comm] using hgoOn [mark]

/-- Without its first letter, the word for types is not there. -/
theorem first?_typeMark_of_head? {cs : List Char} (hcs : cs.head? ≠ .some 't') :
    typeMark.first? goOn ⟨before, offset, cs⟩ groups = goOn ⟨before, offset, cs⟩ groups := by
  have hnone : ¬"type".toList <+: cs := by
    rintro ⟨rest, rfl⟩
    exact hcs rfl
  rw [typeMark, Pattern.optional, first?_either, first?_capture, first?_all_cons,
    first?_text_eq_none hnone, Option.none_or]
  rfl

/-- What stands between an exported clause and a specifier. -/
theorem first?_from (hrefuses : Refuses goOn fun c => !isQuote c) (rest : List Char) :
    (all [blanks, text "from", blanks]).first? goOn
        ⟨before, offset, [' '] ++ ("from".toList ++ ([' '] ++ '\'' :: rest))⟩ groups
      = goOn ⟨.some ' ', offset + 1 + "from".toList.length + 1, '\'' :: rest⟩ groups := by
  rw [first?_all_cons, blanks, first?_more (.all (refuses_text (by decide))) (by decide)
    (any_head?_text (by decide) _), first?_all_cons, first?_text, ← blanks,
    first?_blanks_quote hrefuses (by decide)]
  simp

/-- Members in braces, up to the specifier. -/
theorem first?_members (hrefuses : Refuses goOn fun c => !isQuote c) {mid : List Char} (hmid : '}' ∉ mid)
    (rest : List Char) :
    (all [exportClause, blanks, text "from", blanks]).first? goOn
        ⟨before, offset, '{' :: (mid ++ '}' :: ([' '] ++ ("from".toList ++ ([' '] ++ '\'' :: rest))))⟩ groups
      = goOn ⟨.some ' ', offset + 1 + mid.length + 1 + 1 + "from".toList.length + 1, '\'' :: rest⟩
          groups := by
  have hstar : ∀ cs, ¬"*".toList <+: '{' :: cs := by
    rintro cs ⟨rest, h⟩
    cases h
  rw [first?_all_cons, exportClause, first?_either, first?_all_cons, first?_text_eq_none (hstar _),
    Option.none_or, Shape.first?_braces hmid, first?_all_nil, first?_from hrefuses]

/-- Everything that is exported, up to the specifier. -/
theorem first?_star (hrefuses : Refuses goOn fun c => !isQuote c) {rest : List Char} {found : Found}
    (hgoOn : goOn ⟨.some ' ', offset + 1 + 1 + "from".toList.length + 1, '\'' :: rest⟩ groups
      = .some found) :
    (all [exportClause, blanks, text "from", blanks]).first? goOn
        ⟨before, offset, '*' :: ([' '] ++ ("from".toList ++ ([' '] ++ '\'' :: rest)))⟩ groups
      = .some found := by
  have hstar : ∀ cs, '*' :: cs = "*".toList ++ cs := fun _ => rfl
  have has : ¬"as".toList <+: "from".toList ++ ([' '] ++ '\'' :: rest) := by
    rintro ⟨_, h⟩
    cases h
  have hnone : ∀ goOn : Place → Groups → Option Found,
      (all [blank, text "as", blank, some .more isNameChar]).first? goOn
        ⟨.some '*', offset + 1, [' '] ++ ("from".toList ++ ([' '] ++ '\'' :: rest))⟩ groups = none := by
    intro goOn
    rw [first?_all_cons, blank, List.singleton_append,
      first?_some_single .more (by decide) (any_head?_text (by decide) _), first?_all_cons,
      first?_text_eq_none has]
  have hfrom : (all [blanks, text "from", blanks]).first? goOn
      ⟨.some '*', offset + 1, [' '] ++ ("from".toList ++ ([' '] ++ '\'' :: rest))⟩ groups
        = .some found := (first?_from hrefuses rest).trans hgoOn
  rw [first?_all_cons, exportClause, first?_either, first?_all_cons, hstar, first?_text, first?_all_cons,
    Pattern.optional, first?_either]
  change ((Option.or ((all [blank, text "as", blank, some .more isNameChar]).first? _
    ⟨.some '*', offset + 1, _⟩ groups) ((all [blanks, text "from", blanks]).first? goOn
      ⟨.some '*', offset + 1, _⟩ groups)).or _) = _
  rw [hnone, hfrom, Option.none_or, Option.some_or]

theorem reads_exportAll :
    Reads .reExport false ("export".toList ++ ' ' :: '*' :: ([' '] ++ ("from".toList ++ [' ']))) := by
  intro goOn found before offset rest hbefore hrefuses hgoOn
  have hjoined : "export".toList ++ ' ' :: '*' :: ([' '] ++ ("from".toList ++ [' '])) ++ '\'' :: rest
      = "export".toList ++ ' ' :: ('*' :: ([' '] ++ ("from".toList ++ ([' '] ++ '\'' :: rest)))) := by
    simp only [List.append_assoc, List.cons_append]
  refine ⟨[], rfl, ?_⟩
  rw [hjoined, Shape.head, first?_word hbefore (by decide), first?_all_cons, blank,
    first?_some_single .more (by decide) (by rfl), first?_all_cons,
    first?_typeMark_of_head? (by simp)]
  refine first?_star hrefuses ?_
  simpa [Nat.add_assoc, Nat.add_comm, Nat.add_left_comm] using hgoOn []

theorem reads_exportNames {mid : List Char} (hmid : '}' ∉ mid) :
    Reads .reExport false ("export".toList ++ ' ' :: '{' ::
      (mid ++ '}' :: ([' '] ++ ("from".toList ++ [' '])))) := by
  intro goOn found before offset rest hbefore hrefuses hgoOn
  have hjoined : "export".toList ++ ' ' :: '{' :: (mid ++ '}' :: ([' '] ++ ("from".toList ++ [' '])))
        ++ '\'' :: rest
      = "export".toList ++ ' ' :: ('{' :: (mid ++ '}' :: ([' '] ++ ("from".toList ++
        ([' '] ++ '\'' :: rest))))) := by
    simp only [List.append_assoc, List.cons_append]
  refine ⟨[], rfl, ?_⟩
  rw [hjoined, Shape.head, first?_word hbefore (by decide), first?_all_cons, blank,
    first?_some_single .more (by decide) (by rfl), first?_all_cons,
    first?_typeMark_of_head? (by simp), first?_members hrefuses hmid]
  simpa [Nat.add_assoc, Nat.add_comm, Nat.add_left_comm] using hgoOn []

theorem reads_exportTypes {mid : List Char} (hmid : '}' ∉ mid) :
    Reads .reExport true ("export".toList ++ ' ' :: ("type".toList ++ ' ' :: '{' ::
      (mid ++ '}' :: ([' '] ++ ("from".toList ++ [' ']))))) := by
  intro goOn found before offset rest hbefore hrefuses hgoOn
  have hjoined : "export".toList ++ ' ' :: ("type".toList ++ ' ' :: '{' ::
        (mid ++ '}' :: ([' '] ++ ("from".toList ++ [' '])))) ++ '\'' :: rest
      = "export".toList ++ ' ' :: ("type".toList ++ ' ' :: ('{' :: (mid ++ '}' :: ([' '] ++
        ("from".toList ++ ([' '] ++ '\'' :: rest)))))) := by
    simp only [List.append_assoc, List.cons_append]
  obtain ⟨mark, hmark, hfound⟩ := exists_first?_typeMark
    (show ('{' :: (mid ++ '}' :: ([' '] ++ ("from".toList ++ ([' '] ++ '\'' :: rest))))).head?.any isBlank
      = false from rfl)
  refine ⟨[mark], by simp [hmark], ?_⟩
  rw [hjoined, Shape.head, first?_word hbefore (by decide), first?_all_cons, blank,
    first?_some_single .more (by decide) (any_head?_text (by decide) _), first?_all_cons]
  refine hfound _ ?_
  rw [first?_members hrefuses hmid]
  simpa [Nat.add_assoc, Nat.add_comm, Nat.add_left_comm] using hgoOn [mark]

end Reads

/-- What belongs to an import behind the specifier. -/
def Shape.closes : Shape → List Char
  | require => [')']
  | _ => []

/-- A statement in its own shape is found with its specifier. -/
theorem Reads.exists_matchAt? {s : Shape} {typed : Bool} {cs body : List Char} (h : Reads s typed cs)
    (hne : body ≠ []) (hbody : ∀ c ∈ body, isQuote c = false ∧ c ≠ '\n') {before : Option Char}
    (hbefore : before.any isWordChar = false) (offset : Nat) (rest : List Char) :
    ∃ found,
      s.pattern.matchAt?
        ⟨before, offset, (cs ++ '\'' :: (body ++ '\'' :: s.closes)) ++ rest⟩ = .some found ∧
      found.stop = ⟨lastChar before (cs ++ '\'' :: (body ++ '\'' :: s.closes)),
        offset + (cs ++ '\'' :: (body ++ '\'' :: s.closes)).length, rest⟩ ∧
      entryOf s.kind found = ⟨if typed then .typeOnly else s.kind, String.ofList body⟩ := by
  have hjoined : (cs ++ '\'' :: (body ++ '\'' :: s.closes)) ++ rest
      = cs ++ '\'' :: (body ++ '\'' :: (s.closes ++ rest)) := by simp
  have hclosed : ∀ (goOn : Place → Groups → Option Found) (groups : Groups) (offset : Nat),
      (all s.tail).first? goOn ⟨.some '\'', offset, s.closes ++ rest⟩ groups
        = goOn ⟨lastChar (.some '\'') s.closes, offset + s.closes.length, rest⟩ groups := by
    intro goOn groups offset
    cases s with
    | require =>
      have hparen : ')' :: rest = ")".toList ++ rest := rfl
      rw [Shape.tail, first?_all_cons, blanks, Shape.closes, List.singleton_append,
        first?_many_of_head? .more (by rfl), first?_all_cons, hparen, first?_text, first?_all_nil]
      rfl
    | _ => rfl
  rw [hjoined]
  obtain ⟨groups, htyped, hfound⟩ := h
    ((all (quotedSpecifier :: s.tail)).first? fun stop groups =>
      .some ⟨⟨before, offset, cs ++ '\'' :: (body ++ '\'' :: (s.closes ++ rest))⟩, stop, groups⟩)
    (fun groups => ⟨⟨before, offset, cs ++ '\'' :: (body ++ '\'' :: (s.closes ++ rest))⟩,
      ⟨lastChar (.some '\'') s.closes, offset + cs.length + 1 + body.length + 1 + s.closes.length, rest⟩,
      specifierGroup '\'' (offset + cs.length) body ('\'' :: (s.closes ++ rest)) :: groups⟩)
    before offset (body ++ '\'' :: (s.closes ++ rest)) hbefore refuses_quotedSpecifier (fun groups => by
      rw [first?_all_cons, first?_quotedSpecifier (by decide) (by decide) hne hbody, hclosed])
  have hmatch : (all (s.head ++ quotedSpecifier :: s.tail)).first? _ _ [] = .some _ :=
    (first?_all_append s.head (quotedSpecifier :: s.tail) _).trans hfound
  rw [← s.pattern_eq] at hmatch
  refine ⟨_, hmatch, ?_, ?_⟩
  · simp only [lastChar_append, lastChar_cons, List.length_append, List.length_cons]
    congr 1
    omega
  · have hone : ((2 : Nat) == 1) = false := rfl
    simp only [entryOf, Found.group, Found.group?, specifierGroup, List.find?_cons, hone, beq_self_eq_true,
      Option.isSome_map, htyped, Option.map_some, Option.getD_some, Place.textUpTo_append]

/-! ## Legible statements -/

/-- Whether a name ends in the word `import`, as words are told apart. -/
def Identifier.EndsInImport (name : Identifier) : Prop :=
  ∃ front, name.chars = front ++ "import".toList ∧ (lastChar none front).any isWordChar = false

/-- Whether the searches read the names of a statement as names: those of an import are made of the
characters that may stand in a clause, and none of an export ends in the word `import`. -/
def Phrase.IsLegible : Phrase → Prop
  | importNames clause => ∀ name ∈ clause.names, ∀ c ∈ name.chars, isNameChar c = true
  | importTypes members => ∀ name ∈ namesOf members, ∀ c ∈ name.chars, isNameChar c = true
  | exportNames members => ∀ name ∈ namesOf members, ¬name.EndsInImport
  | exportTypes members => ∀ name ∈ namesOf members, ¬name.EndsInImport
  | _ => True

theorem spaced_cons (word : List Char) (words : List (List Char)) :
    spaced (word :: words) = word ++ ' ' :: spaced words := by
  simp [spaced]

theorem spaced_append (words more : List (List Char)) :
    spaced (words ++ more) = spaced words ++ spaced more := List.flatMap_append ..

namespace Phrase

theorem front_importNames (clause : Clause) : (importNames clause).front
    = "import".toList ++ ' ' :: (spaced clause.words ++ ("from".toList ++ [' '])) := by
  change spaced ("import".toList :: (clause.words ++ ["from".toList])) ++ [] = _
  rw [List.append_nil, spaced_cons, spaced_append, spaced_cons]
  rfl

theorem front_importTypes (members : List Member) : (importTypes members).front = "import".toList ++ ' ' ::
    ("type".toList ++ ' ' :: (spaced (bracedWords members) ++ ("from".toList ++ [' ']))) := by
  change spaced ("import".toList :: "type".toList :: (bracedWords members ++ ["from".toList])) ++ [] = _
  rw [List.append_nil, spaced_cons, spaced_cons, spaced_append, spaced_cons]
  rfl

theorem front_exportNames (members : List Member) : (exportNames members).front
    = "export".toList ++ ' ' :: (spaced (bracedWords members) ++ ("from".toList ++ [' '])) := by
  change spaced ("export".toList :: (bracedWords members ++ ["from".toList])) ++ [] = _
  rw [List.append_nil, spaced_cons, spaced_append, spaced_cons]
  rfl

theorem front_exportTypes (members : List Member) : (exportTypes members).front = "export".toList ++ ' ' ::
    ("type".toList ++ ' ' :: (spaced (bracedWords members) ++ ("from".toList ++ [' ']))) := by
  change spaced ("export".toList :: "type".toList :: (bracedWords members ++ ["from".toList])) ++ [] = _
  rw [List.append_nil, spaced_cons, spaced_cons, spaced_append, spaced_cons]
  rfl

end Phrase

theorem isClauseChar_of_isNameChar {c : Char} (h : isNameChar c = true) : isClauseChar c = true := by
  simp only [isClauseChar, h, Bool.true_or]

theorem spaced_bracedWords (members : List Member) :
    spaced (bracedWords members) = '{' :: (' ' :: spaced (memberWords members) ++ ['}']) ++ [' '] := by
  simp [bracedWords, spaced]

theorem spaced_bracedWords_append (members : List Member) (cs : List Char) :
    spaced (bracedWords members) ++ cs
      = '{' :: ((' ' :: spaced (memberWords members)) ++ '}' :: ([' '] ++ cs)) := by
  rw [spaced_bracedWords]
  simp

/-- Members hold no closing brace. -/
theorem notMem_members (members : List Member) : '}' ∉ ' ' :: spaced (memberWords members) := by
  have hnames : ∀ name ∈ namesOf members, ∀ c ∈ name.chars, c ≠ '}' := by
    rintro name - c hc rfl
    exact absurd (name.parts '}' hc) (by decide)
  have hall := forall_mem_spaced (forall_mem_memberWords hnames (by decide) (by decide)) (by decide)
  exact fun h => hall '}' ((List.mem_cons.mp h).resolve_left (by decide)) rfl

/-- What a clause says starts with a visible character and ends in a blank. -/
theorem Clause.exists_spaced_words (clause : Clause) :
    ∃ c mid, spaced clause.words = c :: (mid ++ [' ']) ∧ isBlank c = false := by
  cases clause with
  | one name =>
    obtain ⟨c, rest, hchars⟩ := List.exists_cons_of_ne_nil name.named
    exact ⟨c, rest, by simp [words, spaced, hchars],
      isBlank_of_isNamePart (name.parts c (by simp [hchars]))⟩
  | named members => exact ⟨'{', _, spaced_bracedWords members, by decide⟩
  | whole name => exact ⟨'*', ' ' :: ("as".toList ++ ' ' :: name.chars), by simp [words, spaced], by decide⟩

/-- A name is not the word for types with a clause of its own behind it. -/
theorem Identifier.not_fits_typeMark (name : Identifier) :
    ¬(all [text "type", blank, some .fewer isClauseChar, boundary, text "from", blanks]).Fits
      (name.chars ++ [' '] ++ ("from".toList ++ [' '])) := by
  rintro ⟨word, _, hwhole, hword, gap, _, rfl, hgap, clause, _, rfl, hclause, _, _, rfl, rfl, word', _, rfl,
    hword', gap', _, rfl, hgap', rfl⟩
  obtain rfl := fits_text.mp hword
  obtain rfl := fits_text.mp hword'
  obtain ⟨hgapNe, hgap⟩ := fits_some.mp hgap
  obtain ⟨hclauseNe, -⟩ := fits_some.mp hclause
  obtain ⟨b, gap, rfl⟩ := List.exists_cons_of_ne_nil hgapNe
  obtain ⟨c, clause, rfl⟩ := List.exists_cons_of_ne_nil hclauseNe
  obtain ⟨hb, hgap⟩ := List.forall_mem_cons.mp hgap
  have hname : ∀ d ∈ name.chars, (!isBlank d) = true :=
    fun d hd => by rw [isBlank_of_isNamePart (name.parts d hd)]; rfl
  -- behind the first word the rest is one blank and `from`
  have hleft : ∀ cs, (name.chars ++ [' '] ++ cs).dropWhile (!isBlank ·) = ' ' :: cs := by
    intro cs
    rw [List.append_assoc, List.dropWhile_append_of_pos hname]
    rfl
  have hright : ∀ cs, ("type".toList ++ (b :: gap ++ cs)).dropWhile (!isBlank ·) = b :: (gap ++ cs) := by
    intro cs
    rw [List.dropWhile_append_of_pos (by decide)]
    exact List.dropWhile_cons_of_neg (by simp [hb])
  have hrest := congrArg (List.dropWhile (!isBlank ·)) hwhole
  rw [hleft, hright] at hrest
  have htail : "from".toList ++ [' '] = gap ++ (c :: clause ++ ([] ++ ("from".toList ++ (gap' ++ [])))) :=
    (List.cons.inj hrest).2
  cases gap with
  | nil =>
    have hlength := congrArg List.length htail
    simp only [List.nil_append, List.cons_append, List.length_cons, List.length_append,
      List.length_nil] at hlength
    obtain rfl : clause = [] := List.length_eq_zero_iff.mp (by omega)
    have hsecond := congrArg (·[1]?) htail
    cases hsecond
  | cons d gap =>
    obtain rfl : 'f' = d := (List.cons.inj htail).1
    exact absurd (hgap 'f' List.mem_cons_self) (by decide)

theorem Clause.not_fits_typeMark (clause : Clause) :
    ¬(all [text "type", blank, some .fewer isClauseChar, boundary, text "from", blanks]).Fits
      (spaced clause.words ++ ("from".toList ++ [' '])) := by
  have hletter : ∀ c cs, c ≠ 't' → ¬(all [text "type", blank, some .fewer isClauseChar, boundary,
      text "from", blanks]).Fits (c :: cs) := by
    rintro c cs hc ⟨word, rest, hwhole, hword, -⟩
    obtain rfl := fits_text.mp hword
    exact hc (List.cons.inj hwhole).1
  cases clause with
  | one name =>
    have hspaced : spaced (one name).words = name.chars ++ [' '] := by simp [words, spaced]
    rw [hspaced]
    exact name.not_fits_typeMark
  | named members =>
    rw [words, spaced_bracedWords]
    exact hletter '{' _ (by decide)
  | whole name =>
    rw [words, spaced_cons]
    exact hletter '*' _ (by decide)

/-- In front of a call on its line no other one starts. -/
theorem silent_call {s : Shape} (hs : s ≠ .reExport) {word : String}
    (hhead : s.head = [boundary, text word, blanks, text "(", blanks])
    (hword : ∀ c ∈ word.toList, isBlank c = false ∧ isQuote c = false) (hne : word.toList ≠ [])
    {front : List Char} (hfront : ∀ c ∈ front, isQuote c = false) (before : Option Char)
    (rest : List Char) :
    Silent s.pattern before front (word.toList ++ ['('] ++ '\'' :: rest) := by
  intro taken c left hsplit offset
  have hplain : ∀ d ∈ c :: left ++ (word.toList ++ ['(']), isQuote d = false := by
    refine List.forall_mem_append.mpr ⟨fun d hd => hfront d (hsplit ▸ List.mem_append_right _ hd), ?_⟩
    exact List.forall_mem_append.mpr ⟨fun d hd => (hword d hd).2, by decide⟩
  have hnot : ¬(all s.head).Fits (c :: left ++ (word.toList ++ ['('])) := by
    rw [hhead]
    rintro ⟨_, _, hwhole, rfl, word', _, rfl, hword', gap, _, rfl, hgap, mark, _, rfl, hmark, gap', _, rfl,
      hgap', rfl⟩
    obtain rfl := fits_text.mp hword'
    obtain rfl := fits_text.mp hmark
    have hc : isBlank c = false := by
      obtain ⟨d, tail, hchars⟩ := List.exists_cons_of_ne_nil hne
      have hhead := congrArg List.head? hwhole
      rw [hchars] at hhead
      obtain rfl : c = d := by simpa using hhead
      exact (hword c (by simp [hchars])).1
    refine absurd ?_ (ink_ne_of_cons hc left (word.toList ++ ['(']))
    rw [hwhole, List.nil_append, List.append_nil, ink_append, ink_append, ink_append, ink_append,
      ink_eq_nil.mpr hgap, ink_eq_nil.mpr hgap', List.nil_append, List.append_nil]
    rfl
  have hnone : s.pattern.matchAt? ⟨lastChar before taken, offset, _⟩ = none :=
    Shape.matchAt?_eq_none_of_not_fits hs (show isQuote '\'' = true by decide) hplain hnot rest
  rwa [List.append_assoc] at hnone

theorem lastChar_spaced {words : List (List Char)} (hne : words ≠ []) (before : Option Char) :
    lastChar before (spaced words) = some ' ' := by
  obtain ⟨init, last, rfl⟩ := List.eq_nil_or_concat words |>.resolve_left hne
  simp [spaced]

/-- A statement about another module is what its shape reads, from some place on that no match starts in
front of. -/
structure Phrase.IsRead (phrase : Phrase) (front own left : List Char) : Prop where
  front_eq : phrase.front = front ++ own
  behind_eq : phrase.behind = phrase.shape.closes ++ left
  reads : Reads phrase.shape phrase.isTyped own
  apart : ∀ before : Option Char, before.any isWordChar = false →
    (lastChar before front).any isWordChar = false
  silent : ∀ before rest, Silent phrase.shape.pattern before front (own ++ '\'' :: rest)

theorem Phrase.isRead_of_reads {phrase : Phrase} {own : List Char} (hfront : phrase.front = own)
    (hbehind : phrase.behind = phrase.shape.closes ++ [';'])
    (hreads : Reads phrase.shape phrase.isTyped own) : phrase.IsRead [] own [';'] where
  front_eq := hfront
  behind_eq := hbehind
  reads := hreads
  apart _ := id
  silent before rest taken c left hsplit := absurd hsplit (by simp)

theorem Phrase.isRead_of_call {phrase : Phrase} (words : List (List Char)) {word : String} {left : List Char}
    (hfront : phrase.front = spaced words ++ (word.toList ++ ['('])) (hwords : words ≠ [])
    (hbehind : phrase.behind = phrase.shape.closes ++ left)
    (hreads : Reads phrase.shape phrase.isTyped (word.toList ++ ['('])) (hs : phrase.shape ≠ .reExport)
    (hhead : phrase.shape.head = [boundary, text word, blanks, text "(", blanks])
    (hword : ∀ c ∈ word.toList, isBlank c = false ∧ isQuote c = false) (hne : word.toList ≠ []) :
    phrase.IsRead (spaced words) (word.toList ++ ['(']) left where
  front_eq := hfront
  behind_eq := hbehind
  reads := hreads
  apart before _ := by rw [lastChar_spaced hwords]; decide
  silent before rest := silent_call hs hhead hword hne
    (fun c hc => (isPlain_of_mem_front phrase c (hfront ▸ List.mem_append_left _ hc)).2) before rest

theorem Phrase.exists_isRead {phrase : Phrase} (h : phrase.IsLegible) :
    ∃ front own left, phrase.IsRead front own left := by
  cases phrase with
  | importNames clause =>
    obtain ⟨c, mid, hspaced, hc⟩ := clause.exists_spaced_words
    have hclause : ∀ d ∈ spaced clause.words, isClauseChar d = true :=
      forall_mem_spaced (forall_mem_words_of_clause
        (fun name hname d hd => isClauseChar_of_isNameChar (h name hname d hd)) (by decide) (by decide)
        (by decide)) (by decide)
    have hfront := front_importNames clause
    have hmark : ¬(all [text "type", blank, some .fewer isClauseChar, boundary, text "from",
        blanks]).Fits (spaced clause.words ++ ("from".toList ++ [' '])) := clause.not_fits_typeMark
    rw [hspaced] at hclause hfront hmark
    exact ⟨[], _, [';'], isRead_of_reads hfront rfl (reads_importNames hclause hc hmark)⟩
  | importTypes members =>
    have hclause : ∀ d ∈ spaced (bracedWords members), isClauseChar d = true :=
      forall_mem_spaced (forall_mem_bracedWords
        (fun name hname d hd => isClauseChar_of_isNameChar (h name hname d hd)) (by decide) (by decide))
        (by decide)
    have hfront := front_importTypes members
    rw [spaced_bracedWords] at hclause hfront
    exact ⟨[], _, [';'], isRead_of_reads hfront rfl (reads_importTypes hclause (by decide))⟩
  | importEffects => exact ⟨[], _, [';'], isRead_of_reads rfl rfl reads_sideEffect⟩
  | exportAll => exact ⟨[], _, [';'], isRead_of_reads rfl rfl reads_exportAll⟩
  | exportNames members =>
    have hfront := front_exportNames members
    rw [spaced_bracedWords_append] at hfront
    exact ⟨[], _, [';'], isRead_of_reads hfront rfl (reads_exportNames (notMem_members members))⟩
  | exportTypes members =>
    have hfront := front_exportTypes members
    rw [spaced_bracedWords_append] at hfront
    exact ⟨[], _, [';'], isRead_of_reads hfront rfl (reads_exportTypes (notMem_members members))⟩
  | importCall name =>
    exact ⟨_, _, [')', ';'], isRead_of_call (constantWords name) rfl (by simp [constantWords]) rfl
      reads_dynamic (by simp [shape]) rfl (by decide) (by decide)⟩
  | requireCall name =>
    exact ⟨_, _, [';'], isRead_of_call (constantWords name) rfl (by simp [constantWords]) rfl
      reads_require (by simp [shape]) rfl (by decide) (by decide)⟩
  | importRequire name =>
    exact ⟨_, _, [';'], isRead_of_call ["import".toList, name.chars, ['=']] rfl (by simp) rfl
      reads_require (by simp [shape]) rfl (by decide) (by decide)⟩

end ScopedCheck.Import
