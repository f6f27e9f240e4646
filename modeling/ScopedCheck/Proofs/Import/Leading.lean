import ScopedCheck.Proofs.Import.Shape
/-! # How masking comes to a place

Masking goes from the start of a source to its end, and what it takes next is decided by what comes behind.
If it comes to a quote with one text behind it and with another one, it comes there with the same pieces:
what starts in front of the quote ends there before it is seen. -/

namespace ScopedCheck.Import

open Text

/-! ## One step -/

namespace Opening

/-- The number of characters that belong to what starts at a character, behind that one. -/
def length : Opening → Nat
  | plain => 0
  | literal length => length
  | lineComment length => length
  | blockComment length => length

/-- What is left of the characters that belong to it. -/
def pieces (c : Char) (cs : List Char) : Opening → List Piece
  | plain => [.code c]
  | literal length => [.literal (c :: cs.take length)]
  | lineComment _ => []
  | blockComment length => commentTrace (cs.take length)

/-- What is behind when it has been taken. -/
def past (b : Behind) (c : Char) : Opening → Behind
  | plain => b.afterChar c
  | literal _ => b.afterLiteral c
  | lineComment _ => b
  | blockComment _ => { b with lastRaw := ' ' }

end Opening

theorem maskFrom_cons (b : Behind) (c : Char) (cs : List Char) :
    maskFrom b (c :: cs) = (openingAt b c cs).pieces c cs
      ++ maskFrom ((openingAt b c cs).past b c) (cs.drop (openingAt b c cs).length) := by
  rw [maskFrom]
  cases openingAt b c cs <;> rfl

/-- Masking leads to a place: the pieces up to there, what is behind there, and what is left. -/
inductive Leads : Behind → List Char → List Piece → Behind → List Char → Prop
  | here (b : Behind) (rest : List Char) : Leads b rest [] b rest
  | step {b b' : Behind} {c : Char} {cs rest : List Char} {pieces : List Piece}
      (hrest : Leads ((openingAt b c cs).past b c) (cs.drop (openingAt b c cs).length) pieces b' rest) :
      Leads b (c :: cs) ((openingAt b c cs).pieces c cs ++ pieces) b' rest

theorem Leads.of_opening {b b' : Behind} {c : Char} {cs rest : List Char} {pieces : List Piece}
    {opening : Opening} (h : openingAt b c cs = opening)
    (hrest : Leads (opening.past b c) (cs.drop opening.length) pieces b' rest) :
    Leads b (c :: cs) (opening.pieces c cs ++ pieces) b' rest := by
  subst h
  exact .step hrest

theorem Leads.maskFrom_eq {b b' : Behind} {cs rest : List Char} {pieces : List Piece}
    (h : Leads b cs pieces b' rest) : maskFrom b cs = pieces ++ maskFrom b' rest := by
  induction h with
  | here b rest => rfl
  | step _ ih => rw [maskFrom_cons, ih, List.append_assoc]

theorem Leads.length_le {b b' : Behind} {cs rest : List Char} {pieces : List Piece}
    (h : Leads b cs pieces b' rest) : rest.length ≤ cs.length := by
  induction h with
  | here b rest => exact Nat.le_refl _
  | step _ ih =>
    rw [List.length_drop] at ih
    rw [List.length_cons]
    omega

theorem Leads.of_same {b b' : Behind} {rest : List Char} {pieces : List Piece}
    (h : Leads b rest pieces b' rest) : pieces = [] ∧ b' = b := by
  cases h with
  | here => exact ⟨rfl, rfl⟩
  | step hrest =>
    have hlength := hrest.length_le
    rw [List.length_drop, List.length_cons] at hlength
    omega

theorem Leads.of_cons {b b' : Behind} {c : Char} {cs rest : List Char} {pieces : List Piece}
    (h : Leads b (c :: cs) pieces b' rest) (hne : rest ≠ c :: cs) :
    ∃ later, pieces = (openingAt b c cs).pieces c cs ++ later ∧
      Leads ((openingAt b c cs).past b c) (cs.drop (openingAt b c cs).length) later b' rest := by
  cases h with
  | here => exact absurd rfl hne
  | step hrest => exact ⟨_, rfl, hrest⟩

theorem Opening.pieces_append {opening : Opening} {cs : List Char} (h : opening.length ≤ cs.length)
    (c : Char) (rest : List Char) : opening.pieces c (cs ++ rest) = opening.pieces c cs := by
  have htake : (cs ++ rest).take opening.length = cs.take opening.length :=
    List.take_append_of_le_length h
  cases opening with
  | literal n => exact congrArg (fun taken => [Piece.literal (c :: taken)]) htake
  | blockComment n => exact congrArg commentTrace htake
  | _ => rfl

/-! ## What ends in front of a quote -/

section Quote

variable {quote : Char} {cs rest rest' : List Char}

theorem ne_of_isQuote (h : isQuote quote = true) :
    quote ≠ '\\' ∧ quote ≠ '\n' ∧ quote ≠ '/' ∧ quote ≠ '*' ∧ quote.isAlpha = false := by
  simp only [isQuote, Bool.or_eq_true, beq_iff_eq] at h
  rcases h with rfl | rfl <;> decide

theorem stringLength_cons {own c : Char} (h : c ≠ '\\') (cs : List Char) :
    stringLength own (c :: cs)
      = if c = '\n' && own != '`' then 0 else if c = own then 1 else stringLength own cs + 1 :=
  stringLength.eq_4 own c cs (fun hc => absurd hc h) fun _ _ hc => absurd hc h

theorem regexLength?_cons {c : Char} (h : c ≠ '\\') (inClass : Bool) (cs : List Char) :
    regexLength? inClass (c :: cs)
      = if c = '\n' then none
        else if c = '/' && !inClass then some ((cs.takeWhile Char.isAlpha).length + 1)
        else (regexLength? (if c = '[' then true else if c = ']' then false else inClass) cs).map (· + 1) :=
  regexLength?.eq_4 inClass c cs (fun hc => absurd hc h) fun _ _ hc => absurd hc h

/-- Behind a backslash one more character is taken. -/
theorem ne_backslash {c : Char} {cs : List Char} (h : c = '\\' → cs = [] → False)
    (h' : ∀ d tail, c = '\\' → cs = d :: tail → False) : c ≠ '\\' := by
  rintro rfl
  cases cs with
  | nil => exact h rfl rfl
  | cons d tail => exact h' d tail rfl rfl

theorem stringLength_congr (hquote : isQuote quote = true) {own : Char}
    (h : stringLength own (cs ++ quote :: rest) ≤ cs.length) :
    stringLength own (cs ++ quote :: rest') = stringLength own (cs ++ quote :: rest) := by
  obtain ⟨hback, hline, -⟩ := ne_of_isQuote hquote
  induction cs using stringLength.induct own with
  | case1 =>
    simp only [List.nil_append, stringLength_cons hback, hline, decide_false, Bool.false_and,
      Bool.false_eq_true, if_false, List.length_nil, Nat.le_zero] at h
    split at h <;> cases h
  | case2 =>
    simp only [List.cons_append, List.nil_append, stringLength, List.length_singleton] at h
    omega
  | case3 d cs ih =>
    simp only [List.cons_append, stringLength, List.length_cons] at h ⊢
    rw [ih (by omega)]
  | case4 d cs h₁ h₂ hstop =>
    have hd := ne_backslash h₁ h₂
    rw [List.cons_append, List.cons_append, stringLength_cons hd, stringLength_cons hd, if_pos hstop, if_pos hstop]
  | case5 cs h₁ h₂ hstop =>
    have hd := ne_backslash h₁ h₂
    rw [List.cons_append, List.cons_append, stringLength_cons hd, stringLength_cons hd, if_neg hstop,
      if_pos rfl, if_neg hstop, if_pos rfl]
  | case6 d cs h₁ h₂ hstop hown ih =>
    have hd := ne_backslash h₁ h₂
    rw [List.cons_append, stringLength_cons hd, if_neg hstop, if_neg hown, List.length_cons] at h
    rw [List.cons_append, List.cons_append, stringLength_cons hd, stringLength_cons hd, if_neg hstop,
      if_neg hown, if_neg hstop, if_neg hown, ih (by omega)]

theorem regexLength?_congr (hquote : isQuote quote = true) {inClass : Bool} {n : Nat} (hn : n ≤ cs.length)
    (h : regexLength? inClass (cs ++ quote :: rest) = some n) :
    regexLength? inClass (cs ++ quote :: rest') = some n := by
  obtain ⟨hback, hline, hslash, -, halpha⟩ := ne_of_isQuote hquote
  induction inClass, cs using regexLength?.induct generalizing n with
  | case1 inClass =>
    simp only [List.nil_append, regexLength?_cons hback, hline, hslash, decide_false, Bool.false_and,
      Bool.false_eq_true, if_false, Option.map_eq_some_iff] at h
    obtain ⟨m, -, rfl⟩ := h
    cases hn
  | case2 inClass =>
    simp only [List.cons_append, List.nil_append, regexLength?, Option.map_eq_some_iff] at h
    obtain ⟨m, -, rfl⟩ := h
    rw [List.length_singleton] at hn
    omega
  | case3 inClass d cs ih =>
    simp only [List.cons_append, regexLength?, Option.map_eq_some_iff, List.length_cons] at h hn ⊢
    obtain ⟨m, hm, rfl⟩ := h
    exact ⟨m, ih (by omega) hm, rfl⟩
  | case4 inClass cs h₁ h₂ =>
    rw [List.cons_append, regexLength?_cons (by decide), if_pos rfl] at h
    cases h
  | case5 inClass d cs h₁ h₂ hd hstop =>
    have hback := ne_backslash h₁ h₂
    have hflags : ∀ rest, (cs ++ quote :: rest).takeWhile Char.isAlpha = cs.takeWhile Char.isAlpha := by
      intro rest
      rw [List.takeWhile_append, List.takeWhile_cons_of_neg (by simp [halpha]), List.append_nil]
      split
      · rename_i hall
        exact ((List.takeWhile_prefix _).eq_of_length hall).symm
      · rfl
    rw [List.cons_append, regexLength?_cons hback, if_neg hd, if_pos hstop, hflags] at h ⊢
    exact h
  | case6 inClass d cs h₁ h₂ hd hstop ih =>
    have hback := ne_backslash h₁ h₂
    rw [List.cons_append, regexLength?_cons hback, if_neg hd, if_neg hstop, Option.map_eq_some_iff] at h ⊢
    obtain ⟨m, hm, rfl⟩ := h
    rw [List.length_cons] at hn
    exact ⟨m, ih (by omega) hm, rfl⟩

theorem commentLength_congr (hquote : isQuote quote = true)
    (h : commentLength (cs ++ quote :: rest) ≤ cs.length) :
    commentLength (cs ++ quote :: rest') = commentLength (cs ++ quote :: rest) := by
  obtain ⟨-, -, hslash, hstar, -⟩ := ne_of_isQuote hquote
  induction cs using commentLength.induct with
  | case1 =>
    rw [List.nil_append, commentLength.eq_3 _ _ fun _ h => absurd h hstar] at h
    cases h
  | case2 tail => rfl
  | case3 d cs hopen ih =>
    have hopen : ∀ rest tail, d = '*' → cs ++ quote :: rest = '/' :: tail → False := by
      intro rest tail hd htail
      cases cs with
      | nil => exact hslash (List.cons.inj htail).1
      | cons c cs =>
        obtain rfl : c = '/' := (List.cons.inj htail).1
        exact hopen cs hd rfl
    rw [List.cons_append, commentLength.eq_3 _ _ (hopen rest), List.length_cons] at h
    rw [List.cons_append, List.cons_append, commentLength.eq_3 _ _ (hopen rest),
      commentLength.eq_3 _ _ (hopen rest'), ih (by omega)]

theorem length_takeWhile_congr (hquote : isQuote quote = true)
    (h : ((cs ++ quote :: rest).takeWhile (· != '\n')).length ≤ cs.length) :
    (cs ++ quote :: rest').takeWhile (· != '\n') = (cs ++ quote :: rest).takeWhile (· != '\n') := by
  obtain ⟨-, hline, -⟩ := ne_of_isQuote hquote
  induction cs with
  | nil => simp [hline] at h
  | cons c cs ih =>
    by_cases hc : c = '\n'
    · subst hc
      rfl
    · have htake : ∀ cs : List Char, (c :: cs).takeWhile (· != '\n') = c :: cs.takeWhile (· != '\n') :=
        fun cs => List.takeWhile_cons_of_pos (bne_iff_ne.mpr hc)
      rw [List.cons_append, htake, List.length_cons, List.length_cons] at h
      rw [List.cons_append, List.cons_append, htake, htake, ih (by omega)]

/-- A slash that starts no comment. -/
theorem openingAt_slash {b : Behind} (hslash : cs.head? ≠ some '/') (hstar : cs.head? ≠ some '*') :
    openingAt b '/' cs
      = if b.allowsRegex then ((regexLength? false cs).map Opening.literal).getD .plain else .plain := by
  unfold openingAt
  rw [if_neg (by decide), if_pos rfl]
  split
  · exact absurd rfl hslash
  · exact absurd rfl hstar
  · cases regexLength? false cs <;> rfl

theorem openingAt_string {b : Behind} {c : Char} (h : (c = '"' || c = '\'' || c = '`') = true) :
    openingAt b c cs = .literal (stringLength c cs) := if_pos h

theorem openingAt_plain {b : Behind} {c : Char} (h : ¬(c = '"' || c = '\'' || c = '`') = true)
    (hc : c ≠ '/') : openingAt b c cs = .plain := by
  unfold openingAt
  rw [if_neg h, if_neg hc]

/-- What starts in front of a quote and ends there is the same whatever stands behind the quote. -/
theorem openingAt_congr (hquote : isQuote quote = true) {b : Behind} {c : Char}
    (h : (openingAt b c (cs ++ quote :: rest)).length ≤ cs.length)
    (h' : (openingAt b c (cs ++ quote :: rest')).length ≤ cs.length) :
    openingAt b c (cs ++ quote :: rest) = openingAt b c (cs ++ quote :: rest') := by
  obtain ⟨-, -, hslash, hstar, -⟩ := ne_of_isQuote hquote
  by_cases hstring : (c = '"' || c = '\'' || c = '`') = true
  · rw [openingAt_string hstring] at h ⊢
    rw [openingAt_string hstring]
    exact congrArg Opening.literal (stringLength_congr hquote h).symm
  · by_cases hc : c = '/'
    · subst hc
      have hregex : (cs ++ quote :: rest).head? ≠ some '/' → (cs ++ quote :: rest).head? ≠ some '*' →
          openingAt b '/' (cs ++ quote :: rest) = openingAt b '/' (cs ++ quote :: rest') := by
        intro h₁ h₂
        have hhead : (cs ++ quote :: rest').head? = (cs ++ quote :: rest).head? := by
          cases cs <;> rfl
        rw [openingAt_slash h₁ h₂] at h ⊢
        rw [openingAt_slash (hhead ▸ h₁) (hhead ▸ h₂)] at h' ⊢
        by_cases hallows : b.allowsRegex = true
        · rw [if_pos hallows] at h h' ⊢
          rw [if_pos hallows]
          cases hlength : regexLength? false (cs ++ quote :: rest) with
          | some n =>
            rw [hlength] at h
            rw [regexLength?_congr hquote (show n ≤ cs.length from h) hlength]
          | none =>
            cases hlength' : regexLength? false (cs ++ quote :: rest') with
            | none => rfl
            | some n =>
              rw [hlength'] at h'
              rw [regexLength?_congr hquote (show n ≤ cs.length from h') hlength'] at hlength
              cases hlength
        · rw [if_neg hallows, if_neg hallows]
      cases cs with
      | nil => exact hregex (by simpa using hslash) (by simpa using hstar)
      | cons d cs =>
        by_cases hline : d = '/'
        · subst hline
          exact congrArg (fun taken => Opening.lineComment taken.length)
            (length_takeWhile_congr hquote (show _ ≤ ('/' :: cs).length from h)).symm
        · by_cases hblock : d = '*'
          · subst hblock
            have hlength : commentLength (cs ++ quote :: rest) + 1 ≤ cs.length + 1 := h
            exact congrArg (fun length => Opening.blockComment (length + 1))
              (commentLength_congr hquote (by omega)).symm
          · exact hregex (by simpa using hline) (by simpa using hblock)
    · rw [openingAt_plain hstring hc, openingAt_plain hstring hc]

/-- Masking comes to a quote by the same pieces whatever stands behind it. -/
theorem Leads.unique (hquote : isQuote quote = true) {b b₁ b₂ : Behind} {front front' : List Piece}
    (h : Leads b (cs ++ quote :: rest) front b₁ (quote :: rest))
    (h' : Leads b (cs ++ quote :: rest') front' b₂ (quote :: rest')) : front = front' ∧ b₁ = b₂ := by
  induction hn : cs.length using Nat.strongRecOn generalizing cs b front front' with
  | ind n ih =>
    subst hn
    cases cs with
    | nil =>
      obtain ⟨rfl, rfl⟩ := h.of_same
      obtain ⟨rfl, rfl⟩ := h'.of_same
      exact ⟨rfl, rfl⟩
    | cons c cs =>
      have hbehind : ∀ {rest : List Char} {front : List Piece} {b' : Behind},
          Leads b (c :: (cs ++ quote :: rest)) front b' (quote :: rest) →
          ∃ later, front = (openingAt b c (cs ++ quote :: rest)).pieces c (cs ++ quote :: rest) ++ later ∧
            (openingAt b c (cs ++ quote :: rest)).length ≤ cs.length ∧
            Leads ((openingAt b c (cs ++ quote :: rest)).past b c)
              (cs.drop (openingAt b c (cs ++ quote :: rest)).length ++ quote :: rest) later b' (quote :: rest) := by
        intro rest front b' h
        obtain ⟨later, hfront, hlater⟩ := h.of_cons fun hsame => by
          have := congrArg List.length hsame
          simp only [List.length_append, List.length_cons] at this
          omega
        have hlength := hlater.length_le
        simp only [List.length_drop, List.length_append, List.length_cons] at hlength
        have hends : (openingAt b c (cs ++ quote :: rest)).length ≤ cs.length := by omega
        exact ⟨later, hfront, hends, List.drop_append_of_le_length hends ▸ hlater⟩
      obtain ⟨later, rfl, hends, hlater⟩ := hbehind h
      obtain ⟨later', rfl, hends', hlater'⟩ := hbehind h'
      have hopening := openingAt_congr hquote hends hends'
      rw [← hopening] at hlater' ⊢
      obtain ⟨rfl, rfl⟩ := ih _ (by rw [List.length_drop, List.length_cons]; omega) hlater hlater' rfl
      exact ⟨by rw [Opening.pieces_append hends, Opening.pieces_append hends], rfl⟩

end Quote

/-- Masking leads past plain characters. -/
theorem leads_of_isPlain {cs : List Char} (h : ∀ c ∈ cs, isPlain c = true) (b : Behind) (rest : List Char) :
    Leads b (cs ++ rest) (codeOf cs) (cs.foldl Behind.afterChar b) rest := by
  induction cs generalizing b with
  | nil => exact .here b rest
  | cons c cs ih =>
    obtain ⟨hc, hcs⟩ := List.forall_mem_cons.mp h
    simp only [isPlain, Bool.not_eq_true', Bool.or_eq_false_iff, beq_eq_false_iff_ne] at hc
    obtain ⟨⟨⟨h₁, h₂⟩, h₃⟩, h₄⟩ := hc
    have hopening : openingAt b c (cs ++ rest) = .plain :=
      openingAt_plain (by simp [h₁, h₂, h₃]) h₄
    exact .of_opening hopening (ih hcs (b.afterChar c))

end ScopedCheck.Import
