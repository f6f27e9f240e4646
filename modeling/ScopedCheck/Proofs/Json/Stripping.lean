import Mathlib.Data.List.TakeWhile
import ScopedCheck.Proofs.Json.Grammar
import ScopedCheck.Proofs.Json.ValueText
/-! # What dropping comments and commas leaves

Neither pass changes a token, but for the commas that the second one drops. The first pass turns the
fillers between the tokens into white space, the second one drops the commas in front of closing marks. -/

namespace ScopedCheck.Json.Grammar

open Lexeme Commented

/-! ## How tokens start -/

namespace Number

theorem exists_cons (n : Number) : ∃ c cs, n.chars = c :: cs ∧ (c = '-' ∨ c.isDigit = true) := by
  obtain ⟨c, tail, hwhole, hc⟩ := n.isWhole.1.exists_cons
  cases hnegative : n.isNegative with
  | true => exact ⟨'-', n.sizeChars, by simp [chars, hnegative], .inl rfl⟩
  | false =>
      exact ⟨c, tail ++ (pointed n.fraction ++ n.powerChars),
        by simp [chars, sizeChars, hnegative, hwhole], .inr hc⟩

theorem mem_chars {n : Number} {c : Char} (hc : c ∈ n.chars) :
    c ∈ ['-', '+', '.', 'e', 'E'] ∨ c.isDigit = true := by
  simp only [chars, sizeChars, List.mem_append] at hc
  rcases hc with hsign | hwhole | hfraction | hpower
  · split at hsign
    · exact .inl (by simp [List.mem_singleton.mp hsign])
    · cases hsign
  · exact .inr (n.isWhole.1.2 c hwhole)
  · cases hcase : n.fraction with
    | none => simp [hcase, pointed] at hfraction
    | some digits =>
        rw [hcase, pointed, List.mem_cons] at hfraction
        rcases hfraction with rfl | hmem
        · exact .inl (by simp)
        · exact .inr ((n.areDigits digits hcase).2 c hmem)
  · unfold powerChars at hpower
    split at hpower
    · cases hpower
    · rename_i power _
      rw [Power.chars, List.mem_cons, List.mem_append] at hpower
      rcases hpower with rfl | hsign | hmem
      · unfold Power.letter
        split <;> exact .inl (by simp)
      · unfold Power.signChars at hsign
        split at hsign
        · cases hsign
        · rename_i isNegative _
          obtain rfl := List.mem_singleton.mp hsign
          cases isNegative <;> exact .inl (by simp [signChar])
      · exact .inr (power.areDigits.2 c hmem)

end Number

theorem Token.eq_of_isComma {t : Token} (h : t.isComma = true) : t = .mark .comma := by
  unfold isComma at h
  split at h
  · rfl
  · cases h

/-- Every token starts with a visible character, which is a closing one just when the token is. -/
theorem Token.exists_cons (t : Token) : ∃ c cs, t.chars = c :: cs ∧ Text.isBlank c = false ∧
    c ≠ byteOrderMark ∧ ((c = '\x7d' ∨ c = ']') ↔ t.closes = true) := by
  cases t with
  | mark m => cases m <;> exact ⟨_, _, rfl, by decide, by decide, by decide⟩
  | word w => cases w <;> exact ⟨_, _, rfl, by decide, by decide, by decide⟩
  | string parts => exact ⟨_, _, rfl, by decide, by decide, by simp [Token.closes]⟩
  | number n =>
      obtain ⟨c, cs, hcs, hc⟩ := n.exists_cons
      refine ⟨c, cs, hcs, ?_⟩
      rcases hc with rfl | hc
      · exact ⟨by decide, by decide, by simp [Token.closes]⟩
      · refine ⟨isBlank_of_isDigit hc, ne_of_isDigit hc rfl, ?_⟩
        simp [Token.closes, ne_of_isDigit hc (d := '\x7d') rfl, ne_of_isDigit hc (d := ']') rfl]

/-! ## What tokens pass -/

theorem Number.isCode (n : Number) : ∀ c ∈ n.chars, IsCode c := by
  intro c hc
  rcases n.mem_chars hc with hmem | hdigit
  · have hall : ∀ d ∈ ['-', '+', '.', 'e', 'E'], IsCode d := by simp [IsCode]
    exact hall c hmem
  · exact ⟨ne_of_isDigit hdigit rfl, ne_of_isDigit hdigit rfl, ne_of_isDigit hdigit rfl⟩

theorem IsHexDigit.ne {c : Char} (h : IsHexDigit c) : c ≠ '"' ∧ c ≠ '\\' := by
  constructor <;> (rintro rfl; revert h; simp [IsHexDigit])

theorem StringPart.passes {f : List Char → List Char}
    (hplain : ∀ c, c ≠ '"' → c ≠ '\\' → Passes f [c]) (hescape : ∀ c, Passes f ['\\', c])
    (part : StringPart) : Passes f part.chars := by
  cases part with
  | plain c h => exact hplain c h.1 h.2.1
  | short letter h => exact hescape letter
  | unit a b c d h =>
      refine (hescape 'u').append (Passes.of_singletons fun digit hdigit => ?_)
      exact hplain digit (h digit hdigit).ne.1 (h digit hdigit).ne.2

theorem passes_parts {f : List Char → List Char}
    (hplain : ∀ c, c ≠ '"' → c ≠ '\\' → Passes f [c]) (hescape : ∀ c, Passes f ['\\', c])
    (parts : List StringPart) : Passes f (parts.flatMap StringPart.chars) := by
  induction parts with
  | nil => exact passes_nil f
  | cons part parts ih =>
      rw [List.flatMap_cons]
      exact (part.passes hplain hescape).append ih

theorem Token.passes_comments (t : Token) : Passes (stripComments .code) t.chars := by
  have hcode : ∀ {cs : List Char}, (∀ c ∈ cs, c ≠ '/' ∧ c ≠ '"') → Passes (stripComments .code) cs :=
    fun h => Passes.of_singletons fun c hc rest => by
      rw [List.singleton_append, stripComments_code (h c hc).1, if_neg (h c hc).2]
      rfl
  cases t with
  | mark m => cases m <;> exact hcode (by simp [Token.chars, Mark.char])
  | word w => cases w <;> exact hcode (by simp [Token.chars, Word.letters])
  | number n => exact hcode fun c hc => ⟨(n.isCode c hc).1, (n.isCode c hc).2.1⟩
  | string parts =>
      intro rest
      have hinside : Passes (stripComments .string) (parts.flatMap StringPart.chars) := by
        refine passes_parts (fun c hquote hslash rest => ?_) (fun c rest => ?_) parts
        · simp [stripComments, hquote, hslash]
        · simp [stripComments]
      rw [Token.chars, List.cons_append, stripComments_code (by decide), if_pos rfl, List.append_assoc,
        hinside]
      simp [stripComments]

theorem Token.passes_commas {t : Token} (h : t.isComma = false) :
    Passes (dropTrailingCommas .code) t.chars := by
  have hcode : ∀ {cs : List Char}, (∀ c ∈ cs, IsCode c) → Passes (dropTrailingCommas .code) cs :=
    fun h => Passes.of_singletons fun c hc => (IsPrinted.passes_code (h c hc)).2
  cases t with
  | mark m =>
      cases m with
      | comma => cases h
      | _ => exact hcode (by simp [Token.chars, Mark.char, IsCode])
  | word w => cases w <;> exact hcode (by simp [Token.chars, Word.letters, IsCode])
  | number n => exact hcode n.isCode
  | string parts =>
      intro rest
      have hinside : Passes (dropTrailingCommas .string) (parts.flatMap StringPart.chars) := by
        refine passes_parts (fun c hquote hslash rest => ?_) (fun c rest => ?_) parts
        · simp [dropTrailingCommas, hquote, hslash]
        · simp [dropTrailingCommas]
      rw [Token.chars, List.cons_append, List.append_assoc, dropTrailingCommas]
      simp [hinside _, dropTrailingCommas]

/-! ## Dropping comments -/

theorem isWhite_nil : IsWhite [] := by simp [IsWhite]

theorem IsWhite.append {front behind : List Char} (hfront : IsWhite front) (hbehind : IsWhite behind) :
    IsWhite (front ++ behind) := by
  intro c hc
  exact (List.mem_append.mp hc).elim (hfront c) (hbehind c)

theorem IsWhite.isCode {cs : List Char} (h : IsWhite cs) : ∀ c ∈ cs, IsCode c := by
  intro c hc
  rcases h c hc with rfl | rfl | rfl | rfl <;> simp [IsCode]

theorem IsWhite.passes_comments {cs : List Char} (h : IsWhite cs) : Passes (stripComments .code) cs :=
  Passes.of_singletons fun c hc => (IsPrinted.passes_code (h.isCode c hc)).1

theorem IsWhite.passes_commas {cs : List Char} (h : IsWhite cs) : Passes (dropTrailingCommas .code) cs :=
  Passes.of_singletons fun c hc => (IsPrinted.passes_code (h.isCode c hc)).2

/-- A line comment is dropped up to the end of its line. -/
theorem stripComments_line {body : List Char} (h : '\n' ∉ body) (rest : List Char) :
    stripComments .lineComment (body ++ '\n' :: rest) = '\n' :: stripComments .code rest := by
  induction body with
  | nil => simp [stripComments]
  | cons c body ih =>
      rw [List.mem_cons, not_or] at h
      rw [List.cons_append, stripComments, if_neg (Ne.symm h.1), ih h.2]

/-- Of a block comment the ends of lines are left. -/
theorem stripComments_block {body : List Char} (h : ¬['*', '/'] <:+: body) (rest : List Char) :
    stripComments .blockComment (body ++ '*' :: '/' :: rest) =
      body.filter (· = '\n') ++ stripComments .code rest := by
  induction body with
  | nil => simp [stripComments]
  | cons c body ih =>
      have hbody := ih fun hends => h (hends.trans (List.suffix_cons c body).isInfix)
      have hstep : stripComments .blockComment (c :: (body ++ '*' :: '/' :: rest)) =
          if c = '\n' then c :: stripComments .blockComment (body ++ '*' :: '/' :: rest)
          else stripComments .blockComment (body ++ '*' :: '/' :: rest) := by
        rw [stripComments]
        -- a star of the body has no slash behind it
        rintro cs rfl hcs
        cases body with
        | nil => exact absurd (List.cons.inj hcs).1 (by decide)
        | cons d body =>
            obtain ⟨rfl, -⟩ := List.cons.inj hcs
            exact h ⟨[], body, rfl⟩
      rw [List.cons_append, hstep, hbody]
      by_cases hline : c = '\n' <;> simp [hline]

/-- A filler leaves white space. -/
theorem Filler.exists_white (f : Filler) : ∃ white, IsWhite white ∧
    ∀ rest, stripComments .code (f.chars ++ rest) = white ++ stripComments .code rest := by
  cases f with
  | white cs h => exact ⟨cs, h, h.passes_comments⟩
  | line body h =>
      refine ⟨['\n'], by simp [IsWhite], fun rest => ?_⟩
      have hopen : stripComments .code ('/' :: '/' :: (body ++ '\n' :: rest)) =
          stripComments .lineComment (body ++ '\n' :: rest) := by rw [stripComments]
      simpa [Filler.chars] using hopen.trans (stripComments_line h rest)
  | block body h =>
      refine ⟨body.filter (· = '\n'), fun c hc => ?_, fun rest => ?_⟩
      · simp [of_decide_eq_true (List.mem_filter.mp hc).2]
      · have hopen : stripComments .code ('/' :: '*' :: (body ++ '*' :: '/' :: rest)) =
            stripComments .blockComment (body ++ '*' :: '/' :: rest) := by rw [stripComments]
        simpa [Filler.chars] using hopen.trans (stripComments_block h rest)

theorem IsFilled.exists_white {gap : List Char} (h : IsFilled gap) : ∃ white, IsWhite white ∧
    ∀ rest, stripComments .code (gap ++ rest) = white ++ stripComments .code rest := by
  obtain ⟨fillers, rfl⟩ := h
  induction fillers with
  | nil => exact ⟨[], isWhite_nil, fun _ => rfl⟩
  | cons f fillers ih =>
      obtain ⟨first, hfirst, hstrip⟩ := f.exists_white
      obtain ⟨others, hothers, hrest⟩ := ih
      refine ⟨first ++ others, hfirst.append hothers, fun rest => ?_⟩
      rw [List.flatMap_cons, List.append_assoc, hstrip, hrest, List.append_assoc]

/-- Without its comments a decoration has white space between the same tokens. -/
theorem Spaced.stripComments {tokens : List Token} {cs : List Char} (h : Spaced IsFilled tokens cs) :
    Spaced IsWhite tokens (stripComments .code cs) := by
  induction h with
  | nil hgap =>
      obtain ⟨white, hwhite, hstrip⟩ := hgap.exists_white
      have hall := hstrip []
      rw [List.append_nil] at hall
      rw [hall, Commented.stripComments, List.append_nil]
      exact .nil hwhite
  | cons hgap _ ih =>
      obtain ⟨white, hwhite, hstrip⟩ := hgap.exists_white
      rw [hstrip, Token.passes_comments]
      exact .cons hwhite ih

/-- Where there is only white space between the tokens, nothing is dropped as a comment. -/
theorem Spaced.stripComments_eq {tokens : List Token} {cs : List Char} (h : Spaced IsWhite tokens cs) :
    Commented.stripComments .code cs = cs := by
  induction h with
  | nil hgap => simpa [Commented.stripComments] using hgap.passes_comments []
  | cons hgap _ ih => rw [hgap.passes_comments, Token.passes_comments, ih]

/-! ## Dropping commas -/

/-- The tokens without the commas that stand in front of closing marks. -/
def closeUp : List Token → List Token
  | [] => []
  | t :: tokens =>
      if t.isComma && tokens.head?.any Token.closes then closeUp tokens else t :: closeUp tokens

theorem length_closeUp_le (tokens : List Token) : (closeUp tokens).length ≤ tokens.length := by
  induction tokens with
  | nil => exact Nat.le_refl _
  | cons t tokens ih =>
      rw [closeUp]
      split
      · exact Nat.le_succ_of_le ih
      · exact Nat.succ_le_succ ih

/-- If nothing is dropped then no comma is in front of a closing mark, here and further on. -/
theorem of_closeUp_eq {t : Token} {tokens : List Token} (h : closeUp (t :: tokens) = t :: tokens) :
    (t.isComma && tokens.head?.any Token.closes) = false ∧ closeUp tokens = tokens := by
  rw [closeUp] at h
  split at h
  · have hle := length_closeUp_le tokens
    rw [h, List.length_cons] at hle
    omega
  · rename_i hkept
    exact ⟨Bool.eq_false_iff.mpr hkept, (List.cons.inj h).2⟩

theorem Spaced.white_append {tokens : List Token} {cs white : List Char} (hwhite : IsWhite white)
    (h : Spaced IsWhite tokens cs) : Spaced IsWhite tokens (white ++ cs) := by
  cases h with
  | nil hgap => exact .nil (hwhite.append hgap)
  | cons hgap rest =>
      rw [← List.append_assoc]
      exact .cons (hwhite.append hgap) rest

/-- What stands first behind white space closes a container just when the first token does. -/
theorem Spaced.closesNext_eq {tokens : List Token} {cs : List Char} (h : Spaced IsWhite tokens cs) :
    closesNext cs = tokens.head?.any Token.closes := by
  have hblank : ∀ {gap : List Char}, IsWhite gap → ∀ c ∈ gap, Text.isBlank c = true := by
    intro gap hgap c hc
    rcases hgap c hc with rfl | rfl | rfl | rfl <;> decide
  cases h with
  | nil hgap =>
      rw [closesNext, List.dropWhile_eq_nil_iff.mpr (hblank hgap)]
      rfl
  | @cons gap cs t tokens hgap _ =>
      obtain ⟨c, tail, hchars, hvisible, -, hcloses⟩ := t.exists_cons
      rw [closesNext, List.dropWhile_append_of_pos (hblank hgap), hchars, List.cons_append,
        List.dropWhile_cons_of_neg (by simp [hvisible]), List.head?_cons, Option.any_some]
      split
      · rename_i heq
        exact (hcloses.mp (.inl (List.cons.inj heq).1)).symm
      · rename_i heq
        exact (hcloses.mp (.inr (List.cons.inj heq).1)).symm
      · rename_i hobject harray
        refine (Bool.eq_false_iff.mpr fun h => ?_).symm
        rcases hcloses.mpr h with rfl | rfl
        · exact hobject _ rfl
        · exact harray _ rfl

theorem dropTrailingCommas_comma (cs : List Char) :
    Commented.dropTrailingCommas .code (',' :: cs) =
      if closesNext cs then Commented.dropTrailingCommas .code cs
      else ',' :: Commented.dropTrailingCommas .code cs := by
  rw [Commented.dropTrailingCommas]
  simp

/-- To drop commas is to drop the comma tokens in front of closing marks. -/
theorem Spaced.dropTrailingCommas {tokens : List Token} {cs : List Char} (h : Spaced IsWhite tokens cs) :
    Spaced IsWhite (closeUp tokens) (dropTrailingCommas .code cs) := by
  induction h with
  | nil hgap =>
      have hall := hgap.passes_commas []
      rw [List.append_nil] at hall
      rw [hall, Commented.dropTrailingCommas, List.append_nil]
      exact .nil hgap
  | @cons gap cs t tokens hgap hrest ih =>
      rw [hgap.passes_commas, closeUp]
      cases hcomma : t.isComma with
      | false =>
          rw [Bool.false_and, if_neg Bool.false_ne_true, Token.passes_commas hcomma]
          exact .cons hgap ih
      | true =>
          obtain rfl := Token.eq_of_isComma hcomma
          rw [Bool.true_and, ← hrest.closesNext_eq, Token.chars, List.singleton_append,
            Mark.char, dropTrailingCommas_comma]
          split
          · exact ih.white_append hgap
          · exact .cons hgap ih

/-- Where no comma stands in front of a closing mark, no comma is dropped. -/
theorem Spaced.dropTrailingCommas_eq {tokens : List Token} {cs : List Char}
    (h : Spaced IsWhite tokens cs) (hclosed : closeUp tokens = tokens) :
    Commented.dropTrailingCommas .code cs = cs := by
  induction h with
  | nil hgap => simpa [Commented.dropTrailingCommas] using hgap.passes_commas []
  | @cons gap cs t tokens hgap hrest ih =>
      obtain ⟨hkept, hbehind⟩ := of_closeUp_eq hclosed
      rw [hgap.passes_commas]
      cases hcomma : t.isComma with
      | false => rw [Token.passes_commas hcomma, ih hbehind]
      | true =>
          obtain rfl := Token.eq_of_isComma hcomma
          rw [hcomma, Bool.true_and, ← hrest.closesNext_eq] at hkept
          rw [Token.chars, List.singleton_append, Mark.char, dropTrailingCommas_comma, hkept,
            if_neg Bool.false_ne_true, ih hbehind]

/-! ## Trailing commas of values -/

/-- Whether tokens are others with trailing commas, and start with none that closes a container. -/
structure Extends (more tokens : List Token) : Prop where
  opens : ∃ t rest, more = t :: rest ∧ t.closes = false
  closeUp_append : ∀ behind, closeUp (more ++ behind) = tokens ++ closeUp behind

theorem Extends.singleton {t : Token} (hcomma : t.isComma = false) (hcloses : t.closes = false) :
    Extends [t] [t] :=
  ⟨⟨t, [], rfl, hcloses⟩, fun behind => by simp [closeUp, hcomma]⟩

theorem Extends.cons {t : Token} (hcomma : t.isComma = false) (hcloses : t.closes = false)
    {more tokens : List Token} (h : ∀ behind, closeUp (more ++ behind) = tokens ++ closeUp behind) :
    Extends (t :: more) (t :: tokens) :=
  ⟨⟨t, more, rfl, hcloses⟩, fun behind => by simp [closeUp, hcomma, h]⟩

/-- Parts with commas between them, and maybe one behind them, in front of a closing mark. -/
theorem closeUp_listed {groups others : List (List Token)} (h : List.Forall₂ Extends groups others)
    (trailing : Bool) (mark : Mark) (hmark : mark.closes = true) (behind : List Token) :
    closeUp (listed trailing groups ++ .mark mark :: behind) =
      listed false others ++ .mark mark :: closeUp behind := by
  have hclose : closeUp (.mark mark :: behind) = .mark mark :: closeUp behind := by
    cases mark <;> first | rfl | cases hmark
  induction h with
  | nil => simpa [listed] using hclose
  | @cons group other groups others hfirst hrest ih =>
      cases hrest with
      | nil =>
          cases trailing with
          | false => simpa [listed, hclose] using hfirst.closeUp_append (.mark mark :: behind)
          | true =>
              have hdrop : closeUp (.mark .comma :: .mark mark :: behind) = .mark mark :: closeUp behind := by
                rw [closeUp, if_pos (by simpa [Token.isComma, Token.closes] using hmark), hclose]
              simpa [listed, hdrop] using hfirst.closeUp_append (.mark .comma :: .mark mark :: behind)
      | @cons second otherSecond groups others hsecond hrest =>
          obtain ⟨t, rest, hopens, hcloses⟩ := hsecond.opens
          have hhead : (listed trailing (second :: groups) ++ .mark mark :: behind).head? = some t := by
            cases groups <;> simp [listed, hopens]
          -- the next part does not start with a closing mark, so that the comma stays
          have hcomma : closeUp (.mark .comma :: (listed trailing (second :: groups) ++ .mark mark :: behind)) =
              .mark .comma :: (listed false (otherSecond :: others) ++ .mark mark :: closeUp behind) := by
            rw [closeUp, hhead, Option.any_some, hcloses, Bool.and_false, if_neg Bool.false_ne_true, ih]
          have hparts := hfirst.closeUp_append
            (.mark .comma :: (listed trailing (second :: groups) ++ .mark mark :: behind))
          rw [hcomma] at hparts
          simpa [listed] using hparts

mutual

/-- Without its trailing commas a decorated value has the tokens of the strict one. -/
theorem Value.extends_tokens (decorated : Bool) : (value : Value) →
    Extends (value.tokens decorated) (value.tokens false)
  | .word _ => .singleton rfl rfl
  | .number _ => .singleton rfl rfl
  | .string _ => .singleton rfl rfl
  | .array items trailing => .cons rfl rfl fun behind => by
      simpa using closeUp_listed (extends_itemTokens decorated items) (decorated && trailing)
        .closeArray rfl behind
  | .object entries trailing => .cons rfl rfl fun behind => by
      simpa using closeUp_listed (extends_entryTokens decorated entries) (decorated && trailing)
        .closeObject rfl behind

theorem extends_itemTokens (decorated : Bool) : (items : List Value) →
    List.Forall₂ Extends (itemTokens decorated items) (itemTokens false items)
  | [] => .nil
  | item :: rest => .cons (item.extends_tokens decorated) (extends_itemTokens decorated rest)

theorem extends_entryTokens (decorated : Bool) : (entries : List (List StringPart × Value)) →
    List.Forall₂ Extends (entryTokens decorated entries) (entryTokens false entries)
  | [] => .nil
  | (_, value) :: rest =>
      .cons (.cons rfl rfl (Extends.cons rfl rfl (value.extends_tokens decorated).closeUp_append).closeUp_append)
        (extends_entryTokens decorated rest)

end

theorem Value.closeUp_tokens (decorated : Bool) (value : Value) :
    closeUp (value.tokens decorated) = value.tokens false := by
  simpa [closeUp] using (value.extends_tokens decorated).closeUp_append []

/-! ## Documents -/

/-- A text with a token in it does not start with a byte-order mark. -/
theorem Spaced.dropWhile_eq {t : Token} {tokens : List Token} {cs : List Char}
    (h : Spaced IsWhite (t :: tokens) cs) : cs.dropWhile (· == byteOrderMark) = cs := by
  cases h with
  | @cons gap cs _ _ hgap _ =>
      cases gap with
      | nil =>
          obtain ⟨c, tail, hchars, -, hmark, -⟩ := t.exists_cons
          rw [List.nil_append, hchars, List.cons_append, List.dropWhile_cons_of_neg (by simpa using hmark)]
      | cons c gap =>
          have hmark : c ≠ byteOrderMark := by
            rcases hgap c (List.mem_cons_self ..) with rfl | rfl | rfl | rfl <;> decide
          rw [List.cons_append, List.dropWhile_cons_of_neg (by simpa using hmark)]

/-- A text with a token in it is not blank. -/
theorem Spaced.all_isBlank {t : Token} {tokens : List Token} {cs : List Char}
    (h : Spaced IsWhite (t :: tokens) cs) : cs.all Text.isBlank = false := by
  cases h with
  | cons _ _ =>
      obtain ⟨c, tail, hchars, hvisible, -⟩ := t.exists_cons
      simp [hchars, hvisible]

theorem Value.exists_cons (value : Value) : ∃ t tokens, value.tokens false = t :: tokens := by
  obtain ⟨t, tokens, htokens, -⟩ := (value.extends_tokens false).opens
  exact ⟨t, tokens, htokens⟩

/-- Neither pass changes a strict document. -/
theorem Value.IsStrictText.unchanged {value : Value} {text : String} (h : value.IsStrictText text) :
    stripComments .code text.toList = text.toList ∧
      dropTrailingCommas .code text.toList = text.toList :=
  ⟨h.stripComments_eq, h.dropTrailingCommas_eq (value.closeUp_tokens false)⟩

/-- What is left of a decorated document is a strict one. -/
theorem Value.IsDecoratedText.document {value : Value} {text : String} (h : value.IsDecoratedText text) :
    Spaced IsWhite (value.tokens false) (document text) := by
  obtain ⟨cs, hspaced, htext⟩ := h
  have hplain : Spaced IsWhite (value.tokens false) (plain cs) := by
    have hdropped := hspaced.stripComments.dropTrailingCommas
    rwa [value.closeUp_tokens] at hdropped
  have hstart : (plain cs).dropWhile (· == byteOrderMark) = plain cs := by
    obtain ⟨t, tokens, htokens⟩ := value.exists_cons
    rw [htokens] at hplain
    exact hplain.dropWhile_eq
  rcases htext with htext | htext
  · rwa [Commented.document, htext, hstart]
  · obtain ⟨hcomments, hcommas⟩ := IsPrinted.passes_code (c := byteOrderMark) (by simp [IsCode, byteOrderMark])
    have hmark : plain (byteOrderMark :: cs) = byteOrderMark :: plain cs := by
      rw [plain, ← List.singleton_append, hcomments, hcommas]
      rfl
    rwa [Commented.document, htext, hmark, List.dropWhile_cons_of_pos (by simp), hstart]

theorem Value.IsStrictText.document {value : Value} {text : String} (h : value.IsStrictText text) :
    document text = text.toList := by
  obtain ⟨t, tokens, htokens⟩ := value.exists_cons
  have hspaced : Spaced IsWhite (t :: tokens) text.toList := htokens ▸ h
  rw [Commented.document, plain, h.unchanged.1, h.unchanged.2, hspaced.dropWhile_eq]

end ScopedCheck.Json.Grammar
