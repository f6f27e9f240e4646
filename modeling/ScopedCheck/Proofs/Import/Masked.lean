import ScopedCheck.Import.Scan
import ScopedCheck.Proofs.Text.Search
/-! # Masked sources piece by piece

A source is masked from its start on. Code and literals are read off what is left to be masked, and a
comment leaves blanks only. Whether a match counts is decided by the piece in which it starts. -/

namespace ScopedCheck.Import

open Text Text.Pattern

/-- The characters of pieces. -/
def charsOf (pieces : List Piece) : List Char := pieces.flatMap Piece.chars

@[simp] theorem charsOf_nil : charsOf [] = [] := rfl

@[simp] theorem charsOf_cons (piece : Piece) (rest : List Piece) :
    charsOf (piece :: rest) = piece.chars ++ charsOf rest := rfl

@[simp] theorem charsOf_append (front rest : List Piece) :
    charsOf (front ++ rest) = charsOf front ++ charsOf rest := List.flatMap_append ..

/-- Pieces of code with the given characters. -/
def codeOf (cs : List Char) : List Piece := cs.map .code

@[simp] theorem charsOf_codeOf (cs : List Char) : charsOf (codeOf cs) = cs := by
  induction cs with
  | nil => rfl
  | cons c cs ih =>
    simp only [codeOf, List.map_cons, charsOf_cons, Piece.chars] at ih ⊢
    rw [ih, List.singleton_append]

theorem codeOf_append (cs ds : List Char) : codeOf (cs ++ ds) = codeOf cs ++ codeOf ds := List.map_append ..

/-! ## Code and literals -/

/-- Whether the character at an offset among pieces is code. -/
def isCodeAt : List Piece → Nat → Bool
  | [], _ => true
  | .code _ :: _, 0 => true
  | .code _ :: rest, offset + 1 => isCodeAt rest offset
  | .literal text :: rest, offset =>
      text.length ≤ offset && isCodeAt rest (offset - text.length)

theorem not_any_has_of_lt {pieces : List Piece} {start offset : Nat} (h : offset < start) :
    (literalRanges start pieces).any (·.has offset) = false := by
  induction pieces generalizing start with
  | nil => rfl
  | cons piece rest ih =>
    cases piece with
    | code c => exact ih (by omega)
    | literal text =>
      have hbefore : ¬start ≤ offset := by omega
      simp only [literalRanges, List.any_cons, OffsetRange.has, hbefore, decide_false, Bool.false_and,
        Bool.false_or]
      exact ih (by omega)

theorem not_any_has_add (pieces : List Piece) (start offset : Nat) :
    (!(literalRanges start pieces).any (·.has (start + offset))) = isCodeAt pieces offset := by
  induction pieces generalizing start offset with
  | nil => rfl
  | cons piece rest ih =>
    cases piece with
    | code c =>
      cases offset with
      | zero =>
        rw [literalRanges, not_any_has_of_lt (by omega)]
        rfl
      | succ offset =>
        rw [literalRanges, isCodeAt, ← ih (start + 1) offset]
        congr 4
        funext range
        congr 1
        omega
    | literal text =>
      simp only [literalRanges, List.any_cons, OffsetRange.has, isCodeAt]
      by_cases hin : offset < text.length
      · have hout : ¬text.length ≤ offset := by omega
        have hhas : start + offset < start + text.length := by omega
        simp [hout, hhas]
      · have hafter : text.length ≤ offset := by omega
        have hhas : ¬start + offset < start + text.length := by omega
        have hsplit : start + offset = start + text.length + (offset - text.length) := by omega
        simp only [hhas, hafter, decide_false, Bool.and_false, Bool.false_or, decide_true, Bool.true_and]
        rw [← ih (start + text.length) (offset - text.length), ← hsplit]
        rfl

theorem isCode_mask (source : List Char) (offset : Nat) :
    (mask source).isCode offset = isCodeAt (maskFrom {} source) offset := by
  rw [← not_any_has_add _ 0 offset, Nat.zero_add]
  rfl

theorem isCodeAt_append (front rest : List Piece) (offset : Nat) :
    isCodeAt (front ++ rest) ((charsOf front).length + offset) = isCodeAt rest offset := by
  induction front with
  | nil => simp
  | cons piece front ih =>
    cases piece with
    | code c =>
      have hnext : (charsOf (.code c :: front)).length + offset = (charsOf front).length + offset + 1 := by
        simp [Piece.chars]
        omega
      rw [hnext, List.cons_append, isCodeAt, ih]
    | literal text =>
      have hafter : (charsOf (.literal text :: front)).length + offset
          = text.length + ((charsOf front).length + offset) := by
        simp [Piece.chars]
        omega
      rw [hafter, List.cons_append, isCodeAt, Nat.add_sub_cancel_left, ih]
      simp

theorem isCodeAt_codeOf {cs : List Char} {offset : Nat} (h : offset < cs.length) (rest : List Piece) :
    isCodeAt (codeOf cs ++ rest) offset = true := by
  induction cs generalizing offset with
  | nil => simp at h
  | cons c cs ih =>
    cases offset with
    | zero => rfl
    | succ offset => exact ih (by simpa using h)

theorem isCodeAt_literal {text : List Char} {offset : Nat} (h : offset < text.length) (rest : List Piece) :
    isCodeAt (.literal text :: rest) offset = false := by
  have hout : ¬text.length ≤ offset := by omega
  simp [isCodeAt, hout]

/-! ## Entries -/

/-- The import that a match stands for. -/
def entryOf (kind : Kind) (found : Found) : Import :=
  ⟨if (found.group? 1).isSome then .typeOnly else kind, found.group 2⟩

/-- The imports of one shape that start in code, from a place among pieces on. -/
def entriesFrom (pattern : Pattern) (kind : Kind) (pieces : List Piece) (here : Place) : List Import :=
  ((pattern.findFrom here).filter fun found => isCodeAt pieces found.start.offset).map (entryOf kind)

theorem ofShape_mask (source : List Char) (pattern : Pattern) (kind : Kind) :
    ofShape (mask source) pattern kind
      = entriesFrom pattern kind (maskFrom {} source) (Place.start (charsOf (maskFrom {} source))) := by
  simp only [ofShape, matchesInCode, findAll_eq_findFrom, isCode_mask]
  rfl

/-! ## Masking -/

/-- Whether a character always stands for itself. -/
def isPlain (c : Char) : Bool := !(c == '"' || c == '\'' || c == '`' || c == '/')

theorem maskFrom_cons_of_isPlain {c : Char} (h : isPlain c = true) (b : Behind) (rest : List Char) :
    maskFrom b (c :: rest) = .code c :: maskFrom (b.afterChar c) rest := by
  simp only [isPlain, Bool.not_eq_true', Bool.or_eq_false_iff, beq_eq_false_iff_ne] at h
  obtain ⟨⟨⟨h₁, h₂⟩, h₃⟩, h₄⟩ := h
  rw [maskFrom]
  simp [openingAt, h₁, h₂, h₃, h₄]

/-- Plain characters are code. -/
theorem exists_maskFrom_append {cs : List Char} (h : ∀ c ∈ cs, isPlain c = true) (b : Behind)
    (rest : List Char) : ∃ b', maskFrom b (cs ++ rest) = codeOf cs ++ maskFrom b' rest := by
  induction cs generalizing b with
  | nil => exact ⟨b, rfl⟩
  | cons c cs ih =>
    obtain ⟨hc, hcs⟩ := List.forall_mem_cons.mp h
    obtain ⟨b', hrest⟩ := ih hcs (b.afterChar c)
    exact ⟨b', by rw [List.cons_append, maskFrom_cons_of_isPlain hc, hrest]; rfl⟩

/-- A string without a backslash, a newline or its own quote ends at that quote. -/
theorem stringLength_append {quote : Char} {cs : List Char}
    (h : ∀ c ∈ cs, c ≠ quote ∧ c ≠ '\\' ∧ c ≠ '\n') (hquote : quote ≠ '\\') (hline : quote ≠ '\n')
    (rest : List Char) : stringLength quote (cs ++ quote :: rest) = cs.length + 1 := by
  induction cs with
  | nil => simp [stringLength, hquote, hline]
  | cons c cs ih =>
    obtain ⟨⟨hc, hback, hnewline⟩, hcs⟩ := List.forall_mem_cons.mp h
    have ih := ih hcs
    rw [List.cons_append, List.length_cons]
    simp [stringLength, hback, hnewline, hc, ih]

/-- A string that is closed by its own quote is one literal. -/
theorem maskFrom_string {quote : Char} (hquote : isQuote quote = true) {cs rest : List Char}
    (hlength : stringLength quote (cs ++ quote :: rest) = cs.length + 1) (b : Behind) :
    maskFrom b (quote :: (cs ++ quote :: rest))
      = .literal (quote :: (cs ++ [quote])) :: maskFrom (b.afterLiteral quote) rest := by
  have hopening : openingAt b quote (cs ++ quote :: rest) = .literal (cs.length + 1) := by
    simp only [isQuote, Bool.or_eq_true, beq_iff_eq] at hquote
    rw [← hlength]
    rcases hquote with rfl | rfl <;> rfl
  have htake : (cs ++ quote :: rest).take (cs.length + 1) = cs ++ [quote] := by
    rw [List.take_append, List.take_of_length_le (by omega), Nat.add_sub_cancel_left]
    rfl
  have hdrop : (cs ++ quote :: rest).drop (cs.length + 1) = rest := by
    rw [List.drop_append, List.drop_eq_nil_of_le (by omega), Nat.add_sub_cancel_left]
    rfl
  rw [maskFrom, hopening]
  simp only [htake, hdrop]

theorem maskFrom_literal {quote : Char} (hquote : isQuote quote = true) {cs : List Char}
    (h : ∀ c ∈ cs, isQuote c = false ∧ c ≠ '\\' ∧ c ≠ '\n') (b : Behind) (rest : List Char) :
    maskFrom b (quote :: (cs ++ quote :: rest))
      = .literal (quote :: (cs ++ [quote])) :: maskFrom (b.afterLiteral quote) rest := by
  have hends : quote ≠ '\\' ∧ quote ≠ '\n' := by
    constructor <;> rintro rfl <;> simp [isQuote] at hquote
  have hbody : ∀ c ∈ cs, c ≠ quote ∧ c ≠ '\\' ∧ c ≠ '\n' := by
    intro c hc
    refine ⟨?_, (h c hc).2⟩
    rintro rfl
    exact Bool.false_ne_true ((h c hc).1.symm.trans hquote)
  exact maskFrom_string hquote (stringLength_append hbody hends.1 hends.2 rest) b

theorem maskFrom_lineComment {cs : List Char} (h : '\n' ∉ cs) (b : Behind) (rest : List Char) :
    maskFrom b ('/' :: '/' :: (cs ++ '\n' :: rest)) = maskFrom b ('\n' :: rest) := by
  have hline : ('/' :: (cs ++ '\n' :: rest)).takeWhile (· != '\n') = '/' :: cs := by
    rw [List.takeWhile_cons_of_pos (by decide), List.takeWhile_append_of_pos]
    · simp
    · intro c hc
      exact bne_iff_ne.mpr fun hnewline => h (hnewline ▸ hc)
  have hopening : openingAt b '/' ('/' :: (cs ++ '\n' :: rest)) = .lineComment (cs.length + 1) := by
    simp only [openingAt, hline]
    rfl
  rw [maskFrom, hopening]
  simp

/-- A block comment ends where it is first closed. -/
theorem commentLength_append {cs : List Char} (h : ¬['*', '/'] <:+: cs) (rest : List Char) :
    commentLength (cs ++ '*' :: '/' :: rest) = cs.length + 2 := by
  induction cs with
  | nil => rfl
  | cons c cs ih =>
    have ih := ih fun hin => h (hin.trans (List.suffix_cons c cs).isInfix)
    have hopen : ∀ tail, c = '*' → cs ++ '*' :: '/' :: rest = '/' :: tail → False := by
      rintro tail rfl htail
      cases cs with
      | nil => simp at htail
      | cons d cs =>
        obtain rfl : d = '/' := by simpa using congrArg List.head? htail
        exact h ⟨[], cs, rfl⟩
    rw [List.cons_append, commentLength, ih, List.length_cons]
    exact hopen

theorem maskFrom_blockComment {cs : List Char} (h : ¬['*', '/'] <:+: cs) (b : Behind)
    (rest : List Char) :
    ∃ b', maskFrom b ('/' :: '*' :: (cs ++ '*' :: '/' :: rest))
      = codeOf (cs.filter (· == '\n') ++ [' ']) ++ maskFrom b' rest := by
  refine ⟨{ b with lastRaw := ' ' }, ?_⟩
  have hopening : openingAt b '/' ('*' :: (cs ++ '*' :: '/' :: rest)) = .blockComment (cs.length + 3) := by
    have hlength : cs.length + 3 = commentLength (cs ++ '*' :: '/' :: rest) + 1 := by
      rw [commentLength_append h]
    rw [hlength]
    rfl
  have htake : ('*' :: (cs ++ '*' :: '/' :: rest)).take (cs.length + 3) = '*' :: (cs ++ ['*', '/']) := by
    rw [List.take_succ_cons, List.take_append, List.take_of_length_le (by omega), Nat.add_sub_cancel_left]
    rfl
  have hdrop : ('*' :: (cs ++ '*' :: '/' :: rest)).drop (cs.length + 3) = rest := by
    rw [List.drop_succ_cons, List.drop_append, List.drop_eq_nil_of_le (by omega), Nat.add_sub_cancel_left]
    rfl
  have htrace : commentTrace ('*' :: (cs ++ ['*', '/'])) = codeOf (cs.filter (· == '\n') ++ [' ']) := by
    simp [commentTrace, codeOf]
  rw [maskFrom, hopening]
  simp only [htake, hdrop, htrace]

end ScopedCheck.Import
