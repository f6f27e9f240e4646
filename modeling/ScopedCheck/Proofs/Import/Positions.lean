import Mathlib.Data.String.Basic
import ScopedCheck.Proofs.Import.Leading
/-! # Masking by positions

A source may be masked in one pass over its positions. Every turn of the pass goes on behind the character
or the literal that it takes, so that it ends. A literal is cut out of the source by its two positions, and
the text that is left is measured in bytes. No cut is ever out of range, and the pass leaves the same text
and the same literals as masking piece by piece (`maskAt_eq_some`). -/

namespace ScopedCheck.Import

/-! ## The ends of what starts at a position -/

/-- The first position from a position on whose character does not satisfy a condition. -/
def spanStop (continues : Char → Bool) (source : List Char) (i : Nat) : Nat :=
  match h : source[i]? with
  | none => i
  | some c => if continues c then spanStop continues source (i + 1) else i
termination_by source.length - i
decreasing_by
  have := (List.getElem?_eq_some_iff.mp h).1
  omega

/-- The position behind a string that is open at a position. -/
def stringStop (source : List Char) (quote : Char) (i : Nat) : Nat :=
  match h : source[i]? with
  | none => source.length
  | some c =>
      if c = '\\' then stringStop source quote (i + 2)
      else if c = '\n' && quote != '`' then i
      else if c = quote then i + 1
      else stringStop source quote (i + 1)
termination_by source.length - i
decreasing_by
  all_goals
    have := (List.getElem?_eq_some_iff.mp h).1
    omega

/-- The position behind a regular expression that is open at a position, with its flags, if it is closed
on its line. -/
def regexStop? (source : List Char) (inClass : Bool) (i : Nat) : Option Nat :=
  match h : source[i]? with
  | none => none
  | some c =>
      if c = '\n' then none
      else if c = '\\' then regexStop? source inClass (i + 2)
      else if c = '/' && !inClass then some (spanStop Char.isAlpha source (i + 1))
      else regexStop? source (if c = '[' then true else if c = ']' then false else inClass) (i + 1)
termination_by source.length - i
decreasing_by
  all_goals
    have := (List.getElem?_eq_some_iff.mp h).1
    omega

/-- The position behind a block comment that is open at a position, and the newlines up to there. -/
def commentStop (source : List Char) (i : Nat) (newlines : List Char) : Nat × List Char :=
  match h : source[i]? with
  | none => (i, newlines)
  | some c =>
      if c = '\n' then commentStop source (i + 1) (newlines ++ ['\n'])
      else if c = '*' ∧ source[i + 1]? = some '/' then (i + 2, newlines)
      else commentStop source (i + 1) newlines
termination_by source.length - i
decreasing_by
  all_goals
    have := (List.getElem?_eq_some_iff.mp h).1
    omega

variable {source : List Char}

theorem exists_of_drop_eq_cons {i : Nat} {c : Char} (h : source[i]? = some c) :
    i < source.length ∧ source.drop i = c :: source.drop (i + 1) := by
  obtain ⟨hi, rfl⟩ := List.getElem?_eq_some_iff.mp h
  exact ⟨hi, List.drop_eq_getElem_cons hi⟩

theorem drop_of_getElem?_eq_none {i : Nat} (h : source[i]? = none) : source.drop i = [] :=
  List.drop_eq_nil_of_le (List.getElem?_eq_none_iff.mp h)

theorem spanStop_eq (continues : Char → Bool) (source : List Char) (i : Nat) :
    spanStop continues source i = i + ((source.drop i).takeWhile continues).length := by
  fun_induction spanStop continues source i with
  | case1 i h => simp [drop_of_getElem?_eq_none h]
  | case2 i c h hc ih =>
    rw [(exists_of_drop_eq_cons h).2, List.takeWhile_cons_of_pos hc, ih, List.length_cons]
    omega
  | case3 i c h hc => simp [(exists_of_drop_eq_cons h).2, hc]

theorem stringStop_eq {quote : Char} {i : Nat} (hi : i ≤ source.length) :
    stringStop source quote i = i + stringLength quote (source.drop i) := by
  fun_induction stringStop source quote i with
  | case1 i h =>
    have hend := List.getElem?_eq_none_iff.mp h
    simp only [drop_of_getElem?_eq_none h, stringLength]
    omega
  | case2 i h ih =>
    obtain ⟨hlt, hdrop⟩ := exists_of_drop_eq_cons h
    cases hnext : source[i + 1]? with
    | none =>
      -- a backslash that is the last character takes nothing with it
      have hlast := List.getElem?_eq_none_iff.mp hnext
      rw [hdrop, drop_of_getElem?_eq_none hnext, stringLength, stringStop]
      split
      · omega
      · rename_i hsome
        have := (List.getElem?_eq_some_iff.mp hsome).1
        omega
    | some d =>
      obtain ⟨hlt', hdrop'⟩ : _ ∧ source.drop (i + 1) = d :: source.drop (i + 2) := exists_of_drop_eq_cons hnext
      rw [hdrop, hdrop', stringLength, ih (by omega)]
      omega
  | case3 i c h hback hline =>
    rw [(exists_of_drop_eq_cons h).2, stringLength_cons hback, if_pos hline]
    omega
  | case4 i h hback hline =>
    rw [(exists_of_drop_eq_cons h).2, stringLength_cons hback, if_neg hline, if_pos rfl]
  | case5 i c h hback hline hquote ih =>
    obtain ⟨hlt, hdrop⟩ := exists_of_drop_eq_cons h
    rw [hdrop, stringLength_cons hback, if_neg hline, if_neg hquote, ih (by omega)]
    omega

theorem regexStop?_eq {inClass : Bool} {i : Nat} :
    regexStop? source inClass i = (regexLength? inClass (source.drop i)).map (i + ·) := by
  fun_induction regexStop? source inClass i with
  | case1 inClass i h => simp [drop_of_getElem?_eq_none h, regexLength?]
  | case2 inClass i h => simp [(exists_of_drop_eq_cons h).2, regexLength?_cons]
  | case3 inClass i h hline ih =>
    rw [(exists_of_drop_eq_cons h).2, ih]
    cases hnext : source[i + 1]? with
    | none =>
      have hlast : source[i + 2]? = none :=
        List.getElem?_eq_none_iff.mpr (by have := List.getElem?_eq_none_iff.mp hnext; omega)
      simp [drop_of_getElem?_eq_none hnext, drop_of_getElem?_eq_none hlast, regexLength?]
    | some d =>
      rw [(exists_of_drop_eq_cons hnext).2, regexLength?, Option.map_map]
      congr 1
      funext n
      simp only [Function.comp]
      omega
  | case4 inClass i c h hline hback hclose =>
    rw [(exists_of_drop_eq_cons h).2, regexLength?_cons hback, if_neg hline, if_pos hclose, spanStop_eq,
      Option.map_some]
    congr 1
    omega
  | case5 inClass i c h hline hback hclose ih =>
    simp only [dite_eq_ite] at ih
    rw [(exists_of_drop_eq_cons h).2, regexLength?_cons hback, if_neg hline, if_neg hclose, ih, Option.map_map]
    congr 1
    funext n
    simp only [Function.comp]
    omega

theorem commentStop_eq (i : Nat) (newlines : List Char) :
    commentStop source i newlines = (i + commentLength (source.drop i),
      newlines ++ ((source.drop i).take (commentLength (source.drop i))).filter (· == '\n')) := by
  fun_induction commentStop source i newlines with
  | case1 i newlines h => simp [drop_of_getElem?_eq_none h, commentLength]
  | case2 i newlines h ih =>
    rw [(exists_of_drop_eq_cons h).2, ih]
    simp [commentLength]
    omega
  | case3 i newlines c h hline hclose =>
    obtain ⟨rfl, hslash⟩ := hclose
    rw [(exists_of_drop_eq_cons h).2, (exists_of_drop_eq_cons hslash).2]
    simp [commentLength]
  | case4 i newlines c h hline hclose ih =>
    have hopen : ∀ tail, c = '*' → source.drop (i + 1) = '/' :: tail → False := by
      intro tail hc htail
      refine hclose ⟨hc, ?_⟩
      rw [← List.head?_drop, htail, List.head?_cons]
    rw [(exists_of_drop_eq_cons h).2, ih, commentLength]
    · simp [hline]
      omega
    · exact hopen

/-! ## Turns -/

/-- What one turn of the pass takes, with the position behind it. -/
inductive Turn
  | char
  | literal (stop : Nat)
  | lineComment (stop : Nat)
  | blockComment (stop : Nat) (newlines : List Char)

/-- The position behind what a turn takes at a position. -/
def Turn.stop (i : Nat) : Turn → Nat
  | char => i + 1
  | literal stop => stop
  | lineComment stop => stop
  | blockComment stop _ => stop

/-- What the pass takes at a position with a given character. -/
def turnAt (source : List Char) (b : Behind) (c : Char) (i : Nat) : Turn :=
  if c = '"' || c = '\'' || c = '`' then .literal (stringStop source c (i + 1))
  else if c = '/' then
    if source[i + 1]? = some '/' then .lineComment (spanStop (· != '\n') source i)
    else if source[i + 1]? = some '*' then
      let ended := commentStop source (i + 2) []
      .blockComment ended.1 ended.2
    else if b.allowsRegex then
      match regexStop? source false (i + 1) with
      | some stop => .literal stop
      | none => .char
    else .char
  else .char

/-- The turn for what starts at a position. -/
def Opening.turn (source : List Char) (i : Nat) : Opening → Turn
  | .plain => .char
  | .literal length => .literal (i + 1 + length)
  | .lineComment length => .lineComment (i + 1 + length)
  | .blockComment length =>
      .blockComment (i + 1 + length) (((source.drop (i + 1)).take length).filter (· == '\n'))

theorem Opening.stop_turn (opening : Opening) (i : Nat) :
    (opening.turn source i).stop i = i + 1 + opening.length := by
  cases opening <;> rfl

theorem turnAt_eq {c : Char} {i : Nat} (h : source[i]? = some c) (b : Behind) :
    turnAt source b c i = (openingAt b c (source.drop (i + 1))).turn source i := by
  obtain ⟨hi, hdrop⟩ := exists_of_drop_eq_cons h
  have hhead : (source.drop (i + 1)).head? = source[i + 1]? := List.head?_drop
  unfold turnAt
  by_cases hstring : (c = '"' || c = '\'' || c = '`') = true
  · rw [if_pos hstring, openingAt_string hstring, stringStop_eq (by omega)]
    rfl
  rw [if_neg hstring]
  by_cases hslash : c = '/'
  · subst hslash
    rw [if_pos rfl]
    by_cases hline : source[i + 1]? = some '/'
    · have hrest := (exists_of_drop_eq_cons hline).2
      have hopening : openingAt b '/' (source.drop (i + 1))
          = .lineComment ((source.drop (i + 1)).takeWhile (· != '\n')).length := by
        rw [hrest]
        rfl
      rw [if_pos hline, hopening, Opening.turn, spanStop_eq, hdrop, List.takeWhile_cons_of_pos (by decide),
        List.length_cons]
      congr 1
      omega
    rw [if_neg hline]
    by_cases hblock : source[i + 1]? = some '*'
    · have hrest : source.drop (i + 1) = '*' :: source.drop (i + 2) := (exists_of_drop_eq_cons hblock).2
      have hopening : openingAt b '/' (source.drop (i + 1))
          = .blockComment (commentLength (source.drop (i + 2)) + 1) := by
        rw [hrest]
        rfl
      rw [if_pos hblock, hopening, Opening.turn, commentStop_eq, hrest, List.take_succ_cons,
        List.filter_cons_of_neg (by decide), List.nil_append, Turn.blockComment.injEq]
      exact ⟨by omega, rfl⟩
    rw [if_neg hblock, openingAt_slash (hhead ▸ hline) (hhead ▸ hblock), regexStop?_eq]
    split
    · cases regexLength? false (source.drop (i + 1)) <;> rfl
    · rfl
  · rw [if_neg hslash, openingAt_plain hstring hslash]
    rfl

theorem stop_turnAt {c : Char} {i : Nat} (h : source[i]? = some c) (b : Behind) :
    (turnAt source b c i).stop i = i + 1 + (openingAt b c (source.drop (i + 1))).length := by
  rw [turnAt_eq h, Opening.stop_turn]

/-! ## The pass -/

/-- The part of a source between two positions, if there is one. -/
def slice? (source : List Char) (start stop : Nat) : Option (List Char) :=
  if start ≤ stop ∧ stop ≤ source.length then some ((source.drop start).take (stop - start)) else none

/-- What is left of a source as far as it is masked, and where its literals are, in bytes. -/
structure Masking where
  code : String := ""
  literals : List OffsetRange := []
  deriving DecidableEq, Repr

namespace Masking

/-- Put code behind what is left. -/
def addCode (m : Masking) (cs : List Char) : Masking := { m with code := m.code ++ String.ofList cs }

/-- Put a literal behind what is left, and note its bytes. -/
def addLiteral (m : Masking) (text : List Char) : Masking :=
  let code := m.code ++ String.ofList text
  { code, literals := m.literals ++ [⟨m.code.utf8ByteSize, code.utf8ByteSize⟩] }

end Masking

/-- Mask a source from a position on. There is nothing if a literal is cut out of range. -/
def maskAt (source : List Char) (i : Nat) (b : Behind) (m : Masking) : Option Masking :=
  match h : source[i]? with
  | none => some m
  | some c =>
      have := stop_turnAt h b
      match hturn : turnAt source b c i with
      | .char => maskAt source (i + 1) (b.afterChar c) (m.addCode [c])
      | .literal stop =>
          match slice? source i stop with
          | none => none
          | some text => maskAt source stop (b.afterLiteral c) (m.addLiteral text)
      | .lineComment stop => maskAt source stop b m
      | .blockComment stop newlines =>
          maskAt source stop { b with lastRaw := ' ' } (m.addCode (newlines ++ [' ']))
termination_by source.length - i
decreasing_by
  all_goals
    have hi := (List.getElem?_eq_some_iff.mp h).1
    simp only [hturn, Turn.stop] at this
    omega

/-! ## What a literal takes is there -/

theorem stringLength_le (quote : Char) (cs : List Char) : stringLength quote cs ≤ cs.length := by
  fun_induction stringLength quote cs with
  | case1 => exact Nat.le_refl _
  | case2 => exact Nat.le_refl _
  | case3 c cs ih =>
    simp only [List.length_cons]
    omega
  | case4 c cs hone hmore hline => exact Nat.zero_le _
  | case5 cs hone hmore hline => exact Nat.succ_le_succ (Nat.zero_le _)
  | case6 c cs hone hmore hline hquote ih => exact Nat.succ_le_succ ih

theorem regexLength?_le {inClass : Bool} {cs : List Char} {n : Nat} (h : regexLength? inClass cs = some n) :
    n ≤ cs.length := by
  fun_induction regexLength? inClass cs generalizing n with
  | case1 => cases h
  | case2 => cases h
  | case3 inClass c cs ih =>
    obtain ⟨m, hm, rfl⟩ := Option.map_eq_some_iff.mp h
    exact Nat.succ_le_succ (Nat.succ_le_succ (ih hm))
  | case4 => cases h
  | case5 inClass c cs hone hmore hline hclose =>
    obtain rfl := Option.some.inj h
    exact Nat.succ_le_succ (List.takeWhile_sublist _).length_le
  | case6 inClass c cs hone hmore hline hclose ih =>
    obtain ⟨m, hm, rfl⟩ := Option.map_eq_some_iff.mp h
    exact Nat.succ_le_succ (ih hm)

theorem commentLength_le (cs : List Char) : commentLength cs ≤ cs.length := by
  fun_induction commentLength cs with
  | case1 => exact Nat.le_refl _
  | case2 => exact Nat.succ_le_succ (Nat.succ_le_succ (Nat.zero_le _))
  | case3 c cs hopen ih => exact Nat.succ_le_succ ih

theorem length_openingAt_le (b : Behind) (c : Char) (cs : List Char) : (openingAt b c cs).length ≤ cs.length := by
  by_cases hstring : (c = '"' || c = '\'' || c = '`') = true
  · rw [openingAt_string hstring]
    exact stringLength_le c cs
  by_cases hslash : c = '/'
  · subst hslash
    unfold openingAt
    rw [if_neg (by decide), if_pos rfl]
    split
    · exact (List.takeWhile_sublist _).length_le
    · exact Nat.succ_le_succ (commentLength_le _)
    · split
      · split
        · rename_i hlength
          exact regexLength?_le hlength
        · exact Nat.zero_le _
      · exact Nat.zero_le _
  · rw [openingAt_plain hstring hslash]
    exact Nat.zero_le _

/-! ## Positions and pieces -/

theorem literalRanges_append (start : Nat) (front rest : List Piece) :
    literalRanges start (front ++ rest)
      = literalRanges start front ++ literalRanges (start + (charsOf front).length) rest := by
  induction front generalizing start with
  | nil => rfl
  | cons piece front ih =>
    cases piece with
    | code c =>
      rw [List.cons_append, literalRanges, ih, literalRanges]
      simp only [charsOf_cons, Piece.chars, List.length_append, List.length_singleton, Nat.add_assoc]
    | literal text =>
      rw [List.cons_append, literalRanges, ih, literalRanges]
      simp only [charsOf_cons, Piece.chars, List.length_append, Nat.add_assoc, List.cons_append]

@[simp] theorem literalRanges_codeOf (start : Nat) (cs : List Char) : literalRanges start (codeOf cs) = [] := by
  induction cs generalizing start with
  | nil => rfl
  | cons c cs ih => exact ih (start + 1)

/-- A literal among pieces lies in their text. -/
theorem bounds_of_mem_literalRanges {pieces : List Piece} {start : Nat} {range : OffsetRange}
    (h : range ∈ literalRanges start pieces) :
    start ≤ range.start ∧ range.start ≤ range.stop ∧ range.stop ≤ start + (charsOf pieces).length := by
  induction pieces generalizing start with
  | nil => cases h
  | cons piece rest ih =>
    cases piece with
    | code c =>
      have := ih h
      simp only [charsOf_cons, Piece.chars, List.length_append, List.length_singleton]
      omega
    | literal text =>
      simp only [charsOf_cons, Piece.chars, List.length_append]
      rcases List.mem_cons.mp h with rfl | h
      · exact ⟨Nat.le_refl _, Nat.le_add_right .., by dsimp only; omega⟩
      · have := ih h
        omega

/-- The number of bytes in front of a position of a text. -/
def byteOffset (text : List Char) (position : Nat) : Nat := String.utf8Len (text.take position)

/-- A range of positions of a text, in bytes. -/
def OffsetRange.inBytes (range : OffsetRange) (text : List Char) : OffsetRange :=
  ⟨byteOffset text range.start, byteOffset text range.stop⟩

theorem byteOffset_append {text : List Char} {position : Nat} (h : position ≤ text.length) (rest : List Char) :
    byteOffset (text ++ rest) position = byteOffset text position := by
  rw [byteOffset, List.take_append_of_le_length h]
  rfl

theorem byteOffset_length (text : List Char) : byteOffset text text.length = (String.ofList text).utf8ByteSize := by
  rw [byteOffset, List.take_length, String.utf8ByteSize_ofList]

namespace Masking

/-- The masking that pieces stand for. -/
def ofPieces (pieces : List Piece) : Masking where
  code := String.ofList (charsOf pieces)
  literals := (literalRanges 0 pieces).map (·.inBytes (charsOf pieces))

theorem map_inBytes_append (front : List Piece) (rest : List Char) :
    (literalRanges 0 front).map (·.inBytes (charsOf front ++ rest))
      = (literalRanges 0 front).map (·.inBytes (charsOf front)) := by
  refine List.map_congr_left fun range hrange => ?_
  obtain ⟨-, hfilled, hstop⟩ := bounds_of_mem_literalRanges hrange
  rw [OffsetRange.inBytes, byteOffset_append (by omega), byteOffset_append (by omega)]
  rfl

theorem addCode_ofPieces (front : List Piece) (cs : List Char) :
    (ofPieces front).addCode cs = ofPieces (front ++ codeOf cs) := by
  simp only [addCode, ofPieces, charsOf_append, charsOf_codeOf, literalRanges_append, literalRanges_codeOf,
    List.append_nil, map_inBytes_append, String.ofList_append]

theorem addLiteral_ofPieces (front : List Piece) (text : List Char) :
    (ofPieces front).addLiteral text = ofPieces (front ++ [.literal text]) := by
  have hrange : OffsetRange.inBytes ⟨(charsOf front).length, (charsOf front).length + text.length⟩
      (charsOf front ++ text)
        = ⟨(String.ofList (charsOf front)).utf8ByteSize,
            (String.ofList (charsOf front) ++ String.ofList text).utf8ByteSize⟩ := by
    rw [OffsetRange.inBytes, ← List.length_append, byteOffset_length, byteOffset_append (Nat.le_refl _),
      byteOffset_length, String.ofList_append]
  simp only [addLiteral, ofPieces, charsOf_append, literalRanges_append, List.map_append, Nat.zero_add,
    literalRanges, List.map_singleton, charsOf_cons, charsOf_nil, List.append_nil, Piece.chars,
    map_inBytes_append, hrange, String.ofList_append]

end Masking

variable {i : Nat} {b : Behind} {front : List Piece}

theorem slice?_eq_some {start stop : Nat} (h : start ≤ stop) (hstop : stop ≤ source.length) :
    slice? source start stop = some ((source.drop start).take (stop - start)) := if_pos ⟨h, hstop⟩

/-- One turn puts the pieces of what starts at its position behind those in front. -/
theorem maskAt_step {c : Char} (h : source[i]? = some c) :
    maskAt source i b (.ofPieces front)
      = maskAt source (i + 1 + (openingAt b c (source.drop (i + 1))).length)
          ((openingAt b c (source.drop (i + 1))).past b c)
          (.ofPieces (front ++ (openingAt b c (source.drop (i + 1))).pieces c (source.drop (i + 1)))) := by
  obtain ⟨hi, hdrop⟩ := exists_of_drop_eq_cons h
  have hlength := length_openingAt_le b c (source.drop (i + 1))
  have hturn := turnAt_eq h b
  rw [List.length_drop] at hlength
  conv_lhs => unfold maskAt
  split
  · rename_i hnone
    exact absurd (h.symm.trans hnone) (Option.some_ne_none c)
  rename_i d hd
  obtain rfl : c = d := Option.some.inj (h.symm.trans hd)
  dsimp only
  generalize openingAt b c (source.drop (i + 1)) = opening at hlength hturn ⊢
  split <;> rename_i hturn' <;> rw [hturn'] at hturn
  · cases opening <;> cases hturn
    rw [Masking.addCode_ofPieces]
    rfl
  · cases opening <;> cases hturn
    rename_i n
    have hn : n ≤ source.length - (i + 1) := hlength
    have hslice : (source.drop i).take (i + 1 + n - i) = c :: (source.drop (i + 1)).take n := by
      rw [hdrop, show i + 1 + n - i = n + 1 by omega, List.take_succ_cons]
    rw [slice?_eq_some (by omega) (by omega), hslice]
    simp only [Masking.addLiteral_ofPieces]
    rfl
  · cases opening <;> cases hturn
    rw [Opening.pieces, List.append_nil]
    rfl
  · cases opening <;> cases hturn
    rw [Masking.addCode_ofPieces, codeOf_append]
    rfl

/-- Masking from a position on goes through, and puts the pieces of what is left behind those in front. -/
theorem maskAt_eq_some (hi : i ≤ source.length) :
    maskAt source i b (.ofPieces front) = some (.ofPieces (front ++ maskFrom b (source.drop i))) := by
  induction hn : source.length - i using Nat.strongRecOn generalizing i b front with
  | ind n ih =>
    subst hn
    cases h : source[i]? with
    | none =>
      rw [drop_of_getElem?_eq_none h, maskFrom, List.append_nil, maskAt]
      split
      · rfl
      · rename_i hsome
        exact absurd (h.symm.trans hsome) (Option.some_ne_none _).symm
    | some c =>
      obtain ⟨hlt, hdrop⟩ := exists_of_drop_eq_cons h
      have hlength := length_openingAt_le b c (source.drop (i + 1))
      rw [List.length_drop] at hlength
      rw [maskAt_step h, ih _ (by omega) (by omega) rfl, hdrop, maskFrom_cons, List.drop_drop, List.append_assoc]

end ScopedCheck.Import
