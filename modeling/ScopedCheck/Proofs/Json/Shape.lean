import ScopedCheck.Proofs.Json.Stripping
/-! # The lexemes that tokens are cut into

A token is one lexeme, wherever it stands and whatever is behind it, as long as that does not go on with
a number. What such a lexeme shows is the same everywhere, but for the spots in its errors. -/

namespace ScopedCheck.Lexeme

/-- What a lexeme shows, whatever its spots are. Errors show nothing. -/
inductive Shape
  | mark (c : Char)
  | word (word : Word)
  | number (value : Option Number)
  | string (value : Option String)
  | broken

/-- What a lexeme of some kind shows. -/
def Kind.shape : Kind → Shape
  | mark c => .mark c
  | word w => .word w
  | number value => .number value.toOption
  | string value => .string value.toOption
  | broken .. => .broken

/-- What lexemes show. -/
def shapes (lexemes : List Lexeme) : List Shape := lexemes.map (·.kind.shape)

end ScopedCheck.Lexeme

namespace ScopedCheck.Json.Grammar

open Lexeme

/-! ## Numbers -/

namespace Power

/-- Whether the power is negative. -/
def isNegative (p : Power) : Bool := p.sign.getD false

theorem scanPower_append (p : Power) (reading : Bool) (spot : Spot) {rest : List Char}
    (hrest : EndsDigits rest) :
    scanPower reading spot (p.signChars ++ (p.digits ++ rest)) =
      .ok (p.signChars.length, p.isNegative, p.digits) := by
  rw [signChars, isNegative]
  cases p.sign with
  | some isNegative => exact Lexeme.scanPower_append reading spot isNegative p.areDigits hrest
  | none =>
      obtain ⟨c, tail, hdigits, hc⟩ := p.areDigits.exists_cons
      have hspan := digits_append p.areDigits.2 hrest
      rw [hdigits, List.cons_append] at hspan
      rw [List.nil_append, hdigits, List.cons_append, scanPower]
      · simp [hc, hspan]
      -- a digit is no sign
      · exact fun _ heq => absurd (List.cons.inj heq).1 (ne_of_isDigit hc rfl)
      · exact fun _ heq => absurd (List.cons.inj heq).1 (ne_of_isDigit hc rfl)

theorem scanPower?_append (p : Power) (reading : Bool) (spot : Spot) {rest : List Char}
    (hrest : EndsDigits rest) : scanPower? reading spot (p.chars ++ rest) =
      .ok (some (p.signChars.length, p.isNegative, p.digits)) := by
  have hletter : p.letter = 'e' ∨ p.letter = 'E' := by
    unfold letter
    split
    · exact .inr rfl
    · exact .inl rfl
  rw [chars, List.cons_append, List.append_assoc, scanPower?, if_pos hletter, p.scanPower_append _ _ hrest]
  rfl

end Power

namespace Number

theorem takeSign_append (n : Number) (rest : List Char) :
    takeSign (n.chars ++ rest) = (n.isNegative, n.sizeChars ++ rest) := by
  rw [chars]
  cases n.isNegative with
  | true => rfl
  | false =>
      obtain ⟨c, tail, hwhole, hc⟩ := n.isWhole.1.exists_cons
      simp only [Bool.false_eq_true, if_false, List.nil_append]
      rw [sizeChars, hwhole, List.cons_append, List.cons_append, takeSign]
      rintro rest heq
      exact absurd (List.cons.inj heq).1 (ne_of_isDigit hc rfl)

/-- What stands behind the fraction neither goes on with digits nor with a point. -/
theorem head?_powerChars (n : Number) {rest : List Char} (hrest : EndsNumber rest) :
    EndsDigits (n.powerChars ++ rest) ∧ (n.powerChars ++ rest).head? ≠ some '.' := by
  unfold powerChars
  cases n.power with
  | none => exact ⟨hrest.endsDigits, fun h => (hrest '.' h).2.1 rfl⟩
  | some p =>
      have hhead : (p.chars ++ rest).head? = some p.letter := rfl
      unfold EndsDigits
      rw [hhead]
      unfold Power.letter
      split <;> simp

theorem scanPower?_append (n : Number) (reading : Bool) (spot : Spot) {rest : List Char}
    (hrest : EndsNumber rest) : scanPower? reading spot (n.powerChars ++ rest) =
      .ok (n.power.map fun p => (p.signChars.length, p.isNegative, p.digits)) := by
  unfold powerChars
  cases n.power with
  | some p => exact p.scanPower?_append reading spot hrest.endsDigits
  | none =>
      cases rest with
      | nil => rfl
      | cons c rest =>
          obtain ⟨-, -, hsmall, hlarge⟩ := hrest c rfl
          simp [scanPower?, hsmall, hlarge]

/-- The parts of a number as they are scanned. -/
def numeral (n : Number) : Numeral where
  negative := n.isNegative
  whole := n.whole
  fraction := n.fraction
  power := n.power.map fun p => (p.isNegative, p.digits)
  beforePower := n.chars.length - (n.power.elim 0 fun p => p.digits.length)
  length := n.chars.length

/-- A number is scanned as a whole, and in the same way wherever it stands. -/
theorem scanNumber_append (n : Number) (reading : Bool) (spot : Spot) {rest : List Char}
    (hrest : EndsNumber rest) : scanNumber reading spot (n.chars ++ rest) = .ok n.numeral := by
  obtain ⟨hends, hpoint⟩ := n.head?_powerChars hrest
  have hsize : n.sizeChars ++ rest = n.whole ++ (pointed n.fraction ++ (n.powerChars ++ rest)) := by
    simp [sizeChars]
  have hwhole := fun spot =>
    scanWhole_append reading spot n.isWhole (Written.endsDigits_pointed n.fraction hends)
  have hfraction := fun spot => scanFraction?_append reading spot n.areDigits hends hpoint
  have hpower := fun spot => n.scanPower?_append reading spot hrest
  have hlength : n.chars.length = (if n.isNegative then 1 else 0) + n.whole.length +
      (pointed n.fraction).length + n.powerChars.length := by
    rw [chars, sizeChars]
    split <;> simp only [List.length_append, List.length_singleton, List.length_nil] <;> omega
  unfold scanNumber
  simp only [n.takeSign_append, hsize, hwhole, bind, Except.bind, List.drop_left, hfraction, hpower]
  rw [numeral, hlength, powerChars]
  cases n.power with
  | none => rfl
  | some p =>
      simp only [Option.map_some, Option.elim_some, Power.chars, List.length_cons, List.length_append, pure,
        Except.pure, Except.ok.injEq, Numeral.mk.injEq, true_and]
      omega

end Number

/-! ## Strings -/

theorem IsHexDigit.exists_value {c : Char} (h : IsHexDigit c) : ∃ n, hexValue? c = some n := by
  unfold hexValue?
  rcases h with h | h | h
  · exact ⟨_, if_pos h⟩
  · by_cases hdigit : c.isDigit = true
    · exact ⟨_, if_pos hdigit⟩
    · exact ⟨_, by rw [if_neg hdigit, if_pos h]⟩
  · by_cases hdigit : c.isDigit = true
    · exact ⟨_, if_pos hdigit⟩
    · by_cases hsmall : 'a' ≤ c ∧ c ≤ 'f'
      · exact ⟨_, by rw [if_neg hdigit, if_pos hsmall]⟩
      · exact ⟨_, by rw [if_neg hdigit, if_neg hsmall, if_pos h]⟩

theorem exists_hexValue4? {a b c d : Char} (h : ∀ digit ∈ [a, b, c, d], IsHexDigit digit) :
    ∃ n, hexValue4? a b c d = some n := by
  simp only [List.forall_mem_cons] at h
  obtain ⟨ha, hb, hc, hd, -⟩ := h
  obtain ⟨a', ha⟩ := ha.exists_value
  obtain ⟨b', hb⟩ := hb.exists_value
  obtain ⟨c', hc⟩ := hc.exists_value
  obtain ⟨d', hd⟩ := hd.exists_value
  exact ⟨_, by simp only [hexValue4?, ha, hb, hc, hd, bind, Option.bind]; rfl⟩

theorem exists_shortEscape? {letter : Char} (h : letter ∈ ['"', '\\', '/', 'b', 'f', 'n', 'r', 't']) :
    letter ≠ 'u' ∧ ∃ c, shortEscape? letter = some c := by
  have hall : ∀ d ∈ ['"', '\\', '/', 'b', 'f', 'n', 'r', 't'], d ≠ 'u' ∧ (shortEscape? d).isSome = true := by
    simp [shortEscape?]
  exact ⟨(hall letter h).1, Option.isSome_iff_exists.mp (hall letter h).2⟩

namespace StringPart

/-- A part of a string is passed over as a whole. -/
theorem skipString_append (part : StringPart) (spot : Spot) (count : Nat) (rest : List Char) :
    ∃ next, skipString spot count (part.chars ++ rest) =
      skipString next (count + part.chars.length) rest := by
  cases part with
  | plain c h => exact ⟨_, skipString_plain spot count h rest⟩
  | short letter h =>
      obtain ⟨hletter, c, hc⟩ := exists_shortEscape? h
      exact ⟨_, skipString_short spot count hletter hc rest⟩
  | unit a b c d h =>
      obtain ⟨n, hn⟩ := exists_hexValue4? h
      refine ⟨spot.after ['\\', 'u', a, b, c, d], ?_⟩
      simp only [chars, List.cons_append, List.nil_append]
      rw [skipString]
      simp only [hn, Option.isSome_some, if_true, List.length_cons, List.length_nil]

/-- A unit fails or is read by whether it is a half of a pair, which one, and whether a pair is open. -/
theorem readString_unit {a b c d : Char} {n : Nat} (hn : hexValue4? a b c d = some n) (half : Option Nat)
    (read : List Char) :
    (∀ spot rest, ∃ e, readString spot half read ('\\' :: 'u' :: a :: b :: c :: d :: rest) = .error e) ∨
      ∃ half' read', ∀ spot rest, ∃ next,
        readString spot half read ('\\' :: 'u' :: a :: b :: c :: d :: rest) =
          readString next half' read' rest := by
  cases half with
  | none =>
      by_cases htrailing : isTrailingHalf n = true
      · refine .inl fun spot rest =>
          ⟨JsonFault.loneSurrogate.at (spot.after ['\\', 'u', a, b, c, d]), ?_⟩
        rw [readString.eq_def]
        simp only [hn, htrailing, if_true]
      by_cases hleading : isLeadingHalf n = true
      · refine .inr ⟨some n, read, fun spot rest => ⟨spot.after ['\\', 'u', a, b, c, d], ?_⟩⟩
        rw [readString.eq_def]
        simp only [hn, htrailing, hleading, if_true]
        rfl
      · refine .inr ⟨none, Char.ofNat n :: read, fun spot rest =>
          ⟨spot.after ['\\', 'u', a, b, c, d], ?_⟩⟩
        rw [readString.eq_def]
        simp only [hn, htrailing, hleading]
        rfl
  | some first =>
      by_cases htrailing : isTrailingHalf n = true
      · let code := (first - 0xD800) * 0x400 + (n - 0xDC00) + 0x10000
        refine .inr ⟨none, Char.ofNat code :: read, fun spot rest =>
          ⟨spot.after ['\\', 'u', a, b, c, d], ?_⟩⟩
        rw [readString.eq_def]
        simp only [hn, htrailing, if_true]
        rfl
      · refine .inl fun spot rest =>
          ⟨JsonFault.loneSurrogate.at (spot.after ['\\', 'u', a, b, c, d]), ?_⟩
        rw [readString.eq_def]
        simp only [hn, htrailing]
        rfl

/-- To read a part of a string fails, or goes on from one state to another, wherever the part stands and
whatever is behind it. -/
theorem readString_append (part : StringPart) (half : Option Nat) (read : List Char) :
    (∀ spot rest, ∃ e, readString spot half read (part.chars ++ rest) = .error e) ∨
      ∃ half' read', ∀ spot rest, ∃ next,
        readString spot half read (part.chars ++ rest) = readString next half' read' rest := by
  cases part with
  | plain c h =>
      cases half with
      | none => exact .inr ⟨none, c :: read, fun spot rest => ⟨_, readString_plain spot read h rest⟩⟩
      | some first =>
          refine .inl fun spot rest => ⟨JsonFault.unfinishedSurrogates.at (spot.ahead (c :: rest)), ?_⟩
          have hslash : c ≠ '\\' := h.2.1
          simp only [chars, List.singleton_append]
          rw [readString]
          · rw [Option.isSome_some, if_pos rfl]
          all_goals simp_all
  | short letter h =>
      obtain ⟨hletter, c, hc⟩ := exists_shortEscape? h
      cases half with
      | none => exact .inr ⟨none, c :: read, fun spot rest => ⟨_, readString_short spot read hletter hc rest⟩⟩
      | some first =>
          refine .inl fun spot rest =>
            ⟨JsonFault.unfinishedSurrogates.at ((spot.next '\\').ahead (letter :: rest)), ?_⟩
          simp only [chars, List.cons_append, List.nil_append]
          rw [readString]
          all_goals simp_all
  | unit a b c d h =>
      obtain ⟨n, hn⟩ := exists_hexValue4? h
      exact readString_unit hn half read

end StringPart

/-- A string is passed over as a whole. -/
theorem skipString_parts (parts : List StringPart) (spot : Spot) (count : Nat) (rest : List Char) :
    skipString spot count (parts.flatMap StringPart.chars ++ '"' :: rest) =
      .ok (count + (parts.flatMap StringPart.chars).length + 1) := by
  induction parts generalizing spot count with
  | nil => rw [List.flatMap_nil, List.nil_append, skipString]; rfl
  | cons part parts ih =>
      rw [List.flatMap_cons, List.append_assoc]
      obtain ⟨next, hnext⟩ := part.skipString_append spot count
        (parts.flatMap StringPart.chars ++ '"' :: rest)
      rw [hnext, ih, List.length_append]
      congr 1
      omega

/-- A string is read as the same text, or not at all, wherever it stands. -/
theorem exists_readString_parts (parts : List StringPart) (half : Option Nat) (read : List Char) :
    ∃ value : Option (List Char), ∀ spot rest,
      (readString spot half read (parts.flatMap StringPart.chars ++ '"' :: rest)).toOption = value := by
  induction parts generalizing half read with
  | nil =>
      cases half with
      | none =>
          refine ⟨some read.reverse, fun spot rest => ?_⟩
          rw [List.flatMap_nil, List.nil_append, readString]
          · rfl
          all_goals simp
      | some first =>
          refine ⟨none, fun spot rest => ?_⟩
          rw [List.flatMap_nil, List.nil_append, readString]
          · rfl
          all_goals simp
  | cons part parts ih =>
      rcases part.readString_append half read with hfails | ⟨half', read', hgoes⟩
      · refine ⟨none, fun spot rest => ?_⟩
        rw [List.flatMap_cons, List.append_assoc]
        obtain ⟨e, he⟩ := hfails spot (parts.flatMap StringPart.chars ++ '"' :: rest)
        rw [he]
        rfl
      · obtain ⟨value, hvalue⟩ := ih half' read'
        refine ⟨value, fun spot rest => ?_⟩
        rw [List.flatMap_cons, List.append_assoc]
        obtain ⟨next, hnext⟩ := hgoes spot (parts.flatMap StringPart.chars ++ '"' :: rest)
        rw [hnext, hvalue]

theorem toOption_map {ε α β : Type} (f : α → β) (x : Except ε α) :
    (x.map f).toOption = x.toOption.map f := by
  cases x <;> rfl

/-! ## Tokens as lexemes -/

/-- A token is one lexeme, which shows the same everywhere. -/
theorem Token.exists_shape (t : Token) : ∃ c cs shape, t.chars = c :: cs ∧ isSeparator c = false ∧
    ∀ spot rest, (t.isMark = false → EndsNumber rest) →
      (kindAt spot c (cs ++ rest)).1.shape = shape ∧ (kindAt spot c (cs ++ rest)).2 = cs.length := by
  cases t with
  | mark m => cases m <;> exact ⟨_, _, _, rfl, rfl, fun _ _ _ => ⟨rfl, rfl⟩⟩
  | word w =>
      refine ⟨w.letters.head!, w.letters.tail, .word w, ?_⟩
      cases w <;> simp [Token.chars, Word.letters, isSeparator, kindAt, checkWord, Kind.shape]
  | string parts =>
      obtain ⟨value, hvalue⟩ := exists_readString_parts parts none []
      refine ⟨'"', _, .string (value.map String.ofList), rfl, by decide, fun spot rest _ => ?_⟩
      rw [List.append_assoc, List.singleton_append, kindAt, if_pos rfl, skipString_parts]
      simp [Kind.shape, toOption_map, hvalue]
  | number n =>
      obtain ⟨c, cs, hchars, hc⟩ := n.exists_cons
      refine ⟨c, cs, .number n.numeral.value.toOption, hchars, isSeparator_of_startsNumber hc,
        fun spot rest hrest => ?_⟩
      have hscan := fun reading => n.scanNumber_append reading spot (hrest rfl)
      rw [hchars, List.cons_append] at hscan
      have hlength : n.numeral.length - 1 = cs.length := by simp [Number.numeral, hchars]
      simp only [kindAt_of_scanNumber hc (hscan false), hlength, Kind.shape, readNumber, hscan, bind,
        Except.bind, and_true]
      cases n.numeral.value <;> rfl

/-! ## Texts as lexemes -/

/-- Whether one of any two tokens next to each other is a mark. -/
def IsParted (tokens : List Token) : Prop :=
  tokens.IsChain fun front behind => front.isMark = false → behind.isMark = true

theorem IsParted.singleton (t : Token) : IsParted [t] := List.isChain_singleton t

theorem IsParted.mark {tokens : List Token} (h : IsParted tokens) (m : Mark) :
    IsParted (.mark m :: tokens) :=
  List.isChain_cons.mpr ⟨fun _ _ hm => Bool.noConfusion hm, h⟩

theorem IsParted.append_mark {front behind : List Token} (hfront : IsParted front) (m : Mark)
    (hbehind : IsParted behind) : IsParted (front ++ .mark m :: behind) := by
  refine List.isChain_append.mpr ⟨hfront, hbehind.mark m, fun t _ other hother _ => ?_⟩
  obtain rfl := Option.mem_some.mp hother
  rfl

theorem isParted_listed {groups : List (List Token)} (h : ∀ group ∈ groups, IsParted group) :
    IsParted (listed false groups) := by
  induction groups with
  | nil => exact List.isChain_nil
  | cons group groups ih =>
      obtain ⟨hgroup, hgroups⟩ := List.forall_mem_cons.mp h
      cases groups with
      | nil => simpa [listed] using hgroup
      | cons second groups => exact hgroup.append_mark .comma (ih hgroups)

mutual

/-- The marks of a value part its other tokens. -/
theorem Value.isParted_tokens : (value : Value) → IsParted (value.tokens false)
  | .word _ => .singleton _
  | .number _ => .singleton _
  | .string _ => .singleton _
  | .array items _ =>
      ((isParted_listed (isParted_itemTokens items)).append_mark .closeArray List.isChain_nil).mark .openArray
  | .object entries _ =>
      ((isParted_listed (isParted_entryTokens entries)).append_mark .closeObject List.isChain_nil).mark
        .openObject

theorem isParted_itemTokens : (items : List Value) →
    ∀ group ∈ itemTokens false items, IsParted group
  | [] => List.forall_mem_nil _
  | item :: rest => List.forall_mem_cons.mpr ⟨item.isParted_tokens, isParted_itemTokens rest⟩

theorem isParted_entryTokens : (entries : List (List StringPart × Value)) →
    ∀ group ∈ entryTokens false entries, IsParted group
  | [] => List.forall_mem_nil _
  | (key, value) :: rest => List.forall_mem_cons.mpr
      ⟨(IsParted.singleton (.string key)).append_mark .colon value.isParted_tokens,
        isParted_entryTokens rest⟩

end

theorem IsWhite.isSeparator {gap : List Char} (h : IsWhite gap) : ∀ c ∈ gap, isSeparator c = true := by
  intro c hc
  rcases h c hc with rfl | rfl | rfl | rfl <;> rfl

/-- White space is not cut into anything. -/
theorem IsWhite.exists_cut {gap : List Char} (h : IsWhite gap) (spot : Spot) (cs : List Char) :
    ∃ next, cut spot (gap ++ cs) = cut next cs := by
  induction gap generalizing spot with
  | nil => exact ⟨spot, rfl⟩
  | cons c gap ih =>
      obtain ⟨hc, hgap⟩ := List.forall_mem_cons.mp h.isSeparator
      obtain ⟨next, hnext⟩ := ih (fun d hd => h d (List.mem_cons_of_mem _ hd)) (spot.next c)
      exact ⟨next, by rw [List.cons_append, cut, if_pos hc, hnext]⟩

/-- White space ends a number, and so does a mark. -/
theorem Spaced.endsNumber {tokens : List Token} {cs : List Char} (h : Spaced IsWhite tokens cs)
    (hmark : ∀ t ∈ tokens.head?, t.isMark = true) : EndsNumber cs := by
  have hwhite : ∀ gap rest, IsWhite gap → EndsNumber rest → EndsNumber (gap ++ rest) := by
    intro gap rest hgap hrest
    cases gap with
    | nil => exact hrest
    | cons c gap =>
        rcases hgap c (List.mem_cons_self ..) with rfl | rfl | rfl | rfl <;>
          exact endsNumber_cons rfl (by decide) (by decide) (by decide)
  cases h with
  | nil hgap => simpa using hwhite _ [] hgap endsNumber_nil
  | @cons gap cs t tokens hgap hrest =>
      refine hwhite _ _ hgap ?_
      cases t with
      | mark m => cases m <;> exact endsNumber_cons rfl (by decide) (by decide) (by decide)
      | _ => exact absurd (hmark _ rfl) Bool.false_ne_true

/-- The lexemes of the texts of the same tokens show the same. -/
theorem exists_shapes_cut {tokens : List Token} (h : IsParted tokens) :
    ∃ found, ∀ spot cs, Spaced IsWhite tokens cs → shapes (cut spot cs).1 = found := by
  induction tokens with
  | nil =>
      refine ⟨[], fun spot cs hspaced => ?_⟩
      cases hspaced with
      | nil hgap =>
          obtain ⟨next, hnext⟩ := hgap.exists_cut spot []
          rw [List.append_nil] at hnext
          rw [hnext, cut]
          rfl
  | cons t tokens ih =>
      obtain ⟨hmark, hparted⟩ := List.isChain_cons.mp h
      obtain ⟨found, hfound⟩ := ih hparted
      obtain ⟨c, tail, shape, hchars, hc, hshape⟩ := t.exists_shape
      refine ⟨shape :: found, fun spot cs hspaced => ?_⟩
      cases hspaced with
      | @cons gap cs _ _ hgap hrest =>
          obtain ⟨next, hnext⟩ := hgap.exists_cut spot (t.chars ++ cs)
          obtain ⟨hkind, hcount⟩ := hshape next cs fun hword =>
            hrest.endsNumber fun other hother => hmark other hother hword
          rw [hnext, hchars, List.cons_append, cut, if_neg (by rw [hc]; decide)]
          simp only [shapes, List.map_cons, hkind, hcount, List.drop_left]
          rw [← hfound _ cs hrest]
          rfl

end ScopedCheck.Json.Grammar
