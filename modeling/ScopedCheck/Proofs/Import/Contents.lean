import ScopedCheck.Proofs.Import.Around
import ScopedCheck.Proofs.Import.Leading
/-! # What strings hold

What a string in a source holds does not matter for the imports of the source, as long as the string is
read as one and the matches of the patterns keep to it: a match that starts in a string counts for
nothing, but what it takes behind the string is not searched again. -/

namespace ScopedCheck.Import

open Text Text.Pattern

/-! ## Searches around a string -/

/-- The imports in code that are found at places from a stop on. -/
def entriesAmong (s : Shape) (pieces : List Piece) (stop : Nat) (places : List Place) : List Import :=
  ((s.pattern.findAmong stop places).filter fun found => isCodeAt pieces found.start.offset).map
    (entryOf s.kind)

/-- The pieces of a source with a string in it. -/
def stringPieces (front : List Piece) (quote : Char) (content : List Char) (behind : List Piece) :
    List Piece :=
  front ++ .literal (quote :: (content ++ [quote])) :: behind

theorem charsOf_stringPieces (front : List Piece) (quote : Char) (content : List Char)
    (behind : List Piece) :
    charsOf (stringPieces front quote content behind)
      = around (charsOf front) quote content (charsOf behind) := by
  simp [stringPieces, around, Piece.chars]

theorem isCodeAt_front {front rest : List Piece} {offset : Nat} (h : offset < (charsOf front).length) :
    isCodeAt (front ++ rest) offset = isCodeAt front offset := by
  induction front generalizing offset with
  | nil => simp at h
  | cons piece front ih =>
    cases piece with
    | code c =>
      cases offset with
      | zero => rfl
      | succ offset => exact ih (by simpa [Piece.chars] using h)
    | literal text =>
      rw [List.cons_append, isCodeAt, isCodeAt]
      by_cases hin : text.length ≤ offset
      · rw [ih]
        simp [Piece.chars] at h
        omega
      · simp [hin]

section Search

variable {s : Shape} {front behind : List Piece} {content other : List Char} {quote : Char}
  {stop stop' : Nat}

theorem isCodeAt_within {offset : Nat} (hfront : (charsOf front).length ≤ offset)
    (hlast : offset < (charsOf front).length + content.length + 2) :
    isCodeAt (stringPieces front quote content behind) offset = false := by
  obtain ⟨k, rfl⟩ := Nat.exists_eq_add_of_le hfront
  rw [stringPieces, isCodeAt_append]
  exact isCodeAt_literal (by simp; omega) behind

theorem isCodeAt_behind (k : Nat) :
    isCodeAt (stringPieces front quote content behind) ((charsOf front).length + content.length + 2 + k)
      = isCodeAt behind k := by
  have hlength : (charsOf front).length + content.length + 2 + k
      = (charsOf (front ++ [.literal (quote :: (content ++ [quote]))])).length + k := by
    simp [Piece.chars]
    omega
  rw [stringPieces, List.append_cons, hlength, isCodeAt_append]

theorem OffsetsAlike.lt_iff {front content other : List Char} {n m n' m' : Nat}
    (h : OffsetsAlike front content other n m) (h' : OffsetsAlike front content other n' m') :
    n < n' ↔ m < m' := by
  rcases h with ⟨hn, rfl⟩ | ⟨k, rfl, rfl⟩ <;> rcases h' with ⟨hn', rfl⟩ | ⟨k', rfl, rfl⟩ <;> omega

/-- Searches from places that are alike find alike. -/
theorem entriesAmong_cons_congr {pieces pieces' : List Piece} {chars : List Char} {place place' : Place} {later later' : List Place}
    (hplace : OffsetsAlike chars content other place.offset place'.offset)
    (hstop : OffsetsAlike chars content other stop stop')
    (hcode : isCodeAt pieces place.offset = isCodeAt pieces' place'.offset)
    (hmatch : Option.Rel (FoundAlike s.kind chars content other) (s.pattern.matchAt? place)
      (s.pattern.matchAt? place'))
    (hlater : ∀ stop stop', OffsetsAlike chars content other stop stop' →
      entriesAmong s pieces stop later = entriesAmong s pieces' stop' later') :
    entriesAmong s pieces stop (place :: later) = entriesAmong s pieces' stop' (place' :: later') := by
  have hreached := hplace.lt_iff hstop
  simp only [entriesAmong, findAmong] at hlater ⊢
  by_cases hpassed : place.offset < stop
  · rw [if_pos hpassed, if_pos (hreached.mp hpassed)]
    exact hlater stop stop' hstop
  · rw [if_neg hpassed, if_neg (fun h => hpassed (hreached.mpr h))]
    cases hfound : s.pattern.matchAt? place with
    | none =>
      cases hfound' : s.pattern.matchAt? place' with
      | none => exact hlater stop stop' hstop
      | some found' => rw [hfound, hfound'] at hmatch; cases hmatch
    | some found =>
      cases hfound' : s.pattern.matchAt? place' with
      | none => rw [hfound, hfound'] at hmatch; cases hmatch
      | some found' =>
        rw [hfound, hfound'] at hmatch
        obtain ⟨halike⟩ := hmatch
        have hmoves := hplace.lt_iff halike.stop
        by_cases hmoved : place.offset < found.stop.offset
        · simp only [if_pos hmoved, if_pos (hmoves.mp hmoved), List.filter_cons, start_of_matchAt? hfound,
            start_of_matchAt? hfound', hcode]
          split
          · rw [List.map_cons, List.map_cons, halike.entry, hlater _ _ halike.stop]
          · exact hlater _ _ halike.stop
        · simp only [if_neg hmoved, if_neg (fun h => hmoved (hmoves.mpr h))]
          exact hlater stop stop' hstop

/-- Behind the string, searches find alike. -/
theorem entriesAmong_behind (hstop : OffsetsAlike (charsOf front) content other stop stop') (k : Nat)
    (before : Option Char) (left : List Char) :
    entriesAmong s (stringPieces front quote content behind) stop
        (Place.onward ⟨before, (charsOf front).length + content.length + 2 + k, left⟩)
      = entriesAmong s (stringPieces front quote other behind) stop'
        (Place.onward ⟨before, (charsOf front).length + other.length + 2 + k, left⟩) := by
  induction left generalizing stop stop' before k with
  | nil =>
    rw [Place.onward_nil, Place.onward_nil]
    refine entriesAmong_cons_congr (.inr ⟨k, rfl, rfl⟩) hstop ?_
      (rel_first?_behind s.pattern_avoids_nothing k [] rfl) fun _ _ _ => rfl
    rw [isCodeAt_behind, isCodeAt_behind]
  | cons c left ih =>
    rw [Place.onward_cons, Place.onward_cons]
    refine entriesAmong_cons_congr (.inr ⟨k, rfl, rfl⟩) hstop ?_
      (rel_first?_behind s.pattern_avoids_nothing k (c :: left) rfl)
      fun stop stop' hstop => ih hstop (k + 1) (some c)
    rw [isCodeAt_behind, isCodeAt_behind]

/-- Nothing that counts is found from the places in a string on, and the search goes on behind it at the
latest. -/
theorem entriesAmong_within {taken cs : List Char}
    (hcs : taken ++ cs = charsOf front ++ quote :: (content ++ [quote]))
    (htaken : (charsOf front).length ≤ taken.length)
    (hstays : ∀ mid c left, cs = mid ++ c :: left → ∀ found,
      s.pattern.matchAt? ⟨lastChar none (taken ++ mid), (taken ++ mid).length, c :: left ++ charsOf behind⟩
        = .some found → found.stop.offset ≤ (charsOf front).length + content.length + 2)
    (hstop : stop ≤ (charsOf front).length + content.length + 2) :
    entriesAmong s (stringPieces front quote content behind) stop
        (Place.onward ⟨lastChar none taken, taken.length, cs ++ charsOf behind⟩)
      = entriesAmong s (stringPieces front quote content behind) ((charsOf front).length + content.length + 2)
        (Place.onward ⟨some quote, (charsOf front).length + content.length + 2, charsOf behind⟩) := by
  induction cs generalizing taken stop with
  | nil =>
    obtain rfl : taken = charsOf front ++ quote :: (content ++ [quote]) := by simpa using hcs
    have hlength : (charsOf front ++ quote :: (content ++ [quote])).length
        = (charsOf front).length + content.length + 2 := by
      simp only [List.length_append, List.length_cons, List.length_nil]
      omega
    have hlast : lastChar none (charsOf front ++ quote :: (content ++ [quote])) = .some quote := by simp
    rw [hlength, hlast, List.nil_append, entriesAmong, entriesAmong,
      findAmong_of_le hstop fun _ hmem => le_offset_of_mem_onward hmem]
  | cons c cs ih =>
    have hlength := congrArg List.length hcs
    simp only [List.length_append, List.length_cons, List.length_nil] at hlength
    have hdropped : isCodeAt (stringPieces front quote content behind) taken.length = false :=
      isCodeAt_within htaken (by omega)
    have hnext : ∀ stop, stop ≤ (charsOf front).length + content.length + 2 →
        entriesAmong s (stringPieces front quote content behind) stop
            (Place.onward ⟨.some c, taken.length + 1, cs ++ charsOf behind⟩)
          = entriesAmong s (stringPieces front quote content behind)
            ((charsOf front).length + content.length + 2)
            (Place.onward ⟨.some quote, (charsOf front).length + content.length + 2, charsOf behind⟩) := by
      intro stop hstop
      have hjoined : (taken ++ [c]) ++ cs = charsOf front ++ quote :: (content ++ [quote]) := by
        rw [List.append_assoc]
        exact hcs
      have hlater := ih hjoined (by rw [List.length_append]; omega)
        (fun mid d left hsplit found hfound => ?_) hstop
      · simpa using hlater
      · refine hstays (c :: mid) d left (by rw [hsplit, List.cons_append]) found ?_
        simpa using hfound
    rw [List.cons_append, Place.onward_cons, entriesAmong, findAmong]
    split
    · exact hnext stop hstop
    · split
      · rename_i found hfound
        have hstart := start_of_matchAt? hfound
        have hends := hstays [] c cs rfl found (by simpa using hfound)
        split
        · rw [List.filter_cons_of_neg (by rw [hstart]; simp [hdropped])]
          exact hnext _ hends
        · exact hnext stop hstop
      · exact hnext stop hstop

/-- What starts in a string with the matches kept apart ends in it. -/
theorem KeepsApart.stop_le (hquote : isQuote quote = true)
    (h : KeepsApart (charsOf front) quote content (charsOf behind)) {mid left : List Char} {c : Char}
    (hsplit : quote :: (content ++ [quote]) = mid ++ c :: left) {found : Found}
    (hfound : s.pattern.matchAt? ⟨lastChar none (charsOf front ++ mid), (charsOf front ++ mid).length,
      c :: left ++ charsOf behind⟩ = .some found) :
    found.stop.offset ≤ (charsOf front).length + content.length + 2 := by
  have hlength := congrArg List.length hsplit
  simp only [List.length_append, List.length_cons, List.length_nil] at hlength
  cases mid with
  | nil =>
    obtain ⟨rfl, -⟩ := List.cons.inj hsplit
    obtain ⟨letter, rest, hkeyword, hword, -⟩ := s.exists_keyword
    have hnone : ¬s.keyword.toList <+: quote :: left ++ charsOf behind := by
      rw [hkeyword]
      intro hstarts
      rw [(List.cons_prefix_cons.mp hstarts).1, isWordChar_of_isQuote hquote] at hword
      cases hword
    rw [Shape.matchAt?_eq_none_of_not_prefix hnone] at hfound
    cases hfound
  | cons d mid =>
    have htext : (charsOf front ++ d :: mid) ++ (c :: left ++ charsOf behind)
        = around (charsOf front) quote content (charsOf behind) := by
      rw [around, List.append_assoc, ← List.append_assoc (d :: mid), ← hsplit]
      simp only [List.append_assoc, List.cons_append, List.nil_append]
    have hapart := h.straddles_eq_false htext hfound
    have hstart : found.start.offset = (charsOf front).length + (mid.length + 1) := by
      rw [start_of_matchAt? hfound, List.length_append, List.length_cons]
    simp only [straddles, hstart, Bool.or_eq_false_iff, Bool.and_eq_false_iff, decide_eq_false_iff_not] at hapart
    rw [List.length_cons] at hlength
    omega

/-- Searches find alike from the string on. -/
theorem entriesAmong_string (hquote : isQuote quote = true)
    (hcontent : KeepsApart (charsOf front) quote content (charsOf behind))
    (hother : KeepsApart (charsOf front) quote other (charsOf behind))
    (hstop : OffsetsAlike (charsOf front) content other stop stop') :
    entriesAmong s (stringPieces front quote content behind) stop
        (Place.onward ⟨lastChar none (charsOf front), (charsOf front).length,
          quote :: (content ++ quote :: charsOf behind)⟩)
      = entriesAmong s (stringPieces front quote other behind) stop'
        (Place.onward ⟨lastChar none (charsOf front), (charsOf front).length,
          quote :: (other ++ quote :: charsOf behind)⟩) := by
  have hjoined : ∀ content : List Char, quote :: (content ++ quote :: charsOf behind)
      = quote :: (content ++ [quote]) ++ charsOf behind := by simp
  rw [hjoined, hjoined]
  rcases hstop with ⟨hle, rfl⟩ | ⟨k, rfl, rfl⟩
  · have hstring : ∀ {content : List Char}, KeepsApart (charsOf front) quote content (charsOf behind) →
        entriesAmong s (stringPieces front quote content behind) stop'
            (Place.onward ⟨lastChar none (charsOf front), (charsOf front).length,
              quote :: (content ++ [quote]) ++ charsOf behind⟩)
          = entriesAmong s (stringPieces front quote content behind)
            ((charsOf front).length + content.length + 2)
            (Place.onward ⟨.some quote, (charsOf front).length + content.length + 2, charsOf behind⟩) :=
      fun hapart => entriesAmong_within rfl (Nat.le_refl _)
        (fun _ _ _ hsplit _ hfound => hapart.stop_le hquote hsplit hfound) (by omega)
    rw [hstring hcontent, hstring hother]
    exact entriesAmong_behind (.inr ⟨0, rfl, rfl⟩) 0 (.some quote) (charsOf behind)
  · -- a match has taken the string already
    have hpassed : ∀ content : List Char, entriesAmong s (stringPieces front quote content behind)
          ((charsOf front).length + content.length + 2 + k)
          (Place.onward ⟨lastChar none (charsOf front), (charsOf front).length,
            quote :: (content ++ [quote]) ++ charsOf behind⟩)
        = entriesAmong s (stringPieces front quote content behind)
          ((charsOf front).length + content.length + 2 + k)
          (Place.onward ⟨.some quote, (charsOf front).length + content.length + 2, charsOf behind⟩) := by
      intro content
      have hlength : (charsOf front).length + (quote :: (content ++ [quote])).length
          = (charsOf front).length + content.length + 2 := by simp; omega
      have hlast : ∀ before, lastChar before (quote :: (content ++ [quote])) = .some quote := by simp
      rw [entriesAmong, findAmong_onward (by rw [hlength]; omega), hlast, hlength, entriesAmong]
    rw [hpassed, hpassed]
    exact entriesAmong_behind (.inr ⟨k, rfl, rfl⟩) 0 (.some quote) (charsOf behind)

/-- Searches find alike in front of the string and from there on. -/
theorem entriesAmong_front (hquote : isQuote quote = true) (hannounces : ¬Announces (charsOf front))
    (hbraces : OpensBraces (charsOf front) → '}' ∉ content ∧ '}' ∉ other)
    (hcontent : KeepsApart (charsOf front) quote content (charsOf behind))
    (hother : KeepsApart (charsOf front) quote other (charsOf behind)) {taken cs : List Char}
    (hfront : charsOf front = taken ++ cs)
    (hstop : OffsetsAlike (charsOf front) content other stop stop') :
    entriesAmong s (stringPieces front quote content behind) stop
        (Place.onward ⟨lastChar none taken, taken.length,
          cs ++ quote :: (content ++ quote :: charsOf behind)⟩)
      = entriesAmong s (stringPieces front quote other behind) stop'
        (Place.onward ⟨lastChar none taken, taken.length,
          cs ++ quote :: (other ++ quote :: charsOf behind)⟩) := by
  induction cs generalizing taken stop stop' with
  | nil =>
    obtain rfl : charsOf front = taken := by simpa using hfront
    exact entriesAmong_string hquote hcontent hother hstop
  | cons c cs ih =>
    have hlonger : taken.length < (charsOf front).length := by
      rw [hfront, List.length_append, List.length_cons]
      omega
    rw [List.cons_append, List.cons_append, Place.onward_cons, Place.onward_cons]
    refine entriesAmong_cons_congr (.inl ⟨Nat.le_of_lt (Nat.lt_succ_of_lt hlonger), rfl⟩) hstop ?_ ?_
      fun stop stop' hstop => ?_
    · rw [stringPieces, stringPieces, isCodeAt_front hlonger, isCodeAt_front hlonger]
    · have hmatch := rel_matchAt? s hquote hannounces hbraces hcontent hother hfront
      rwa [List.cons_append, List.cons_append] at hmatch
    · have hjoined : charsOf front = (taken ++ [c]) ++ cs := by rw [hfront, List.append_assoc]; rfl
      simpa using ih hjoined hstop

end Search

/-! ## Sources with a string -/

/-- A string in code of a source: masking leads to its opening quote by some pieces, and its own quote closes
it where its content ends. -/
structure HoldsString (before : List Char) (quote : Char) (content after : List Char) (front : List Piece)
    (b : Behind) : Prop where
  leads : Leads {} (around before quote content after) front b (quote :: (content ++ quote :: after))
  ends : stringLength quote (content ++ quote :: after) = content.length + 1

section Source

variable {before content other after : List Char} {quote : Char} {front front' : List Piece} {b b' : Behind}

theorem HoldsString.maskFrom_eq (hquote : isQuote quote = true)
    (h : HoldsString before quote content after front b) :
    maskFrom {} (around before quote content after)
      = stringPieces front quote content (maskFrom (b.afterLiteral quote) after) := by
  rw [h.leads.maskFrom_eq, maskFrom_string hquote h.ends, stringPieces]

theorem HoldsString.unique (hquote : isQuote quote = true)
    (h : HoldsString before quote content after front b)
    (h' : HoldsString before quote other after front' b') : front = front' ∧ b = b' :=
  h.leads.unique hquote h'.leads

/-- What a string holds does not matter for the imports of a source. The string starts in code whatever it
holds, and nothing that announces a specifier stands in front of it; no match has just one of its ends in
the string, and if the string stands within the braces of an export then it does not close them. -/
theorem scan_around (hquote : isQuote quote = true)
    (hcontent : HoldsString before quote content after front b)
    (hother : HoldsString before quote other after front' b') (hannounces : ¬Announces (charsOf front))
    (hbraces : OpensBraces (charsOf front) → '}' ∉ content ∧ '}' ∉ other)
    (hkeeps : KeepsApart (charsOf front) quote content (charsOf (maskFrom (b.afterLiteral quote) after)))
    (hkeeps' : KeepsApart (charsOf front) quote other (charsOf (maskFrom (b.afterLiteral quote) after))) :
    (scan (String.ofList (around before quote content after))).filter (fun found => found.kind ≠ .reference)
      = (scan (String.ofList (around before quote other after))).filter
          (fun found => found.kind ≠ .reference) := by
  obtain ⟨rfl, rfl⟩ := hcontent.unique hquote hother
  rw [filter_scan, filter_scan, String.toList_ofList, String.toList_ofList, Shape.ofMasked_eq,
    Shape.ofMasked_eq]
  congr 1
  funext s
  rw [ofShape_mask, ofShape_mask, hcontent.maskFrom_eq hquote, hother.maskFrom_eq hquote,
    charsOf_stringPieces, charsOf_stringPieces]
  exact entriesAmong_front hquote hannounces hbraces hkeeps hkeeps' (List.nil_append _).symm
    (.inl ⟨Nat.zero_le _, rfl⟩)

/-- A string behind nothing but plain characters. -/
theorem holdsString_of_isPlain (hbefore : ∀ c ∈ before, isPlain c = true)
    (hends : stringLength quote (content ++ quote :: after) = content.length + 1) :
    HoldsString before quote content after (codeOf before) (before.foldl Behind.afterChar {}) :=
  ⟨leads_of_isPlain hbefore {} (quote :: (content ++ quote :: after)), hends⟩

theorem Announces.exists_ending {cs : List Char} (h : Announces cs) :
    ∃ s : Shape, Shape.lastTwo cs = s.ending := by
  obtain ⟨s, taken, rest, rfl, -, hfits⟩ := h
  have hends := Shape.lastTwo_of_fits hfits
  have htwo : (Shape.lastTwo rest).length = 2 := by
    rw [hends]
    cases s <;> rfl
  exact ⟨s, by rw [Shape.lastTwo_append htwo, hends]⟩

theorem OpensBraces.mem {cs : List Char} (h : OpensBraces cs) : '{' ∈ cs := by
  obtain ⟨taken, rest, rfl, -, _, _, rfl, -, _, _, rfl, -, _, _, rfl, -, _, _, rfl, -, brace, _, rfl, hbrace,
    -⟩ := h
  obtain rfl := fits_text.mp hbrace
  simp

end Source

/-- What stands in front of a string. -/
def constantText : List Char := "const s = ".toList

/-- What stands behind it. -/
def importText : List Char := "; import b from './b';\n".toList

theorem not_announces_constantText : ¬Announces constantText := by
  intro h
  obtain ⟨s, hends⟩ := h.exists_ending
  cases s <;> exact absurd hends (by decide)

/-- An import in a string counts as little as anything else there. -/
theorem scan_around_constantText :
    (scan (String.ofList (around constantText '"' "import './a'".toList importText))).filter
        (fun found => found.kind ≠ .reference)
      = (scan (String.ofList (around constantText '"' "x".toList importText))).filter
        (fun found => found.kind ≠ .reference) := by
  have hplain : ∀ c ∈ constantText, isPlain c = true := by decide
  have hfront : charsOf (codeOf constantText) = constantText := charsOf_codeOf constantText
  refine scan_around (by decide) (holdsString_of_isPlain hplain (by decide +kernel))
    (holdsString_of_isPlain hplain (by decide +kernel)) ?_ ?_ ?_ ?_
  · rw [hfront]
    exact not_announces_constantText
  · rw [hfront]
    exact fun h => absurd h.mem (by decide)
  · rw [hfront]
    unfold KeepsApart
    decide +kernel
  · rw [hfront]
    unfold KeepsApart
    decide +kernel

/-- Words of an import in a string may take the next import for their specifier, and a brace in a string may
end what is exported. -/
theorem some_contents_matter :
    (∃ front b, charsOf front = constantText ∧ ¬Announces (charsOf front) ∧
      HoldsString constantText '"' "x".toList importText front b ∧
      HoldsString constantText '"' "import a from".toList importText front b) ∧
    ((scan (String.ofList (around constantText '"' "x".toList importText))).filter
        (fun found => found.kind ≠ .reference) = [⟨.static, "./b"⟩] ∧
      (scan (String.ofList (around constantText '"' "import a from".toList importText))).filter
        (fun found => found.kind ≠ .reference) = []) ∧
    (scan "export \x7b a as \"b\" \x7d from './a';\n").filter (fun found => found.kind ≠ .reference)
        = [⟨.reExport, "./a"⟩] ∧
      (scan "export \x7b a as \"\x7d\" \x7d from './a';\n").filter
        (fun found => found.kind ≠ .reference) = [] := by
  have hplain : ∀ c ∈ constantText, isPlain c = true := by decide
  have hfront : charsOf (codeOf constantText) = constantText := charsOf_codeOf constantText
  exact ⟨⟨codeOf constantText, _, hfront, hfront ▸ not_announces_constantText,
      holdsString_of_isPlain hplain (by decide +kernel), holdsString_of_isPlain hplain (by decide +kernel)⟩,
    ⟨by decide +kernel, by decide +kernel⟩, by decide +kernel, by decide +kernel⟩

end ScopedCheck.Import
