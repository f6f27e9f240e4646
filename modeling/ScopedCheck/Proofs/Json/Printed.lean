import ScopedCheck.Proofs.Json.FloatText
import ScopedCheck.Proofs.Json.StringText
import ScopedCheck.Json.Commented
/-! # Printed texts

A printed text is cut into the lexemes that it shows, and to drop comments and trailing commas leaves
it as it is. -/

namespace ScopedCheck

namespace Lexeme

/-- Whether a text is cut into lexemes of certain kinds, with any text behind it that ends a number. -/
def IsCutInto (cs : List Char) (kinds : List Kind) : Prop :=
  ∀ spot rest, EndsNumber rest → ∃ lexemes next, lexemes.map (·.kind) = kinds ∧
    cut spot (cs ++ rest) = (lexemes ++ (cut next rest).1, (cut next rest).2)

theorem isCutInto_nil : IsCutInto [] [] := fun spot _ _ => ⟨[], spot, rfl, by simp⟩

/-- Whether a text still ends a number when it stands in front of another one that does. -/
def ReadyAfterNumber (cs : List Char) : Prop := ∀ rest, EndsNumber rest → EndsNumber (cs ++ rest)

theorem IsCutInto.append {front behind : List Char} {kinds more : List Kind}
    (hfront : IsCutInto front kinds) (hready : ReadyAfterNumber behind)
    (hbehind : IsCutInto behind more) : IsCutInto (front ++ behind) (kinds ++ more) := by
  intro spot rest hrest
  obtain ⟨lexemes, next, hkinds, hcut⟩ := hfront spot (behind ++ rest) (hready rest hrest)
  obtain ⟨others, last, hmore, hcut'⟩ := hbehind next rest hrest
  refine ⟨lexemes ++ others, last, by rw [List.map_append, hkinds, hmore], ?_⟩
  rw [List.append_assoc, hcut, hcut', List.append_assoc]

theorem IsCutInto.blank {c : Char} (hc : isSeparator c = true) {cs : List Char} {kinds : List Kind}
    (h : IsCutInto cs kinds) : IsCutInto (c :: cs) kinds := by
  intro spot rest hrest
  obtain ⟨lexemes, next, hkinds, hcut⟩ := h (spot.next c) rest hrest
  refine ⟨lexemes, next, hkinds, ?_⟩
  rw [List.cons_append, cut, if_pos hc, hcut]

/-- A text that is a single lexeme. -/
theorem isCutInto_singleton {c : Char} {cs : List Char} {kind : Kind} (hc : isSeparator c = false)
    (hkind : ∀ spot rest, EndsNumber rest → kindAt spot c (cs ++ rest) = (kind, cs.length)) :
    IsCutInto (c :: cs) [kind] := by
  intro spot rest hrest
  refine ⟨[⟨kind, spot, spot.ahead (c :: (cs ++ rest)), (spot.next c).after cs⟩],
    (spot.next c).after cs, rfl, ?_⟩
  rw [List.cons_append, cut, if_neg (by rw [hc]; decide)]
  simp only [hkind spot rest hrest, List.take_left, List.drop_left]
  rfl

/-- The marks of a document. -/
def IsMark (c : Char) : Prop := c = '[' ∨ c = ']' ∨ c = '\x7b' ∨ c = '\x7d' ∨ c = ':' ∨ c = ','

theorem IsCutInto.mark {c : Char} (hc : IsMark c) {cs : List Char} {kinds : List Kind}
    (h : IsCutInto cs kinds) : IsCutInto (c :: cs) (.mark c :: kinds) := by
  intro spot rest hrest
  obtain ⟨lexemes, next, hkinds, hcut⟩ := h (spot.next c) rest hrest
  have hkind : isSeparator c = false ∧ kindAt spot c (cs ++ rest) = (.mark c, 0) := by
    rcases hc with rfl | rfl | rfl | rfl | rfl | rfl <;> exact ⟨rfl, rfl⟩
  refine ⟨⟨.mark c, spot, spot.ahead (c :: (cs ++ rest)), spot.next c⟩ :: lexemes, next,
    by rw [List.map_cons, hkinds], ?_⟩
  rw [List.cons_append, cut, if_neg (by rw [hkind.1]; decide)]
  simp only [hkind.2, List.take_zero, List.drop_zero, Spot.after, List.foldl_nil, hcut,
    List.cons_append]

theorem isCutInto_word (word : Word) : IsCutInto word.letters [.word word] := by
  cases word with
  | null => exact isCutInto_singleton (by decide) fun _ _ _ => by simp [kindAt, Word.letters, checkWord]
  | true => exact isCutInto_singleton (by decide) fun _ _ _ => by simp [kindAt, Word.letters, checkWord]
  | false => exact isCutInto_singleton (by decide) fun _ _ _ => by simp [kindAt, Word.letters, checkWord]

/-- A shown string is one lexeme. -/
theorem isCutInto_string (s : String) : IsCutInto (Json.stringText s).toList [.string (.ok s)] := by
  rw [Json.stringText, String.toList_ofList, List.cons_append]
  refine isCutInto_singleton (by decide) fun spot rest _ => ?_
  rw [List.append_assoc, List.singleton_append, kindAt, if_pos rfl, skipString_escaped,
    readString_escaped]
  simp [Except.map]

/-- A number starts with a digit or a minus sign. -/
theorem Written.IsProper.exists_cons {w : Written} (h : w.IsProper) :
    ∃ c cs, w.chars = c :: cs ∧ (c = '-' ∨ c.isDigit = true) := by
  obtain ⟨c, tail, hwhole, hc⟩ := h.whole.1.exists_cons
  cases hnegative : w.negative with
  | true => exact ⟨'-', w.sizeChars, by simp [chars, hnegative], Or.inl rfl⟩
  | false =>
      exact ⟨c, tail ++ (pointed w.fraction ++ lettered w.power),
        by simp [chars, sizeChars, hnegative, hwhole], Or.inr hc⟩

/-- A character that starts a number is none of those that anything else starts with. -/
theorem ne_of_startsNumber {c : Char} (hc : c = '-' ∨ c.isDigit = true) {d : Char} (hminus : d ≠ '-')
    (hdigit : d.isDigit = false) : c ≠ d := by
  rcases hc with rfl | hc
  · exact hminus.symm
  · exact ne_of_isDigit hc hdigit

theorem isSeparator_of_startsNumber {c : Char} (hc : c = '-' ∨ c.isDigit = true) :
    isSeparator c = false := by
  simp [isSeparator, ne_of_startsNumber hc (d := ' ') (by decide) rfl,
    ne_of_startsNumber hc (d := '\n') (by decide) rfl, ne_of_startsNumber hc (d := '\t') (by decide) rfl,
    ne_of_startsNumber hc (d := '\r') (by decide) rfl]

/-- A number that can be scanned is one lexeme, and is read there. -/
theorem kindAt_of_scanNumber {c : Char} (hc : c = '-' ∨ c.isDigit = true) {spot : Spot} {cs : List Char}
    {numeral : Numeral} (hscan : scanNumber false spot (c :: cs) = .ok numeral) :
    kindAt spot c cs = (.number (readNumber spot (c :: cs)), numeral.length - 1) := by
  have hstart : (decide (c = '-') || c.isDigit) = true := by simpa using hc
  rw [kindAt, if_neg (ne_of_startsNumber hc (by decide) rfl), if_neg (ne_of_startsNumber hc (by decide) rfl),
    if_neg (ne_of_startsNumber hc (by decide) rfl), if_neg (ne_of_startsNumber hc (by decide) rfl),
    if_pos hstart]
  simp only [hscan]

/-- A number is one lexeme. -/
theorem isCutInto_number {w : Written} (h : w.IsProper) {number : Number}
    (hvalue : ∀ beforePower, (w.numeral beforePower).value = .ok number) :
    IsCutInto w.chars [.number (.ok number)] := by
  obtain ⟨c, cs, hcs, hc⟩ := h.exists_cons
  rw [hcs]
  refine isCutInto_singleton (isSeparator_of_startsNumber hc) fun spot rest hrest => ?_
  obtain ⟨_, hread⟩ := readNumber_written h spot hrest
  obtain ⟨beforePower, hscan⟩ := h.scanNumber false spot hrest
  have hvalue' := hread _ (hvalue _)
  have hlength : (w.numeral beforePower).length - 1 = cs.length := by
    simp [Written.numeral, hcs]
  rw [hcs, List.cons_append] at hscan hvalue'
  rw [kindAt_of_scanNumber hc hscan, hvalue', hlength]

end Lexeme

namespace Json

open Lexeme Commented

/-! ## What is left as it is -/

/-- Whether a function on texts leaves what stands in front as it is. -/
def Passes (f : List Char → List Char) (cs : List Char) : Prop := ∀ rest, f (cs ++ rest) = cs ++ f rest

theorem passes_nil (f : List Char → List Char) : Passes f [] := fun _ => rfl

theorem Passes.append {f : List Char → List Char} {front behind : List Char} (hfront : Passes f front)
    (hbehind : Passes f behind) : Passes f (front ++ behind) := by
  intro rest
  rw [List.append_assoc, hfront, hbehind, List.append_assoc]

theorem Passes.of_singletons {f : List Char → List Char} {cs : List Char}
    (h : ∀ c ∈ cs, Passes f [c]) : Passes f cs := by
  induction cs with
  | nil => exact passes_nil f
  | cons c cs ih =>
      exact (h c (List.mem_cons_self ..)).append (ih fun d hd => h d (List.mem_cons_of_mem _ hd))

/-- What a string shows is left as it is where plain characters and escapes are. -/
theorem passes_escaped {f : List Char → List Char}
    (hplain : ∀ c, c ≠ '"' → c ≠ '\\' → Passes f [c]) (hescape : ∀ c, Passes f ['\\', c])
    (cs : List Char) : Passes f (cs.flatMap escapedChar) := by
  induction cs with
  | nil => exact passes_nil f
  | cons c cs ih =>
      rw [List.flatMap_cons]
      refine Passes.append ?_ ih
      rcases escapedChar_cases c with ⟨letter, -, -, hc⟩ | ⟨hcontrol, hc⟩ | ⟨⟨hquote, hslash, -⟩, hc⟩
      · rw [hc]
        exact hescape letter
      · have hdigits : ∀ n < 16, hexDigit n ≠ '"' ∧ hexDigit n ≠ '\\' := by decide
        have hhigh := hdigits (c.toNat / 16) (by omega)
        have hlow := hdigits (c.toNat % 16) (by omega)
        rw [hc]
        refine (hescape 'u').append (Passes.of_singletons fun d hd => ?_)
        simp only [List.mem_cons, List.not_mem_nil, or_false] at hd
        rcases hd with rfl | rfl | rfl | rfl
        · exact hplain _ (by decide) (by decide)
        · exact hplain _ (by decide) (by decide)
        · exact hplain _ hhigh.1 hhigh.2
        · exact hplain _ hlow.1 hlow.2
      · rw [hc]
        exact hplain c hquote hslash

/-- Whether a character is left as it is outside strings. -/
def IsCode (c : Char) : Prop := c ≠ '/' ∧ c ≠ '"' ∧ c ≠ ','

theorem stripComments_code {c : Char} (hc : c ≠ '/') (cs : List Char) :
    stripComments .code (c :: cs) = c :: stripComments (if c = '"' then .string else .code) cs := by
  rw [stripComments] <;> simp_all

theorem stripComments_string (s : String) : Passes (stripComments .code) (stringText s).toList := by
  intro rest
  have hinside : Passes (stripComments .string) (s.toList.flatMap escapedChar) := by
    refine passes_escaped (fun c hquote hslash rest => ?_) (fun c rest => ?_) s.toList
    · simp [stripComments, hquote, hslash]
    · simp [stripComments]
  rw [stringText, String.toList_ofList, List.append_assoc, List.cons_append,
    stripComments_code (by decide), if_pos rfl, hinside]
  simp [stripComments]

theorem dropTrailingCommas_string (s : String) :
    Passes (dropTrailingCommas .code) (stringText s).toList := by
  intro rest
  have hinside : Passes (dropTrailingCommas .string) (s.toList.flatMap escapedChar) := by
    refine passes_escaped (fun c hquote hslash rest => ?_) (fun c rest => ?_) s.toList
    · simp [dropTrailingCommas, hquote, hslash]
    · simp [dropTrailingCommas]
  rw [stringText, String.toList_ofList, List.append_assoc, List.cons_append, dropTrailingCommas]
  simp [hinside _, dropTrailingCommas]

/-! ## Printed texts -/

/-- Whether a text shows certain lexemes and nothing but blanks besides. -/
structure IsPrinted (cs : List Char) (kinds : List Kind) : Prop where
  isCutInto : IsCutInto cs kinds
  comments : Passes (stripComments .code) cs
  commas : Passes (dropTrailingCommas .code) cs

namespace IsPrinted

theorem nil : IsPrinted [] [] := ⟨isCutInto_nil, passes_nil _, passes_nil _⟩

theorem append {front behind : List Char} {kinds more : List Kind} (hfront : IsPrinted front kinds)
    (hready : ReadyAfterNumber behind) (hbehind : IsPrinted behind more) :
    IsPrinted (front ++ behind) (kinds ++ more) :=
  ⟨hfront.isCutInto.append hready hbehind.isCutInto, hfront.comments.append hbehind.comments,
    hfront.commas.append hbehind.commas⟩

theorem passes_code {c : Char} (hc : IsCode c) :
    Passes (stripComments .code) [c] ∧ Passes (dropTrailingCommas .code) [c] := by
  obtain ⟨hslash, hquote, hcomma⟩ := hc
  constructor
  · intro rest
    rw [List.singleton_append, stripComments_code hslash, if_neg hquote]
    rfl
  · intro rest
    simp [dropTrailingCommas, hquote, hcomma]

/-- A text without strings and commas. -/
theorem of_isCode {cs : List Char} {kinds : List Kind} (h : IsCutInto cs kinds)
    (hcode : ∀ c ∈ cs, IsCode c) : IsPrinted cs kinds :=
  ⟨h, Passes.of_singletons fun c hc => (passes_code (hcode c hc)).1,
    Passes.of_singletons fun c hc => (passes_code (hcode c hc)).2⟩

theorem blank {c : Char} (hc : isSeparator c = true) {cs : List Char} {kinds : List Kind}
    (h : IsPrinted cs kinds) : IsPrinted (c :: cs) kinds := by
  have hcode : IsCode c := by
    refine ⟨?_, ?_, ?_⟩ <;> (rintro rfl; cases hc)
  obtain ⟨hcomments, hcommas⟩ := passes_code hcode
  exact ⟨h.isCutInto.blank hc, hcomments.append h.comments, hcommas.append h.commas⟩

theorem mark {c : Char} (hc : IsMark c) (hcomma : c ≠ ',') {cs : List Char} {kinds : List Kind}
    (h : IsPrinted cs kinds) : IsPrinted (c :: cs) (.mark c :: kinds) := by
  have hcode : IsCode c := by
    refine ⟨?_, ?_, hcomma⟩ <;> (rintro rfl; simp [IsMark] at hc)
  obtain ⟨hcomments, hcommas⟩ := passes_code hcode
  exact ⟨h.isCutInto.mark hc, hcomments.append h.comments, hcommas.append h.commas⟩

/-- A comma that nothing closes behind. -/
theorem comma {cs : List Char} {kinds : List Kind} (h : IsPrinted cs kinds)
    (hopen : ∀ rest, closesNext (cs ++ rest) = false) :
    IsPrinted (',' :: cs) (.mark ',' :: kinds) := by
  refine ⟨h.isCutInto.mark (by simp [IsMark]), ?_, fun rest => ?_⟩
  · have hcomma : Passes (stripComments .code) [','] := by
      intro rest
      rw [List.singleton_append, stripComments_code (by decide), if_neg (by decide)]
      rfl
    exact hcomma.append h.comments
  · simp [dropTrailingCommas, hopen rest, h.commas rest]

theorem string (s : String) : IsPrinted (stringText s).toList [.string (.ok s)] :=
  ⟨isCutInto_string s, stripComments_string s, dropTrailingCommas_string s⟩

theorem word (word : Word) : IsPrinted word.letters [.word word] := by
  refine of_isCode (isCutInto_word word) ?_
  cases word <;> simp [Word.letters, IsCode]

theorem number {w : Written} (h : w.IsProper) {number : Number}
    (hvalue : ∀ beforePower, (w.numeral beforePower).value = .ok number) :
    IsPrinted w.chars [.number (.ok number)] := by
  have hdigit : ∀ c : Char, c.isDigit = true → IsCode c := fun c hc =>
    ⟨ne_of_isDigit hc rfl, ne_of_isDigit hc rfl, ne_of_isDigit hc rfl⟩
  refine of_isCode (isCutInto_number h hvalue) fun c hc => ?_
  simp only [Written.chars, Written.sizeChars, List.mem_append] at hc
  rcases hc with hsign | hwhole | hfraction | hpower
  · split at hsign
    · obtain rfl := List.mem_singleton.mp hsign
      simp [IsCode]
    · cases hsign
  · exact hdigit c (h.whole.1.2 c hwhole)
  · cases hcase : w.fraction with
    | none => simp [hcase, pointed] at hfraction
    | some digits =>
        rw [hcase, pointed, List.mem_cons] at hfraction
        rcases hfraction with rfl | hmem
        · simp [IsCode]
        · exact hdigit c ((h.fraction digits hcase).2 c hmem)
  · cases hcase : w.power with
    | none => simp [hcase, lettered] at hpower
    | some p =>
        rw [hcase, lettered, List.mem_cons, List.mem_cons] at hpower
        rcases hpower with rfl | rfl | hmem
        · simp [IsCode]
        · cases p.1 <;> simp [signChar, IsCode]
        · exact hdigit c ((h.power p hcase).2 c hmem)

end IsPrinted

end Json

end ScopedCheck
