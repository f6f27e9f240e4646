import Mathlib.Algebra.Ring.Int.Defs
import Mathlib.Data.List.TakeDrop
import ScopedCheck.Json.Lexeme
/-! # Numbers as they are written

A number is scanned as it was written, whatever stands behind it, as long as that does not go on with
the number. -/

namespace ScopedCheck.Lexeme

/-- Whether what stands behind a number ends it. -/
def EndsNumber (rest : List Char) : Prop :=
  ∀ c ∈ rest.head?, c.isDigit = false ∧ c ≠ '.' ∧ c ≠ 'e' ∧ c ≠ 'E'

theorem endsNumber_nil : EndsNumber [] := by simp [EndsNumber]

theorem endsNumber_cons {c : Char} {rest : List Char} (hdigit : c.isDigit = false) (hpoint : c ≠ '.')
    (hsmall : c ≠ 'e') (hlarge : c ≠ 'E') : EndsNumber (c :: rest) := by
  intro d hd
  obtain rfl : c = d := by simpa using hd
  exact ⟨hdigit, hpoint, hsmall, hlarge⟩

/-- Digits, at least one. -/
def AreDigits (cs : List Char) : Prop := cs ≠ [] ∧ ∀ c ∈ cs, c.isDigit = true

/-- What stands behind digits does not go on with them. -/
def EndsDigits (rest : List Char) : Prop := ∀ c ∈ rest.head?, c.isDigit = false

theorem EndsNumber.endsDigits {rest : List Char} (h : EndsNumber rest) : EndsDigits rest :=
  fun c hc => (h c hc).1

theorem AreDigits.exists_cons {cs : List Char} (h : AreDigits cs) :
    ∃ c rest, cs = c :: rest ∧ c.isDigit = true := by
  obtain ⟨hne, hdigits⟩ := h
  cases cs with
  | nil => exact absurd rfl hne
  | cons c rest => exact ⟨c, rest, rfl, hdigits c (List.mem_cons_self ..)⟩

theorem spanLoop_append {cs rest read : List Char} (hcs : ∀ c ∈ cs, c.isDigit = true)
    (hrest : EndsDigits rest) :
    List.span.loop Char.isDigit (cs ++ rest) read = (read.reverse ++ cs, rest) := by
  induction cs generalizing read with
  | nil =>
      cases rest with
      | nil => simp [List.span.loop]
      | cons c rest => simp [List.span.loop, hrest c rfl]
  | cons c cs ih =>
      rw [List.cons_append, List.span.loop, hcs c (List.mem_cons_self ..)]
      simp only
      rw [ih fun d hd => hcs d (List.mem_cons_of_mem _ hd)]
      simp

theorem digits_append {cs rest : List Char} (hcs : ∀ c ∈ cs, c.isDigit = true)
    (hrest : EndsDigits rest) : digits (cs ++ rest) = (cs, rest) := by
  rw [digits, List.span, spanLoop_append hcs hrest]
  rfl

theorem ne_of_isDigit {c d : Char} (hc : c.isDigit = true) (hd : d.isDigit = false) : c ≠ d := by
  rintro rfl
  rw [hc] at hd
  cases hd

/-! ## Scanning -/

/-- The digits before the point: a single zero, or digits that do not start with one. -/
def IsWhole (cs : List Char) : Prop := AreDigits cs ∧ (cs = ['0'] ∨ cs.head? ≠ some '0')

theorem scanWhole_append (reading : Bool) (spot : Spot) {cs rest : List Char} (hcs : IsWhole cs)
    (hrest : EndsDigits rest) : scanWhole reading spot (cs ++ rest) = .ok cs := by
  obtain ⟨hdigits, hzero⟩ := hcs
  rcases hzero with rfl | hzero
  · cases rest with
    | nil => rfl
    | cons c rest =>
        have hc := hrest c rfl
        simp [scanWhole, hc]
  · obtain ⟨c, tail, rfl, hc⟩ := hdigits.exists_cons
    have hne : c ≠ '0' := by simpa using hzero
    have hspan := digits_append hdigits.2 hrest
    rw [List.cons_append] at hspan ⊢
    unfold scanWhole
    split
    · rename_i h
      cases h
    · rename_i h
      exact absurd (List.cons.inj h).1 hne
    · rename_i h
      obtain ⟨rfl, rfl⟩ := List.cons.inj h
      simp [hc, hspan]

theorem scanFraction_append (reading : Bool) (spot : Spot) {cs rest : List Char}
    (hcs : AreDigits cs) (hrest : EndsDigits rest) :
    scanFraction reading spot (cs ++ rest) = .ok cs := by
  obtain ⟨c, tail, rfl, hc⟩ := hcs.exists_cons
  have hspan := digits_append hcs.2 hrest
  rw [List.cons_append] at hspan ⊢
  simp [scanFraction, hc, hspan]

theorem scanFraction?_append (reading : Bool) (spot : Spot) {fraction : Option (List Char)}
    {rest : List Char} (hfraction : ∀ digits ∈ fraction, AreDigits digits)
    (hrest : EndsDigits rest) (hpoint : rest.head? ≠ some '.') :
    scanFraction? reading spot (pointed fraction ++ rest) = .ok fraction := by
  cases fraction with
  | none =>
      unfold scanFraction?
      split
      · rename_i h
        rw [pointed, List.nil_append] at h
        rw [h] at hpoint
        exact absurd rfl hpoint
      · rfl
  | some digits =>
      rw [pointed, List.cons_append, scanFraction?, scanFraction_append _ _ (hfraction digits rfl) hrest]
      rfl

/-- The sign of a power, which is always written. -/
def signChar (negative : Bool) : Char := if negative then '-' else '+'

theorem scanPower_append (reading : Bool) (spot : Spot) (negative : Bool) {cs rest : List Char}
    (hcs : AreDigits cs) (hrest : EndsDigits rest) :
    scanPower reading spot (signChar negative :: (cs ++ rest)) = .ok (1, negative, cs) := by
  obtain ⟨c, tail, rfl, hc⟩ := hcs.exists_cons
  have hspan := digits_append hcs.2 hrest
  rw [List.cons_append] at hspan ⊢
  cases negative with
  | true => simp [scanPower, signChar, hc, hspan]
  | false => simp [scanPower, signChar, hc, hspan]

/-- A power with its letter. -/
def lettered : Option (Bool × List Char) → List Char
  | none => []
  | some (negative, digits) => 'e' :: signChar negative :: digits

theorem scanPower?_append (reading : Bool) (spot : Spot) {power : Option (Bool × List Char)}
    {rest : List Char} (hpower : ∀ p ∈ power, AreDigits p.2) (hrest : EndsNumber rest) :
    scanPower? reading spot (lettered power ++ rest) =
      .ok (power.map fun p => (1, p.1, p.2)) := by
  cases power with
  | none =>
      cases rest with
      | nil => rfl
      | cons c rest =>
          obtain ⟨-, -, hsmall, hlarge⟩ := hrest c rfl
          simp [lettered, scanPower?, hsmall, hlarge]
  | some p =>
      have hscan := scanPower_append reading (spot.next 'e') p.1 (hpower p rfl) hrest.endsDigits
      simp only [lettered, List.cons_append, scanPower?, true_or, if_true, hscan]
      rfl

/-- The parts of a number that is written down. -/
structure Written where
  negative : Bool
  whole : List Char
  fraction : Option (List Char) := none
  /-- Whether the power is negative, and its digits. -/
  power : Option (Bool × List Char) := none

namespace Written

/-- The number without its sign. -/
def sizeChars (w : Written) : List Char := w.whole ++ (pointed w.fraction ++ lettered w.power)

/-- The number as a text. -/
def chars (w : Written) : List Char := (if w.negative then ['-'] else []) ++ w.sizeChars

/-- The parts as they are scanned. -/
def numeral (w : Written) (beforePower : Nat) : Numeral where
  negative := w.negative
  whole := w.whole
  fraction := w.fraction
  power := w.power
  beforePower := beforePower
  length := w.chars.length

/-- Whether the parts are digits where there have to be some. -/
structure IsProper (w : Written) : Prop where
  whole : IsWhole w.whole
  fraction : ∀ digits ∈ w.fraction, AreDigits digits
  power : ∀ p ∈ w.power, AreDigits p.2

theorem head?_lettered (power : Option (Bool × List Char)) {rest : List Char}
    (hrest : EndsNumber rest) :
    EndsDigits (lettered power ++ rest) ∧ (lettered power ++ rest).head? ≠ some '.' := by
  cases power with
  | none =>
      refine ⟨hrest.endsDigits, fun h => ?_⟩
      exact (hrest '.' h).2.1 rfl
  | some p =>
      refine ⟨fun c hc => ?_, by simp [lettered]⟩
      obtain rfl : 'e' = c := by simpa [lettered] using hc
      rfl

theorem endsDigits_pointed (fraction : Option (List Char)) {rest : List Char}
    (hrest : EndsDigits rest) : EndsDigits (pointed fraction ++ rest) := by
  cases fraction with
  | none => exact hrest
  | some digits =>
      intro c hc
      obtain rfl : '.' = c := by simpa [pointed] using hc
      rfl

/-- A number only starts with a minus sign if it is negative. -/
theorem IsProper.takeSign {w : Written} (h : w.IsProper) (rest : List Char) :
    Lexeme.takeSign (w.chars ++ rest) = (w.negative, w.sizeChars ++ rest) := by
  cases hnegative : w.negative with
  | true => simp [chars, hnegative, Lexeme.takeSign]
  | false =>
      obtain ⟨c, tail, hwhole, hc⟩ := h.whole.1.exists_cons
      have hne : c ≠ '-' := ne_of_isDigit hc rfl
      simp only [chars, hnegative, Bool.false_eq_true, if_false, List.nil_append]
      unfold Lexeme.takeSign
      split
      · rename_i hcs
        rw [sizeChars, hwhole] at hcs
        exact absurd (List.cons.inj hcs).1 hne
      · rfl

/-- A number is scanned as it was written. -/
theorem IsProper.scanNumber {w : Written} (h : w.IsProper) (reading : Bool) (spot : Spot)
    {rest : List Char} (hrest : EndsNumber rest) :
    ∃ beforePower,
      Lexeme.scanNumber reading spot (w.chars ++ rest) = .ok (w.numeral beforePower) := by
  obtain ⟨hends, hpoint⟩ := head?_lettered w.power hrest
  have hsize : w.sizeChars ++ rest = w.whole ++ (pointed w.fraction ++ (lettered w.power ++ rest)) := by
    simp [sizeChars]
  have hwhole := fun spot => scanWhole_append reading spot h.whole (endsDigits_pointed w.fraction hends)
  have hfraction := fun spot => scanFraction?_append reading spot h.fraction hends hpoint
  have hpower := fun spot => scanPower?_append reading spot h.power hrest
  unfold Lexeme.scanNumber
  simp only [h.takeSign, hsize, hwhole, bind, Except.bind, List.drop_left, hfraction, hpower]
  have hlength : w.chars.length = (if w.negative then 1 else 0) + w.whole.length +
      (pointed w.fraction).length + (lettered w.power).length := by
    cases hnegative : w.negative with
    | true =>
        simp only [chars, sizeChars, hnegative, if_true, List.length_append, List.length_singleton]
        omega
    | false =>
        simp only [chars, sizeChars, hnegative, Bool.false_eq_true, if_false, List.nil_append,
          List.length_append]
        omega
  simp only [numeral, hlength]
  cases hcase : w.power with
  | none => exact ⟨_, rfl⟩
  | some p =>
      refine ⟨(if w.negative then 1 else 0) + w.whole.length + (pointed w.fraction).length + 1 + 1, ?_⟩
      simp only [Option.map_some, lettered, List.length_cons]
      simp only [pure, Except.pure, Except.ok.injEq, Numeral.mk.injEq, true_and]
      omega

end Written

/-! ## Reading -/

theorem takeDigits_le {limit significand : Nat} (h : significand ≤ limit) (cs : List Char) :
    (takeDigits limit significand cs).1 ≤ limit := by
  induction cs generalizing significand with
  | nil => exact h
  | cons c cs ih =>
      rw [takeDigits]
      split
      · exact h
      · exact ih (by omega)

theorem length_takeDigits_le (limit significand : Nat) (cs : List Char) :
    (takeDigits limit significand cs).2.length ≤ cs.length := by
  induction cs generalizing significand with
  | nil => simp [takeDigits]
  | cons c cs ih =>
      rw [takeDigits]
      split
      · exact Nat.le_refl _
      · exact Nat.le_succ_of_le (ih _)

theorem le_ofDigitChars (cs : List Char) (significand : Nat) :
    significand ≤ Nat.ofDigitChars 10 cs significand := by
  rw [Nat.ofDigitChars_eq_ofDigitChars_zero]
  have hpos : 1 ≤ 10 ^ cs.length := Nat.one_le_pow _ _ (by decide)
  calc significand = 1 * significand := (Nat.one_mul _).symm
    _ ≤ 10 ^ cs.length * significand := Nat.mul_le_mul_right _ hpos
    _ ≤ _ := Nat.le_add_right _ _

/-- Digits whose value stays in range are all taken. -/
theorem takeDigits_eq {limit significand : Nat} {cs : List Char}
    (h : Nat.ofDigitChars 10 cs significand ≤ limit) :
    takeDigits limit significand cs = (Nat.ofDigitChars 10 cs significand, []) := by
  induction cs generalizing significand with
  | nil => simp [takeDigits]
  | cons c cs ih =>
      rw [Nat.ofDigitChars_cons] at h ⊢
      have hlonger : significand * 10 + digitValue c = 10 * significand + (c.toNat - '0'.toNat) := by
        rw [digitValue, Nat.mul_comm]
      have hle := le_ofDigitChars cs (10 * significand + (c.toNat - '0'.toNat))
      rw [takeDigits]
      simp only [hlonger]
      rw [if_neg (by omega), ih h]

/-- What was written is read as the value of what was scanned. -/
theorem readNumber_written {w : Written} (h : w.IsProper) (spot : Spot) {rest : List Char}
    (hrest : EndsNumber rest) :
    ∃ beforePower, ∀ number, (w.numeral beforePower).value = .ok number →
      readNumber spot (w.chars ++ rest) = .ok number := by
  obtain ⟨beforePower, hscan⟩ := h.scanNumber true spot hrest
  refine ⟨beforePower, fun number hvalue => ?_⟩
  simp only [readNumber, hscan, bind, Except.bind, hvalue]
  rfl

/-! ## Whole numbers -/

theorem isWhole_toDigits (n : Nat) : IsWhole (Nat.toDigits 10 n) := by
  refine ⟨⟨Nat.toDigits_ne_nil, fun c hc =>
    Nat.isDigit_of_mem_toDigits (by decide) (by decide) hc⟩, ?_⟩
  induction n using Nat.strongRecOn with
  | ind n ih =>
      rw [Nat.toDigits_eq_if (by decide)]
      split
      · rename_i hn
        by_cases hzero : n = 0
        · subst hzero
          exact Or.inl rfl
        · right
          have hdigit : ∀ m < 10, m ≠ 0 → ¬[Nat.digitChar m].head? = some '0' := by decide
          exact hdigit n hn hzero
      · rename_i hn
        right
        rw [List.head?_append]
        rcases ih (n / 10) (by omega) with hzero | hhead
        · -- the front of a number with more digits is not zero
          have hvalue := Nat.ofDigitChars_ten_toDigits (n := n / 10)
          rw [hzero] at hvalue
          simp [Nat.ofDigitChars] at hvalue
          omega
        · obtain ⟨c, cs, hcs⟩ := List.exists_cons_of_ne_nil (Nat.toDigits_ne_nil (n := n / 10) (b := 10))
          rw [hcs] at hhead ⊢
          simpa using hhead

/-- A whole number as it is written. -/
def Written.ofInt (n : Int) : Written where
  negative := n < 0
  whole := Nat.toDigits 10 n.natAbs

theorem Written.isProper_ofInt (n : Int) : (Written.ofInt n).IsProper :=
  ⟨isWhole_toDigits _, by simp [ofInt], by simp [ofInt]⟩

theorem Written.chars_ofInt (n : Int) : (Written.ofInt n).chars = (toString n).toList := by
  cases n with
  | ofNat n => simp [chars, sizeChars, ofInt, pointed, lettered, toString, Int.repr]
  | negSucc n => simp [chars, sizeChars, ofInt, pointed, lettered, toString, Int.repr, Int.negSucc_lt_zero]

/-- The numbers that are kept exactly. -/
def IsExact (n : Int) : Prop := -2 ^ 63 ≤ n ∧ n < 2 ^ 64

/-- A number that is kept exactly has the value that was written. -/
theorem value_ofInt {n : Int} (hn : IsExact n) (beforePower : Nat) :
    ((Written.ofInt n).numeral beforePower).value = .ok (.int n) := by
  obtain ⟨hlow, hhigh⟩ := hn
  have hrange : n.natAbs ≤ maxSignificand := by
    rw [maxSignificand]
    omega
  have hwhole : takeDigits maxSignificand 0 (Nat.toDigits 10 n.natAbs) = (n.natAbs, []) := by
    rw [takeDigits_eq] <;> rw [Nat.ofDigitChars_ten_toDigits]
    exact hrange
  simp only [Numeral.value, Written.numeral, Written.ofInt, hwhole, Option.isSome_none,
    List.isEmpty_nil, Bool.not_true, Bool.or_self, Bool.false_eq_true, if_false]
  by_cases hneg : n < 0
  · have hsmall : (1 ≤ n.natAbs && n.natAbs ≤ 0x8000000000000000) = true := by
      simp only [Bool.and_eq_true, decide_eq_true_eq]
      omega
    have hvalue : -(n.natAbs : Int) = n := by omega
    simp only [hneg, decide_true, Bool.not_true, Bool.false_eq_true, if_false, hsmall, if_true, hvalue]
  · have hvalue : (n.natAbs : Int) = n := by omega
    simp only [hneg, decide_false, Bool.not_false, if_true, hvalue]

end ScopedCheck.Lexeme
