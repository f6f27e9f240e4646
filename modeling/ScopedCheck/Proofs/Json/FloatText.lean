import ScopedCheck.Proofs.Json.Float
/-! # Reading the text of a floating-point number

The digits of a text that is written with a power are all kept, so that such a number is scaled in a
single step. The numbers near the end of the range are the difficult ones: their digits, scaled back,
may round beyond it, but not if they are the fewest digits that show the number. -/

namespace ScopedCheck

namespace Lexeme

open Binary64

/-! ## Decimals near the end of the range -/

/-- The greatest number. -/
def greatest : Binary64 := ⟨false, 2 ^ 53 - 1, maxExponent⟩

theorem shortest_greatest : greatest.shortest = ⟨17976931348623157, 308⟩ := by decide +kernel

/-- The place of the last digit that the greatest number has. -/
def lastPlace : Nat := 10 ^ 146 * 10 ^ 146

theorem ten_pow_add_lastPlace (n : Nat) : 10 ^ (n + 292) = 10 ^ n * lastPlace := by
  rw [lastPlace, ← Nat.mul_assoc, ← Nat.pow_add, ← Nat.pow_add]

theorem ofQuotient_greatest : ofQuotient (17976931348623158 * lastPlace) 1 = some greatest := by
  decide +kernel

theorem overflow_near : overflow ≤ 17976931348623159 * lastPlace ∧
    17976931348623154 * lastPlace * (2 ^ 53 + 1) ^ 2 < overflow * 2 ^ 106 := by
  decide +kernel

theorem tenTo_lt {n : Nat} (hn : n ≤ 308) : 10 ^ n * (2 ^ 53 + 1) ^ 2 < overflow * 2 ^ 106 :=
  lt_of_le_of_lt (Nat.mul_le_mul_right _ (Nat.pow_le_pow_right (by decide) hn)) (by decide +kernel)

theorem overflow_le {n : Nat} (hn : 308 < n) : overflow ≤ 10 ^ n :=
  le_trans (by decide +kernel) (Nat.pow_le_pow_right (by decide) hn)

theorem scaled_greatest (negative : Bool) {digits : Nat} (hlow : 17976931348623154 < digits)
    (hhigh : digits < 17976931348623158) : scaled negative digits 292 ≠ none := by
  have hall : ∀ negative : Bool, ∀ step : Fin 3,
      scaled negative (17976931348623155 + step.val) 292 ≠ none := by decide +kernel
  have h := hall negative ⟨digits - 17976931348623155, by omega⟩
  rwa [show 17976931348623155 + (digits - 17976931348623155) = digits by omega] at h

/-- The product of a decimal that rounds to a number is in range, and so is its lead. -/
theorem range_of_round {digits total count : Nat} {z : Binary64} (hlow : 10 ^ (count - 1) ≤ digits)
    (hround : ofQuotient (digits * 10 ^ total) 1 = some z) :
    digits * 10 ^ total < overflow ∧ count - 1 + total ≤ 308 := by
  have hrange : digits * 10 ^ total < overflow := by
    have h := lt_overflow_of_ofQuotient Nat.one_pos hround
    rw [Nat.cast_one, div_one] at h
    exact_mod_cast h
  refine ⟨hrange, ?_⟩
  by_contra hlarge
  have hle : 10 ^ (count - 1) * 10 ^ total ≤ digits * 10 ^ total := Nat.mul_le_mul_right _ hlow
  rw [← Nat.pow_add] at hle
  have hmore := overflow_le (Nat.lt_of_not_le hlarge)
  exact absurd (hrange.trans_le (hmore.trans hle)) (lt_irrefl _)

/-- The shortest decimal of a number can be scaled, also where the next decimal could not. -/
theorem scaled_shortest_ne_none (negative : Bool) {x : Binary64} {total count : Nat}
    (hcount : 0 < count) (hmost : count ≤ 17) (hdigits : digitCount x.shortest.digits = count)
    (hlow : 10 ^ (count - 1) ≤ x.shortest.digits)
    (hround : ofQuotient (x.shortest.digits * 10 ^ total) 1 = some { x with negative := false }) :
    scaled negative x.shortest.digits total ≠ none := by
  have hhigh : x.shortest.digits < 10 ^ count := (digitCount_le_iff hcount).mp hdigits.le
  obtain ⟨hrange, hlead⟩ := range_of_round hlow hround
  obtain ⟨hmax, hnear⟩ := overflow_near
  by_cases hless : count - 1 + total < 308
  · apply scaled_ne_none_of_le negative (by omega)
    have hle : x.shortest.digits * 10 ^ total ≤ 10 ^ (count + total) := by
      rw [Nat.pow_add]
      exact Nat.mul_le_mul_right _ hhigh.le
    exact lt_of_le_of_lt (Nat.mul_le_mul_right _ hle) (tenTo_lt (by omega))
  · -- the digits as seventeen of them
    obtain ⟨added, hadded⟩ : ∃ added, count + added = 17 := ⟨17 - count, by omega⟩
    have hpower : total ≤ 308 := by omega
    obtain rfl : total = added + 292 := by omega
    rw [ten_pow_add_lastPlace, ← Nat.mul_assoc] at hrange hround
    have hle : x.shortest.digits * 10 ^ added < 17976931348623159 :=
      Nat.lt_of_mul_lt_mul_right (lt_of_lt_of_le hrange hmax)
    by_cases hfar : x.shortest.digits * 10 ^ added ≤ 17976931348623154
    · apply scaled_ne_none_of_le negative hpower
      rw [ten_pow_add_lastPlace, ← Nat.mul_assoc]
      exact lt_of_le_of_lt (Nat.mul_le_mul_right _ (Nat.mul_le_mul_right _ hfar)) hnear
    · have hnone : added = 0 := by
        by_contra hsome
        obtain ⟨k, rfl⟩ := Nat.exists_eq_succ_of_ne_zero hsome
        rw [Nat.pow_succ, ← Nat.mul_assoc] at hle hfar
        omega
      subst hnone
      rw [Nat.pow_zero, Nat.mul_one] at hle hfar hround
      by_cases hlast : x.shortest.digits = 17976931348623158
      · -- this is the greatest number, whose shortest decimal is another one
        rw [hlast, ofQuotient_greatest, Option.some_inj] at hround
        have hshortest : greatest.shortest = x.shortest := by rw [hround]; rfl
        rw [← hshortest, shortest_greatest] at hlast
        exact absurd hlast (by decide)
      · rw [Nat.zero_add]
        exact scaled_greatest negative (Nat.lt_of_not_le hfar)
          (Nat.lt_of_le_of_ne (Nat.le_of_lt_succ hle) hlast)

/-! ## The value of a numeral with a fraction or a power -/

namespace Numeral

/-- The significand that is kept of a numeral. -/
def kept (numeral : Numeral) : Nat × List Char :=
  takeDigits maxSignificand (takeDigits maxSignificand 0 numeral.whole).1 (numeral.fraction.getD [])

/-- The power of ten that the digits which are not kept, and those behind the point, stand for. -/
def shift (numeral : Numeral) : Int :=
  ((takeDigits maxSignificand 0 numeral.whole).2.length : Int) -
    ((numeral.fraction.getD []).length - numeral.kept.2.length : Nat)

/-- The power of ten that is written. -/
def exponent (numeral : Numeral) : Int :=
  match numeral.power with
  | none => 0
  | some (true, digits) => -(Nat.ofDigitChars 10 digits 0 : Nat)
  | some (false, digits) => Nat.ofDigitChars 10 digits 0

theorem kept_le (numeral : Numeral) : numeral.kept.1 ≤ maxSignificand :=
  takeDigits_le (takeDigits_le (Nat.zero_le _) _) _

theorem shift_le (numeral : Numeral) : numeral.shift ≤ numeral.whole.length := by
  have h := length_takeDigits_le maxSignificand 0 numeral.whole
  rw [shift]
  omega

/-- A numeral with a fraction or a power is a number if it can be scaled. -/
theorem exists_value {numeral : Numeral}
    (h : numeral.fraction.isSome = true ∨ numeral.power.isSome = true)
    (hpower : ∀ p ∈ numeral.power, Nat.ofDigitChars 10 p.2 0 ≤ maxPower)
    (hscaled : scaled numeral.negative numeral.kept.1 (numeral.shift + numeral.exponent) ≠ none) :
    ∃ y, numeral.value = .ok (.float y) := by
  obtain ⟨y, hy⟩ := Option.ne_none_iff_exists'.mp hscaled
  refine ⟨y, ?_⟩
  unfold value
  simp only [shift, kept, exponent] at hy
  cases hwritten : numeral.power with
  | none =>
      have hfraction : numeral.fraction.isSome = true := by simpa [hwritten] using h
      rw [hwritten, Int.add_zero] at hy
      simp only [hfraction, Bool.true_or, if_true, hy]
  | some p =>
      obtain ⟨negative, digits⟩ := p
      have hdigits := takeDigits_eq (hpower (negative, digits) hwritten)
      rw [hwritten] at hy
      simp only at hdigits
      cases negative with
      | true =>
          simp only [hdigits, if_true, Int.sub_eq_add_neg] at hy ⊢
          simp only [hy]
      | false => simp only [hdigits, Bool.false_eq_true, if_false, hy]

end Numeral

/-! ## The text of a number -/

theorem areDigits_replicate_append (count : Nat) {digits : List Char} (h : AreDigits digits) :
    AreDigits (List.replicate count '0' ++ digits) := by
  refine ⟨by simp [h.1], fun c hc => ?_⟩
  rcases List.mem_append.mp hc with hzero | hdigit
  · rw [List.eq_of_mem_replicate hzero]
    rfl
  · exact h.2 c hdigit

theorem isWhole_append_replicate (count : Nat) {digits : List Char} (h : AreDigits digits)
    (hzero : digits.head? ≠ some '0') : IsWhole (digits ++ List.replicate count '0') := by
  obtain ⟨c, rest, rfl, hc⟩ := h.exists_cons
  refine ⟨⟨by simp, fun d hd => ?_⟩, Or.inr hzero⟩
  rcases List.mem_append.mp hd with hdigit | hpad
  · exact h.2 d hdigit
  · rw [List.eq_of_mem_replicate hpad]
    rfl

theorem areDigits_drop {digits : List Char} (h : AreDigits digits) {count : Nat}
    (hcount : count < digits.length) : AreDigits (digits.drop count) :=
  ⟨fun hnil => by simp at hnil; omega, fun c hc => h.2 c (List.mem_of_mem_drop hc)⟩

theorem isWhole_take {digits : List Char} (h : AreDigits digits) {count : Nat} (hcount : 0 < count)
    (hzero : digits.head? ≠ some '0' ∨ count = 1) : IsWhole (digits.take count) := by
  obtain ⟨c, rest, rfl, hc⟩ := h.exists_cons
  obtain ⟨count, rfl⟩ : ∃ n, count = n + 1 := ⟨count - 1, by omega⟩
  refine ⟨⟨by simp, fun d hd => h.2 d (List.mem_of_mem_take hd)⟩, ?_⟩
  by_cases hhead : c = '0'
  · obtain rfl : count = 0 := by
      rcases hzero with hzero | hone
      · simp [hhead] at hzero
      · omega
    exact Or.inl (by simp [hhead])
  · exact Or.inr (by simpa using hhead)

namespace Written

/-- Digits in their places. -/
def ofPlaced (negative : Bool) (digits : List Char) (lead : Int) : Written :=
  if lead < 0 then ⟨negative, ['0'], some (List.replicate (-lead - 1).toNat '0' ++ digits), none⟩
  else if digits.length ≤ lead.toNat + 1 then
    ⟨negative, digits ++ List.replicate (lead.toNat + 1 - digits.length) '0', some ['0'], none⟩
  else ⟨negative, digits.take (lead.toNat + 1), some (digits.drop (lead.toNat + 1)), none⟩

/-- Digits with a power of ten behind them. -/
def ofPowered (negative : Bool) (digits : List Char) (lead : Int) : Written where
  negative := negative
  whole := digits.take 1
  fraction := if digits.length ≤ 1 then none else some (digits.drop 1)
  power := some (lead < 0, Nat.toDigits 10 lead.natAbs)

/-- A sign, if it is written. -/
def sign (negative : Bool) : List Char := if negative then ['-'] else []

theorem chars_ofPlaced (negative : Bool) (digits : List Char) (lead : Int) :
    (ofPlaced negative digits lead).chars = sign negative ++ placed digits lead := by
  unfold ofPlaced placed
  split
  · simp [chars, sizeChars, sign, pointed, lettered]
  · simp only
    split <;> simp [chars, sizeChars, sign, pointed, lettered]

theorem chars_ofPowered (negative : Bool) (digits : List Char) (lead : Int) :
    (ofPowered negative digits lead).chars = sign negative ++ withPower digits lead := by
  have hsign : (if lead < 0 then '-' else '+') = signChar (lead < 0) := by
    simp [signChar]
  unfold ofPowered withPower
  rw [hsign]
  rcases digits with _ | ⟨digit, _ | ⟨second, rest⟩⟩ <;>
    simp [chars, sizeChars, sign, pointed, lettered]

theorem isProper_ofPlaced (negative : Bool) {digits : List Char} {lead : Int}
    (h : AreDigits digits) (hzero : digits.head? ≠ some '0' ∨ digits = ['0'] ∧ lead = 0) :
    (ofPlaced negative digits lead).IsProper := by
  unfold ofPlaced
  split
  · refine ⟨⟨⟨by simp, by simp⟩, Or.inl rfl⟩, ?_, by simp⟩
    intro fraction hfraction
    obtain rfl := Option.mem_some.mp hfraction
    exact areDigits_replicate_append _ h
  · split
    · refine ⟨?_, ?_, by simp⟩
      · rcases hzero with hzero | ⟨rfl, rfl⟩
        · exact isWhole_append_replicate _ h hzero
        · exact ⟨h, Or.inl rfl⟩
      · intro fraction hfraction
        obtain rfl := Option.mem_some.mp hfraction
        exact ⟨by simp, by simp⟩
    · rename_i hshort
      rcases hzero with hzero | ⟨rfl, rfl⟩
      · refine ⟨isWhole_take h (by omega) (Or.inl hzero), ?_, by simp⟩
        intro fraction hfraction
        obtain rfl := Option.mem_some.mp hfraction
        exact areDigits_drop h (by omega)
      · simp at hshort

theorem isProper_ofPowered (negative : Bool) {digits : List Char} (lead : Int)
    (h : AreDigits digits) : (ofPowered negative digits lead).IsProper := by
  refine ⟨isWhole_take h Nat.one_pos (Or.inr rfl), ?_, ?_⟩
  · intro fraction hfraction
    simp only [ofPowered] at hfraction
    split at hfraction
    · cases hfraction
    · obtain rfl := Option.mem_some.mp hfraction
      exact areDigits_drop h (by omega)
  · intro p hp
    obtain rfl := Option.mem_some.mp hp
    exact (isWhole_toDigits _).1

end Written

theorem lead_shortest (x : Binary64) :
    -401 ≤ x.shortest.lead ∧ (x.shortest.digits ≠ 0 ∨ x.shortest.lead = 0) := by
  rcases shortest_spec x with hnone | ⟨count, hcount, -, hsome⟩
  · rw [hnone]
    exact ⟨by decide, Or.inr rfl⟩
  · obtain ⟨n, -, hn, -, -, -, hd⟩ := decimalOf?_spec hsome
    have hlead := le_leadOf x.quotient.1 x.quotient.2
    rw [hd]
    split
    · rename_i hmore
      refine ⟨by dsimp only; omega, Or.inl fun hzero => ?_⟩
      -- a number with more than one digit has a digit in front of the last one
      have hten : n < 10 ^ 1 := by
        simp only at hzero
        omega
      have hone := (digitCount_le_iff Nat.one_pos).mpr hten
      omega
    · exact ⟨by dsimp only; omega, Or.inl hn⟩

/-- The shortest decimal of a large number is a whole number that rounds to it. -/
theorem shortest_of_large {x : Binary64} (h : 17 < x.shortest.lead) :
    ∃ total count : Nat, 0 < count ∧ count ≤ 17 ∧ x.shortest.lead = total + (count - 1 : Nat) ∧
      digitCount x.shortest.digits = count ∧ 10 ^ (count - 1) ≤ x.shortest.digits ∧
      ofQuotient (x.shortest.digits * 10 ^ total) 1 = some { x with negative := false } := by
  rcases shortest_spec x with hnone | ⟨count, hcount, hmost, hsome⟩
  · rw [hnone] at h
    exact absurd h (by decide)
  · obtain ⟨n, -, -, -, -, -, hd⟩ := decimalOf?_spec hsome
    have hnear : x.shortest.lead ≤ leadOf x.quotient.1 x.quotient.2 + 1 := by
      rw [hd]
      split <;> dsimp only <;> omega
    obtain ⟨lead, hlead⟩ : ∃ lead : Nat, leadOf x.quotient.1 x.quotient.2 = lead :=
      ⟨(leadOf x.quotient.1 x.quotient.2).toNat, by omega⟩
    rw [hlead] at hsome
    obtain ⟨total, htotal, hdigits, hlow, hround⟩ :=
      roundsTo_shortest hcount (by omega) hlead hsome
    exact ⟨total, count, hcount, hmost, htotal, hdigits, hlow, hround⟩

/-! ## Reading the text -/

/-- A number whose digits are written in their places is in range. -/
theorem exists_value_ofPlaced (negative : Bool) (digits : List Char) {lead : Int} (hlead : lead ≤ 15)
    (beforePower : Nat) :
    ∃ y, ((Written.ofPlaced negative digits lead).numeral beforePower).value = .ok (.float y) := by
  have hparts : (Written.ofPlaced negative digits lead).fraction.isSome = true ∧
      (Written.ofPlaced negative digits lead).power = none ∧
      (Written.ofPlaced negative digits lead).whole.length ≤ 16 := by
    unfold Written.ofPlaced
    split
    · exact ⟨rfl, rfl, by simp⟩
    · split
      · refine ⟨rfl, rfl, ?_⟩
        simp only [List.length_append, List.length_replicate]
        omega
      · refine ⟨rfl, rfl, ?_⟩
        simp only [List.length_take]
        omega
  obtain ⟨hfraction, hpower, hwhole⟩ := hparts
  apply Numeral.exists_value (Or.inl hfraction)
  · intro p hp
    simp only [Written.numeral, hpower] at hp
    cases hp
  · apply scaled_ne_none_of_small _ (Numeral.kept_le _)
    refine Int.le_trans (Int.add_le_add_right (Numeral.shift_le _) _) ?_
    simp only [Numeral.exponent, Written.numeral, hpower]
    omega

theorem exponent_ofPowered (negative : Bool) (digits : List Char) (lead : Int) (beforePower : Nat) :
    ((Written.ofPowered negative digits lead).numeral beforePower).exponent = lead := by
  simp only [Numeral.exponent, Written.numeral, Written.ofPowered]
  by_cases hneg : lead < 0
  · simp only [hneg, decide_true, Nat.ofDigitChars_ten_toDigits]
    omega
  · simp only [hneg, decide_false, Nat.ofDigitChars_ten_toDigits]
    omega

/-- All digits of a number that are written with a power are kept. -/
theorem kept_ofPowered (negative : Bool) {n : Nat} (hn : n ≤ maxSignificand) (lead : Int)
    (beforePower : Nat) :
    ((Written.ofPowered negative (Nat.toDigits 10 n) lead).numeral beforePower).kept = (n, []) ∧
      ((Written.ofPowered negative (Nat.toDigits 10 n) lead).numeral beforePower).shift =
        -(digitCount n - 1 : Nat) := by
  have hfraction : (Written.ofPowered negative (Nat.toDigits 10 n) lead).fraction.getD [] =
      (Nat.toDigits 10 n).drop 1 := by
    simp only [Written.ofPowered]
    split
    · rename_i hone
      exact (List.drop_eq_nil_of_le hone).symm
    · rfl
  have hvalue : Nat.ofDigitChars 10 ((Nat.toDigits 10 n).drop 1)
      (Nat.ofDigitChars 10 ((Nat.toDigits 10 n).take 1) 0) = n := by
    rw [← Nat.ofDigitChars_append, List.take_append_drop, Nat.ofDigitChars_ten_toDigits]
  have hfront := le_ofDigitChars ((Nat.toDigits 10 n).drop 1)
    (Nat.ofDigitChars 10 ((Nat.toDigits 10 n).take 1) 0)
  rw [hvalue] at hfront
  have hwhole : takeDigits maxSignificand 0 ((Nat.toDigits 10 n).take 1) =
      (Nat.ofDigitChars 10 ((Nat.toDigits 10 n).take 1) 0, []) := takeDigits_eq (hfront.trans hn)
  have hkept : ((Written.ofPowered negative (Nat.toDigits 10 n) lead).numeral beforePower).kept =
      (n, []) := by
    simp only [Numeral.kept, Written.numeral, hfraction]
    simp only [Written.ofPowered, hwhole]
    rw [takeDigits_eq] <;> rw [hvalue]
    exact hn
  refine ⟨hkept, ?_⟩
  rw [Numeral.shift, hkept]
  simp only [Written.numeral, hfraction]
  simp only [Written.ofPowered, hwhole, List.length_drop, digitCount, List.length_nil]
  omega

/-- A shortest decimal that is written with a power is in range. -/
theorem exists_value_ofPowered (negative : Bool) (x : Binary64) (beforePower : Nat) :
    ∃ y, ((Written.ofPowered negative (Nat.toDigits 10 x.shortest.digits) x.shortest.lead).numeral
      beforePower).value = .ok (.float y) := by
  have hleast := (lead_shortest x).1
  by_cases hlarge : x.shortest.lead ≤ 199
  · apply Numeral.exists_value (Or.inr rfl)
    · intro p hp
      obtain rfl := Option.mem_some.mp hp
      rw [Nat.ofDigitChars_ten_toDigits, maxPower]
      omega
    · apply scaled_ne_none_of_small _ (Numeral.kept_le _)
      rw [exponent_ofPowered]
      refine Int.le_trans (Int.add_le_add_right (Numeral.shift_le _) _) ?_
      simp only [Written.numeral, Written.ofPowered, List.length_take]
      omega
  · obtain ⟨total, count, hcount, hmost, hlead, hdigits, hlow, hround⟩ :=
      shortest_of_large (x := x) (by omega)
    have hkeeps : x.shortest.digits ≤ maxSignificand := by
      have hhigh : x.shortest.digits < 10 ^ 17 := (digitCount_le_iff (by decide)).mp (by omega)
      rw [maxSignificand]
      omega
    obtain ⟨hkept, hshift⟩ := kept_ofPowered negative hkeeps x.shortest.lead beforePower
    have hscaled := scaled_shortest_ne_none negative hcount hmost hdigits hlow hround
    have hsmall := (range_of_round hlow hround).2
    apply Numeral.exists_value (Or.inr rfl)
    · intro p hp
      obtain rfl := Option.mem_some.mp hp
      rw [Nat.ofDigitChars_ten_toDigits, maxPower]
      omega
    · rw [exponent_ofPowered, hkept, hshift]
      have hpower : -((digitCount x.shortest.digits - 1 : Nat) : Int) + x.shortest.lead = total := by
        omega
      rw [hpower]
      exact hscaled

theorem toDigits_shortest (x : Binary64) :
    (Nat.toDigits 10 x.shortest.digits).head? ≠ some '0' ∨
      Nat.toDigits 10 x.shortest.digits = ['0'] ∧ x.shortest.lead = 0 := by
  rcases (isWhole_toDigits x.shortest.digits).2 with hzero | hhead
  · have hvalue := Nat.ofDigitChars_ten_toDigits (n := x.shortest.digits)
    rw [hzero] at hvalue
    have hlead := (lead_shortest x).2.resolve_left fun h => h hvalue.symm
    exact Or.inr ⟨hzero, hlead⟩
  · exact Or.inl hhead

/-- The text of a number is that of a number that is written. -/
theorem exists_written (x : Binary64) : ∃ w : Written, w.IsProper ∧ w.chars = x.text.toList ∧
    ∀ beforePower, ∃ y, (w.numeral beforePower).value = .ok (.float y) := by
  have hsign : ∀ size : String, ((if x.negative then "-" else "") ++ size).toList =
      Written.sign x.negative ++ size.toList := by
    intro size
    cases x.negative <;> simp [Written.sign]
  rw [text, hsign]
  unfold sizeText
  split
  · refine ⟨Written.ofPlaced x.negative ['0'] 0, ?_, ?_, exists_value_ofPlaced _ _ (by decide)⟩
    · exact Written.isProper_ofPlaced _ ⟨by simp, by simp⟩ (Or.inr ⟨rfl, rfl⟩)
    · rw [Written.chars_ofPlaced]
      rfl
  · simp only [String.toList_ofList]
    have hdigits := (isWhole_toDigits x.shortest.digits).1
    split
    · rename_i hplaced
      have hlead : x.shortest.lead ≤ 15 := of_decide_eq_true (Bool.and_eq_true_iff.mp hplaced).2
      exact ⟨_, Written.isProper_ofPlaced x.negative hdigits (toDigits_shortest x),
        Written.chars_ofPlaced .., exists_value_ofPlaced _ _ hlead⟩
    · exact ⟨_, Written.isProper_ofPowered x.negative x.shortest.lead hdigits,
        Written.chars_ofPowered .., exists_value_ofPowered _ _⟩

end Lexeme

/-- The number that is read from the text of a number. -/
def Binary64.reread (x : Binary64) : Binary64 :=
  match Lexeme.readNumber Spot.first x.text.toList with
  | .ok (.float y) => y
  | _ => x

/-- The text of every number can be read. -/
theorem Binary64.written_text (x : Binary64) : ∃ w : Lexeme.Written, w.IsProper ∧
    w.chars = x.text.toList ∧
      ∀ beforePower, (w.numeral beforePower).value = .ok (.float x.reread) := by
  obtain ⟨w, hproper, hchars, hvalue⟩ := Lexeme.exists_written x
  refine ⟨w, hproper, hchars, fun beforePower => ?_⟩
  obtain ⟨other, hread⟩ := Lexeme.readNumber_written hproper Spot.first Lexeme.endsNumber_nil
  obtain ⟨y, hy⟩ := hvalue other
  have hfirst := hread _ hy
  rw [List.append_nil, hchars] at hfirst
  -- where the power starts does not matter for the value
  have hsame : (w.numeral beforePower).value = (w.numeral other).value := rfl
  rw [hsame, hy, reread, hfirst]

/-- The greatest number is read back as itself. -/
example : Lexeme.greatest.reread = Lexeme.greatest := by decide +kernel

end ScopedCheck
