import ScopedCheck.Proofs.Json.Numeral
import ScopedCheck.Proofs.Json.Rounding
/-! # Reading floating-point numbers back

The text of every floating-point number can be read. What is read need not be the same number, because
readers scale the digits in steps that round on their own; but it is never out of range. -/

namespace ScopedCheck

namespace Lexeme

open Binary64

/-! ## Scaling -/

theorem value_ofNat {n : Nat} {z : Binary64} (h : Binary64.ofNat n = some z) :
    z.value ≤ n * (1 + 1 / 2 ^ 53) := by
  rcases Nat.eq_zero_or_pos n with rfl | hpos
  · obtain rfl : zero = z := by simpa [Binary64.ofNat, ofQuotient] using h
    norm_num [Binary64.value, zero]
  · have hone : (1 : ℚ) ≤ (n : ℚ) / (1 : Nat) := by
      rw [Nat.cast_one, div_one]
      exact_mod_cast hpos
    have hvalue := (value_of_one_le Nat.one_pos hone h).2
    rwa [Nat.cast_one, div_one] at hvalue

theorem exists_ofNat {n : Nat} (h : n < overflow) : ∃ z, Binary64.ofNat n = some z := by
  apply Option.ne_none_iff_exists'.mp
  apply ofQuotient_ne_none Nat.one_pos
  rw [Nat.cast_one, div_one]
  exact_mod_cast h

theorem tenTo_spec {n : Nat} (hn : n ≤ 308) :
    1 / 2 ≤ (tenTo n).value ∧ (tenTo n).value ≤ 10 ^ n * (1 + 1 / 2 ^ 53) := by
  have hrange : 10 ^ n < overflow :=
    lt_of_le_of_lt (Nat.pow_le_pow_right (by decide) hn) (by decide +kernel)
  obtain ⟨z, hz⟩ := exists_ofNat hrange
  have hone : (1 : ℚ) ≤ ((10 ^ n : Nat) : ℚ) / (1 : Nat) := by
    rw [Nat.cast_one, div_one]
    exact_mod_cast Nat.one_le_pow n 10 (by decide)
  have hvalue := value_of_one_le Nat.one_pos hone hz
  rw [Nat.cast_one, div_one] at hvalue
  rw [tenTo, Nat.pow_eq, hz, Option.getD_some]
  push_cast at hvalue
  exact hvalue

/-- To scale down never leaves the range. -/
theorem scale_ne_none (steps : Nat) {x : Binary64} {power : Int} (hpower : power ≤ 0) {bound : ℚ}
    (hone : 1 ≤ bound) (hx : x.value ≤ bound) (hbound : 2 * bound * 5 ^ steps < overflow) :
    scale steps x power ≠ none := by
  induction steps generalizing x power bound with
  | zero => simp [scale]
  | succ steps ih =>
      have hpow : (1 : ℚ) ≤ 5 ^ steps := one_le_pow₀ (by norm_num)
      have hsmall : 2 * bound < overflow := by
        rw [pow_succ] at hbound
        nlinarith
      unfold scale
      split
      · rename_i hnear
        split
        · obtain rfl : power = 0 := by omega
          apply mul_ne_none
          have hten := (tenTo_spec (by decide : 0 ≤ 308)).2
          norm_num at hten
          have hnonneg := x.value_nonneg
          calc x.value * (tenTo 0).value ≤ bound * 2 := by
                apply mul_le_mul hx _ (value_nonneg _) (by linarith)
                linarith
            _ < overflow := by linarith
        · obtain ⟨z, hz, -⟩ := div_spec hx (tenTo_spec hnear).1 hsmall
          simp [hz]
      · split
        · simp
        · split
          · omega
          · obtain ⟨z, hz, hvalue⟩ := div_spec hx (tenTo_spec (le_refl 308)).1 hsmall
            rw [hz, Option.bind_some]
            refine ih (by omega) (by linarith : 1 ≤ 5 * bound) (by linarith) ?_
            rw [pow_succ] at hbound
            linarith

/-- To scale up leaves the range only if the product is out of range, or nearly so. -/
theorem scaled_ne_none_of_le (negative : Bool) {significand : Nat} {power : Nat}
    (hpower : power ≤ 308)
    (h : significand * 10 ^ power * (2 ^ 53 + 1) ^ 2 < overflow * 2 ^ 106) :
    scaled negative significand power ≠ none := by
  have hrange : significand < overflow := by
    by_contra hlarge
    rw [not_lt] at hlarge
    have hpow : 1 ≤ 10 ^ power := Nat.one_le_pow _ _ (by decide)
    have hle : overflow * 1 * 2 ^ 106 ≤ significand * 10 ^ power * (2 ^ 53 + 1) ^ 2 :=
      Nat.mul_le_mul (Nat.mul_le_mul hlarge hpow) (by decide)
    rw [Nat.mul_one] at hle
    exact absurd h (not_lt.mpr hle)
  obtain ⟨z, hz⟩ := exists_ofNat hrange
  rw [scaled, ne_eq, Option.map_eq_none_iff, hz, Option.bind_some, scale]
  have hnear : (power : Int).natAbs ≤ 308 := by simpa using hpower
  rw [if_pos hnear, if_pos (by omega)]
  apply mul_ne_none
  rw [Int.natAbs_natCast]
  have hvalue := value_ofNat hz
  have hten := (tenTo_spec hpower).2
  have hcast : (significand : ℚ) * 10 ^ power * (2 ^ 53 + 1) ^ 2 < overflow * 2 ^ 106 := by
    exact_mod_cast h
  have hnonneg : (0 : ℚ) ≤ significand * 10 ^ power := by positivity
  calc z.value * (tenTo power).value
      ≤ significand * (1 + 1 / 2 ^ 53) * (10 ^ power * (1 + 1 / 2 ^ 53)) :=
        mul_le_mul hvalue hten (value_nonneg _) (by positivity)
    _ = significand * 10 ^ power * (2 ^ 53 + 1) ^ 2 / 2 ^ 106 := by
        norm_num
        ring
    _ < overflow := by
        rw [div_lt_iff₀ (by positivity)]
        exact hcast

theorem overflow_large : 2 ^ 64 * 10 ^ 200 * (2 ^ 53 + 1) ^ 2 < overflow * 2 ^ 106 ∧
    2 * 2 ^ 65 * 5 ^ 4 < overflow := by
  decide +kernel

/-- A significand that is kept exactly can be scaled by every power of ten that is not large. -/
theorem scaled_ne_none_of_small (negative : Bool) {significand : Nat}
    (hsignificand : significand ≤ maxSignificand) {power : Int} (hpower : power ≤ 200) :
    scaled negative significand power ≠ none := by
  have hrange : significand ≤ 2 ^ 64 := by
    rw [maxSignificand] at hsignificand
    omega
  by_cases hdown : power ≤ 0
  · have hlarge : ((2 * 2 ^ 65 * 5 ^ 4 : Nat) : ℚ) < overflow := by
      exact_mod_cast overflow_large.2
    have hin : significand < overflow :=
      lt_of_le_of_lt (hrange.trans (by decide)) overflow_large.2
    obtain ⟨z, hz⟩ := exists_ofNat hin
    rw [scaled, ne_eq, Option.map_eq_none_iff, hz, Option.bind_some]
    have hvalue := value_ofNat hz
    have hcast : (significand : ℚ) ≤ 2 ^ 64 := by exact_mod_cast hrange
    refine scale_ne_none 4 hdown (by norm_num : (1 : ℚ) ≤ 2 ^ 65) ?_ ?_
    · calc z.value ≤ significand * (1 + 1 / 2 ^ 53) := hvalue
        _ ≤ 2 ^ 64 * (1 + 1 / 2 ^ 53) := mul_le_mul_of_nonneg_right hcast (by positivity)
        _ ≤ 2 ^ 65 := by norm_num
    · push_cast at hlarge
      linarith
  · obtain ⟨n, rfl⟩ : ∃ n : Nat, power = n := ⟨power.toNat, by omega⟩
    apply scaled_ne_none_of_le negative (by omega)
    refine lt_of_le_of_lt ?_ overflow_large.1
    exact Nat.mul_le_mul_right _ (Nat.mul_le_mul hrange (Nat.pow_le_pow_right (by decide) (by omega)))

end Lexeme

namespace Binary64

/-! ## The shortest decimal -/

theorem digitCount_le_iff {n k : Nat} (hk : 0 < k) : digitCount n ≤ k ↔ n < 10 ^ k :=
  Nat.length_toDigits_le_iff (by decide) hk

theorem digitCount_pos (n : Nat) : 0 < digitCount n := Nat.length_toDigits_pos

theorem digitCount_eq {n count : Nat} (hcount : 0 < count) (hlow : 10 ^ (count - 1) ≤ n)
    (hhigh : n < 10 ^ count) : digitCount n = count := by
  have hle := (digitCount_le_iff hcount).mpr hhigh
  have hpos := digitCount_pos n
  by_cases hone : count = 1
  · omega
  · have hmore : ¬digitCount n ≤ count - 1 := by
      rw [digitCount_le_iff (by omega)]
      omega
    omega

/-- A decimal of a given number of digits comes from one of the two neighbours on their grid. -/
theorem decimalOf?_spec {x : Binary64} {lead : Int} {count : Nat} {d : Decimal}
    (h : decimalOf? x lead count = some d) :
    ∃ n parts, n ≠ 0 ∧ parts = timesTen x.quotient.1 x.quotient.2 (-(lead - count + 1)) ∧
      (n = parts.1 / parts.2 ∨ n = parts.1 / parts.2 + 1) ∧
      roundsTo x (timesTen n 1 (lead - count + 1)).1 (timesTen n 1 (lead - count + 1)).2 = true ∧
      d = if digitCount n = count + 1 then ⟨n / 10, lead + 1⟩ else ⟨n, lead⟩ := by
  simp only [decimalOf?] at h
  split at h
  · rename_i hlow hhigh
    simp only [Bool.and_eq_true, decide_eq_true_eq] at hlow hhigh
    split at h
    · exact ⟨_, _, hlow.1, rfl, Or.inl rfl, hlow.2, (Option.some.inj h).symm⟩
    · exact ⟨_, _, hhigh.1, rfl, Or.inr rfl, hhigh.2, (Option.some.inj h).symm⟩
  · rename_i hlow hhigh
    simp only [Bool.and_eq_true, decide_eq_true_eq] at hlow
    exact ⟨_, _, hlow.1, rfl, Or.inl rfl, hlow.2, (Option.some.inj h).symm⟩
  · rename_i hlow hhigh
    simp only [Bool.and_eq_true, decide_eq_true_eq] at hhigh
    exact ⟨_, _, hhigh.1, rfl, Or.inr rfl, hhigh.2, (Option.some.inj h).symm⟩
  · cases h

/-- The shortest decimal has at most seventeen digits, if there is one. -/
theorem shortest_spec (x : Binary64) : x.shortest = ⟨0, 0⟩ ∨
    ∃ count, 0 < count ∧ count ≤ 17 ∧
      decimalOf? x (leadOf x.quotient.1 x.quotient.2) count = some x.shortest := by
  simp only [shortest]
  generalize hfound : (List.range 17).findSome? _ = found
  cases found with
  | none => exact Or.inl rfl
  | some d =>
      obtain ⟨i, hi, hd⟩ := List.exists_of_findSome?_eq_some hfound
      have hi := List.mem_range.mp hi
      exact Or.inr ⟨i + 1, by omega, by omega, hd⟩

theorem neg_le_below (num den fuel k : Nat) : -((k + fuel : Nat) : Int) ≤ leadOf.below num den fuel k := by
  induction fuel generalizing k with
  | zero => simp [leadOf.below]
  | succ fuel ih =>
      rw [leadOf.below]
      split
      · omega
      · have := ih (k + 1)
        omega

theorem below_nonpos (num den fuel k : Nat) : leadOf.below num den fuel k ≤ 0 := by
  induction fuel generalizing k with
  | zero => simp [leadOf.below]
  | succ fuel ih =>
      rw [leadOf.below]
      split
      · omega
      · exact ih (k + 1)

theorem le_leadOf (num den : Nat) : -401 ≤ leadOf num den := by
  unfold leadOf
  split
  · have := digitCount_pos (num / den)
    omega
  · exact neg_le_below num den 400 1

/-- A positive lead is that of the whole part. -/
theorem of_leadOf_pos {num den lead : Nat} (hlead : 0 < lead)
    (h : leadOf num den = lead) : 10 ^ lead ≤ num / den ∧ num / den < 10 ^ (lead + 1) := by
  unfold leadOf at h
  split at h
  · have hcount : digitCount (num / den) = lead + 1 := by omega
    have hmore := (digitCount_le_iff (n := num / den) hlead).not.mp (by omega)
    exact ⟨by omega, (digitCount_le_iff (by omega)).mp hcount.le⟩
  · have := below_nonpos num den 400 1
    omega

/-- Without its last digits a number has as many digits as are left. -/
theorem div_pow_bounds {n lead grid count : Nat} (hcount : 0 < count) (hdigits : lead + 1 = grid + count)
    (hlow : 10 ^ lead ≤ n) (hhigh : n < 10 ^ (lead + 1)) :
    10 ^ (count - 1) ≤ n / 10 ^ grid ∧ n / 10 ^ grid < 10 ^ count := by
  have hten : 0 < 10 ^ grid := Nat.pow_pos (by decide)
  constructor
  · rw [Nat.le_div_iff_mul_le hten, ← Nat.pow_add]
    rwa [show count - 1 + grid = lead by omega]
  · rw [Nat.div_lt_iff_lt_mul hten, ← Nat.pow_add]
    rwa [show count + grid = lead + 1 by omega]

/-- To divide a quotient by a power of ten drops digits of its whole part. -/
theorem timesTen_neg_div (num den grid : Nat) :
    (timesTen num den (-(grid : Int))).1 / (timesTen num den (-(grid : Int))).2 =
      num / den / 10 ^ grid := by
  rw [timesTen]
  split
  · rw [neg_neg, Int.toNat_natCast, Nat.pow_eq, Nat.div_div_eq_div_mul]
  · obtain rfl : grid = 0 := by omega
    simp

theorem digitCount_ten_pow (count : Nat) : digitCount (10 ^ count) = count + 1 := by
  apply digitCount_eq (Nat.succ_pos count)
  · rw [Nat.succ_eq_add_one, Nat.add_sub_cancel]
  · exact Nat.pow_lt_pow_right (by decide) (Nat.lt_succ_self count)

/-- What is known about the decimal of a large number: it rounds to the number. -/
theorem roundsTo_shortest {x : Binary64} {d : Decimal} {lead count : Nat} (hcount : 0 < count)
    (hle : count ≤ lead) (hlead : leadOf x.quotient.1 x.quotient.2 = lead)
    (h : decimalOf? x lead count = some d) :
    ∃ total : Nat, d.lead = total + (count - 1 : Nat) ∧ digitCount d.digits = count ∧
      10 ^ (count - 1) ≤ d.digits ∧ ofQuotient (d.digits * 10 ^ total) 1 =
        some { x with negative := false } := by
  obtain ⟨hlow, hhigh⟩ := of_leadOf_pos (by omega) hlead
  obtain ⟨n, _, -, rfl, hn, hrounds, hd⟩ := decimalOf?_spec h
  obtain ⟨grid, hgrid⟩ : ∃ grid : Nat, (lead : Int) - count + 1 = grid :=
    ⟨lead + 1 - count, by omega⟩
  have hgrid' : lead + 1 = grid + count := by omega
  rw [hgrid] at hn hrounds
  rw [timesTen_neg_div] at hn
  have hparts : timesTen n 1 grid = (n * 10 ^ grid, 1) := by
    rw [timesTen, if_neg (by omega), Int.toNat_natCast, Nat.pow_eq]
  have hfloor := div_pow_bounds hcount hgrid' hlow hhigh
  have hrange : 10 ^ (count - 1) ≤ n ∧ n ≤ 10 ^ count := by omega
  rw [hparts, roundsTo, beq_iff_eq] at hrounds
  by_cases hfull : n = 10 ^ count
  · -- the higher neighbour has one digit more, and the last one is dropped
    have hmore : digitCount n = count + 1 := by rw [hfull, digitCount_ten_pow]
    have hpow : 10 ^ count = 10 ^ (count - 1) * 10 := by
      rw [← Nat.pow_succ]
      congr 1
      omega
    have hpred : n / 10 = 10 ^ (count - 1) := by
      rw [hfull, hpow, Nat.mul_div_cancel _ (by decide)]
    rw [if_pos hmore, hpred] at hd
    subst hd
    refine ⟨grid + 1, ?_, ?_, le_refl _, ?_⟩
    · push_cast
      omega
    · apply digitCount_eq hcount (le_refl _)
      exact Nat.pow_lt_pow_right (by decide) (by omega)
    · rw [← hrounds, hfull, hpow, Nat.pow_succ]
      congr 1
      ring
  · have hcounted : digitCount n = count := digitCount_eq hcount hrange.1 (by omega)
    rw [if_neg (by omega)] at hd
    subst hd
    refine ⟨grid, ?_, hcounted, hrange.1, hrounds⟩
    dsimp only
    omega

-- `2 ^ 60` ends in `6976`: sixteen of its nineteen digits are enough, the last one rounded up.
example : decimalOf? ⟨false, 2 ^ 52, 8⟩ 18 16 = some ⟨1152921504606847, 18⟩ := by decide +kernel

end Binary64

end ScopedCheck
