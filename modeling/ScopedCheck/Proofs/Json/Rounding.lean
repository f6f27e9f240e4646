import Mathlib.Algebra.Order.Field.Power
import Mathlib.Data.Rat.Cast.Order
import Mathlib.Tactic.FieldSimp
import Mathlib.Tactic.Linarith
import Mathlib.Tactic.NormNum
import Mathlib.Tactic.Positivity
import Mathlib.Tactic.Ring
import ScopedCheck.Json.Binary64
/-! # Rounding to binary numbers

Rounding fails exactly at quotients that are half a step or more above the greatest number. Otherwise
the result is off by at most half a step. -/

namespace ScopedCheck.Binary64

/-- The value of a number without its sign. -/
def value (x : Binary64) : ℚ := x.significand * 2 ^ x.exponent

/-- The least value that is out of range: half a step above the greatest number. -/
def overflow : Nat := (2 ^ 54 - 1) * 2 ^ 970

theorem value_quotient (x : Binary64) :
    0 < x.quotient.2 ∧ (x.quotient.1 : ℚ) / x.quotient.2 = x.value := by
  unfold quotient value
  simp only [Nat.pow_eq]
  split
  · rename_i h
    obtain ⟨n, hn⟩ : ∃ n : Nat, x.exponent = -(n : Int) := ⟨(-x.exponent).toNat, by omega⟩
    refine ⟨Nat.two_pow_pos _, ?_⟩
    rw [hn, neg_neg, Int.toNat_natCast, zpow_neg, zpow_natCast]
    push_cast
    rfl
  · rename_i h
    obtain ⟨n, hn⟩ : ∃ n : Nat, x.exponent = (n : Int) := ⟨x.exponent.toNat, by omega⟩
    refine ⟨Nat.one_pos, ?_⟩
    rw [hn, Int.toNat_natCast, zpow_natCast]
    push_cast
    rw [div_one]

theorem value_scaled (num : Nat) {den : Nat} (hden : 0 < den) (exponent : Int) :
    0 < (scaled num den exponent).2 ∧
      ((scaled num den exponent).1 : ℚ) / (scaled num den exponent).2 =
        (num : ℚ) / den / 2 ^ exponent := by
  have hden' : (den : ℚ) ≠ 0 := by positivity
  unfold scaled
  simp only [Nat.pow_eq]
  split
  · obtain ⟨n, hn⟩ : ∃ n : Nat, exponent = -(n : Int) := ⟨(-exponent).toNat, by omega⟩
    refine ⟨hden, ?_⟩
    rw [hn, neg_neg, Int.toNat_natCast, zpow_neg, zpow_natCast]
    push_cast
    field_simp
  · obtain ⟨n, hn⟩ : ∃ n : Nat, exponent = (n : Int) := ⟨exponent.toNat, by omega⟩
    refine ⟨Nat.mul_pos hden (Nat.two_pow_pos _), ?_⟩
    rw [hn, Int.toNat_natCast, zpow_natCast]
    push_cast
    field_simp

/-! ## The nearest whole number -/

/-- The nearest whole number is off by at most a half. -/
theorem nearest_spec (num : Nat) {den : Nat} (hden : 0 < den) :
    2 * num ≤ 2 * nearest num den * den + den ∧ 2 * nearest num den * den ≤ 2 * num + den := by
  have hdiv := Nat.div_add_mod num den
  have hmod := Nat.mod_lt num hden
  have hsame : 2 * (num / den) * den = 2 * (den * (num / den)) := by ring
  have hnext : 2 * (num / den + 1) * den = 2 * (den * (num / den)) + 2 * den := by ring
  unfold nearest
  simp only
  split
  · omega
  · split
    · omega
    · split
      · omega
      · omega

/-- From half a step below it on, what is less than the power of two is rounded up to it. -/
theorem nearest_full {num den : Nat} (hlow : (2 ^ 54 - 1) * den ≤ 2 * num) (hhigh : num < 2 ^ 53 * den) :
    nearest num den = 2 ^ 53 := by
  have hwhole : num / den = 2 ^ 53 - 1 := by
    apply Nat.div_eq_of_lt_le
    · omega
    · omega
  have hdiv := Nat.div_add_mod num den
  rw [hwhole] at hdiv
  rw [nearest]
  simp only [hwhole]
  rw [if_neg (by omega)]
  split
  · rfl
  · rfl

theorem abs_nearest_sub_le (num : Nat) {den : Nat} (hden : 0 < den) :
    |(nearest num den : ℚ) - (num : ℚ) / den| ≤ 1 / 2 := by
  obtain ⟨hlow, hhigh⟩ := nearest_spec num hden
  have hden' : (0 : ℚ) < den := by exact_mod_cast hden
  have hlow' : (2 * num : ℚ) ≤ 2 * nearest num den * den + den := by exact_mod_cast hlow
  have hhigh' : (2 * nearest num den * den : ℚ) ≤ 2 * num + den := by exact_mod_cast hhigh
  rw [abs_le]
  constructor
  · rw [neg_le_sub_iff_le_add, div_le_iff₀ hden']
    linarith
  · rw [sub_le_iff_le_add, ← sub_le_iff_le_add', le_div_iff₀ hden']
    linarith

/-! ## The exponent -/

/-- A quotient lies between two powers of two that the logarithms tell. -/
theorem quotient_bounds {num den : Nat} (hnum : 0 < num) (hden : 0 < den) :
    (2 : ℚ) ^ ((num.log2 : Int) - den.log2 - 1) ≤ (num : ℚ) / den ∧
      (num : ℚ) / den < 2 ^ ((num.log2 : Int) - den.log2 + 1) := by
  have hden' : (0 : ℚ) < den := by exact_mod_cast hden
  have htwo : (2 : ℚ) ≠ 0 := by norm_num
  constructor
  · have hn : ((2 ^ num.log2 : Nat) : ℚ) ≤ num := by
      exact_mod_cast Nat.log2_self_le (by omega)
    have hd : (den : ℚ) ≤ ((2 ^ (den.log2 + 1) : Nat) : ℚ) := by
      exact_mod_cast Nat.le_of_lt Nat.lt_log2_self
    rw [le_div_iff₀ hden']
    calc (2 : ℚ) ^ ((num.log2 : Int) - den.log2 - 1) * den
        ≤ 2 ^ ((num.log2 : Int) - den.log2 - 1) * ((2 ^ (den.log2 + 1) : Nat) : ℚ) :=
          mul_le_mul_of_nonneg_left hd (by positivity)
      _ = 2 ^ (num.log2 : Int) := by
          push_cast
          rw [← zpow_natCast (2 : ℚ) (den.log2 + 1), ← zpow_add₀ htwo]
          congr 1
          push_cast
          omega
      _ ≤ num := by
          rw [zpow_natCast]
          exact_mod_cast hn
  · have hn : (num : ℚ) < ((2 ^ (num.log2 + 1) : Nat) : ℚ) := by
      exact_mod_cast Nat.lt_log2_self
    have hd : ((2 ^ den.log2 : Nat) : ℚ) ≤ den := by
      exact_mod_cast Nat.log2_self_le (by omega)
    rw [div_lt_iff₀ hden']
    calc (num : ℚ) < ((2 ^ (num.log2 + 1) : Nat) : ℚ) := hn
      _ = 2 ^ ((num.log2 : Int) - den.log2 + 1) * ((2 ^ den.log2 : Nat) : ℚ) := by
          push_cast
          rw [← zpow_natCast (2 : ℚ) den.log2, ← zpow_add₀ htwo, ← zpow_natCast]
          congr 1
          push_cast
          omega
      _ ≤ _ := mul_le_mul_of_nonneg_left hd (by positivity)

/-- A scaled quotient has less than fifty-three bits just when the quotient lies below that power. -/
theorem scaled_div_lt_iff (num : Nat) {den : Nat} (hden : 0 < den) (guess : Int) :
    (scaled num den guess).1 / (scaled num den guess).2 < 2 ^ 52 ↔
      (num : ℚ) / den < 2 ^ (guess + 52) := by
  have htwo : (2 : ℚ) ≠ 0 := by norm_num
  obtain ⟨hpos, hvalue⟩ := value_scaled num hden guess
  have hpos' : (0 : ℚ) < (scaled num den guess).2 := by exact_mod_cast hpos
  rw [Nat.div_lt_iff_lt_mul hpos, zpow_add₀ htwo, mul_comm ((2 : ℚ) ^ guess),
    ← div_lt_iff₀ (by positivity), ← hvalue, div_lt_iff₀ hpos']
  norm_cast

/-- The exponent leaves a significand of fifty-three bits, unless that is the least exponent. -/
theorem exponentOf_spec {num den : Nat} (hnum : 0 < num) (hden : 0 < den) :
    ∃ e : Int, exponentOf num den = max minExponent e ∧
      (2 : ℚ) ^ (e + 52) ≤ (num : ℚ) / den ∧ (num : ℚ) / den < 2 ^ (e + 53) := by
  obtain ⟨hlow, hhigh⟩ := quotient_bounds hnum hden
  unfold exponentOf
  simp only [Nat.pow_eq, scaled_div_lt_iff num hden]
  split
  · rename_i h
    refine ⟨_, rfl, ?_, ?_⟩
    · convert hlow using 2
      omega
    · convert h using 2
      omega
  · rename_i h
    refine ⟨_, rfl, not_lt.mp h, ?_⟩
    convert hhigh using 2
    omega

/-! ## Rounding -/

theorem value_exponent_succ (negative : Bool) (exponent : Int) :
    value ⟨negative, 2 ^ 52, exponent + 1⟩ = ((2 ^ 53 : Nat) : ℚ) * 2 ^ exponent := by
  simp only [value]
  rw [zpow_add₀ (by norm_num)]
  push_cast
  ring

/-- A rounded quotient is the nearest multiple of a power of two. -/
theorem ofQuotient_spec {num den : Nat} (hnum : 0 < num) (hden : 0 < den) :
    ∃ e : Int, (2 : ℚ) ^ (e + 52) ≤ (num : ℚ) / den ∧ (num : ℚ) / den < 2 ^ (e + 53) ∧
      ∃ m : Nat, |(m : ℚ) - (num : ℚ) / den / 2 ^ max minExponent e| ≤ 1 / 2 ∧
        m = nearest (scaled num den (max minExponent e)).1 (scaled num den (max minExponent e)).2 ∧
        (ofQuotient num den = none ↔
          maxExponent < if m = 2 ^ 53 then max minExponent e + 1 else max minExponent e) ∧
        ∀ z, ofQuotient num den = some z → z.value = m * 2 ^ max minExponent e := by
  obtain ⟨e, he, hlow, hhigh⟩ := exponentOf_spec hnum hden
  obtain ⟨hpos, hvalue⟩ := value_scaled num hden (max minExponent e)
  refine ⟨e, hlow, hhigh, _, ?_, rfl, ?_, ?_⟩
  · rw [← hvalue]
    exact abs_nearest_sub_le _ hpos
  · simp only [ofQuotient, Nat.pow_eq, he, hnum.ne', if_false]
    generalize nearest _ _ = m
    by_cases hm : m = 2 ^ 53
    · simp only [hm, if_true]
      split <;> simp [*]
    · simp only [hm, if_false]
      split <;> simp [*]
  · intro z hz
    simp only [ofQuotient, Nat.pow_eq, he, hnum.ne', if_false] at hz
    generalize nearest _ _ = m at hz
    by_cases hm : m = 2 ^ 53
    · simp only [hm, if_true] at hz
      split at hz
      · cases hz
      · rw [← Option.some.inj hz, value_exponent_succ, hm]
    · simp only [hm, if_false] at hz
      split at hz
      · cases hz
      · rw [← Option.some.inj hz, value]

theorem overflow_eq : (overflow : ℚ) = (2 ^ 53 - 1 / 2) * 2 ^ (971 : Int) := by
  have hstep : (2 : ℚ) ^ (971 : Int) = 2 * ((2 ^ 970 : Nat) : ℚ) := by
    rw [Nat.cast_pow, Nat.cast_ofNat, ← zpow_natCast, ← zpow_one_add₀ (by norm_num)]
    congr 1
  rw [hstep, overflow, Nat.cast_mul]
  generalize ((2 ^ 970 : Nat) : ℚ) = step
  norm_num
  ring

-- its digits are of no use to any tactic
attribute [irreducible] overflow

theorem zpow_two_add (a b : Int) : (2 : ℚ) ^ (a + b) = 2 ^ b * 2 ^ a := by
  rw [zpow_add₀ (by norm_num), mul_comm]

theorem overflow_lt : (overflow : ℚ) < 2 ^ (1024 : Int) := by
  have hpos : (0 : ℚ) < 2 ^ (971 : Int) := by positivity
  rw [overflow_eq, show (1024 : Int) = 971 + 53 from rfl, zpow_two_add]
  generalize (2 : ℚ) ^ (971 : Int) = step at hpos
  norm_num
  linarith

theorem lt_overflow : (2 : ℚ) ^ (1023 : Int) < overflow := by
  have hpos : (0 : ℚ) < 2 ^ (971 : Int) := by positivity
  rw [overflow_eq, show (1023 : Int) = 971 + 52 from rfl, zpow_two_add]
  generalize (2 : ℚ) ^ (971 : Int) = step at hpos
  norm_num
  linarith

/-- A quotient that is in range has a nearest number. -/
theorem ofQuotient_ne_none {num den : Nat} (hden : 0 < den)
    (h : (num : ℚ) / den < overflow) : ofQuotient num den ≠ none := by
  by_cases hnum : num = 0
  · simp [ofQuotient, hnum]
  · obtain ⟨e, hlow, -, m, hm, -, hnone, -⟩ := ofQuotient_spec (by omega : 0 < num) hden
    have he : e ≤ 971 := by
      have hlt : (2 : ℚ) ^ (e + 52) < 2 ^ (1024 : Int) := hlow.trans_lt (h.trans overflow_lt)
      have := (zpow_lt_zpow_iff_right₀ (by norm_num : (1 : ℚ) < 2)).mp hlt
      omega
    rw [ne_eq, hnone, not_lt]
    have hmax : max minExponent e ≤ 971 := max_le (by decide) he
    split
    · rename_i hfull
      rcases hmax.lt_or_eq with hlt | heq
      · exact Int.add_one_le_of_lt hlt
      · -- the quotient is less than half a step below the power of two
        exfalso
        rw [heq, hfull] at hm
        have hsmall : (num : ℚ) / den / 2 ^ (971 : Int) < 2 ^ 53 - 1 / 2 := by
          rw [div_lt_iff₀ (by positivity), ← overflow_eq]
          exact h
        have hhalf := (abs_le.mp hm).2
        generalize (num : ℚ) / den / 2 ^ (971 : Int) = q at hsmall hhalf
        push_cast at hhalf
        linarith
    · exact hmax

/-- A quotient that has a nearest number is in range. -/
theorem lt_overflow_of_ofQuotient {num den : Nat} (hden : 0 < den) {z : Binary64}
    (h : ofQuotient num den = some z) : (num : ℚ) / den < overflow := by
  by_contra hlarge
  rw [not_lt] at hlarge
  have hnum : 0 < num := by
    rcases Nat.eq_zero_or_pos num with rfl | hnum
    · have hpos : (0 : ℚ) < overflow := lt_trans (by positivity) lt_overflow
      rw [Nat.cast_zero, zero_div] at hlarge
      exact absurd hpos (not_lt.mpr hlarge)
    · exact hnum
  obtain ⟨e, hlow, hhigh, m, hm, hnearest, hnone, -⟩ := ofQuotient_spec hnum hden
  have he : 971 ≤ e := by
    have hlt : (2 : ℚ) ^ (1023 : Int) < 2 ^ (e + 53) := (lt_overflow.trans_le hlarge).trans hhigh
    have := (zpow_lt_zpow_iff_right₀ (by norm_num : (1 : ℚ) < 2)).mp hlt
    omega
  have hmax : max minExponent e = e := max_eq_right (le_trans (by decide) he)
  rw [hmax] at hnone hnearest
  have hsome : ofQuotient num den ≠ none := by simp [h]
  apply hsome
  rw [hnone]
  rcases he.lt_or_eq with hlt | rfl
  · have : maxExponent = 971 := rfl
    split <;> omega
  · -- at the greatest exponent half a step is rounded up, to the power of two
    obtain ⟨hpos, hvalue⟩ := value_scaled num hden 971
    generalize hparts : scaled num den 971 = parts at hpos hvalue hnearest
    have hpos' : (0 : ℚ) < parts.2 := by exact_mod_cast hpos
    have hlow' : (2 ^ 54 - 1) * parts.2 ≤ 2 * parts.1 := by
      have hq : (2 ^ 53 - 1 / 2 : ℚ) ≤ (parts.1 : ℚ) / parts.2 := by
        rw [hvalue, le_div_iff₀ (by positivity), ← overflow_eq]
        exact hlarge
      rw [le_div_iff₀ hpos'] at hq
      have : ((2 ^ 54 - 1 : Nat) : ℚ) * parts.2 ≤ 2 * parts.1 := by
        push_cast
        linarith
      exact_mod_cast this
    have hhigh' : parts.1 < 2 ^ 53 * parts.2 := by
      have hq : (parts.1 : ℚ) / parts.2 < 2 ^ 53 := by
        rw [hvalue, div_lt_iff₀ (by positivity)]
        rw [zpow_two_add] at hhigh
        exact_mod_cast hhigh
      rw [div_lt_iff₀ hpos'] at hq
      exact_mod_cast hq
    have hfull : m = 2 ^ 53 := by rw [hnearest, nearest_full hlow' hhigh']
    simp [hfull, maxExponent]

/-- Rounding moves a quotient by at most half a step. -/
theorem abs_value_sub_le {num den : Nat} (hnum : 0 < num) (hden : 0 < den) {z : Binary64}
    (h : ofQuotient num den = some z) :
    ∃ e : Int, (2 : ℚ) ^ (e + 52) ≤ (num : ℚ) / den ∧ (num : ℚ) / den < 2 ^ (e + 53) ∧
      |z.value - (num : ℚ) / den| ≤ 2 ^ max minExponent e / 2 := by
  obtain ⟨e, hlow, hhigh, m, hm, -, -, hvalue⟩ := ofQuotient_spec hnum hden
  refine ⟨e, hlow, hhigh, ?_⟩
  have hpos : (0 : ℚ) < 2 ^ max minExponent e := by positivity
  rw [hvalue z h]
  generalize (2 : ℚ) ^ max minExponent e = step at hpos hm ⊢
  generalize (num : ℚ) / den = q at hm ⊢
  have hsame : m * step - q = (m - q / step) * step := by
    field_simp
  rw [hsame, abs_mul, abs_of_pos hpos]
  nlinarith

/-- What is at least one is rounded by at most one part in `2 ^ 53`. -/
theorem value_of_one_le {num den : Nat} (hden : 0 < den) (hone : 1 ≤ (num : ℚ) / den)
    {z : Binary64} (h : ofQuotient num den = some z) :
    1 / 2 ≤ z.value ∧ z.value ≤ (num : ℚ) / den * (1 + 1 / 2 ^ 53) := by
  have hnum : 0 < num := by
    rcases Nat.eq_zero_or_pos num with rfl | hnum
    · norm_num at hone
    · exact hnum
  obtain ⟨e, hlow, hhigh, hnear⟩ := abs_value_sub_le hnum hden h
  have he : -53 < e := by
    have hlt : (2 : ℚ) ^ (0 : Int) < 2 ^ (e + 53) := lt_of_le_of_lt (by simpa using hone) hhigh
    have := (zpow_lt_zpow_iff_right₀ (by norm_num : (1 : ℚ) < 2)).mp hlt
    omega
  have hmax : max minExponent e = e := max_eq_right (le_trans (by decide) he.le)
  rw [hmax, abs_le] at hnear
  rw [zpow_two_add] at hlow
  generalize (num : ℚ) / den = q at *
  generalize (2 : ℚ) ^ e = step at *
  norm_num at hlow ⊢
  constructor <;> linarith [hnear.1, hnear.2]

/-- Rounding at most doubles a quotient and adds one. -/
theorem value_le {num den : Nat} (hden : 0 < den) {z : Binary64}
    (h : ofQuotient num den = some z) : z.value ≤ 2 * ((num : ℚ) / den) + 1 := by
  rcases Nat.eq_zero_or_pos num with rfl | hnum
  · obtain rfl : zero = z := by simpa [ofQuotient] using h
    norm_num [value, zero]
  · obtain ⟨e, hlow, -, hnear⟩ := abs_value_sub_le hnum hden h
    have hq : (0 : ℚ) ≤ (num : ℚ) / den := by positivity
    have hhigh := (abs_le.mp hnear).2
    rcases max_choice minExponent e with hmax | hmax
    · have hleast : (2 : ℚ) ^ max minExponent e ≤ 1 := by
        rw [hmax]
        exact zpow_le_one_of_nonpos₀ (by norm_num) (by decide)
      linarith
    · rw [hmax] at hhigh
      rw [zpow_two_add] at hlow
      generalize (2 : ℚ) ^ e = step at *
      norm_num at hlow
      linarith

/-! ## Products and quotients -/

theorem mul_ne_none {x y : Binary64} (h : x.value * y.value < overflow) : x.mul y ≠ none := by
  obtain ⟨hx, hxvalue⟩ := x.value_quotient
  obtain ⟨hy, hyvalue⟩ := y.value_quotient
  rw [mul, ne_eq, Option.map_eq_none_iff]
  apply ofQuotient_ne_none (Nat.mul_pos hx hy)
  rw [Nat.cast_mul, Nat.cast_mul, mul_div_mul_comm, hxvalue, hyvalue]
  exact h

theorem value_nonneg (x : Binary64) : 0 ≤ x.value := by
  unfold value
  positivity

/-- To divide by a half or more leaves a number in range, and at most four times as large. -/
theorem div_spec {x y : Binary64} {bound : ℚ} (hx : x.value ≤ bound) (hy : 1 / 2 ≤ y.value)
    (hbound : 2 * bound < overflow) :
    ∃ z, x.div y = some z ∧ z.value ≤ 4 * bound + 1 := by
  obtain ⟨hxpos, hxvalue⟩ := x.value_quotient
  obtain ⟨hypos, hyvalue⟩ := y.value_quotient
  have hynum : 0 < y.quotient.1 := by
    rcases Nat.eq_zero_or_pos y.quotient.1 with hzero | hpos
    · rw [hzero] at hyvalue
      norm_num at hyvalue
      linarith
    · exact hpos
  have hden : 0 < x.quotient.2 * y.quotient.1 := Nat.mul_pos hxpos hynum
  have hquotient : ((x.quotient.1 * y.quotient.2 : Nat) : ℚ) / (x.quotient.2 * y.quotient.1 : Nat) =
      x.value / y.value := by
    rw [← hxvalue, ← hyvalue]
    push_cast
    field_simp
  have hle : x.value / y.value ≤ 2 * bound := by
    rw [div_le_iff₀ (by linarith)]
    nlinarith [x.value_nonneg]
  have hsome := ofQuotient_ne_none hden (hquotient ▸ hle.trans_lt hbound)
  obtain ⟨z, hz⟩ := Option.ne_none_iff_exists'.mp hsome
  have hvalue := value_le hden hz
  rw [hquotient] at hvalue
  refine ⟨{ z with negative := x.negative != y.negative }, by simp [div, hz], ?_⟩
  change z.value ≤ _
  linarith

end ScopedCheck.Binary64
