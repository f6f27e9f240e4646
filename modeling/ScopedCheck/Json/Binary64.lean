/-! # Binary floating-point numbers of 64 bits

A finite number is a significand below `2 ^ 53` times a power of two, and the exponent is as small
as the significand allows but never below `-1074`. Rounding takes a quotient of natural numbers to
the nearest such number, a half to the even significand. The decimal text of a number has the
fewest digits that round back to it, and of the texts with that many digits the nearest one. -/

namespace ScopedCheck

/-- A finite binary number of 64 bits with its sign. -/
structure Binary64 where
  negative : Bool
  significand : Nat
  exponent : Int
  deriving DecidableEq, Repr, Inhabited

namespace Binary64

/-- The least exponent. -/
def minExponent : Int := -1074

/-- The greatest exponent. -/
def maxExponent : Int := 971

/-- Zero without a minus sign. -/
def zero : Binary64 := ⟨false, 0, minExponent⟩

/-- A quotient with a power of two taken out, as a new numerator and denominator. -/
def scaled (num den : Nat) (exponent : Int) : Nat × Nat :=
  if exponent < 0 then (num * Nat.pow 2 (-exponent).toNat, den)
  else (num, den * Nat.pow 2 exponent.toNat)

/-- The nearest whole number to a quotient; a half goes to the even one. -/
def nearest (num den : Nat) : Nat :=
  let whole := num / den
  let twice := 2 * (num % den)
  if twice < den then whole
  else if den < twice then whole + 1
  else if whole % 2 = 0 then whole else whole + 1

/-- The exponent that leaves 53 bits before the binary point, but no less than the least one. -/
def exponentOf (num den : Nat) : Int :=
  let guess : Int := (num.log2 : Int) - den.log2 - 52
  let parts := scaled num den guess
  max minExponent (if parts.1 / parts.2 < Nat.pow 2 52 then guess - 1 else guess)

/-- The nearest number to a quotient, if there is one in range. -/
def ofQuotient (num den : Nat) : Option Binary64 :=
  if num = 0 then some zero
  else
    let exponent := exponentOf num den
    let parts := scaled num den exponent
    let significand := nearest parts.1 parts.2
    let (significand, exponent) :=
      if significand = Nat.pow 2 53 then (Nat.pow 2 52, exponent + 1) else (significand, exponent)
    if maxExponent < exponent then none else some ⟨false, significand, exponent⟩

/-- The size of a number as a quotient. -/
def quotient (x : Binary64) : Nat × Nat :=
  if x.exponent < 0 then (x.significand, Nat.pow 2 (-x.exponent).toNat)
  else (x.significand * Nat.pow 2 x.exponent.toNat, 1)

/-- The nearest number to a natural number. -/
def ofNat (n : Nat) : Option Binary64 := ofQuotient n 1

/-- The product, rounded. -/
def mul (x y : Binary64) : Option Binary64 :=
  (ofQuotient (x.quotient.1 * y.quotient.1) (x.quotient.2 * y.quotient.2)).map fun z =>
    { z with negative := x.negative != y.negative }

/-- The quotient, rounded; the divisor is not zero. -/
def div (x y : Binary64) : Option Binary64 :=
  (ofQuotient (x.quotient.1 * y.quotient.2) (x.quotient.2 * y.quotient.1)).map fun z =>
    { z with negative := x.negative != y.negative }

/-! ## Decimal text -/

/-- The digits of a decimal and the position of its first digit: `digits` times a power of ten,
where the first digit stands for that many tens. -/
structure Decimal where
  digits : Nat
  lead : Int
  deriving DecidableEq, Repr

/-- A number of decimal digits. -/
def digitCount (n : Nat) : Nat := (Nat.toDigits 10 n).length

/-- The power of ten of the first digit of a quotient that is not zero. -/
def leadOf (num den : Nat) : Int :=
  if den ≤ num then (digitCount (num / den) : Int) - 1 else below 400 1
where
  /-- The first power of ten that lifts the quotient to one or more. -/
  below : Nat → Nat → Int
    | 0, k => -(k : Int)
    | fuel + 1, k => if den ≤ num * Nat.pow 10 k then -(k : Int) else below fuel (k + 1)

/-- Whether a quotient rounds to a number: it lies within half a step, and at exactly half a step
only when the significand is even. -/
def roundsTo (x : Binary64) (num den : Nat) : Bool := ofQuotient num den == some { x with negative := false }

/-- A quotient times a power of ten. -/
def timesTen (num den : Nat) (power : Int) : Nat × Nat :=
  if power < 0 then (num, den * Nat.pow 10 (-power).toNat)
  else (num * Nat.pow 10 power.toNat, den)

/-- The nearest decimal of a given number of digits that rounds to the number, if one does. -/
def decimalOf? (x : Binary64) (lead : Int) (count : Nat) : Option Decimal :=
  let grid : Int := lead - (count : Int) + 1
  let (num, den) := x.quotient
  let onGrid := timesTen num den (-grid)
  let low := onGrid.1 / onGrid.2
  let high := low + 1
  let fits (n : Nat) : Bool :=
    n ≠ 0 && (let parts := timesTen n 1 grid; roundsTo x parts.1 parts.2)
  let lowNearer := 2 * onGrid.1 < (low + high) * onGrid.2
    || (2 * onGrid.1 = (low + high) * onGrid.2 && low % 2 = 0)
  let pick (n : Nat) : Decimal :=
    if digitCount n = count + 1 then ⟨n / 10, lead + 1⟩ else ⟨n, lead⟩
  match fits low, fits high with
  | true, true => some (pick (if lowNearer then low else high))
  | true, false => some (pick low)
  | false, true => some (pick high)
  | false, false => none

/-- The decimal with the fewest digits that rounds to a number other than zero. Seventeen digits
are always enough. -/
def shortest (x : Binary64) : Decimal :=
  let (num, den) := x.quotient
  let lead := leadOf num den
  ((List.range 17).findSome? fun i => decimalOf? x lead (i + 1)).getD ⟨0, 0⟩

/-- The layout of a number as text: from which to which power of ten of the first digit the digits
are written in their places. -/
structure Layout where
  least : Int
  greatest : Int

/-- Digits stand in their places from the fifth place behind the point to the sixteenth before
it. -/
def layout : Layout := ⟨-5, 15⟩

/-- Digits with a point somewhere, at least one digit on both sides of it. -/
def placed (digits : List Char) (lead : Int) : List Char :=
  if lead < 0 then '0' :: '.' :: List.replicate (-lead - 1).toNat '0' ++ digits
  else
    let before := lead.toNat + 1
    if digits.length ≤ before then
      digits ++ List.replicate (before - digits.length) '0' ++ ['.', '0']
    else digits.take before ++ '.' :: digits.drop before

/-- Digits with a point behind the first one, and a power of ten. -/
def withPower (digits : List Char) (lead : Int) : List Char :=
  let body := match digits with
    | [] => []
    | [digit] => [digit]
    | digit :: rest => digit :: '.' :: rest
  let power := Nat.toDigits 10 lead.natAbs
  body ++ 'e' :: (if lead < 0 then '-' else '+') :: power

/-- The text of a number without its sign, in a layout. -/
def sizeText (layout : Layout) (x : Binary64) : String :=
  if x.significand = 0 then "0.0"
  else
    let decimal := x.shortest
    let digits := Nat.toDigits 10 decimal.digits
    String.ofList <|
      if layout.least ≤ decimal.lead && decimal.lead ≤ layout.greatest then
        placed digits decimal.lead
      else withPower digits decimal.lead

/-- The text of a number. -/
def text (x : Binary64) : String :=
  (if x.negative then "-" else "") ++ x.sizeText layout

end Binary64

end ScopedCheck
