import TinyScript.Number.Binary

/-!
# Decimal numbers

A `Decimal` is a whole number times a power of ten: what a literal spells, and what a number is printed from. It is never
normalised, so `250 * 10 ^ 0` and `25 * 10 ^ 1` are different decimals of one value.

Main operations: `truncate` and `round` go to a coarser power of ten, `toBinary` is the nearest number of a format, and
`layout` writes the digits, positionally or with an exponent.
-/

namespace TinyScript

/-- How many digits a natural number is written with; zero has one. -/
def digitCount (n : Nat) : Nat := (Nat.toDigits 10 n).length

/-- A number is below ten to the power of its digit count. -/
theorem lt_pow_digitCount (n : Nat) : n < 10 ^ digitCount n := by
  have h : 0 < digitCount n := Nat.length_toDigits_pos
  exact (Nat.length_toDigits_le_iff (by decide) h).mp (Nat.le_refl _)

/-- A whole number times a power of ten. -/
structure Decimal where
  coefficient : Nat
  exponent : Int
deriving DecidableEq, Repr

namespace Decimal

/-- The numerator of the decimal's value as a quotient. -/
def num (d : Decimal) : Nat := d.coefficient * 10 ^ d.exponent.toNat

/-- The denominator of the decimal's value as a quotient. -/
def den (d : Decimal) : Nat := 10 ^ (-d.exponent).toNat

/-- The denominator is not zero. -/
theorem den_pos (d : Decimal) : 0 < d.den := Nat.pow_pos (by decide)

/-- The number of a format nearest to the decimal, with a given sign. -/
def toBinary (f : Format) (negative : Bool) (d : Decimal) : Binary f :=
  Binary.ofQuotient f negative d.num d.den

/-- The decimal without its last `places` digits. -/
def truncate (places : Nat) (d : Decimal) : Decimal :=
  { coefficient := d.coefficient / 10 ^ places, exponent := d.exponent + places }

/-- The decimal rounded to a coefficient without its last `places` digits, ties to even. -/
def round (places : Nat) (d : Decimal) : Decimal :=
  { coefficient := halfEven d.coefficient (10 ^ places), exponent := d.exponent + places }

/-- The next decimal of the same exponent. -/
def next (d : Decimal) : Decimal := { d with coefficient := d.coefficient + 1 }

/-- The significant digits: all of the coefficient's but its trailing zeros. -/
def significant (d : Decimal) : List Char :=
  ((Nat.toDigits 10 d.coefficient).reverse.dropWhile (· == '0')).reverse

/-- The exponent part of scientific text: a sign and at least two digits. -/
def exponentText (exponent : Int) : List Char :=
  let digits := Nat.toDigits 10 exponent.natAbs
  'e' :: (if exponent < 0 then '-' else '+') :: (if digits.length < 2 then '0' :: digits else digits)

/-- The text of a decimal. With the first digit at the place of ten to the power of -4 up to 15 it is positional, with at
least one digit on each side of the point; elsewhere one digit stands before the point, the others after it, and the exponent
follows. -/
def layout (d : Decimal) : List Char :=
  let digits := d.significant
  -- How many places lie before the point.
  let whole : Int := digitCount d.coefficient + d.exponent
  if digits.isEmpty then ['0', '.', '0']
  else if -4 < whole ∧ whole ≤ 16 then
    if whole ≤ 0 then '0' :: '.' :: (List.replicate (-whole).toNat '0' ++ digits)
    else
      let before := digits.take whole.toNat
      let after := digits.drop whole.toNat
      before ++ List.replicate (whole.toNat - before.length) '0' ++ '.' :: (if after.isEmpty then ['0'] else after)
  else
    let point := if digits.length ≤ 1 then [] else ['.']
    digits.take 1 ++ point ++ digits.drop 1 ++ exponentText (whole - 1)

/-- Rounding away no digit changes nothing. -/
@[simp] theorem round_zero (d : Decimal) : d.round 0 = d := by
  simp [round, halfEven_one]

/-- Cutting off no digit changes nothing. -/
@[simp] theorem truncate_zero (d : Decimal) : d.truncate 0 = d := by
  simp [truncate]

/-- A rounded decimal is one of the two points of its grid around the decimal. -/
theorem round_eq_or (places : Nat) (d : Decimal) :
    d.round places = d.truncate places ∨ d.round places = (d.truncate places).next := by
  rcases halfEven_eq_or d.coefficient (10 ^ places) with h | h
  · exact Or.inl (by simp [round, truncate, h])
  · exact Or.inr (by simp [round, truncate, next, h])

end Decimal

end TinyScript
