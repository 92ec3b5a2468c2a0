import TinyScript.Number.HalfEven

/-!
# Binary formats

A format has binades of `2 ^ fractionBits` evenly spaced values and `2 ^ exponentBits` exponents, of which the last is
infinity and not-a-number. A magnitude of a format is named by its *code*: its exponent and fraction bits read as one
natural number. Codes are in the order of the magnitudes they name, so the nearest magnitude, the next one and overflow are
questions about natural numbers.

`Format.units` is the value of a code, counted in the format's smallest step, and `Format.round` is the code nearest to a
quotient.
-/

-- Powers of numbers are the core library's, also where an algebraic structure on them is in reach.
attribute [instance (2000)] instPowNat
attribute [default_instance 20000] instPowNat

namespace TinyScript

/-- The widths of the two fields of a magnitude. -/
structure Format where
  fractionBits : Nat
  exponentBits : Nat
deriving DecidableEq, Repr

namespace Format

/-- The 64-bit format. -/
def double : Format := { fractionBits := 52, exponentBits := 11 }

/-- The 32-bit format. -/
def single : Format := { fractionBits := 23, exponentBits := 8 }

/-- The code of infinity: the greatest exponent and an empty fraction. -/
def infinity (f : Format) : Nat := (2 ^ f.exponentBits - 1) * 2 ^ f.fractionBits

/-- The smallest step of a format is two to the power of minus its scale. -/
def scale (f : Format) : Nat := 2 ^ (f.exponentBits - 1) + f.fractionBits - 2

/-- The place of the sign bit, above the exponent and fraction bits. -/
def signBit (f : Format) : Nat := f.exponentBits + f.fractionBits

/-- The value of a code in smallest steps: below the first normal magnitude the codes count steps, and from there on each
binade doubles the spacing of the one before. -/
def units (f : Format) (code : Nat) : Nat :=
  if code < 2 ^ f.fractionBits then code
  else (2 ^ f.fractionBits + code % 2 ^ f.fractionBits) * 2 ^ (code / 2 ^ f.fractionBits - 1)

/-- The code of the magnitude nearest to `num / den`, a tie going to the even code, and infinity past the largest one.
The quotient is counted in smallest steps; `shift` is the number of binades above the first two, in which steps are counted
one by one. -/
def round (f : Format) (num den : Nat) : Nat :=
  let steps := num * 2 ^ f.scale
  let shift := (steps / den).log2 - f.fractionBits
  min f.infinity (shift * 2 ^ f.fractionBits + halfEven steps (den * 2 ^ shift))

/-- Rounding stays among the codes of the format. -/
theorem round_le_infinity (f : Format) (num den : Nat) : f.round num den ≤ f.infinity :=
  Nat.min_le_left _ _

/-- Below the first binade a code counts steps. -/
theorem units_of_lt {f : Format} {code : Nat} (h : code < 2 ^ f.fractionBits) : f.units code = code := by
  simp [units, h]

/-- Zero is worth nothing. -/
theorem units_zero (f : Format) : f.units 0 = 0 :=
  units_of_lt (Nat.two_pow_pos _)

end Format

end TinyScript
