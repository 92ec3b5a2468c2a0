import TinyScript.Number.Format

/-!
# Floating-point numbers

`Binary f` holds the numbers of a format: a sign and a magnitude, infinity and both zeros included, or not-a-number. The
numbers a program writes are `Single`; a literal and its text go through `Double` first, so that a literal is rounded twice.

Main operations: `ofQuotient` rounds a quotient into a format, `convert` moves a number between formats (narrowing rounds,
widening is exact), `same` compares as numbers do, and `ofBits`/`toBits` are the interchange encoding.
-/

namespace TinyScript

/-- A number of a format: a sign with the code of a magnitude, or not-a-number. -/
inductive Binary (f : Format) where
  | nan
  | signed (negative : Bool) (code : Nat) (le_infinity : code ≤ f.infinity)
deriving DecidableEq

/-- The 64-bit numbers. -/
abbrev Double := Binary .double

/-- The 32-bit numbers. -/
abbrev Single := Binary .single

namespace Binary

variable {f : Format}

instance : Inhabited (Binary f) := ⟨.nan⟩

/-- Infinity of either sign. -/
def infinity (f : Format) (negative : Bool) : Binary f :=
  .signed negative f.infinity (Nat.le_refl _)

/-- The number of the format nearest to a signed quotient. -/
def ofQuotient (f : Format) (negative : Bool) (num den : Nat) : Binary f :=
  .signed negative (f.round num den) (f.round_le_infinity num den)

/-- The nearest number of another format, its sign kept. Infinity and not-a-number stay what they are. -/
def convert (g : Format) : Binary f → Binary g
  | .nan => .nan
  | .signed negative code _ =>
    if code = f.infinity then infinity g negative
    else ofQuotient g negative (f.units code) (2 ^ f.scale)

/-- Equality of numbers: the two zeros are equal, and not-a-number equals nothing. -/
def same : Binary f → Binary f → Bool
  | .signed negative code _, .signed negative' code' _ =>
    code == code' && (negative == negative' || code == 0)
  | _, _ => false

/-- The number with given interchange bits: sign, exponent and fraction from the top. Every exponent of ones with a fraction
is the one not-a-number. -/
def ofBits (f : Format) (bits : Nat) : Binary f :=
  let code := bits % 2 ^ f.signBit
  if h : code ≤ f.infinity then .signed (bits / 2 ^ f.signBit % 2 == 1) code h else .nan

/-- The interchange bits of a number, none for not-a-number. -/
def toBits? : Binary f → Option Nat
  | .nan => none
  | .signed negative code _ => some ((if negative then 2 ^ f.signBit else 0) + code)

/-- Conversion keeps not-a-number. -/
@[simp] theorem convert_nan (g : Format) : (Binary.nan : Binary f).convert g = .nan := rfl

/-- Not-a-number equals nothing, itself included. -/
@[simp] theorem nan_same (x : Binary f) : Binary.nan.same x = false := rfl

/-- Every other number equals itself. -/
@[simp] theorem signed_same_self (negative : Bool) (code : Nat) (h : code ≤ f.infinity) :
    (Binary.signed negative code h).same (.signed negative code h) = true := by
  simp [same]

end Binary

end TinyScript
