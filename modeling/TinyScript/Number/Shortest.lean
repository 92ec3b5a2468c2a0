import TinyScript.Number.Decimal

/-!
# The text of a floating-point number

`Binary.text` writes a number with the fewest digits that read back as it in its own format; `Double.singleText` writes it
with the fewest digits whose rounding reads back as it in the 32-bit format, and is how a float literal is printed.

Both search over digit counts: a finite number has an exact decimal (`Format.exact`), every count gives a grid of decimals,
and the answer is on the first grid with a point that reads back.
-/

namespace TinyScript

namespace Format

/-- The exact decimal of a finite magnitude: a step is a power of one half, and one half is five tenths. -/
def exact (f : Format) (code : Nat) : Decimal :=
  { coefficient := f.units code * 5 ^ f.scale, exponent := -f.scale }

/-- A decimal reads back as a magnitude that it rounds to. -/
def readsBack (f : Format) (code : Nat) (d : Decimal) : Bool :=
  f.round d.num d.den == code

/-- The point that reads back as a magnitude on the grid that lacks the last `places` digits of its exact decimal, if there is
one: of the two points around the magnitude the one that reads back, and the nearer where both do. -/
def candidate? (f : Format) (code : Nat) (value : Decimal) (places : Nat) : Option Decimal :=
  let below := value.truncate places
  match f.readsBack code below, f.readsBack code below.next with
  | true, true => some (value.round places)
  | true, false => some below
  | false, true => some below.next
  | false, false => none

/-- The decimal with the fewest digits that reads back as a finite magnitude. Seventeen digits tell any two magnitudes of
the formats in use apart; past them the exact decimal stands. -/
def shortest (f : Format) (code : Nat) : Decimal :=
  let value := f.exact code
  let digits := digitCount value.coefficient
  ((List.range' 1 17).findSome? fun kept => f.candidate? code value (digits - kept)).getD value

end Format

/-- The text of a sign. -/
def signText (negative : Bool) : List Char := if negative then ['-'] else []

/-- The shortest text of a number that reads back as it. -/
def Binary.text {f : Format} : Binary f → List Char
  | .nan => ['n', 'a', 'n']
  | .signed negative code _ =>
    signText negative ++ if code = f.infinity then ['i', 'n', 'f'] else (f.shortest code).layout

namespace Double

/-- The number that a 64-bit number becomes when it is rounded to 32 bits. -/
def toSingle (x : Double) : Single := x.convert .single

/-- The shortest text whose value, rounded to 32 bits, is the number: of one to nine significant digits the first count that
does, or nine if none does. What is printed is the text of the number that those digits read as. -/
def singleText : Double → List Char
  | .nan => Binary.text (f := .double) .nan
  | x@(.signed negative code _) =>
    if code = Format.double.infinity then x.text
    else
      let value := Format.double.exact code
      let digits := digitCount value.coefficient
      let written (kept : Nat) : Double := (value.round (digits - kept)).toBinary .double negative
      let kept := ((List.range' 1 9).find? fun kept => ((written kept).toSingle.convert .double).same x).getD 9
      (written kept).text

end Double

namespace Single

/-- The 64-bit number of the same value. -/
def toDouble (x : Single) : Double := x.convert .double

/-- The shortest text that reads back as the same 32-bit number. -/
def text (x : Single) : List Char := x.toDouble.singleText

end Single

end TinyScript
