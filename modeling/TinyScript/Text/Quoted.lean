import TinyScript.Text.Printable

/-!
# Quoted text

How a text is shown inside a message: between quotes, with nothing in it that a reader could not see. `quoted` chooses the
quote, and `escape` writes one character.
-/

namespace TinyScript.Text

/-- A number in lower-case hexadecimal with at least `width` digits. -/
def hex (width n : Nat) : List Char :=
  let digits := Nat.toDigits 16 n
  List.replicate (width - digits.length) '0' ++ digits

/-- The escape of an unprintable character: its code point with two, four or eight digits, the fewest that hold it. -/
def codeEscape (c : Char) : List Char :=
  if c.toNat < 0x100 then '\\' :: 'x' :: hex 2 c.toNat
  else if c.toNat < 0x10000 then '\\' :: 'u' :: hex 4 c.toNat
  else '\\' :: 'U' :: hex 8 c.toNat

/-- A character inside quotes: the quote, the backslash and line breaks are escaped, and so is what is not printable. -/
def escape (quote c : Char) : List Char :=
  if c = quote ∨ c = '\\' then ['\\', c]
  else if c = '\n' then ['\\', 'n']
  else if c = '\r' then ['\\', 'r']
  else if c = '\t' then ['\\', 't']
  else if isPrintable c then [c]
  else codeEscape c

/-- The quote of a text: single, but double around a text with single quotes and no double one. -/
def quoteFor (text : List Char) : Char :=
  if text.contains '\'' && !text.contains '"' then '"' else '\''

/-- A text between quotes. -/
def quoted (text : String) : String :=
  let quote := quoteFor text.toList
  String.ofList (quote :: text.toList.flatMap (escape quote) ++ [quote])

/-- A printable character other than the quote and the backslash stands for itself. -/
theorem escape_of_isPrintable {quote c : Char} (h : isPrintable c = true) (hq : c ≠ quote) (hb : c ≠ '\\')
    (hn : c ≠ '\n') (hr : c ≠ '\r') (ht : c ≠ '\t') : escape quote c = [c] := by
  simp [escape, h, hq, hb, hn, hr, ht]

end TinyScript.Text
