import TinyScript.Scan.Fault
import TinyScript.Token

/-!
# Reading one token

A `Reading` is what reading a token from the start of a text comes to: its value or what stops the scan, and how many
characters were passed. There is one reader per kind of lexeme, each taking the place where the text starts, and `readingFor`
chooses between them by the first character.

Every reader passes at least one character of a text that `readingFor` sends to it (`readingFor_length_pos`).
-/

namespace TinyScript

/-- The outcome of reading a token and the number of characters passed. -/
structure Reading where
  outcome : Except ScanFault TokenValue
  length : Nat

namespace Reading

/-- The characters between lexemes that make no token. -/
def isBlank (c : Char) : Bool := c == ' ' || c == '\r' || c == '\n' || c == '\t'

/-- The characters that an identifier may start with. -/
def isWordStart (c : Char) : Bool := c.isAlpha || c == '_'

/-- The characters that an identifier is made of. -/
def isWordPart (c : Char) : Bool := c.isAlphanum || c == '_'

/-- The value of decimal digits. -/
def valueOf (digits : List Char) : Nat := Nat.ofDigitChars 10 digits 0

/-- The integer that a run of digits spells. -/
def integer (start : Location) (digits : List Char) : Except ScanFault TokenValue :=
  if digits.isEmpty then .error (.refused (.notInteger ""))
  else if Refusal.maxDigits < digits.length then .error (.refused (.digitLimit digits.length))
  else if valueOf digits < 2 ^ 31 then .ok (.integer (Int32.ofNat (valueOf digits)))
  else .error (.diagnosed ⟨.overflow (String.ofList digits), start⟩)

/-- The decimal that digits around a point spell. -/
def pointed (whole fraction : List Char) : Decimal :=
  { coefficient := valueOf (whole ++ fraction), exponent := -fraction.length }

/-- The float that digits around a point spell: the nearest 64-bit number, rounded to 32 bits. -/
def float (whole fraction : List Char) : Except ScanFault TokenValue :=
  if whole.isEmpty && fraction.isEmpty then .error (.refused (.notFloat "."))
  else .ok (.ofDouble ((pointed whole fraction).toBinary .double false))

/-- Reads a number: digits and points as far as they go. It stops before a second point. -/
def number (start : Location) (text : List Char) : Reading :=
  let whole := text.takeWhile Char.isDigit
  match text.dropWhile Char.isDigit with
  | '.' :: rest =>
    let fraction := rest.takeWhile Char.isDigit
    let length := whole.length + 1 + fraction.length
    match rest.dropWhile Char.isDigit with
    | '.' :: _ =>
      { outcome := .error (.diagnosed ⟨.extraPoint (String.ofList (whole ++ '.' :: fraction ++ ['.'])), start⟩), length }
    | _ => { outcome := float whole fraction, length }
  | _ => { outcome := integer start whole, length := whole.length }

/-- The value of a word: a truth value, or else an identifier. -/
def wordValue (name : String) : TokenValue :=
  if name = TokenValue.booleanText true then .boolean true
  else if name = TokenValue.booleanText false then .boolean false
  else .identifier name

/-- Reads a word: letters, digits and underscores as far as they go. -/
def word (text : List Char) : Reading :=
  let name := text.takeWhile isWordPart
  { outcome := .ok (wordValue (String.ofList name)), length := name.length }

/-- The text before the quote that closes a string literal: the first one that no backslash precedes inside the literal.
`last` is the character before the text. -/
def untilQuote (last : Char) : List Char → Option (List Char)
  | [] => none
  | c :: rest => if c = '"' ∧ last ≠ '\\' then some [] else (untilQuote c rest).map (c :: ·)

/-- Reads a string literal. Its first character is passed whatever it is; nothing between the quotes is decoded. -/
def string (start : Location) (text : List Char) : Reading :=
  match untilQuote '\x00' text.tail with
  | some contents => { outcome := .ok (.string (String.ofList contents)), length := contents.length + 2 }
  | none => { outcome := .error (.diagnosed ⟨.unterminated, start⟩), length := text.tail.length + 1 }

/-- Reads a punctuation character. -/
def mark (c : Char) : Reading := { outcome := .ok (.character c), length := 1 }

/-- The reading of a text that starts with a character other than a blank. -/
def readingFor (first : Char) (start : Location) (text : List Char) : Reading :=
  if first.isDigit then number start text
  else if isWordStart first then word text
  else if first = '"' then string start text
  else mark first

/-- A number passes at least the digits it starts with. -/
theorem takeWhile_length_le_number_length (start : Location) (text : List Char) :
    (text.takeWhile Char.isDigit).length ≤ (number start text).length := by
  unfold number
  dsimp only
  split
  · split <;> (dsimp only; omega)
  · exact Nat.le_refl _

/-- A character that may start a word may also stand inside one. -/
theorem isWordPart_of_isWordStart {c : Char} (h : isWordStart c = true) : isWordPart c = true := by
  simp only [isWordStart, isWordPart, Char.isAlphanum, Bool.or_eq_true] at h ⊢
  rcases h with h | h
  · exact Or.inl (Or.inl h)
  · exact Or.inr h

/-- A string literal passes at least its first quote. -/
theorem string_length_pos (start : Location) (text : List Char) : 0 < (string start text).length := by
  unfold string
  split <;> (dsimp only; omega)

/-- Whatever it starts with, a text loses at least one character to its reading. -/
theorem readingFor_length_pos (first : Char) (start : Location) (rest : List Char) :
    0 < (readingFor first start (first :: rest)).length := by
  unfold readingFor
  split
  next h =>
    refine Nat.lt_of_lt_of_le ?_ (takeWhile_length_le_number_length start (first :: rest))
    simp [h]
  next =>
    split
    next h => simp [word, isWordPart_of_isWordStart h]
    next =>
      split
      · exact string_length_pos _ _
      · exact Nat.one_pos

end Reading

end TinyScript
