/-!
# Brackets

The pairs of characters that enclose a group of tokens.
-/

namespace TinyScript

/-- A pair of brackets. -/
inductive Bracket where
  | round
  | curly
  | square
  | angle
deriving DecidableEq, Repr

namespace Bracket

/-- All pairs, in the order in which messages name them. -/
def all : List Bracket := [round, curly, square, angle]

/-- The character that opens a group. -/
def opening : Bracket → Char
  | round => '('
  | curly => '\x7b'
  | square => '['
  | angle => '<'

/-- The character that closes a group. -/
def closing : Bracket → Char
  | round => ')'
  | curly => '\x7d'
  | square => ']'
  | angle => '>'

/-- The pair that a text opens, if it is the opening character of one. -/
def ofOpening? (text : String) : Option Bracket := all.find? (·.opening.toString == text)

/-- The text that closes what a text opens: its pair's closing character, or the text itself if it opens nothing. -/
def closingFor (text : String) : String :=
  match ofOpening? text with
  | some b => b.closing.toString
  | none => text

/-- A pair is found by its opening character. -/
theorem ofOpening?_opening (b : Bracket) : ofOpening? b.opening.toString = some b := by
  cases b <;> decide

/-- No bracket opens and closes a group at once. -/
theorem opening_ne_closing (b b' : Bracket) : b.opening ≠ b'.closing := by
  cases b <;> cases b' <;> decide

end Bracket

end TinyScript
