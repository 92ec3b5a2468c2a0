import TinyScript.Text.Quoted

/-!
# Refusals

Some values may not be built: a punctuation token of two characters, a guard without operands, a token list without an end.
A `Refusal` says which rule was broken, and `Refusal.message` says it in words.
-/

namespace TinyScript

/-- The rule that a value would have broken. -/
inductive Refusal where
  /-- A punctuation token holds exactly one character. -/
  | characterLength (text : String)
  /-- A character literal holds exactly one character. -/
  | charLength (text : String)
  /-- An integer payload fits in 32 bits. -/
  | integerRange (value : Int)
  /-- A run of digits that is read as an integer has a greatest length. -/
  | digitLimit (count : Nat)
  /-- The text of an integer has a digit. -/
  | notInteger (text : String)
  /-- The text of a float has a digit. -/
  | notFloat (text : String)
  /-- A conditional has a guard. -/
  | emptyCondition
  /-- An assignment names a type exactly when it declares its variable. -/
  | typeMismatch
  /-- A token list ends with the end-of-input token. -/
  | noFinalEof
deriving DecidableEq, Repr

namespace Refusal

/-- The longest run of digits that is read as an integer. -/
def maxDigits : Nat := 4300

/-- The rule in words. -/
def message : Refusal → String
  | characterLength text => "Character token needs exactly one character, got " ++ Text.quoted text
  | charLength text => "Char literal needs exactly one character, got " ++ Text.quoted text
  | integerRange value => "Integer " ++ toString value ++ " does not fit in 32 bits"
  | digitLimit count =>
    "Exceeds the limit (" ++ toString maxDigits ++ " digits) for integer string conversion: value has " ++
      toString count ++ " digits; use sys.set_int_max_str_digits() to increase the limit"
  | notInteger text => "invalid literal for int() with base 10: " ++ Text.quoted text
  | notFloat text => "could not convert string to float: " ++ Text.quoted text
  | emptyCondition => "Conditional requires a non-empty condition"
  | typeMismatch => "Declarations need a type, re-assignments must not have one"
  | noFinalEof => "Token list must end with an EOF token"

end Refusal

end TinyScript
