import TinyScript.Number.Shortest
import TinyScript.Refusal

/-!
# Tokens

A `Token` is a value with the source offset at which it was made. `TokenValue` has one form per kind of token; the
constructors with a question mark take what a caller has and refuse what no token may hold.

`lexeme` is the text that a token stands for in a program, `TokenValue.inspect` shows its kind and payload.
-/

namespace TinyScript

/-- The kinds of tokens. -/
inductive TokenKind where
  | identifier
  | character
  | string
  | char
  | integer
  | float
  | boolean
  | eof
deriving DecidableEq, Repr

/-- The name of a kind in listings. -/
def TokenKind.caption : TokenKind → String
  | identifier => "IDENTIFIER"
  | character => "CHARACTER"
  | string => "STRING"
  | char => "CHAR"
  | integer => "INTEGER"
  | float => "FLOAT"
  | boolean => "BOOLEAN"
  | eof => "EOF"

/-- The name of a kind inside a sentence. -/
def TokenKind.word : TokenKind → String
  | identifier => "identifier"
  | character => "character"
  | string => "string"
  | char => "char"
  | integer => "integer"
  | float => "float"
  | boolean => "boolean"
  | eof => "eof"

/-- The value of a token: its kind with the payload of that kind. -/
inductive TokenValue where
  /-- A name. -/
  | identifier (name : String)
  /-- A punctuation or operator character. -/
  | character (mark : Char)
  /-- The text between the quotes of a string literal. -/
  | string (text : String)
  /-- A character literal; no source text scans to one. -/
  | char (value : Char)
  /-- An integer literal. -/
  | integer (value : Int32)
  /-- A float literal. -/
  | float (value : Single)
  /-- A truth value. -/
  | boolean (value : Bool)
  /-- The end of the input. -/
  | eof
deriving DecidableEq

instance : Inhabited TokenValue := ⟨.eof⟩

namespace TokenValue

/-- The punctuation token of a text of one character. -/
def character? (text : String) : Except Refusal TokenValue :=
  match text.toList with
  | [c] => .ok (character c)
  | _ => .error (.characterLength text)

/-- The character literal of a text of one character. -/
def char? (text : String) : Except Refusal TokenValue :=
  match text.toList with
  | [c] => .ok (char c)
  | _ => .error (.charLength text)

/-- The integer token of a number that fits in 32 bits. -/
def integer? (value : Int) : Except Refusal TokenValue :=
  if -2 ^ 31 ≤ value ∧ value < 2 ^ 31 then .ok (integer (Int32.ofInt value)) else .error (.integerRange value)

/-- The float token of a 64-bit number, which is rounded to 32 bits. -/
def ofDouble (value : Double) : TokenValue := float value.toSingle

/-- The kind of a value. -/
def kind : TokenValue → TokenKind
  | identifier _ => .identifier
  | character _ => .character
  | string _ => .string
  | char _ => .char
  | integer _ => .integer
  | float _ => .float
  | boolean _ => .boolean
  | eof => .eof

/-- The truth values as they are written in a program. -/
def booleanText (value : Bool) : String := if value then "true" else "false"

/-- The text that a value stands for in a program. -/
def lexeme : TokenValue → String
  | identifier name => name
  | character mark => mark.toString
  | string text => "\"" ++ text ++ "\""
  | char value => "'" ++ value.toString ++ "'"
  | integer value => toString value.toInt
  | float value => String.ofList value.text
  | boolean value => booleanText value
  | eof => ""

/-- The payload of a value, shown so that no two payloads of a kind look alike. -/
def inspectPayload : TokenValue → String
  | identifier name => Text.quoted name
  | character mark => Text.quoted mark.toString
  | string text => Text.quoted text
  | char value => Text.quoted value.toString
  | integer value => toString value.toInt
  | float value => String.ofList value.toDouble.text
  | boolean value => if value then "True" else "False"
  | eof => ""

/-- A value with its kind, the end of the input by its name alone. -/
def inspect (value : TokenValue) : String :=
  match value with
  | eof => "EOF"
  | _ => value.kind.caption ++ "(" ++ value.inspectPayload ++ ")"

/-- Equality of values. Floats are compared as numbers. -/
def same : TokenValue → TokenValue → Bool
  | float x, float y => x.same y
  | a, b => a == b

/-- Equality of lists of values. -/
def sameAll : List TokenValue → List TokenValue → Bool
  | [], [] => true
  | a :: as, b :: bs => a.same b && sameAll as bs
  | _, _ => false

/-- The literals: every value that stands for itself in an expression. -/
def isLiteral (value : TokenValue) : Bool :=
  match value.kind with
  | .string | .char | .integer | .float | .boolean => true
  | .identifier | .character | .eof => false

end TokenValue

/-- A value with the offset at which it was made. -/
structure Token where
  value : TokenValue
  position : Int
deriving DecidableEq

namespace Token

instance : Inhabited Token := ⟨⟨.eof, 0⟩⟩

/-- The end-of-input token at an offset. -/
def eof (position : Int) : Token := ⟨.eof, position⟩

/-- The kind of a token. -/
def kind (t : Token) : TokenKind := t.value.kind

/-- The text that a token stands for in a program. -/
def lexeme (t : Token) : String := t.value.lexeme

/-- A token with its kind, payload and offset. -/
def inspect (t : Token) : String := t.value.inspect ++ "@" ++ toString t.position

/-- Equality of tokens: of their values and their offsets. -/
def same (s t : Token) : Bool := s.value.same t.value && s.position == t.position

/-- Equality of lists of tokens. -/
def sameAll : List Token → List Token → Bool
  | [], [] => true
  | s :: ss, t :: ts => s.same t && sameAll ss ts
  | _, _ => false

/-- The token ends the input. -/
def isEof (t : Token) : Bool := t.value == .eof

/-- The name that an identifier token holds. -/
def name? (t : Token) : Option String :=
  match t.value with
  | .identifier name => some name
  | _ => none

/-- The character that a punctuation token holds. -/
def mark? (t : Token) : Option Char :=
  match t.value with
  | .character mark => some mark
  | _ => none

/-- The token is an identifier, of a given name if one is asked for. -/
def isIdentifier (t : Token) (name : Option String := none) : Bool :=
  match t.name? with
  | some found => name.all (found == ·)
  | none => false

/-- The token is punctuation, of a given text if one is asked for. -/
def isCharacter (t : Token) (text : Option String := none) : Bool :=
  match t.mark? with
  | some mark => text.all (mark.toString == ·)
  | none => false

/-- The token is a given punctuation character. -/
def isMark (t : Token) (mark : Char) : Bool := t.value == .character mark

/-- The token in words, for messages. -/
def describe (t : Token) : String :=
  if t.isEof then "end of input" else t.kind.word ++ " '" ++ t.lexeme ++ "'"

/-- The end-of-input token ends the input. -/
@[simp] theorem isEof_eof (position : Int) : (eof position).isEof = true := rfl

/-- A token ends the input exactly when its value does. -/
theorem isEof_iff (t : Token) : t.isEof = true ↔ t.value = .eof := by
  simp [isEof]

/-- A token is a given mark exactly when its value is. -/
theorem isMark_iff (t : Token) (mark : Char) : t.isMark mark = true ↔ t.value = .character mark := by
  simp [isMark]

/-- A punctuation token does not end the input. -/
theorem not_isEof_of_isMark {t : Token} {mark : Char} (h : t.isMark mark = true) : t.isEof = false := by
  rw [isMark_iff] at h
  simp [isEof, h]

end Token

end TinyScript
