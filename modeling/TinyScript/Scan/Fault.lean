import TinyScript.Diagnostic
import TinyScript.Refusal

/-!
# What stops a scan

A scan stops at the first literal that cannot be a token. `LexError` is such a literal with the place where it starts, and
`LexError.diagnostic` its report. A `ScanFault` is one of them, or a run of characters that the number readers refuse.
-/

namespace TinyScript

/-- What is wrong with a literal. -/
inductive LexCause where
  /-- A number with a second point; its text up to that point. -/
  | extraPoint (lexeme : String)
  /-- An integer that does not fit in 32 bits. -/
  | overflow (lexeme : String)
  /-- A string literal that the input ends in. -/
  | unterminated
deriving DecidableEq, Repr

/-- A malformed literal and where it starts. -/
structure LexError where
  cause : LexCause
  location : Location
deriving DecidableEq, Repr

namespace LexCause

/-- The kind of the error. -/
def kind : LexCause → ErrorKind
  | extraPoint _ | overflow _ => .malformedNumber
  | unterminated => .unterminatedString

/-- The code of the error. -/
def code : LexCause → String
  | extraPoint _ => "L003"
  | overflow _ => "L007"
  | unterminated => "L002"

/-- The title that goes with the code. -/
def title : LexCause → String
  | extraPoint _ => "Invalid numeric literal"
  | overflow _ => "Number literal overflow"
  | unterminated => "Unterminated string literal"

/-- What is wrong, in a sentence. -/
def message : LexCause → String
  | extraPoint lexeme => "Cannot have more than one decimal point in a number: '" ++ lexeme ++ "'"
  | overflow lexeme => "Integer literal out of range: '" ++ lexeme ++ "'"
  | unterminated => "Unclosed string!"

/-- The rule that was broken. -/
def help : LexCause → String
  | extraPoint _ => "A float literal has exactly one decimal point, an integer literal has none."
  | overflow _ => "Integer literals must fit in a signed 32-bit integer."
  | unterminated => "String literals must be closed with a matching \" quote."

/-- What to try. -/
def suggestions : LexCause → List String
  | extraPoint _ => ["Remove the extra decimal points"]
  | overflow _ => ["Use a float literal for large values"]
  | unterminated => ["Add a closing \" quote", "Check for a \\ right before the closing quote"]

end LexCause

/-- The report on a malformed literal. -/
def LexError.diagnostic (e : LexError) : Diagnostic where
  message := e.cause.message
  position := e.location.offset
  severity := "error"
  code := some e.cause.code
  help := some e.cause.help
  suggestions := e.cause.suggestions
  location := some e.location
  title := some e.cause.title

/-- What stops a scan. -/
inductive ScanFault where
  /-- A malformed literal. -/
  | diagnosed (error : LexError)
  /-- A run of characters that is no number, or too long to be read as one. -/
  | refused (reason : Refusal)
deriving DecidableEq, Repr

end TinyScript
