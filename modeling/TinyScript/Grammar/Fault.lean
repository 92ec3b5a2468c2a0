import TinyScript.Diagnostic
import TinyScript.Grammar.Bracket
import TinyScript.Token

/-!
# Grammar errors

A parse stops at the first token that does not fit. `ParseError` is what was wrong with it, and `ParseError.diagnostic` the
report. Every error but one holds the token at fault, and its place is that token's offset.
-/

namespace TinyScript

/-- What is wrong with a program's tokens. -/
inductive ParseError where
  /-- Another token was expected. -/
  | unexpected (expected : String) (found : Token)
  /-- The input ends inside a statement that a semicolon should end. -/
  | missingSemicolon (found : Token)
  /-- The input ends inside a group. -/
  | unclosed (opening : String) (found : Token)
  /-- A group was asked for that no bracket opens. -/
  | unrecognized (opening : String) (position : Int)
deriving DecidableEq

namespace ParseError

/-- The kind of the error. -/
def kind : ParseError → ErrorKind
  | unexpected _ _ | missingSemicolon _ => .unexpectedToken
  | unclosed _ _ => .unterminatedBracketGroup
  | unrecognized _ _ => .unrecognizedBracket

/-- The token at fault. -/
def token? : ParseError → Option Token
  | unexpected _ found | missingSemicolon found | unclosed _ found => some found
  | unrecognized _ _ => none

/-- The offset of the error. -/
def position : ParseError → Int
  | unexpected _ found | missingSemicolon found | unclosed _ found => found.position
  | unrecognized _ position => position

/-- The code of the error. An unexpected end has a code of its own. -/
def code : ParseError → String
  | unexpected _ found => if found.isEof then "P010" else "P001"
  | missingSemicolon _ => "P003"
  | unclosed _ _ => "P004"
  | unrecognized _ _ => "P013"

/-- The title that goes with the code. -/
def title : ParseError → String
  | unexpected _ found => if found.isEof then "Unexpected end of input" else "Unexpected token"
  | missingSemicolon _ => "Missing semicolon"
  | unclosed _ _ => "Unclosed delimiter"
  | unrecognized _ _ => "Unknown bracket character"

/-- What is wrong, in a sentence. -/
def message : ParseError → String
  | unexpected expected found => "Expected " ++ expected ++ ", found " ++ found.describe
  | missingSemicolon _ => "Expected ';' before end of input"
  | unclosed _ _ => "Could not get parameters, reached EOF!"
  | unrecognized opening _ => "Could not find matching closing character for: `" ++ opening ++ "`."

/-- The rule that was broken. -/
def help : ParseError → String
  | unexpected expected found =>
    "The parser expected to see " ++ expected ++ " at this position, but found " ++ found.describe ++ " instead."
  | missingSemicolon _ => "Statements must be terminated with ';'."
  | unclosed opening _ => "The opening '" ++ opening ++ "' was never closed."
  | unrecognized _ _ =>
    "Only " ++ ", ".intercalate (Bracket.all.map (·.opening.toString)) ++ " can open a bracket group."

/-- The expectations that one added character would meet. -/
def addable : List String := ["';'", "'\x7b'", "'('", "')'", "'='"]

/-- What to try. -/
def suggestions : ParseError → List String
  | unexpected expected _ => if addable.contains expected then ["Add " ++ expected] else []
  | missingSemicolon _ => ["Add a semicolon ';' to end the statement"]
  | unclosed opening _ => ["Add a closing '" ++ Bracket.closingFor opening ++ "'", "Check for missing delimiters"]
  | unrecognized _ _ => []

/-- The report on a grammar error. -/
def diagnostic (e : ParseError) : Diagnostic where
  message := e.message
  position := e.position
  severity := "error"
  code := some e.code
  help := some e.help
  suggestions := e.suggestions
  title := some e.title

end ParseError

end TinyScript
