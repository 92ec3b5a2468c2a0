import TinyScript.Location
import TinyScript.Text.Capitals

/-!
# Diagnostics

A `Diagnostic` is one report: what is wrong, where, and what may help. `Diagnostic.render` writes it, a line for the message,
one for the place and one for every further part; a part that is missing or empty has no line.
-/

namespace TinyScript

/-- The kinds of errors in a program's text. -/
inductive ErrorKind where
  | malformedNumber
  | unterminatedString
  | unterminatedBracketGroup
  | unrecognizedBracket
  | unexpectedToken
deriving DecidableEq, Repr

/-- The name of an error kind. -/
def ErrorKind.name : ErrorKind → String
  | malformedNumber => "MalformedNumber"
  | unterminatedString => "UnterminatedString"
  | unterminatedBracketGroup => "UnterminatedBracketGroup"
  | unrecognizedBracket => "UnrecognizedBracket"
  | unexpectedToken => "UnexpectedToken"

/-- A report. The place is the location if there is one, else the offset `position`. -/
structure Diagnostic where
  message : String
  position : Int
  severity : String
  code : Option String := none
  help : Option String := none
  suggestions : List String := []
  location : Option Location := none
  title : Option String := none
deriving DecidableEq, Repr

namespace Diagnostic

/-- A line with a part of a report, nothing for a part that is missing or empty. -/
def part (before : String) (text : Option String) (after : String) : String :=
  match text with
  | some text => if text.isEmpty then "" else before ++ text ++ after
  | none => ""

/-- The line that says where. -/
def place (d : Diagnostic) : String :=
  match d.location with
  | some location => "  --> " ++ location.text ++ "\n"
  | none => "  --> offset " ++ toString d.position ++ "\n"

/-- The lines of the suggestions under their heading. -/
def advice (d : Diagnostic) : String :=
  if d.suggestions.isEmpty then ""
  else "  suggestions:\n" ++ String.join (d.suggestions.map fun s => "    - " ++ s ++ "\n")

/-- The report as text, every line ended. The severity is written in capitals. -/
def render (d : Diagnostic) : String :=
  Text.capitals d.severity ++ part "[" d.code "]" ++ ": " ++ d.message ++ "\n" ++ d.place ++
    part "  note: " d.title "\n" ++ part "  help: " d.help "\n" ++ d.advice

end Diagnostic

end TinyScript
