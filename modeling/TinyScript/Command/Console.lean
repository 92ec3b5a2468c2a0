import TinyScript.Command.Options
import TinyScript.Text.Plain

/-!
# Consoles

What the command leaves to the library of its command line: it reads the arguments, says what is wrong with them, answers for
the version and for help, and writes texts to the two outputs. A `Console` is a way to do all that, and the command works on any.

Of the outputs it is relied on that texts arrive at a terminal as they are (`OnTerminal`), and elsewhere without terminal
sequences (`OffTerminal`). `Console.piped` is the console on which the command is run, with outputs that are no terminals.
-/

namespace TinyScript.Command

/-- What the command leaves to its surroundings. -/
structure Console where
  /-- The options that arguments ask for. -/
  options : List String → Except UsageFault Options
  /-- What arrives at the error output where arguments are rejected. -/
  rejection : UsageFault → String
  /-- What arrives at the output where the version or help is asked for. -/
  answer : Notice → String
  /-- What arrives at the output where a text is written to it. -/
  out : String → String
  /-- What arrives at the error output where a text is written to it. -/
  err : String → String

/-- Texts arrive as they are, each with its line ended. -/
def OnTerminal (write : String → String) : Prop := ∀ text, write text = text ++ "\n"

/-- Texts arrive without terminal sequences, each with its line ended. -/
def OffTerminal (write : String → String) : Prop := ∀ text, write text = String.ofList (Text.withoutStyle text.toList) ++ "\n"

/-! ## Outputs that are no terminals -/

/-- The answer to a question for the version. -/
def versionText : String := "tinyscript, version 0.1.0\n"

/-- The answer to a question for help. -/
def helpText : String :=
  UsageFault.usage ++
  "\n  Lex and parse a TinyScript program.\n\nOptions:\n" ++
  "  -s, --source TEXT       Source text to use instead of a file.\n" ++
  "  --tokens / --no-tokens  Print the token list.\n" ++
  "  --ast                   Print the parsed AST.\n" ++
  "  -v, --verbose           Enable debug logging.\n" ++
  "  --version               Show the version and exit.\n" ++
  "  --help                  Show this message and exit.\n"

/-- A text as it is printed: without terminal sequences, and the line ended. -/
def printed (text : String) : String := String.ofList (Text.withoutStyle text.toList) ++ "\n"

/-- Printed texts arrive as they do where there is no terminal. -/
theorem offTerminal_printed : OffTerminal printed := fun _ => rfl

/-- The console of outputs that are no terminals. -/
def Console.piped : Console where
  options := Options.ofArguments
  rejection fault := String.ofList (Text.withoutStyle fault.report.toList)
  answer
    | .version => versionText
    | .help => helpText
  out := printed
  err := printed

end TinyScript.Command
