import TinyScript.Directory
import TinyScript.Grammar.Tape
import TinyScript.Scan.Fault

/-!
# Failures

Everything that can stop an operation of the library, in one type. A failure in a program's text has a report; every other one
is a sentence.
-/

namespace TinyScript

/-- What can stop an operation. -/
inductive Failure where
  /-- A malformed literal. -/
  | lexical (error : LexError)
  /-- A token that does not fit the grammar. -/
  | grammatical (error : ParseError)
  /-- A value that may not be built. -/
  | refused (reason : Refusal)
  /-- A scanner that has scanned before. -/
  | scannerUsed
  /-- A session that has parsed before. -/
  | sessionUsed
  /-- A place in a token list at which there is no token. -/
  | noToken (fault : PlaceFault)
  /-- A source file that cannot be read. -/
  | unreadable (fault : FileFault)

namespace Failure

/-- A scan's fault as a failure. -/
def ofScan : ScanFault → Failure
  | .diagnosed error => lexical error
  | .refused reason => refused reason

/-- A failure in words: its report if it has one. -/
def message : Failure → String
  | lexical error => error.diagnostic.render
  | grammatical error => error.diagnostic.render
  | refused reason => reason.message
  | scannerUsed => "Lexer instances can only tokenize once"
  | sessionUsed => "Parser instances can only parse once"
  | noToken fault => fault.message
  | unreadable fault => fault.message

end Failure

end TinyScript
