import TinyScript.Failure
import TinyScript.Scan.Cursor

/-!
# From sources to trees

What the library offers as a whole: `lexSource` and `parseSource` for a text, `lexFile` and `parseFile` for a file,
`parseTokens` for a token list. Each gives its result or the one `Failure` that stopped it.

A `Session` holds a tape that is parsed once, rule by rule if need be.

Two limits of the machine are not modelled: rules call each other as deep as a program nests, and a number with a point is read
however many digits it has. What a source does beyond them is not said here.
-/

namespace TinyScript

/-- The name of a source that has no other. -/
def defaultFilename : String := "<string>"

/-- Scans a text. -/
def lexSource (source : String) (filename : String := defaultFilename) : Except Failure (List Token) :=
  (lex source filename).mapError Failure.ofScan

/-- Parses a token list. -/
def parseTokens (tokens : List Token) : Except Failure (List Node) := do
  let slice ← (Slice.ofTokens? tokens).mapError Failure.refused
  slice.parse.mapError Failure.grammatical

/-- Scans and parses a text. -/
def parseSource (source : String) (filename : String := defaultFilename) : Except Failure (List Node) := do
  parseTokens (← lexSource source filename)

/-! Both stop where the scan stops, and else have its tokens. -/

section Scanned

variable {source filename : String} {tokens : List Token} {fault : ScanFault}

theorem lexSource_of_ok (h : lex source filename = .ok tokens) : lexSource source filename = .ok tokens := by
  rw [lexSource, h]
  rfl

theorem lexSource_of_error (h : lex source filename = .error fault) :
    lexSource source filename = .error (.ofScan fault) := by
  rw [lexSource, h]
  rfl

theorem parseSource_of_ok (h : lexSource source filename = .ok tokens) :
    parseSource source filename = parseTokens tokens := by
  rw [parseSource, h]
  rfl

theorem parseSource_of_error (h : lex source filename = .error fault) :
    parseSource source filename = .error (.ofScan fault) := by
  rw [parseSource, lexSource_of_error h]
  rfl

end Scanned

/-- Reads and scans a file. Its path is the name that errors give. -/
def lexFile (look : String → Entry) (path : String) : Except Failure (List Token) := do
  lexSource (← (readSource look path).mapError Failure.unreadable) path

/-- Reads, scans and parses a file. -/
def parseFile (look : String → Entry) (path : String) : Except Failure (List Node) := do
  parseTokens (← lexFile look path)

/-- A tape that is parsed once. -/
structure Session where
  tape : Tape
  used : Bool

namespace Session

/-- A session over a token list. -/
def ofTokens? (tokens : List Token) : Except Failure Session := do
  let slice ← (Slice.ofTokens? tokens).mapError Failure.refused
  return { tape := .ofSlice slice, used := false }

/-- The token a number of places from where the session stands. -/
def peek (offset : Int) (s : Session) : Except Failure Token := (s.tape.peek offset).mapError Failure.noToken

/-- Applies a rule where the session stands. -/
def run {α : Type} (r : Rule α) (s : Session) : Except Failure α × Session :=
  let (result, tape) := s.tape.run r
  (result.mapError Failure.grammatical, { s with tape })

/-- Parses the rest of the tape, unless that has been asked for before. -/
def parse (s : Session) : Except Failure (List Node) × Session :=
  if s.used then (.error .sessionUsed, s) else { s with used := true }.run Slice.program

end Session

end TinyScript
