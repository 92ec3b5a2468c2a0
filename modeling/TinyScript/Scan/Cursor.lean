import TinyScript.Scan.Reading

/-!
# The scan of a source

A `Cursor` is a place in a source with the text from there on, the current character first. Before the start that text has
a null character in front, so that the first advance is like every other one; past the end it is empty and the cursor still
counts.

`Cursor.read` makes a token with a reader, `Cursor.scan` reads the rest of the source, and `lex` scans a whole source.
A `Scanner` is a cursor that scans once.
-/

namespace TinyScript

/-- A place in a source and the text from there on. -/
structure Cursor where
  location : Location
  rest : List Char

/-- The tokens read by a scan, what stopped it, and the cursor it left. -/
structure Scanning where
  tokens : List Token
  fault : Option ScanFault
  cursor : Cursor

namespace Cursor

/-- The character of a cursor that has none: before the start and past the end. -/
def noChar : Char := '\x00'

/-- The cursor before the first character of a source. -/
def start (filename source : String) : Cursor :=
  { location := .beforeStart filename, rest := noChar :: source.toList }

/-- The current character. -/
def current (c : Cursor) : Char := c.rest.headD noChar

/-- The cursor is past the end. -/
def stopped (c : Cursor) : Bool := c.rest.isEmpty

/-- One character on. -/
def advance (c : Cursor) : Cursor :=
  { location := c.location.step c.current, rest := c.rest.tail }

/-- A number of characters on. -/
def advanceBy : Nat → Cursor → Cursor
  | 0, c => c
  | n + 1, c => advanceBy n c.advance

/-- The offset that a token keeps, from the offset past its last character: that of its last character for strings and
punctuation, and past it for words and numbers. -/
def anchor (value : TokenValue) (past : Int) : Int :=
  match value.kind with
  | .string | .character => past - 1
  | .identifier | .char | .integer | .float | .boolean | .eof => past

/-- Makes a token with a reader and moves past what was read. -/
def read (reader : Location → List Char → Reading) (c : Cursor) : Except ScanFault Token × Cursor :=
  let reading := reader c.location c.rest
  let after := c.advanceBy reading.length
  (reading.outcome.map fun value => ⟨value, anchor value after.location.offset⟩, after)

/-- Advancing drops characters from the rest. -/
@[simp] theorem rest_advanceBy (n : Nat) (c : Cursor) : (c.advanceBy n).rest = c.rest.drop n := by
  induction n generalizing c with
  | zero => rfl
  | succ n ih =>
    rw [advanceBy, ih]
    cases h : c.rest with
    | nil => simp [advance, h]
    | cons _ rest => simp [advance, h]

/-- What is left after a reading. -/
@[simp] theorem rest_read (reader : Location → List Char → Reading) (c : Cursor) :
    (c.read reader).2.rest = c.rest.drop (reader c.location c.rest).length :=
  rest_advanceBy _ c

/-- Reads the rest of the source: blanks are passed, everything else is a token, and the end of the source is the last one.
The scan stops at the first fault and keeps the tokens before it. -/
def scan (c : Cursor) : Scanning :=
  match _h : c.rest with
  | [] => { tokens := [.eof c.location.offset], fault := none, cursor := c }
  | first :: _rest =>
    if Reading.isBlank first then c.advance.scan
    else
      let step := c.read (Reading.readingFor first)
      match step.1 with
      | .ok token =>
        let more := step.2.scan
        { more with tokens := token :: more.tokens }
      | .error fault => { tokens := [], fault := some fault, cursor := step.2 }
termination_by c.rest.length
decreasing_by
  · simp [advance, *]
  · have hpos := Reading.readingFor_length_pos first c.location _rest
    rw [rest_read, List.length_drop, _h, List.length_cons]
    omega

end Cursor

/-- The tokens of a source, with the end-of-input token last, or what stops its scan. -/
def lex (source : String) (filename : String) : Except ScanFault (List Token) :=
  let scanning := (Cursor.start filename source).advance.scan
  match scanning.fault with
  | none => .ok scanning.tokens
  | some fault => .error fault

/-- A cursor with the tokens collected so far. It scans once. -/
structure Scanner where
  cursor : Cursor
  tokens : List Token
  used : Bool

namespace Scanner

/-- A fresh scanner over a source. -/
def new (filename source : String) : Scanner :=
  { cursor := .start filename source, tokens := [], used := false }

/-- Moves one character on. -/
def advance (s : Scanner) : Scanner := { s with cursor := s.cursor.advance }

/-- Makes one token with a reader and does not collect it. -/
def read (reader : Location → List Char → Reading) (s : Scanner) : Except ScanFault Token × Scanner :=
  let step := s.cursor.read reader
  (step.1, { s with cursor := step.2 })

/-- Moves one character on, reads the rest of the source and collects its tokens; none if the scanner has scanned before. -/
def tokenize? (s : Scanner) : Option (Except ScanFault (List Token) × Scanner) :=
  if s.used then none
  else
    let scanning := s.cursor.advance.scan
    let tokens := s.tokens ++ scanning.tokens
    let outcome : Except ScanFault (List Token) :=
      match scanning.fault with
      | none => .ok tokens
      | some fault => .error fault
    some (outcome, { cursor := scanning.cursor, tokens, used := true })

end Scanner

end TinyScript
