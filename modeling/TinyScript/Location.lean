import TinyScript.Text.Quoted

/-!
# Source locations

A `Location` is where a cursor stands in a named source: the line from one, the column from one, and the offset from zero.
Before the first character the column is zero and the offset is one less than zero.
-/

namespace TinyScript

/-- A place in a named source text. -/
structure Location where
  filename : String
  line : Int
  column : Int
  offset : Int
deriving DecidableEq, Repr

namespace Location

/-- The place before the first character of a source. -/
def beforeStart (filename : String) : Location :=
  { filename, line := 1, column := 0, offset := -1 }

/-- The place one past a character: a line feed ends its line. -/
def step (c : Char) (l : Location) : Location :=
  if c = '\n' then { l with line := l.line + 1, column := 1, offset := l.offset + 1 }
  else { l with column := l.column + 1, offset := l.offset + 1 }

/-- The place past a list of characters. -/
def stepAll (l : Location) (text : List Char) : Location :=
  text.foldl (fun l c => l.step c) l

/-- The short form of a location in reports. -/
def text (l : Location) : String :=
  l.filename ++ ":" ++ toString l.line ++ ":" ++ toString l.column

/-- The long form of a location, which shows every field. -/
def inspect (l : Location) : String :=
  "SourceLocation(" ++ Text.quoted l.filename ++ ", " ++ toString l.line ++ ", " ++ toString l.column ++ ", " ++
    toString l.offset ++ ")"

/-- A step moves the offset by one. -/
@[simp] theorem offset_step (c : Char) (l : Location) : (l.step c).offset = l.offset + 1 := by
  unfold step
  split <;> rfl

/-- A step stays in its source. -/
@[simp] theorem filename_step (c : Char) (l : Location) : (l.step c).filename = l.filename := by
  unfold step
  split <;> rfl

/-- Steps move the offset by their number. -/
@[simp] theorem offset_stepAll (l : Location) (text : List Char) :
    (l.stepAll text).offset = l.offset + text.length := by
  unfold stepAll
  induction text generalizing l with
  | nil => simp
  | cons c rest ih =>
    rw [List.foldl_cons, ih, offset_step, List.length_cons]
    omega

/-- Steps stay in their source. -/
@[simp] theorem filename_stepAll (l : Location) (text : List Char) : (l.stepAll text).filename = l.filename := by
  unfold stepAll
  induction text generalizing l with
  | nil => rfl
  | cons c rest ih => rw [List.foldl_cons, ih, filename_step]

end Location

end TinyScript
