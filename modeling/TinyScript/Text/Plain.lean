/-!
# Plain text

`unifyNewlines` gives every line of a text file the same end. `withoutStyle` removes the sequences by which a terminal is
told to change colour or move, for output that goes to a file.
-/

namespace TinyScript.Text

/-- Every line end is a line feed: a carriage return becomes one, together with the line feed it may stand before. -/
def unifyNewlines : List Char → List Char
  | [] => []
  | '\r' :: '\n' :: rest => '\n' :: unifyNewlines rest
  | c :: rest => (if c = '\r' then '\n' else c) :: unifyNewlines rest

/-- The characters of the numeric part of a terminal sequence. -/
def isStyleParameter (c : Char) : Bool :=
  c == ';' || c == '?' || c.isDigit

/-- The text after the terminal sequence that it starts with: escape, bracket, parameters and a letter. -/
def afterStyle? : List Char → Option (List Char)
  | '\x1b' :: '[' :: rest =>
    match rest.dropWhile isStyleParameter with
    | c :: after => if c.isAlpha then some after else none
    | [] => none
  | _ => none

/-- What follows a terminal sequence is shorter than what it starts. -/
theorem length_lt_of_afterStyle? {text after : List Char} (h : afterStyle? text = some after) :
    after.length < text.length := by
  unfold afterStyle? at h
  split at h
  next rest =>
    split at h
    next c rest' hd =>
      split at h
      · cases h
        have := (List.dropWhile_sublist isStyleParameter (l := rest)).length_le
        rw [hd] at this
        simp only [List.length_cons] at this ⊢
        omega
      · cases h
    next => cases h
  next => cases h

/-- A text without its terminal sequences. -/
def withoutStyle : List Char → List Char
  | [] => []
  | c :: rest =>
    match _h : afterStyle? (c :: rest) with
    | some after => withoutStyle after
    | none => c :: withoutStyle rest
termination_by text => text.length
decreasing_by
  · exact length_lt_of_afterStyle? (by assumption)
  · simp

end TinyScript.Text
