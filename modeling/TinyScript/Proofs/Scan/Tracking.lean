import TinyScript.Failure
import TinyScript.Proofs.Scan.Failing

/-!
# The cursor of a scanner

A scanner can be asked for a step, for its place, for a token of a kind and for all tokens, in any order and also where what
is asked for fails (`Scanner.Request`). Whatever it is asked for, its cursor goes a number of characters on
(`Scanner.exists_advanceBy_perform`). So it is always a cursor that went on from before the first character, and such a
cursor is told by its offset: the character at it, the line and the column, also past the end
(`Cursor.tracks_advanceBy_start`).
-/

namespace TinyScript

/-! ## Cursors that go on -/

namespace Cursor

/-- Going on and on again is going on by both numbers. -/
theorem advanceBy_advanceBy (m n : Nat) (c : Cursor) : (c.advanceBy m).advanceBy n = c.advanceBy (m + n) := by
  induction m generalizing c with
  | zero => rw [advanceBy, Nat.zero_add]
  | succ m ih => rw [advanceBy, ih, Nat.succ_add, advanceBy]

/-- The last character is passed from where the others end. -/
theorem advanceBy_succ (n : Nat) (c : Cursor) : c.advanceBy (n + 1) = (c.advanceBy n).advance :=
  (advanceBy_advanceBy n 1 c).symm

/-- Going on moves the offset by the number of characters, also past the end. -/
theorem offset_advanceBy (n : Nat) (c : Cursor) : (c.advanceBy n).location.offset = c.location.offset + n := by
  induction n with
  | zero => rw [advanceBy]; omega
  | succ n ih =>
    rw [advanceBy_succ, advance, Location.offset_step, ih]
    omega

/-- A scan goes on to the end of the source or to where it fails. -/
theorem exists_advanceBy_scan (c : Cursor) : ∃ n, c.scan.cursor = c.advanceBy n := by
  fun_induction scan c with
  | case1 c hrest => exact ⟨0, rfl⟩
  | case2 c first rest hrest hblank ih =>
    obtain ⟨n, hn⟩ := ih
    exact ⟨n + 1, hn⟩
  | case3 c first rest hrest hblank step token htoken more ih =>
    obtain ⟨n, hn⟩ := ih
    refine ⟨(Reading.readingFor first c.location c.rest).length + n, ?_⟩
    rw [← advanceBy_advanceBy]
    exact hn
  | case4 c first rest hrest hblank step fault hfault =>
    exact ⟨(Reading.readingFor first c.location c.rest).length, rfl⟩

end Cursor

/-! ## Requests -/

namespace Scanner

/-- What a scanner can be asked for. -/
inductive Request where
  /-- To move one character on -/
  | advance
  /-- To say where it stands -/
  | location
  /-- To read the source to its end -/
  | tokenize
  /-- To read a number, whatever the current character is -/
  | number
  /-- To read a word -/
  | word
  /-- To read a string literal -/
  | string
deriving DecidableEq, Repr

/-- What a scanner answers. -/
inductive Answer where
  | done
  | place (location : Location)
  | token (token : Token)
  | tokens (tokens : List Token)

/-- Reads one token with a reader. -/
def performRead (reader : Location → List Char → Reading) (s : Scanner) : Except Failure Answer × Scanner :=
  let step := s.read reader
  ((step.1.mapError Failure.ofScan).map Answer.token, step.2)

/-- Does what is asked for. The scanner is left where it stopped, also if that failed. -/
def perform (s : Scanner) : Request → Except Failure Answer × Scanner
  | .advance => (.ok .done, s.advance)
  | .location => (.ok (.place s.cursor.location), s)
  | .tokenize =>
    match s.tokenize? with
    | some (outcome, after) => ((outcome.mapError Failure.ofScan).map Answer.tokens, after)
    | none => (.error .scannerUsed, s)
  | .number => s.performRead Reading.number
  | .word => s.performRead fun _ => Reading.word
  | .string => s.performRead Reading.string

/-- The scanner after requests one after another, whether they fail or not. -/
def performAll (s : Scanner) (requests : List Request) : Scanner :=
  requests.foldl (fun s request => (s.perform request).2) s

/-- Whatever a scanner is asked for, its cursor goes on. -/
theorem exists_advanceBy_perform (s : Scanner) (request : Request) :
    ∃ n, (s.perform request).2.cursor = s.cursor.advanceBy n := by
  cases request with
  | advance => exact ⟨1, rfl⟩
  | location => exact ⟨0, rfl⟩
  | tokenize =>
    rw [perform, tokenize?]
    by_cases hused : s.used = true
    · rw [if_pos hused]
      exact ⟨0, rfl⟩
    · rw [if_neg hused]
      obtain ⟨n, hn⟩ := s.cursor.advance.exists_advanceBy_scan
      exact ⟨n + 1, hn⟩
  | number | word | string => exact ⟨_, rfl⟩

/-- Whatever a scanner is asked for one after another, its cursor goes on. -/
theorem exists_advanceBy_performAll (s : Scanner) (requests : List Request) :
    ∃ n, (s.performAll requests).cursor = s.cursor.advanceBy n := by
  unfold performAll
  induction requests generalizing s with
  | nil => exact ⟨0, rfl⟩
  | cons request requests ih =>
    obtain ⟨m, hm⟩ := s.exists_advanceBy_perform request
    obtain ⟨n, hn⟩ := ih (s.perform request).2
    refine ⟨m + n, ?_⟩
    rw [List.foldl_cons, hn, hm, Cursor.advanceBy_advanceBy]

end Scanner

/-! ## Cursors and their offsets -/

/-- The place at an offset of a source, also past its end, where the last line goes on. -/
def Location.reached (filename : String) (source : List Char) (offset : Nat) : Location where
  filename
  line := 1 + (source.take offset).count '\n'
  column := offset - lastLineFeed (source.take offset)
  offset

/-- Inside a source the place at an offset is the place past the text before it. -/
theorem Location.reached_of_le (filename : String) {source : List Char} {offset : Nat} (h : offset ≤ source.length) :
    Location.reached filename source offset = .after filename (source.take offset) := by
  unfold Location.reached Location.after
  rw [List.length_take_of_le h]

/-- A step over the character at an offset comes to the next offset. Past the end the character is none. -/
theorem Location.step_reached (filename : String) (source : List Char) (offset : Nat) :
    (Location.reached filename source offset).step ((source.drop offset).headD Cursor.noChar) =
      .reached filename source (offset + 1) := by
  by_cases h : offset < source.length
  · have hchar : (source.drop offset).headD Cursor.noChar = source[offset] := by
      rw [List.drop_eq_getElem_cons h, List.headD_cons]
    have htake : source.take offset ++ [source[offset]] = source.take (offset + 1) := List.take_append_getElem h
    rw [hchar, Location.reached_of_le filename (Nat.le_of_lt h), Location.step_after, htake,
      ← Location.reached_of_le filename h]
  · have hend : source.length ≤ offset := Nat.le_of_not_lt h
    have hnone : ¬ Cursor.noChar = '\n' := by decide
    rw [List.drop_eq_nil_of_le hend, List.headD_nil, Location.step, if_neg hnone]
    unfold Location.reached
    rw [List.take_of_length_le hend, List.take_of_length_le (Nat.le_succ_of_le hend)]
    simp only [Location.mk.injEq, true_and]
    omega

namespace Cursor

/-- The cursor is told by its offset in the source: the current character is the one there, if there is one, and the line and
the column are those of the text before it. -/
structure Tracks (source : List Char) (c : Cursor) : Prop where
  current : 0 ≤ c.location.offset → c.location.offset < source.length →
    source[c.location.offset.toNat]? = some c.current
  noCurrent : c.location.offset < 0 ∨ source.length ≤ c.location.offset → c.current = noChar
  stopped : c.stopped = true ↔ source.length ≤ c.location.offset
  line : c.location.line = 1 + (source.take c.location.offset.toNat).count '\n'
  column : c.location.column = c.location.offset - lastLineFeed (source.take c.location.offset.toNat)

/-- From before the first character the first step leads to the first offset, and every other step one further. -/
theorem advanceBy_start (filename source : String) (n : Nat) :
    (start filename source).advanceBy (n + 1) =
      { location := .reached filename source.toList n, rest := source.toList.drop n } := by
  induction n with
  | zero => rfl
  | succ n ih =>
    rw [advanceBy_succ, ih, advance, current, Location.step_reached, List.tail_drop]

/-- Before the first character there is no current one, and no line has ended. -/
theorem tracks_start (filename source : String) : (start filename source).Tracks source.toList where
  current h := absurd (show (0 : Int) ≤ -1 from h) (by decide)
  noCurrent _ := rfl
  stopped := by
    have hoffset : (start filename source).location.offset = -1 := rfl
    have hstopped : (start filename source).stopped = false := rfl
    rw [hoffset, hstopped]
    constructor
    · intro h
      cases h
    · intro h
      omega
  line := rfl
  column := rfl

/-- A cursor that went on from before the first character is told by its offset. -/
theorem tracks_advanceBy_start (filename source : String) (n : Nat) :
    ((start filename source).advanceBy n).Tracks source.toList := by
  cases n with
  | zero => exact tracks_start filename source
  | succ n =>
    rw [advanceBy_start]
    refine ⟨?_, ?_, ?_, rfl, rfl⟩
    · intro _ hinside
      have hn : n < source.toList.length := Int.ofNat_lt.mp hinside
      change source.toList[n]? = some ((source.toList.drop n).headD noChar)
      rw [List.getElem?_eq_getElem hn, List.drop_eq_getElem_cons hn, List.headD_cons]
    · rintro (hbefore | hpast)
      · exact absurd hbefore (by simp [Location.reached])
      · have hn : source.toList.length ≤ n := Int.ofNat_le.mp hpast
        change (source.toList.drop n).headD noChar = noChar
        rw [List.drop_eq_nil_of_le hn, List.headD_nil]
    · change (source.toList.drop n).isEmpty = true ↔ (source.toList.length : Int) ≤ n
      rw [List.isEmpty_iff, List.drop_eq_nil_iff, Int.ofNat_le]

end Cursor

/-- Whatever a scanner is asked for, in whatever order and with whatever failures, its cursor is told by its offset in the
source: before the first character, inside the source and past its end. What it is asked for further never moves it back. -/
theorem Scanner.tracks_performAll (filename source : String) (requests : List Request) :
    ((new filename source).performAll requests).cursor.Tracks source.toList ∧
      ∀ more, ((new filename source).performAll requests).cursor.location.offset ≤
        ((new filename source).performAll (requests ++ more)).cursor.location.offset := by
  constructor
  · obtain ⟨n, hn⟩ := (new filename source).exists_advanceBy_performAll requests
    rw [hn]
    exact Cursor.tracks_advanceBy_start filename source n
  · intro more
    obtain ⟨n, hn⟩ := ((new filename source).performAll requests).exists_advanceBy_performAll more
    have hall : (new filename source).performAll (requests ++ more) =
        ((new filename source).performAll requests).performAll more := List.foldl_append
    rw [hall, hn, Cursor.offset_advanceBy]
    omega

/-- A word, a line feed, and a string literal that is not closed: the place is one past the end of the source. -/
example : ((Scanner.new "f" "x\n\"y").performAll [.advance, .word, .advance, .string, .advance]).cursor.location =
    { filename := "f", line := 2, column := 4, offset := 5 } := rfl

end TinyScript
