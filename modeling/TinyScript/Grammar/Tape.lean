import TinyScript.Grammar.Statement

/-!
# Token tapes

A `Tape` is a token list with a place in it: the tokens that have been passed and the slice ahead. The place is always at a
token, for the list ends with the end-of-input token and the tape never moves past it. `Tape.run` applies a rule to the slice
ahead and moves to where the rule stopped, whether it succeeded or not.

`parse` reads a whole token list as a program.
-/

namespace TinyScript

/-- The slice that a token list is, refused if its last token does not end the input. -/
def Slice.ofTokens? (tokens : List Token) : Except Refusal Slice :=
  match tokens.getLast? with
  | some last => if last.isEof then .ok ⟨tokens.dropLast, last.position⟩ else .error .noFinalEof
  | none => .error .noFinalEof

/-- Why there is no token at a place. -/
inductive PlaceFault where
  /-- The place is before the first token. -/
  | outOfRange
  /-- The number of the place needs more than 64 bits. -/
  | tooFar
deriving DecidableEq, Repr

namespace PlaceFault

/-- The least number that a place can have. -/
def leastNumber : Int := -2 ^ 63

/-- The fault in words. -/
def message : PlaceFault → String
  | outOfRange => "list index out of range"
  | tooFar => "cannot fit 'int' into an index-sized integer"

end PlaceFault

/-- A token list with a place in it: the tokens passed, the nearest first, and the slice ahead. -/
structure Tape where
  passed : List Token
  ahead : Slice

namespace Tape

/-- A tape before its first token. -/
def ofSlice (s : Slice) : Tape := { passed := [], ahead := s }

/-- All tokens of the tape, the end-of-input token last. -/
def toList (t : Tape) : List Token := t.passed.reverse ++ t.ahead.tokens ++ [.eof t.ahead.stop]

/-- The number of the current token. -/
def index (t : Tape) : Nat := t.passed.length

/-- The current token. -/
def current (t : Tape) : Token := t.ahead.current

/-- The token before the current one, or the current one if it is the first. -/
def previous (t : Tape) : Token := t.passed.headD t.current

/-- The token a number of places ahead, or behind if the number is negative. It stops at the last token ahead; behind the first
token the places count on from the end of the list, and none is left before the first token from there. -/
def peek (offset : Int) (t : Tape) : Except PlaceFault Token :=
  let tokens := t.toList
  let place := min (t.index + offset) (tokens.length - 1)
  if place < PlaceFault.leastNumber then .error .tooFar
  else
    let place := if place < 0 then place + tokens.length else place
    if place < 0 then .error .outOfRange
    else
      match tokens[place.toNat]? with
      | some token => .ok token
      | none => .error .outOfRange

/-- The tape with a rest of its slice ahead, and what is gone from the slice passed. -/
def moveTo (rest : Slice) (t : Tape) : Tape :=
  let gone := t.ahead.tokens.take (t.ahead.tokens.length - rest.tokens.length)
  { passed := gone.reverse ++ t.passed, ahead := rest }

/-- Applies a rule to the slice ahead and moves to where it stopped. -/
def run {α : Type} (r : Rule α) (t : Tape) : Except ParseError α × Tape :=
  let outcome : Outcome α := r t.ahead
  (outcome.result, t.moveTo outcome.rest)

/-- The current token of a tape is the one that its index names. -/
theorem toList_getElem?_index (t : Tape) : t.toList[t.index]? = some t.current := by
  obtain ⟨passed, tokens, stop⟩ := t
  cases tokens <;> simp [toList, index, current]

/-- Ahead there is a token at every place, the one that the slice ahead has there. -/
theorem peek_natCast (t : Tape) (n : Nat) : t.peek n = .ok (t.ahead.lookahead n) := by
  obtain ⟨passed, tokens, stop⟩ := t
  have hlength : (toList ⟨passed, tokens, stop⟩).length = passed.length + tokens.length + 1 := by
    simp [toList, Nat.add_assoc]
  have hplace : min ((passed.length : Int) + n) ((passed.length + tokens.length + 1 : Nat) - 1) =
      (passed.length + min n tokens.length : Nat) := by omega
  have hleast : ¬ ((passed.length + min n tokens.length : Nat) : Int) < PlaceFault.leastNumber := by
    have : PlaceFault.leastNumber < 0 := by decide
    omega
  have htoken : (toList ⟨passed, tokens, stop⟩)[passed.length + min n tokens.length]? =
      some (Slice.lookahead n ⟨tokens, stop⟩) := by
    rw [toList, List.append_assoc, ← List.length_reverse, List.getElem?_append_right (Nat.le_add_right _ _),
      Nat.add_sub_cancel_left]
    rcases Nat.lt_or_ge n tokens.length with hn | hn
    · rw [Nat.min_eq_left (Nat.le_of_lt hn), List.getElem?_append_left hn, Slice.lookahead, List.headD_eq_head?_getD,
        List.head?_drop, List.getElem?_eq_getElem hn, Option.getD_some]
    · rw [Nat.min_eq_right hn, List.getElem?_append_right (Nat.le_refl _), Nat.sub_self, Slice.lookahead,
        List.drop_eq_nil_of_le hn]
      rfl
  unfold peek
  dsimp only [index]
  rw [hlength, hplace, if_neg hleast, if_neg (by omega), if_neg (by omega), Int.toNat_natCast, htoken]

end Tape

namespace Rule

/-- Cuts out the tokens of the group that a text opens; nothing is passed if no bracket does. -/
def groupOf (opening : String) : Rule Slice := fun s =>
  match Bracket.ofOpening? opening with
  | some b => group b s
  | none => .error (.unrecognized opening s.current.position) s

/-- Passes punctuation that is written as a text. -/
def expectText (text what : String) : Rule Unit := expectToken (·.isCharacter (some text)) what

end Rule

/-- The tokens of a slice with its end. -/
def Slice.toList (s : Slice) : List Token := s.tokens ++ [.eof s.stop]

/-- Reads a slice as a program. -/
def Slice.parse (s : Slice) : Except ParseError (List Node) := s.program.result

/-- A token list that ends with the end of the input is the list of its slice. -/
theorem Slice.toList_of_ofTokens? {tokens : List Token} {s : Slice} (h : ofTokens? tokens = .ok s) : s.toList = tokens := by
  unfold ofTokens? at h
  split at h
  next last hlast =>
    split at h
    next heof =>
      cases h
      have hvalue := (Token.isEof_iff last).mp heof
      have : last = .eof last.position := by
        cases last
        simp_all [Token.eof]
      obtain ⟨front, rfl⟩ := List.getLast?_eq_some_iff.mp hlast
      rw [toList, ← this, List.dropLast_concat]
    next => cases h
  next => cases h

end TinyScript
