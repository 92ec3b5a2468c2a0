import TinyScript.Grammar.Fault

/-!
# Slices and rules

A `Slice` is a run of tokens that a rule of the grammar reads: the tokens still ahead and the offset at which it ends. Past
its last token a slice has the end-of-input token at that offset for ever, so a rule never runs out of tokens.

A `Rule` reads the front of a slice. It leaves the rest, also when it fails, where the rest starts at the token at fault.
`group` cuts the tokens between two brackets out of a slice, `value` those up to a semicolon; both give a slice of their own,
which ends at the token that closed it.

`Rule.Shrinks` bounds what a rule may leave, so that recursion on slices ends.
-/

namespace TinyScript

/-- The tokens ahead and the offset at which they end. -/
structure Slice where
  tokens : List Token
  stop : Int
deriving DecidableEq

namespace Slice

/-- The token a number of places ahead, the end-of-input token past the end. -/
def lookahead (n : Nat) (s : Slice) : Token := (s.tokens.drop n).headD (.eof s.stop)

/-- The first token ahead. -/
def current (s : Slice) : Token := s.lookahead 0

/-- No more is read from here: the slice is used up, or an end-of-input token stands in it. -/
def atEnd (s : Slice) : Bool := s.current.isEof

/-- The slice after its first token. -/
def advance (s : Slice) : Slice := { s with tokens := s.tokens.tail }

/-- The token that closed the slice, from the character that does. -/
def closer (mark : Char) (s : Slice) : Token := ⟨.character mark, s.stop⟩

/-- A slice with tokens has the first of them at its front. -/
@[simp] theorem current_cons (t : Token) (tokens : List Token) (stop : Int) :
    current ⟨t :: tokens, stop⟩ = t := rfl

/-- A slice without tokens has its end at the front. -/
@[simp] theorem current_nil (stop : Int) : current ⟨[], stop⟩ = .eof stop := rfl

/-- Advancing never makes a slice longer. -/
theorem length_advance_le (s : Slice) : s.advance.tokens.length ≤ s.tokens.length := by
  simp only [advance, List.length_tail]
  omega

/-- Away from the end advancing makes a slice shorter. -/
theorem length_advance_lt {s : Slice} (h : s.atEnd = false) : s.advance.tokens.length < s.tokens.length := by
  obtain ⟨tokens, stop⟩ := s
  cases tokens with
  | nil => simp [atEnd] at h
  | cons t rest => simp [advance]

end Slice

/-- A rule of the grammar: it reads the front of a slice and leaves the rest, or fails and leaves what it had not read. -/
abbrev Rule := EStateM ParseError Slice

/-- The outcome of a rule on a slice. -/
abbrev Outcome := EStateM.Result ParseError Slice

/-- The result of an outcome without the rest of the slice. -/
def Outcome.result {α : Type} : Outcome α → Except ParseError α
  | .ok a _ => .ok a
  | .error e _ => .error e

/-- The rest of the slice that an outcome leaves. -/
def Outcome.rest {α : Type} : Outcome α → Slice
  | .ok _ s => s
  | .error _ s => s

namespace Rule

/-- Passes one token. -/
def skip : Rule Unit := modify Slice.advance

/-- Fails at the current token, which is not what was expected. -/
def expected {α : Type} (what : String) : Rule α := fun s => .error (.unexpected what s.current) s

/-- Passes one token if it satisfies a test. -/
def expectToken (test : Token → Bool) (what : String) : Rule Unit := fun s =>
  if test s.current then .ok () s.advance else .error (.unexpected what s.current) s

/-- Passes a punctuation character. -/
def expect (mark : Char) (what : String) : Rule Unit := expectToken (·.isMark mark) what

/-- Passes an identifier and gives it. -/
def identifier (what : String) : Rule (Token × String) := fun s =>
  match s.current.name? with
  | some name => .ok (s.current, name) s.advance
  | none => .error (.unexpected what s.current) s

/-- Reads a whole slice of its own with a rule. The outer slice stays where it is. -/
def within {α : Type} (inner : Slice) (r : Rule α) : Rule α := fun s =>
  match r inner with
  | .ok a _ => .ok a s
  | .error e _ => .error e s

/-- Divides tokens before the bracket that closes a group: `depth` counts the groups of the same pair that are still open.
Without such a bracket the tokens are divided before the first end of input. -/
def spanGroup (b : Bracket) : Nat → List Token → List Token × List Token
  | _, [] => ([], [])
  | depth, t :: rest =>
    if t.isEof then ([], t :: rest)
    else if t.isMark b.closing then
      match depth with
      | 0 => ([], t :: rest)
      | depth + 1 =>
        let (inside, after) := spanGroup b depth rest
        (t :: inside, after)
    else
      let (inside, after) := spanGroup b (if t.isMark b.opening then depth + 1 else depth) rest
      (t :: inside, after)

/-- Cuts out the tokens up to the bracket that closes a group and passes that bracket. The opening one has been passed. -/
def group (b : Bracket) : Rule Slice := fun s =>
  let (inside, after) := spanGroup b 0 s.tokens
  match after with
  | t :: rest =>
    if t.isMark b.closing then .ok ⟨inside, t.position⟩ ⟨rest, s.stop⟩
    else .error (.unclosed b.opening.toString t) ⟨after, s.stop⟩
  | [] => .error (.unclosed b.opening.toString (.eof s.stop)) ⟨[], s.stop⟩

/-- A token that ends the value of a statement, or stops the search for its end. -/
def endsValue (t : Token) : Bool := t.isMark ';' || t.isEof

/-- Passes one token, cuts out the tokens up to the first semicolon and passes that. -/
def value : Rule Slice := fun s =>
  let ahead := s.tokens.tail
  let inside := ahead.takeWhile (!endsValue ·)
  match ahead.dropWhile (!endsValue ·) with
  | t :: rest =>
    if t.isMark ';' then .ok ⟨inside, t.position⟩ ⟨rest, s.stop⟩
    else .error (.missingSemicolon t) ⟨t :: rest, s.stop⟩
  | [] => .error (.missingSemicolon (.eof s.stop)) ⟨[], s.stop⟩

/-! ## How much a rule leaves -/

/-- What a rule leaves is shorter than what it was given by at least what `cost` says for its result. -/
def Shrinks {α : Type} (cost : α → Nat) (r : Rule α) : Prop :=
  ∀ s a t, r s = .ok a t → t.tokens.length + cost a ≤ s.tokens.length

/-- The inversion of a sequence that succeeds: both parts succeeded, the second on what the first left. -/
theorem bind_eq_ok {α β : Type} {r : Rule α} {f : α → Rule β} {s u : Slice} {b : β} (h : (r >>= f) s = .ok b u) :
    ∃ a t, r s = .ok a t ∧ f a t = .ok b u := by
  change EStateM.bind r f s = .ok b u at h
  unfold EStateM.bind at h
  split at h
  next a t hr => exact ⟨a, t, hr, h⟩
  next => cases h

/-- A lower cost is a weaker bound. -/
theorem Shrinks.mono {α : Type} {cost cost' : α → Nat} {r : Rule α} (h : r.Shrinks cost) (hle : ∀ a, cost' a ≤ cost a) :
    r.Shrinks cost' := by
  intro s a t hr
  have := h s a t hr
  have := hle a
  omega

/-- The costs of two rules in sequence add up. -/
theorem Shrinks.bind {α β : Type} {cost : α → Nat} {total : β → Nat} {r : Rule α} {f : α → Rule β} (hr : r.Shrinks cost)
    (hf : ∀ a, (f a).Shrinks fun b => total b - cost a) : (r >>= f).Shrinks total := by
  intro s b u h
  obtain ⟨a, t, h₁, h₂⟩ := bind_eq_ok h
  have h₃ := hr s a t h₁
  have h₄ : u.tokens.length + (total b - cost a) ≤ t.tokens.length := hf a t b u h₂
  omega

/-- A rule that only gives a result leaves everything. -/
theorem shrinks_pure {α : Type} {cost : α → Nat} {a : α} (h : cost a = 0) : (pure a : Rule α).Shrinks cost := by
  intro s b t hb
  cases hb
  rw [h]
  exact Nat.le_refl _

/-- A choice satisfies the bounds that both ways do. -/
theorem Shrinks.ite {α : Type} {cost : α → Nat} {c : Prop} [Decidable c] {r r' : Rule α} (h : r.Shrinks cost)
    (h' : r'.Shrinks cost) : (if c then r else r').Shrinks cost := by
  split
  · exact h
  · exact h'

/-- A failure satisfies every bound. -/
theorem shrinks_throw {α : Type} (e : ParseError) (cost : α → Nat) : (throw e : Rule α).Shrinks cost := by
  intro s a t h
  cases h

/-- Passing a token costs nothing at the end of a slice. -/
theorem shrinks_skip : skip.Shrinks fun _ => 0 := by
  intro s a t h
  cases h
  exact s.length_advance_le

/-- An expected token that does not end the input is passed for good. -/
theorem shrinks_expectToken {test : Token → Bool} (htest : ∀ t, test t = true → t.isEof = false) (what : String) :
    (expectToken test what).Shrinks fun _ => 1 := by
  intro s a t h
  unfold expectToken at h
  split at h
  next hs =>
    cases h
    exact s.length_advance_lt (htest _ hs)
  next => cases h

/-- An expected character is passed for good. -/
theorem shrinks_expect (mark : Char) (what : String) : (expect mark what).Shrinks fun _ => 1 :=
  shrinks_expectToken (fun _ => Token.not_isEof_of_isMark) what

/-- A token that holds a name does not end the input. -/
theorem not_isEof_of_name? {t : Token} {name : String} (h : t.name? = some name) : t.isEof = false := by
  obtain ⟨value, position⟩ := t
  cases value <;> simp_all [Token.name?, Token.isEof]

/-- An identifier is passed for good. -/
theorem shrinks_identifier (what : String) : (identifier what).Shrinks fun _ => 1 := by
  intro s a t h
  unfold identifier at h
  split at h
  next name hn =>
    cases h
    exact s.length_advance_lt (not_isEof_of_name? hn)
  next => cases h

/-- Reading another slice leaves this one alone. -/
theorem shrinks_within {α : Type} (inner : Slice) (r : Rule α) : (within inner r).Shrinks fun _ => 0 := by
  intro s a t h
  unfold within at h
  split at h <;> cases h
  exact Nat.le_refl _

/-- Dividing loses no token. -/
theorem spanGroup_append (b : Bracket) (depth : Nat) (tokens : List Token) :
    (spanGroup b depth tokens).1 ++ (spanGroup b depth tokens).2 = tokens := by
  fun_induction spanGroup b depth tokens <;> simp_all

/-- A group and its closing bracket are gone from what is left. -/
theorem shrinks_group (b : Bracket) : (group b).Shrinks fun inner => inner.tokens.length + 1 := by
  intro s inner t h
  have hs := spanGroup_append b 0 s.tokens
  unfold group at h
  split at h
  next inside after hp =>
    rw [hp] at hs
    split at h
    next t' rest =>
      split at h
      · cases h
        rw [← hs]
        simp only [List.length_append, List.length_cons]
        omega
      · cases h
    next => cases h

/-- A value and its semicolon are gone from what is left. -/
theorem shrinks_value : value.Shrinks fun inner => inner.tokens.length + 1 := by
  intro s inner t h
  have hs := List.takeWhile_append_dropWhile (p := (!endsValue ·)) (l := s.tokens.tail)
  have hl : s.tokens.tail.length ≤ s.tokens.length := s.length_advance_le
  unfold value at h
  dsimp only at h
  split at h
  next t' rest hd =>
    split at h
    · cases h
      rw [hd] at hs
      have := congrArg List.length hs
      simp only [List.length_append, List.length_cons] at this
      dsimp only
      omega
    · cases h
  next => cases h

end Rule

end TinyScript
