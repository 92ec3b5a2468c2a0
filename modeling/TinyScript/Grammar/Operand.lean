import TinyScript.Grammar.Slice
import TinyScript.Tree.Basic

/-!
# Operands

An expression is a sequence of operands, and an operand is a call, a group in brackets or a single token. A rule first cuts an
operand out of the tokens ahead (`operandCut`), which takes no recursion, and then reads the slice inside it.

`expression` reads operands up to the end of a slice; `arguments` reads them between commas. Both end because what is cut out
is shorter than the slice it was cut from (`shrinks_operandCut`).
-/

namespace TinyScript

/-- An operand as it is cut out, before the slice inside it is read. -/
inductive OperandCut where
  | call (name : String) (arguments : Slice)
  | round (inner : Slice)
  | square (inner : Slice)
  | leaf (token : Token)

/-- The number of tokens inside an operand that are still to be read. -/
def OperandCut.size : OperandCut → Nat
  | call _ inner | round inner | square inner => inner.tokens.length
  | leaf _ => 0

namespace Rule

/-- The characters that no operand starts with. -/
def nonOperands : List Char := [')', ']', '\x7d', '\x7b', ';']

/-- An operand that is the current token by itself. -/
def leafCut : Rule OperandCut := fun s => .ok (.leaf s.current) s.advance

/-- Cuts out an operand. A name directly before a round bracket is a call. -/
def operandCut : Rule OperandCut := fun s =>
  match s.current.value with
  | .identifier name =>
    if (s.lookahead 1).isMark '(' then (.call name <$> group .round) s.advance.advance else leafCut s
  | .character mark =>
    if mark = '(' then (.round <$> group .round) s.advance
    else if mark = '[' then (.square <$> group .square) s.advance
    else if nonOperands.contains mark then expected "an operand" s
    else leafCut s
  | _ => leafCut s

/-- Relabelling a result keeps its cost. -/
theorem Shrinks.map {α β : Type} {cost : β → Nat} {r : Rule α} {f : α → β} (h : r.Shrinks fun a => cost (f a)) :
    (f <$> r).Shrinks cost := by
  intro s b t hb
  change EStateM.map f r s = .ok b t at hb
  unfold EStateM.map at hb
  split at hb
  next a t' hr =>
    cases hb
    exact h s a t hr
  next => cases hb

/-- Away from the end of a slice an operand is cut out for good, together with what is inside it. -/
theorem shrinks_operandCut {s t : Slice} {cut : OperandCut} (h : operandCut s = .ok cut t) (hs : s.atEnd = false) :
    t.tokens.length + cut.size + 1 ≤ s.tokens.length := by
  have hleaf : leafCut s = .ok cut t → t.tokens.length + cut.size + 1 ≤ s.tokens.length := by
    intro hc
    cases hc
    exact s.length_advance_lt hs
  have hgroup : ∀ (b : Bracket) (f : Slice → OperandCut) (u : Slice), (∀ inner, (f inner).size = inner.tokens.length) →
      u.tokens.length ≤ s.tokens.length → (f <$> group b) u = .ok cut t →
      t.tokens.length + cut.size + 1 ≤ s.tokens.length := by
    intro b f u hf hu hc
    have hg : (f <$> group b).Shrinks fun c => c.size + 1 := Shrinks.map (by simpa only [hf] using shrinks_group b)
    have hc : t.tokens.length + (cut.size + 1) ≤ u.tokens.length := hg u cut t hc
    omega
  have h₁ := s.length_advance_le
  have h₂ := s.advance.length_advance_le
  unfold operandCut at h
  split at h
  next name _ =>
    split at h
    · exact hgroup .round (.call name) _ (fun _ => rfl) (by omega) h
    · exact hleaf h
  next mark _ =>
    split at h
    · exact hgroup .round .round _ (fun _ => rfl) h₁ h
    · split at h
      · exact hgroup .square .square _ (fun _ => rfl) h₁ h
      · split at h
        · cases h
        · exact hleaf h
  next => exact hleaf h

end Rule

/-- Several nodes as one: a single one is itself, any other number is a group. -/
def Node.grouped : List Node → Node
  | [node] => node
  | nodes => .parameters nodes

namespace Slice

/-- A slice with a token that ends its reading is at its end. -/
theorem length_advance_lt_of_isMark {s : Slice} {mark : Char} (h : s.current.isMark mark = true) :
    s.advance.tokens.length < s.tokens.length :=
  s.length_advance_lt (Token.not_isEof_of_isMark h)

mutual

/-- The node of an operand that has been cut out. -/
def operandNode : OperandCut → Except ParseError Node
  | .leaf token => .ok (.var (.ofToken token))
  | .call name inner =>
    match arguments inner with
    | .ok nodes _ => .ok (.invocation name nodes)
    | .error e _ => .error e
  | .round inner =>
    match expression inner with
    | .ok nodes _ => .ok (.grouped nodes)
    | .error e _ => .error e
  | .square inner =>
    match expression inner with
    | .ok nodes _ => .ok (.parameters nodes)
    | .error e _ => .error e
termination_by cut => (cut.size, 3)

/-- Reads operands up to the end of the slice. -/
def expression (s : Slice) : Outcome (List Node) :=
  if _hend : s.atEnd then .ok [] s
  else
    match _hcut : Rule.operandCut s with
    | .error e t => .error e t
    | .ok cut t =>
      match operandNode cut with
      | .error e => .error e t
      | .ok node =>
        match expression t with
        | .ok nodes u => .ok (node :: nodes) u
        | .error e u => .error e u
termination_by (s.tokens.length, 0)
decreasing_by
  all_goals
    have := Rule.shrinks_operandCut _hcut (by simpa using _hend)
    simp only [Prod.lex_def]
    omega

/-- Reads the arguments of a call, possibly none. -/
def arguments (s : Slice) : Outcome (List Node) :=
  if s.atEnd then .ok [] s else argumentList [] s
termination_by (s.tokens.length, 2)

/-- Reads one argument or more, apart by commas. `pending` are the operands that the current argument has so far. An argument
of several operands is a group. -/
def argumentList (pending : List Node) (s : Slice) : Outcome (List Node) :=
  if _hend : s.atEnd then
    if pending.isEmpty then .error (.unexpected "an argument" s.current) s else .ok [.grouped pending] s
  else if _hcomma : s.current.isMark ',' then
    if pending.isEmpty then .error (.unexpected "an argument" s.current) s
    else
      match argumentList [] s.advance with
      | .ok nodes u => .ok (.grouped pending :: nodes) u
      | .error e u => .error e u
  else
    match _hcut : Rule.operandCut s with
    | .error e t => .error e t
    | .ok cut t =>
      match operandNode cut with
      | .error e => .error e t
      | .ok node => argumentList (pending ++ [node]) t
termination_by (s.tokens.length, 1)
decreasing_by
  · have := s.length_advance_lt_of_isMark _hcomma
    simp only [Prod.lex_def]
    omega
  · have := Rule.shrinks_operandCut _hcut (by simpa using _hend)
    simp only [Prod.lex_def]
    omega
  · have := Rule.shrinks_operandCut _hcut (by simpa using _hend)
    simp only [Prod.lex_def]
    omega

end

end Slice

namespace Rule

/-- Reads one operand. -/
def operand : Rule Node := fun s =>
  match operandCut s with
  | .error e t => .error e t
  | .ok cut t =>
    match Slice.operandNode cut with
    | .error e => .error e t
    | .ok node => .ok node t

end Rule

end TinyScript
