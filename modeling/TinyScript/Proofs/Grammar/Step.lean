import TinyScript.Proofs.Grammar.Acceptance

/-!
# Readers step by step

A reader of a list does one step and then reads on. Here each reader is that step and itself again, in sequence as rules are
(`Slice.expression_eq` and its companions), so what holds of rules in sequence is carried to readers by induction on the
number of tokens ahead. Every step passes a token (`Rule.length_lt_of_operand` and its companions).
-/

namespace TinyScript

namespace Rule

/-- A relabelled rule comes to what the rule comes to, relabelled. -/
theorem map_apply {α β : Type} (f : α → β) (rule : Rule α) (s : Slice) :
    (f <$> rule) s = match rule s with
      | .ok a t => .ok (f a) t
      | .error e t => .error e t := by
  change EStateM.map f rule s = _
  unfold EStateM.map
  cases rule s <;> rfl

section Cuts

variable {s t : Slice} {e : ParseError} {node : Node}

theorem operand_of_cut_error (h : operandCut s = .error e t) : operand s = .error e t := by
  rw [operand, h]

theorem operand_of_node_error {cut : OperandCut} (h : operandCut s = .ok cut t) (h' : Slice.operandNode cut = .error e) :
    operand s = .error e t := by
  simp only [operand, h, h']

theorem operand_of_node {cut : OperandCut} (h : operandCut s = .ok cut t) (h' : Slice.operandNode cut = .ok node) :
    operand s = .ok node t := by
  simp only [operand, h, h']

theorem statement_of_cut_error (h : statementCut s = .error e t) : statement s = .error e t := by
  rw [statement, h]

theorem statement_of_node_error {cut : StatementCut} (h : statementCut s = .ok cut t)
    (h' : Slice.statementNode cut = .error e) : statement s = .error e t := by
  simp only [statement, h, h']

theorem statement_of_node {cut : StatementCut} (h : statementCut s = .ok cut t)
    (h' : Slice.statementNode cut = .ok node) : statement s = .ok node t := by
  simp only [statement, h, h']

end Cuts

/-- Reading an operand away from the end of a slice passes a token. -/
theorem length_lt_of_operand {s t : Slice} {node : Node} (hs : s.atEnd = false) (h : operand s = .ok node t) :
    t.tokens.length < s.tokens.length := by
  unfold operand at h
  split at h
  next => cases h
  next cut u hcut =>
    have hshrinks := shrinks_operandCut hcut hs
    split at h
    next => cases h
    next =>
      cases h
      omega

/-- Reading a statement passes a token. -/
theorem length_lt_of_statement {s t : Slice} {node : Node} (h : statement s = .ok node t) :
    t.tokens.length < s.tokens.length := by
  unfold statement at h
  split at h
  next => cases h
  next cut u hcut =>
    have hshrinks : u.tokens.length + (cut.size + 1) ≤ s.tokens.length := shrinks_statementCut s cut u hcut
    split at h
    next => cases h
    next =>
      cases h
      omega

end Rule

namespace Slice

/-- Operands are one operand and further ones. -/
theorem expression_eq (s : Slice) : s.expression =
    if s.atEnd then .ok [] s
    else (Rule.operand >>= fun node => (node :: ·) <$> expression : Rule (List Node)) s := by
  rw [expression]
  split
  next => rfl
  next =>
    split
    next hcut => exact (Rule.bind_error (Rule.operand_of_cut_error hcut)).symm
    next t hcut =>
      split
      next hnode => exact (Rule.bind_error (Rule.operand_of_node_error hcut hnode)).symm
      next node hnode =>
        rw [Rule.bind_ok (Rule.operand_of_node hcut hnode)]
        refine Eq.trans ?_ (Rule.map_apply (node :: ·) expression t).symm
        cases expression t <;> rfl

/-- Arguments are operands up to a comma and, behind it, further arguments. -/
theorem argumentList_eq (pending : List Node) (s : Slice) : s.argumentList pending =
    if s.atEnd then
      if pending.isEmpty then Rule.expected "an argument" s else .ok [.grouped pending] s
    else if s.current.isMark ',' then
      if pending.isEmpty then Rule.expected "an argument" s
      else ((Node.grouped pending :: ·) <$> argumentList [] : Rule (List Node)) s.advance
    else (Rule.operand >>= fun node => argumentList (pending ++ [node])) s := by
  rw [argumentList]
  split
  next => rfl
  next =>
    split
    next =>
      split
      next => rfl
      next =>
        refine Eq.trans ?_ (Rule.map_apply (Node.grouped pending :: ·) (argumentList []) s.advance).symm
        cases argumentList [] s.advance <;> rfl
    next =>
      split
      next hcut => exact (Rule.bind_error (Rule.operand_of_cut_error hcut)).symm
      next hcut =>
        split
        next hnode => exact (Rule.bind_error (Rule.operand_of_node_error hcut hnode)).symm
        next hnode =>
          exact (Rule.bind_ok (f := fun node => argumentList (pending ++ [node])) (Rule.operand_of_node hcut hnode)).symm

/-- What follows a parameter: the end of the slice, or further parameters behind a comma. -/
def afterParameter (node : Node) : Rule (List Node) := fun t =>
  if t.atEnd then .ok [node] t
  else (Rule.expect ',' "',' or ')'" >>= fun _ => (node :: ·) <$> parameterList : Rule (List Node)) t

/-- Parameters are one parameter and what follows it. -/
theorem parameterList_eq (s : Slice) : s.parameterList = (Rule.parameter >>= afterParameter) s := by
  rw [parameterList]
  split
  next e t hparam => exact (Rule.bind_error hparam).symm
  next node t hparam =>
    rw [Rule.bind_ok hparam, afterParameter]
    split
    next => rfl
    next =>
      split
      next e u hcomma => exact (Rule.bind_error hcomma).symm
      next u hcomma =>
        rw [Rule.bind_ok hcomma]
        refine Eq.trans ?_ (Rule.map_apply (node :: ·) parameterList u).symm
        cases parameterList u <;> rfl

/-- A program is one statement and further ones. -/
theorem program_eq (s : Slice) : s.program =
    if s.atEnd then .ok [] s
    else (Rule.statement >>= fun node => (node :: ·) <$> program : Rule (List Node)) s := by
  rw [program]
  split
  next => rfl
  next =>
    split
    next hcut => exact (Rule.bind_error (Rule.statement_of_cut_error hcut)).symm
    next t hcut =>
      split
      next hnode => exact (Rule.bind_error (Rule.statement_of_node_error hcut hnode)).symm
      next node hnode =>
        rw [Rule.bind_ok (Rule.statement_of_node hcut hnode)]
        refine Eq.trans ?_ (Rule.map_apply (node :: ·) program t).symm
        cases program t <;> rfl

end Slice

end TinyScript
