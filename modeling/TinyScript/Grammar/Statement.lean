import TinyScript.Grammar.Operand

/-!
# Statements

A statement is told by its first tokens: a guarded body, a function, a declaration, an assignment or a call. A rule first cuts
a statement out of the tokens ahead (`statementCut`) and reads everything in it but its body; then the slice of the body is
read, which is a program again.

`program` reads statements up to the end of a slice; it ends because a body is shorter than the slice it was cut from
(`shrinks_statementCut`). `milestones` lists the statements that reading a slice completes.
-/

namespace TinyScript

/-- A statement as it is cut out, before its body is read. -/
inductive StatementCut where
  /-- A statement without a body. -/
  | whole (node : Node)
  /-- A conditional: its guard and the slice of its body. -/
  | conditional (condition : List Node) (body : Slice)
  /-- A function: its names, its parameters and the slice of its body. -/
  | function (name returnType : String) (params : List Node) (body : Slice)

namespace StatementCut

/-- The slice that is still to be read. -/
def body? : StatementCut → Option Slice
  | whole _ => none
  | conditional _ body | function _ _ _ body => some body

/-- The number of tokens that are still to be read. -/
def size : StatementCut → Nat
  | whole _ => 0
  | conditional _ body | function _ _ _ body => body.tokens.length

/-- The kind of the node that the statement becomes. -/
def kind : StatementCut → NodeKind
  | whole node => node.kind
  | conditional _ _ => .conditional
  | function _ _ _ _ => .function

/-- What is still to be read is the body. -/
theorem size_of_body? {cut : StatementCut} {body : Slice} (h : cut.body? = some body) :
    cut.size = body.tokens.length := by
  cases cut <;> simp_all [body?, size]

end StatementCut

namespace Rule

/-- The word that a conditional starts with. -/
def conditionalWord : String := "if"

/-- Reads a parameter: the name of its type and its own. -/
def parameter : Rule Node := do
  let (_, type) ← identifier "a parameter type"
  let (token, name) ← identifier "a parameter name"
  return .var { name, token := some token, type := some type }

/-- A parameter is two tokens. -/
theorem shrinks_parameter : parameter.Shrinks fun _ => 2 :=
  (shrinks_identifier _).bind fun _ => (shrinks_identifier _).bind fun _ => shrinks_pure rfl

end Rule

namespace Slice

/-- Reads one parameter or more, apart by commas, up to the end of the slice. -/
def parameterList (s : Slice) : Outcome (List Node) :=
  match _hparam : Rule.parameter s with
  | .error e t => .error e t
  | .ok node t =>
    if t.atEnd then .ok [node] t
    else
      match _hcomma : Rule.expect ',' "',' or ')'" t with
      | .error e u => .error e u
      | .ok _ u =>
        match parameterList u with
        | .ok nodes v => .ok (node :: nodes) v
        | .error e v => .error e v
termination_by s.tokens.length
decreasing_by
  have h₁ : t.tokens.length + 2 ≤ s.tokens.length := Rule.shrinks_parameter s node t _hparam
  have h₂ : u.tokens.length + 1 ≤ t.tokens.length := Rule.shrinks_expect _ _ t _ u _hcomma
  omega

/-- Reads the parameters of a function, possibly none. -/
def parameterDeclarations (s : Slice) : Outcome (List Node) :=
  if s.atEnd then .ok [] s else parameterList s

end Slice

namespace Rule

/-- Passes a bracket and gives the slice of the group that it opens. -/
def enclosed (b : Bracket) (what : String) : Rule Slice := do
  expect b.opening what
  group b

/-- Reads the value of an assignment, which is not empty, and its semicolon. -/
def assigned : Rule (List Node) := do
  let inner ← value
  if inner.tokens.isEmpty then throw (.unexpected "a value" (inner.closer ';'))
  else within inner Slice.expression

/-- Cuts out a conditional from the word that starts it. -/
def conditionalCut : Rule StatementCut := do
  skip
  let inner ← enclosed .round "'('"
  let condition ← within inner Slice.expression
  if condition.isEmpty then throw (.unexpected "a condition" (inner.closer ')'))
  else .conditional condition <$> enclosed .curly "'\x7b'"

/-- Cuts out a function from the name of its return type. -/
def functionCut (returnType name : String) : Rule StatementCut := do
  skip
  skip
  let inner ← enclosed .round "'('"
  let params ← within inner Slice.parameterDeclarations
  .function name returnType params <$> enclosed .curly "'\x7b'"

/-- Reads a declaration from the name of its type. -/
def declaration (type name : String) (token : Token) : Rule StatementCut := do
  skip
  skip
  let nodes ← assigned
  return .whole (.assign { name, token := some token, type := none } nodes true (some type))

/-- Reads an assignment to a variable that has been declared. -/
def reassignment (name : String) (token : Token) : Rule StatementCut := do
  skip
  let nodes ← assigned
  return .whole (.assign { name, token := some token, type := none } nodes false none)

/-- Reads a call and its semicolon. -/
def callStatement (name : String) : Rule StatementCut := do
  skip
  skip
  let inner ← group .round
  let nodes ← within inner Slice.arguments
  expect ';' "';'"
  return .whole (.invocation name nodes)

/-- Cuts out a statement by the first two or three tokens ahead. -/
def statementCut : Rule StatementCut := fun s =>
  match s.current.name? with
  | none => expected "a statement" s
  | some first =>
    let next := s.lookahead 1
    if first = conditionalWord ∧ next.isMark '(' = true then conditionalCut s
    else
      match next.name? with
      | some second =>
        let after := s.lookahead 2
        if after.isMark '(' then functionCut first second s
        else if after.isMark '=' then declaration first second next s
        else .error (.unexpected "'(' or '='" after) s
      | none =>
        if next.isMark '=' then reassignment first s.current s
        else if next.isMark '(' then callStatement first s
        else .error (.unexpected "'=', '(' or an identifier" next) s

/-- A group with its two brackets is gone from what is left. -/
theorem shrinks_enclosed (b : Bracket) (what : String) :
    (enclosed b what).Shrinks fun inner => inner.tokens.length + 1 :=
  (shrinks_expect _ _).bind fun _ => (shrinks_group b).mono fun _ => Nat.sub_le _ _

/-- A value costs at least its semicolon. -/
theorem shrinks_assigned : assigned.Shrinks fun _ => 1 :=
  shrinks_value.bind fun _ =>
    Shrinks.ite (shrinks_throw _ _) ((shrinks_within _ _).mono fun _ => by omega)

/-- A conditional costs its body. -/
theorem shrinks_conditionalCut : conditionalCut.Shrinks fun cut => cut.size + 1 :=
  shrinks_skip.bind fun _ => ((shrinks_enclosed _ _).mono fun _ => Nat.zero_le _).bind fun _ =>
    (shrinks_within _ _).bind fun _ => Shrinks.ite (shrinks_throw _ _) (Shrinks.map (shrinks_enclosed _ _))

/-- A function costs its body. -/
theorem shrinks_functionCut (returnType name : String) : (functionCut returnType name).Shrinks fun cut => cut.size + 1 :=
  shrinks_skip.bind fun _ => shrinks_skip.bind fun _ =>
    ((shrinks_enclosed _ _).mono fun _ => Nat.zero_le _).bind fun _ =>
      (shrinks_within _ _).bind fun _ => Shrinks.map (shrinks_enclosed _ _)

/-- A declaration costs something. -/
theorem shrinks_declaration (type name : String) (token : Token) :
    (declaration type name token).Shrinks fun cut => cut.size + 1 :=
  shrinks_skip.bind fun _ => shrinks_skip.bind fun _ => shrinks_assigned.bind fun _ => shrinks_pure rfl

/-- An assignment costs something. -/
theorem shrinks_reassignment (name : String) (token : Token) :
    (reassignment name token).Shrinks fun cut => cut.size + 1 :=
  shrinks_skip.bind fun _ => shrinks_assigned.bind fun _ => shrinks_pure rfl

/-- A call costs something. -/
theorem shrinks_callStatement (name : String) : (callStatement name).Shrinks fun cut => cut.size + 1 :=
  shrinks_skip.bind fun _ => shrinks_skip.bind fun _ =>
    ((shrinks_group _).mono fun _ => Nat.zero_le _).bind fun _ =>
      (shrinks_within _ _).bind fun _ => (shrinks_expect _ _).bind fun _ => shrinks_pure rfl

/-- A statement is cut out for good, together with its body. -/
theorem shrinks_statementCut : statementCut.Shrinks fun cut => cut.size + 1 := by
  intro s cut t h
  unfold statementCut at h
  split at h
  next => cases h
  next first _ =>
    dsimp only at h
    split at h
    · exact shrinks_conditionalCut s cut t h
    · split at h
      next second _ =>
        split at h
        · exact shrinks_functionCut _ _ s cut t h
        · split at h
          · exact shrinks_declaration _ _ _ s cut t h
          · cases h
      next =>
        split at h
        · exact shrinks_reassignment _ _ s cut t h
        · split at h
          · exact shrinks_callStatement _ s cut t h
          · cases h

end Rule

namespace Slice

mutual

/-- The node of a statement that has been cut out. -/
def statementNode : StatementCut → Except ParseError Node
  | .whole node => .ok node
  | .conditional condition body =>
    match program body with
    | .ok nodes _ => .ok (.conditional condition nodes)
    | .error e _ => .error e
  | .function name returnType params body =>
    match program body with
    | .ok nodes _ => .ok (.function name returnType params nodes)
    | .error e _ => .error e
termination_by cut => (cut.size, 1)

/-- Reads statements up to the end of the slice. -/
def program (s : Slice) : Outcome (List Node) :=
  if s.atEnd then .ok [] s
  else
    match _hcut : Rule.statementCut s with
    | .error e t => .error e t
    | .ok cut t =>
      match statementNode cut with
      | .error e => .error e t
      | .ok node =>
        match program t with
        | .ok nodes u => .ok (node :: nodes) u
        | .error e u => .error e u
termination_by (s.tokens.length, 0)
decreasing_by
  all_goals
    have hcut : t.tokens.length + (cut.size + 1) ≤ s.tokens.length := Rule.shrinks_statementCut s cut t _hcut
    simp only [Prod.lex_def]
    omega

end

/-- The statements that reading a slice completes, each by its kind and the offset of its first token. A statement comes after
those in its body, and a statement that fails does not come. -/
def milestones (s : Slice) : List (NodeKind × Int) :=
  if s.atEnd then []
  else
    match _hcut : Rule.statementCut s with
    | .error _ _ => []
    | .ok cut t =>
      let done := (cut.kind, s.current.position)
      match _hbody : cut.body? with
      | none => done :: milestones t
      | some body =>
        match program body with
        | .ok _ _ => milestones body ++ done :: milestones t
        | .error _ _ => milestones body
termination_by s.tokens.length
decreasing_by
  · have hcut : t.tokens.length + (cut.size + 1) ≤ s.tokens.length := Rule.shrinks_statementCut s cut t _hcut
    omega
  all_goals
    have hcut : t.tokens.length + (cut.size + 1) ≤ s.tokens.length := Rule.shrinks_statementCut s cut t _hcut
    have hsize := StatementCut.size_of_body? _hbody
    omega

end Slice

namespace Rule

/-- Reads one statement. -/
def statement : Rule Node := fun s =>
  match statementCut s with
  | .error e t => .error e t
  | .ok cut t =>
    match Slice.statementNode cut with
    | .error e => .error e t
    | .ok node => .ok node t

end Rule

end TinyScript
