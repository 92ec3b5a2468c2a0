import TinyScript.Proofs.Grammar.Exactness
import TinyScript.Proofs.Grammar.Step

/-!
# Parsing is blind to spelling

A `Respelling` changes what tokens hold: their places, their names and the payloads of literals. Kinds and punctuation stay,
and so does which names are the word that a conditional starts with. The nodes of the respelled tokens are the respelled
nodes, and an error is the respelled error (`parseTokens_map`).

`Respelling.Agrees` says of one rule on one slice that it does not see the spelling. It holds of every rule, for the tests that
rules make on tokens do not change (`isEof_token`, `isMark_token`, `name?_token`), and of readers by induction on the number of
tokens ahead.
-/

namespace TinyScript

/-- A change of what tokens hold that keeps kinds, punctuation and which names start a conditional. -/
structure Respelling where
  /-- Places. -/
  position : Int → Int
  /-- Names. -/
  name : String → String
  /-- Payloads of string literals. -/
  string : String → String
  /-- Payloads of character literals. -/
  char : Char → Char
  /-- Payloads of integer literals. -/
  integer : Int32 → Int32
  /-- Payloads of float literals. -/
  float : Single → Single
  /-- Truth values. -/
  boolean : Bool → Bool
  /-- The word of a conditional stays, and no other name becomes it. -/
  name_eq_iff (x : String) : name x = Rule.conditionalWord ↔ x = Rule.conditionalWord

namespace Respelling

variable (r : Respelling)

/-- A respelled value. -/
def value : TokenValue → TokenValue
  | .identifier x => .identifier (r.name x)
  | .character mark => .character mark
  | .string text => .string (r.string text)
  | .char c => .char (r.char c)
  | .integer n => .integer (r.integer n)
  | .float x => .float (r.float x)
  | .boolean b => .boolean (r.boolean b)
  | .eof => .eof

/-- A respelled token. -/
def token (t : Token) : Token := ⟨r.value t.value, r.position t.position⟩

/-- A slice of respelled tokens, which ends at the respelled place. -/
def slice (s : Slice) : Slice := ⟨s.tokens.map r.token, r.position s.stop⟩

/-- An error about respelled tokens. -/
def error : ParseError → ParseError
  | .unexpected what found => .unexpected what (r.token found)
  | .missingSemicolon found => .missingSemicolon (r.token found)
  | .unclosed opening found => .unclosed opening (r.token found)
  | .unrecognized opening position => .unrecognized opening (r.position position)

/-- A failure about respelled tokens. -/
def failure : Failure → Failure
  | .grammatical e => .grammatical (r.error e)
  | other => other

/-- A variable that is assigned to or declared: its name and type are respelled as names. -/
def declared (v : Var) : Var :=
  { name := r.name v.name, token := v.token.map r.token, type := v.type.map r.name }

/-- The variable of a node. An operand is named by what its respelled token stands for, a parameter by its respelled name. -/
def var (v : Var) : Var :=
  match v.token, v.type with
  | some t, none => .ofToken (r.token t)
  | _, _ => r.declared v

mutual

/-- A node of respelled tokens. -/
def node : Node → Node
  | .var v => .var (r.var v)
  | .parameters items => .parameters (nodes items)
  | .conditional condition body => .conditional (nodes condition) (nodes body)
  | .invocation name arguments => .invocation (r.name name) (nodes arguments)
  | .assign target value firstTime type => .assign (r.declared target) (nodes value) firstTime (type.map r.name)
  | .function name returnType params body =>
    .function (r.name name) (r.name returnType) (nodes params) (nodes body)

/-- Nodes of respelled tokens. -/
def nodes : List Node → List Node
  | [] => []
  | first :: rest => node first :: nodes rest

end

/-! ## What a respelling keeps -/

@[simp] theorem isEof_token (t : Token) : (r.token t).isEof = t.isEof := by
  obtain ⟨value, position⟩ := t
  cases value <;> rfl

@[simp] theorem isMark_token (t : Token) (mark : Char) : (r.token t).isMark mark = t.isMark mark := by
  obtain ⟨value, position⟩ := t
  cases value <;> rfl

@[simp] theorem name?_token (t : Token) : (r.token t).name? = t.name?.map r.name := by
  obtain ⟨value, position⟩ := t
  cases value <;> rfl

@[simp] theorem endsValue_token (t : Token) : Rule.endsValue (r.token t) = Rule.endsValue t := by
  simp [Rule.endsValue]

@[simp] theorem lookahead_slice (n : Nat) (s : Slice) : (r.slice s).lookahead n = r.token (s.lookahead n) := by
  simp only [slice, Slice.lookahead, List.headD_eq_head?_getD, List.head?_drop, List.getElem?_map]
  cases s.tokens[n]? <;> rfl

@[simp] theorem current_slice (s : Slice) : (r.slice s).current = r.token s.current := r.lookahead_slice 0 s

@[simp] theorem atEnd_slice (s : Slice) : (r.slice s).atEnd = s.atEnd := by
  simp [Slice.atEnd]

@[simp] theorem advance_slice (s : Slice) : (r.slice s).advance = r.slice s.advance := by
  simp [slice, Slice.advance]

@[simp] theorem nodes_append (front back : List Node) : r.nodes (front ++ back) = r.nodes front ++ r.nodes back := by
  induction front with
  | nil => rfl
  | cons first rest ih => simp [nodes, ih]

@[simp] theorem isEmpty_nodes (items : List Node) : (r.nodes items).isEmpty = items.isEmpty := by
  cases items <;> rfl

@[simp] theorem node_grouped (items : List Node) : r.node (.grouped items) = .grouped (r.nodes items) := by
  rcases items with _ | ⟨first, _ | ⟨second, rest⟩⟩ <;> rfl

@[simp] theorem position_token (t : Token) : (r.token t).position = r.position t.position := rfl

/-- A respelled error is of the same kind, with the same code, about the respelled token at the respelled place. -/
theorem reported_error (e : ParseError) :
    (r.error e).kind = e.kind ∧ (r.error e).code = e.code ∧ (r.error e).token? = e.token?.map r.token ∧
      (r.error e).position = r.position e.position := by
  cases e <;> simp [error, ParseError.kind, ParseError.code, ParseError.token?, ParseError.position]

/-! ## Rules -/

/-- An outcome on respelled tokens: `m` respells its result. -/
def outcome {α : Type} (m : α → α) : Outcome α → Outcome α
  | .ok a t => .ok (m a) (r.slice t)
  | .error e t => .error (r.error e) (r.slice t)

/-- On a respelled slice the second rule comes to what the first comes to on the slice, respelled. -/
def Agrees {α : Type} (m : α → α) (rule rule' : Rule α) (s : Slice) : Prop := rule' (r.slice s) = r.outcome m (rule s)

section Rules

variable {r} {α β : Type} {m : α → α} {m' : β → β} {rule rule' : Rule α} {s : Slice}

/-- Rules in sequence agree if the first do, and the second where these leave off. -/
theorem Agrees.bind {f f' : α → Rule β} (h : r.Agrees m rule rule' s)
    (hf : ∀ a t, rule s = .ok a t → r.Agrees m' (f a) (f' (m a)) t) : r.Agrees m' (rule >>= f) (rule' >>= f') s := by
  unfold Agrees at h ⊢
  cases hr : rule s with
  | ok a t =>
    rw [hr] at h
    rw [Rule.bind_ok hr, Rule.bind_ok h]
    exact hf a t hr
  | error e t =>
    rw [hr] at h
    rw [Rule.bind_error hr, Rule.bind_error h]
    rfl

/-- Relabelled results agree if the labels do. -/
theorem Agrees.map {f f' : α → β} (h : r.Agrees m rule rule' s) (hf : ∀ a, f' (m a) = m' (f a)) :
    r.Agrees m' (f <$> rule) (f' <$> rule') s := by
  unfold Agrees at h ⊢
  rw [Rule.map_apply, Rule.map_apply, h]
  cases rule s with
  | ok a t => simp only [outcome, hf]
  | error e t => rfl

theorem agrees_pure {a a' : α} (h : a' = m a) : r.Agrees m (pure a) (pure a') s := by
  subst h
  rfl

theorem agrees_throw {e e' : ParseError} (h : e' = r.error e) : r.Agrees m (throw e) (throw e') s := by
  subst h
  rfl

/-- Choices agree if they are made alike and each way agrees in its own case. -/
theorem Agrees.ite {c c' : Prop} [Decidable c] [Decidable c'] {other other' : Rule α} (hc : c' ↔ c)
    (h : c → r.Agrees m rule rule' s) (h' : ¬ c → r.Agrees m other other' s) :
    r.Agrees m (if c then rule else other) (if c' then rule' else other') s := by
  by_cases hcase : c
  · rw [if_pos hcase, if_pos (hc.mpr hcase)]
    exact h hcase
  · rw [if_neg hcase, if_neg (mt hc.mp hcase)]
    exact h' hcase

/-- Slices read by themselves are read alike in any slice if they are. -/
theorem Agrees.within {inner : Slice} (h : r.Agrees m rule rule' inner) :
    r.Agrees m (Rule.within inner rule) (Rule.within (r.slice inner) rule') s := by
  unfold Agrees at h ⊢
  unfold Rule.within
  rw [h]
  cases rule inner <;> rfl

theorem agrees_skip : r.Agrees id Rule.skip Rule.skip s := by
  change EStateM.Result.ok () (r.slice s).advance = .ok () (r.slice s.advance)
  rw [advance_slice]

theorem agrees_expected (what : String) : r.Agrees m (Rule.expected what) (Rule.expected what) s := by
  simp [Agrees, Rule.expected, outcome, error]

theorem agrees_expect (mark : Char) (what : String) : r.Agrees id (Rule.expect mark what) (Rule.expect mark what) s := by
  unfold Agrees Rule.expect Rule.expectToken
  simp only [current_slice, isMark_token, advance_slice]
  split <;> rfl

theorem agrees_identifier (what : String) :
    r.Agrees (fun a => (r.token a.1, r.name a.2)) (Rule.identifier what) (Rule.identifier what) s := by
  unfold Agrees Rule.identifier
  rw [current_slice, name?_token]
  cases s.current.name? with
  | none => simp [outcome, error]
  | some name => simp [outcome]

variable (r) in
/-- The end of a group is found at the same token. -/
theorem spanGroup_map (b : Bracket) (depth : Nat) (tokens : List Token) :
    Rule.spanGroup b depth (tokens.map r.token) =
      ((Rule.spanGroup b depth tokens).1.map r.token, (Rule.spanGroup b depth tokens).2.map r.token) := by
  fun_induction Rule.spanGroup b depth tokens <;> simp_all [Rule.spanGroup]

theorem agrees_group (b : Bracket) : r.Agrees r.slice (Rule.group b) (Rule.group b) s := by
  unfold Agrees Rule.group
  rw [slice, spanGroup_map]
  obtain ⟨inside, after⟩ := Rule.spanGroup b 0 s.tokens
  cases after with
  | nil => rfl
  | cons t rest =>
    simp only [List.map_cons, isMark_token]
    split <;> rfl

theorem agrees_value : r.Agrees r.slice Rule.value Rule.value s := by
  have hends : (fun t => !Rule.endsValue t) ∘ r.token = fun t => !Rule.endsValue t := by
    funext t
    simp
  unfold Agrees Rule.value
  simp only [slice, ← List.map_tail, List.takeWhile_map, List.dropWhile_map, hends]
  cases s.tokens.tail.dropWhile (!Rule.endsValue ·) with
  | nil => rfl
  | cons t rest =>
    simp only [List.map_cons, isMark_token]
    split <;> rfl

theorem agrees_enclosed (b : Bracket) (what : String) :
    r.Agrees r.slice (Rule.enclosed b what) (Rule.enclosed b what) s :=
  (agrees_expect _ what).bind fun _ _ _ => agrees_group b

end Rules

/-! ## Operands -/

/-- A cut of respelled tokens. -/
def operandCut : OperandCut → OperandCut
  | .call name inner => .call (r.name name) (r.slice inner)
  | .round inner => .round (r.slice inner)
  | .square inner => .square (r.slice inner)
  | .leaf t => .leaf (r.token t)

theorem agrees_leafCut (s : Slice) : r.Agrees r.operandCut Rule.leafCut Rule.leafCut s := by
  change EStateM.Result.ok _ _ = _
  rw [current_slice, advance_slice]
  rfl

/-- Operands are cut out alike. -/
theorem agrees_operandCut (s : Slice) : r.Agrees r.operandCut Rule.operandCut Rule.operandCut s := by
  have hgroup : ∀ (b : Bracket) (t : Slice) {f f' : Slice → OperandCut}, (∀ inner, f' (r.slice inner) = r.operandCut (f inner)) →
      r.Agrees r.operandCut (f <$> Rule.group b) (f' <$> Rule.group b) t := fun b t _ _ hf => (agrees_group b).map hf
  have hleaf : r.Agrees r.operandCut Rule.leafCut Rule.leafCut s := r.agrees_leafCut s
  unfold Agrees Rule.operandCut
  rw [current_slice, token]
  cases s.current.value with
  | identifier name =>
    simp only [value, lookahead_slice, isMark_token, advance_slice]
    split
    · exact hgroup .round s.advance.advance fun _ => rfl
    · exact hleaf
  | character mark =>
    simp only [value, advance_slice]
    split
    · exact hgroup .round s.advance fun _ => rfl
    · split
      · exact hgroup .square s.advance fun _ => rfl
      · split
        · exact agrees_expected "an operand"
        · exact hleaf
  | string _ | char _ | integer _ | float _ | boolean _ | eof => exact hleaf

/-- A result about respelled tokens. -/
def result {α : Type} (m : α → α) (x : Except ParseError α) : Except ParseError α := (x.map m).mapError r.error

/-- Operands in slices of fewer than `n` tokens are read alike. -/
structure AgreesBelow (n : Nat) : Prop where
  expression : ∀ s : Slice, s.tokens.length < n → r.Agrees r.nodes Slice.expression Slice.expression s
  argumentList : ∀ (pending : List Node) (s : Slice), s.tokens.length < n →
    r.Agrees r.nodes (Slice.argumentList pending) (Slice.argumentList (r.nodes pending)) s

namespace AgreesBelow

variable {r} {n : Nat}

theorem arguments (ih : r.AgreesBelow n) (s : Slice) (hlen : s.tokens.length < n) :
    r.Agrees r.nodes Slice.arguments Slice.arguments s := by
  have hlist := ih.argumentList [] s hlen
  unfold Agrees Slice.arguments
  rw [atEnd_slice]
  split
  · rfl
  · exact hlist

theorem operandNode (ih : r.AgreesBelow n) {cut : OperandCut} (hlen : cut.size < n) :
    Slice.operandNode (r.operandCut cut) = r.result r.node (Slice.operandNode cut) := by
  cases cut with
  | leaf t => simp only [operandCut, Slice.operandNode]; rfl
  | call name inner =>
    have hargs : Slice.arguments (r.slice inner) = _ := ih.arguments inner hlen
    simp only [operandCut, Slice.operandNode, hargs]
    cases Slice.arguments inner <;> rfl
  | round inner =>
    have hitems : Slice.expression (r.slice inner) = _ := ih.expression inner hlen
    simp only [operandCut, Slice.operandNode, hitems]
    cases Slice.expression inner with
    | ok items t => exact congrArg Except.ok (r.node_grouped items).symm
    | error e t => rfl
  | square inner =>
    have hitems : Slice.expression (r.slice inner) = _ := ih.expression inner hlen
    simp only [operandCut, Slice.operandNode, hitems]
    cases Slice.expression inner <;> rfl

theorem operand (ih : r.AgreesBelow n) {s : Slice} (hlen : s.tokens.length < n + 1) (hs : s.atEnd = false) :
    r.Agrees r.node Rule.operand Rule.operand s := by
  have hcuts : Rule.operandCut (r.slice s) = r.outcome r.operandCut (Rule.operandCut s) := r.agrees_operandCut s
  unfold Agrees Rule.operand
  rw [hcuts]
  cases hcut : Rule.operandCut s with
  | error e t => rfl
  | ok cut t =>
    have hshrinks := Rule.shrinks_operandCut hcut hs
    have hnode : Slice.operandNode (r.operandCut cut) = _ := ih.operandNode (by omega)
    simp only [outcome, hnode]
    cases Slice.operandNode cut <;> rfl

/-- One operand is read, and then fewer tokens are ahead. -/
theorem expression_step (ih : r.AgreesBelow n) {s : Slice} (hlen : s.tokens.length < n + 1) :
    r.Agrees r.nodes Slice.expression Slice.expression s := by
  unfold Agrees
  rw [Slice.expression_eq, Slice.expression_eq s, atEnd_slice]
  split
  next => rfl
  next hs =>
    have hs : s.atEnd = false := by simpa using hs
    refine (ih.operand hlen hs).bind fun node t hop => ?_
    have hlt := Rule.length_lt_of_operand hs hop
    exact (ih.expression t (by omega)).map fun items => rfl

/-- One operand or comma is passed, and then fewer tokens are ahead. -/
theorem argumentList_step (ih : r.AgreesBelow n) (pending : List Node) {s : Slice} (hlen : s.tokens.length < n + 1) :
    r.Agrees r.nodes (Slice.argumentList pending) (Slice.argumentList (r.nodes pending)) s := by
  unfold Agrees
  rw [Slice.argumentList_eq, Slice.argumentList_eq pending s, atEnd_slice, current_slice, isMark_token, isEmpty_nodes]
  split
  next =>
    split
    next => exact agrees_expected "an argument"
    next => simp [outcome, nodes]
  next hs =>
    have hs : s.atEnd = false := by simpa using hs
    split
    next =>
      split
      next => exact agrees_expected "an argument"
      next =>
        have hlt := s.length_advance_lt hs
        rw [advance_slice]
        exact (ih.argumentList [] s.advance (by omega)).map fun items => by simp [nodes]
    next =>
      refine (ih.operand hlen hs).bind fun node t hop => ?_
      have hlt := Rule.length_lt_of_operand hs hop
      have hmore := ih.argumentList (pending ++ [node]) t (by omega)
      rwa [nodes_append] at hmore

end AgreesBelow

theorem agreesBelow (n : Nat) : r.AgreesBelow n := by
  induction n with
  | zero => exact ⟨fun s hlen => absurd hlen (Nat.not_lt_zero _), fun _ s hlen => absurd hlen (Nat.not_lt_zero _)⟩
  | succ n ih => exact ⟨fun s hlen => ih.expression_step hlen, fun pending s hlen => ih.argumentList_step pending hlen⟩

theorem agrees_expression (s : Slice) : r.Agrees r.nodes Slice.expression Slice.expression s :=
  (r.agreesBelow _).expression s (Nat.lt_succ_self _)

theorem agrees_arguments (s : Slice) : r.Agrees r.nodes Slice.arguments Slice.arguments s :=
  (r.agreesBelow _).arguments s (Nat.lt_succ_self _)

/-! ## Statements -/

theorem agrees_parameter (s : Slice) : r.Agrees r.node Rule.parameter Rule.parameter s :=
  (agrees_identifier _).bind fun (_, _) _ _ => (agrees_identifier _).bind fun (_, _) _ _ => agrees_pure rfl

theorem agrees_parameterList (n : Nat) : ∀ s : Slice, s.tokens.length < n →
    r.Agrees r.nodes Slice.parameterList Slice.parameterList s := by
  induction n with
  | zero => exact fun s hlen => absurd hlen (Nat.not_lt_zero _)
  | succ n ih =>
    intro s hlen
    unfold Agrees
    rw [Slice.parameterList_eq, Slice.parameterList_eq s]
    refine (r.agrees_parameter s).bind fun node t hparam => ?_
    have hlt : t.tokens.length + 2 ≤ s.tokens.length := Rule.shrinks_parameter s node t hparam
    unfold Agrees Slice.afterParameter
    rw [atEnd_slice]
    split
    next => rfl
    next =>
      refine (agrees_expect ',' _).bind fun _ u hcomma => ?_
      have hlt' : u.tokens.length + 1 ≤ t.tokens.length := Rule.shrinks_expect _ _ t _ u hcomma
      exact (ih u (by omega)).map fun items => rfl

theorem agrees_parameterDeclarations (s : Slice) :
    r.Agrees r.nodes Slice.parameterDeclarations Slice.parameterDeclarations s := by
  have hlist := r.agrees_parameterList _ s (Nat.lt_succ_self _)
  unfold Agrees Slice.parameterDeclarations
  rw [atEnd_slice]
  split
  · rfl
  · exact hlist

theorem agrees_assigned (s : Slice) : r.Agrees r.nodes Rule.assigned Rule.assigned s :=
  agrees_value.bind fun inner _ _ =>
    Agrees.ite (by simp [slice]) (fun _ => agrees_throw rfl) fun _ => (r.agrees_expression inner).within

/-- A cut of respelled tokens. -/
def statementCut : StatementCut → StatementCut
  | .whole node => .whole (r.node node)
  | .conditional condition body => .conditional (r.nodes condition) (r.slice body)
  | .function name returnType params body =>
    .function (r.name name) (r.name returnType) (r.nodes params) (r.slice body)

theorem agrees_conditionalCut (s : Slice) : r.Agrees r.statementCut Rule.conditionalCut Rule.conditionalCut s :=
  agrees_skip.bind fun _ _ _ => (agrees_enclosed .round _).bind fun inner _ _ =>
    (r.agrees_expression inner).within.bind fun condition _ _ =>
      Agrees.ite (by simp) (fun _ => agrees_throw rfl) fun _ => (agrees_enclosed .curly _).map fun _ => rfl

theorem agrees_functionCut (returnType name : String) (s : Slice) :
    r.Agrees r.statementCut (Rule.functionCut returnType name) (Rule.functionCut (r.name returnType) (r.name name)) s :=
  agrees_skip.bind fun _ _ _ => agrees_skip.bind fun _ _ _ => (agrees_enclosed .round _).bind fun inner _ _ =>
    (r.agrees_parameterDeclarations inner).within.bind fun _ _ _ => (agrees_enclosed .curly _).map fun _ => rfl

theorem agrees_declaration (type name : String) (token : Token) (s : Slice) :
    r.Agrees r.statementCut (Rule.declaration type name token)
      (Rule.declaration (r.name type) (r.name name) (r.token token)) s :=
  agrees_skip.bind fun _ _ _ => agrees_skip.bind fun _ _ _ => (r.agrees_assigned _).bind fun _ _ _ => agrees_pure rfl

theorem agrees_reassignment (name : String) (token : Token) (s : Slice) :
    r.Agrees r.statementCut (Rule.reassignment name token) (Rule.reassignment (r.name name) (r.token token)) s :=
  agrees_skip.bind fun _ _ _ => (r.agrees_assigned _).bind fun _ _ _ => agrees_pure rfl

theorem agrees_callStatement (name : String) (s : Slice) :
    r.Agrees r.statementCut (Rule.callStatement name) (Rule.callStatement (r.name name)) s :=
  agrees_skip.bind fun _ _ _ => agrees_skip.bind fun _ _ _ => (agrees_group .round).bind fun inner _ _ =>
    (r.agrees_arguments inner).within.bind fun _ _ _ => (agrees_expect ';' _).bind fun _ _ _ => agrees_pure rfl

/-- Statements are cut out alike: the names that tell them apart are the word of a conditional and others. -/
theorem agrees_statementCut (s : Slice) : r.Agrees r.statementCut Rule.statementCut Rule.statementCut s := by
  unfold Agrees Rule.statementCut
  simp only [current_slice, lookahead_slice, name?_token, isMark_token]
  cases s.current.name? with
  | none => exact agrees_expected "a statement"
  | some first =>
    simp only [Option.map_some, r.name_eq_iff]
    split
    next => exact r.agrees_conditionalCut s
    next =>
      cases (s.lookahead 1).name? with
      | none =>
        simp only [Option.map_none]
        split
        next => exact r.agrees_reassignment first s.current s
        next =>
          split
          next => exact r.agrees_callStatement first s
          next => rfl
      | some second =>
        simp only [Option.map_some]
        split
        next => exact r.agrees_functionCut first second s
        next =>
          split
          next => exact r.agrees_declaration first second (s.lookahead 1) s
          next => rfl

/-! ## Programs -/

theorem statementNode_statementCut {n : Nat}
    (hprogram : ∀ s : Slice, s.tokens.length < n → r.Agrees r.nodes Slice.program Slice.program s) {cut : StatementCut}
    (hlen : cut.size < n) : Slice.statementNode (r.statementCut cut) = r.result r.node (Slice.statementNode cut) := by
  cases cut with
  | whole node => simp only [statementCut, Slice.statementNode]; rfl
  | conditional condition body =>
    have hbody : Slice.program (r.slice body) = _ := hprogram body hlen
    simp only [statementCut, Slice.statementNode, hbody]
    cases Slice.program body <;> rfl
  | function name returnType params body =>
    have hbody : Slice.program (r.slice body) = _ := hprogram body hlen
    simp only [statementCut, Slice.statementNode, hbody]
    cases Slice.program body <;> rfl

theorem agrees_statement {n : Nat} (hprogram : ∀ s : Slice, s.tokens.length < n → r.Agrees r.nodes Slice.program Slice.program s)
    {s : Slice} (hlen : s.tokens.length < n + 1) : r.Agrees r.node Rule.statement Rule.statement s := by
  have hcuts : Rule.statementCut (r.slice s) = r.outcome r.statementCut (Rule.statementCut s) := r.agrees_statementCut s
  unfold Agrees Rule.statement
  rw [hcuts]
  cases hcut : Rule.statementCut s with
  | error e t => rfl
  | ok cut t =>
    have hshrinks : t.tokens.length + (cut.size + 1) ≤ s.tokens.length := Rule.shrinks_statementCut s cut t hcut
    have hnode : Slice.statementNode (r.statementCut cut) = _ := r.statementNode_statementCut hprogram (by omega)
    simp only [outcome, hnode]
    cases Slice.statementNode cut <;> rfl

/-- Programs are read alike. -/
theorem agrees_program (n : Nat) : ∀ s : Slice, s.tokens.length < n → r.Agrees r.nodes Slice.program Slice.program s := by
  induction n with
  | zero => exact fun s hlen => absurd hlen (Nat.not_lt_zero _)
  | succ n ih =>
    intro s hlen
    unfold Agrees
    rw [Slice.program_eq, Slice.program_eq s, atEnd_slice]
    split
    next => rfl
    next =>
      refine (r.agrees_statement ih hlen).bind fun node t hstatement => ?_
      have hlt := Rule.length_lt_of_statement hstatement
      exact (ih t (by omega)).map fun items => rfl

/-- A slice of respelled tokens is parsed as the respelled nodes, or fails with the respelled error. -/
theorem parse_slice (s : Slice) : (r.slice s).parse = r.result r.nodes s.parse := by
  have hprogram : Slice.program (r.slice s) = _ := r.agrees_program _ s (Nat.lt_succ_self _)
  unfold Slice.parse
  rw [hprogram]
  cases Slice.program s <;> rfl

/-- A respelled token list is refused if the list is. -/
theorem ofTokens?_map (tokens : List Token) :
    Slice.ofTokens? (tokens.map r.token) = (Slice.ofTokens? tokens).map r.slice := by
  unfold Slice.ofTokens?
  rw [List.getLast?_map]
  cases tokens.getLast? with
  | none => rfl
  | some last =>
    simp only [Option.map_some, isEof_token]
    split
    · simp [Except.map, slice, List.map_dropLast]
    · rfl

/-- A token list with another spelling is parsed as the nodes with that spelling, and fails with the failure in that spelling. -/
theorem parseTokens_map (tokens : List Token) :
    parseTokens (tokens.map r.token) = ((parseTokens tokens).map r.nodes).mapError r.failure := by
  unfold parseTokens
  rw [ofTokens?_map]
  cases Slice.ofTokens? tokens with
  | error refusal => rfl
  | ok s =>
    change ((r.slice s).parse).mapError Failure.grammatical = _
    rw [parse_slice]
    change _ = ((s.parse.mapError Failure.grammatical).map r.nodes).mapError r.failure
    cases s.parse <;> rfl

end Respelling

end TinyScript
