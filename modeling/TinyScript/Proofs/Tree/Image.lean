import TinyScript.Proofs.Grammar.Exactness

/-!
# The trees that are parsed

The image of the parser. `Node.IsOperand` and `Node.IsStatement` say what the trees of operands and statements are made of, and
a list of trees is the result of some parse exactly if each of them is a statement (`parseTokens_image`).

What is parsed is of the right sort because every phrase is (`Derives.sorted`). The other way round a tree is printed
(`Node.operandTokens`, `Node.statementTokens`), and the printed tokens are a phrase that stands for it. Square brackets print a
group, for round ones vanish around a single operand. For the same reason round brackets around each argument change nothing;
they keep its commas from those between the arguments.
-/

namespace TinyScript

namespace Node

/-- The node is an operand: a token that stands alone, a call with operands, or a group of operands. -/
inductive IsOperand : Node → Prop where
  | leaf {t : Token} : t.StandsAlone → IsOperand (.var (.ofToken t))
  | invocation {name : String} {arguments : List Node} : (∀ node ∈ arguments, IsOperand node) →
      IsOperand (.invocation name arguments)
  | parameters {items : List Node} : (∀ node ∈ items, IsOperand node) → IsOperand (.parameters items)

/-- The node is a parameter of a function: a name made from the token of that name, and a type. -/
def IsParameter (node : Node) : Prop :=
  ∃ t name type, t.name? = some name ∧ node = .var { name, token := some t, type := some type }

/-- The node is a statement. Guards and values are operands and not empty, bodies are statements, and a variable is assigned to
by the token of its name, for the first time exactly if the assignment has a type. -/
inductive IsStatement : Node → Prop where
  | conditional {condition body : List Node} : condition ≠ [] → (∀ node ∈ condition, IsOperand node) →
      (∀ node ∈ body, IsStatement node) → IsStatement (.conditional condition body)
  | function {name returnType : String} {params body : List Node} : (∀ node ∈ params, IsParameter node) →
      (∀ node ∈ body, IsStatement node) → IsStatement (.function name returnType params body)
  | assign {t : Token} {name : String} {value : List Node} {firstTime : Bool} {type : Option String} :
      t.name? = some name → value ≠ [] → (∀ node ∈ value, IsOperand node) → firstTime = type.isSome →
      IsStatement (.assign { name, token := some t, type := none } value firstTime type)
  | invocation {name : String} {arguments : List Node} : name ≠ Rule.conditionalWord →
      (∀ node ∈ arguments, IsOperand node) → IsStatement (.invocation name arguments)

/-- A group of operands is one. -/
theorem IsOperand.grouped {nodes : List Node} (h : ∀ node ∈ nodes, IsOperand node) : IsOperand (grouped nodes) := by
  unfold Node.grouped
  split
  next node => exact h node List.mem_cons_self
  next => exact .parameters h

end Node

/-! ## Where operands stand -/

/-- The kinds of nodes that operands are. -/
def NodeKind.isOperand : NodeKind → Bool
  | var | parameters | invocation => true
  | conditional | assign | function => false

namespace Node

/-- The parts of a node that are operands or parameters. -/
def operands : Node → List Node
  | var _ => []
  | parameters items => items
  | conditional condition _ => condition
  | invocation _ arguments => arguments
  | assign _ value _ _ => value
  | function _ _ params _ => params

/-- Where operands stand no statement does, and no constructor refuses the node. -/
structure Regular (node : Node) : Prop where
  operands : ∀ part ∈ node.operands, part.kind.isOperand = true
  conditional : ∀ condition body, node = .conditional condition body → conditional? condition body = .ok node
  assign : ∀ target value firstTime type, node = .assign target value firstTime type →
    assign? target value firstTime type = .ok node

theorem IsOperand.kind {node : Node} (h : IsOperand node) : node.kind.isOperand = true := by
  cases h <;> rfl

theorem IsParameter.kind {node : Node} (h : IsParameter node) : node.kind.isOperand = true := by
  obtain ⟨t, name, type, -, rfl⟩ := h
  rfl

/-- Nothing but its parts is asked of a node that is no conditional and no assignment. -/
theorem regular_of_kind {node : Node} (hkind : node.kind ∉ [.conditional, .assign])
    (hkinds : ∀ part ∈ node.operands, part.kind.isOperand = true) : node.Regular where
  operands := hkinds
  conditional condition body heq := by
    subst heq
    exact absurd List.mem_cons_self hkind
  assign target value firstTime type heq := by
    subst heq
    exact absurd (List.mem_cons_of_mem _ List.mem_cons_self) hkind

/-- A conditional is regular if its guard is not empty and is made of operands. -/
theorem regular_conditional {condition body : List Node} (hne : condition ≠ [])
    (hkinds : ∀ part ∈ condition, part.kind.isOperand = true) : (Node.conditional condition body).Regular where
  operands := hkinds
  conditional condition body heq := by
    cases heq
    simp [conditional?, hne]
  assign target value firstTime type heq := by cases heq

/-- An assignment is regular if its value is made of operands and the first ones are those with a type. -/
theorem regular_assign {target : Var} {value : List Node} {firstTime : Bool} {type : Option String}
    (hfirst : firstTime = type.isSome) (hkinds : ∀ part ∈ value, part.kind.isOperand = true) :
    (Node.assign target value firstTime type).Regular where
  operands := hkinds
  conditional condition body heq := by cases heq
  assign target value firstTime type heq := by
    cases heq
    exact if_pos hfirst

/-- A tree is regular all through if its root is and what is below it. -/
theorem regular_preorder {node : Node} (hroot : node.Regular)
    (hbelow : ∀ child ∈ node.children, ∀ part ∈ child.preorder, part.Regular) : ∀ part ∈ node.preorder, part.Regular := by
  intro part hpart
  rw [preorder_eq_cons, preorderAll_eq_flatMap, List.mem_cons, List.mem_flatMap] at hpart
  rcases hpart with rfl | ⟨child, hchild, hpart⟩
  · exact hroot
  · exact hbelow child hchild part hpart

theorem regular_var (v : Var) : ∀ part ∈ (Node.var v).preorder, part.Regular := by
  refine regular_preorder (regular_of_kind (by simp [kind]) ?_) ?_
  · exact List.forall_mem_nil _
  · exact List.forall_mem_nil _

/-- An operand is regular all through. -/
theorem IsOperand.regular {node : Node} (h : IsOperand node) : ∀ part ∈ node.preorder, part.Regular := by
  induction h with
  | leaf => exact regular_var _
  | invocation harguments ih =>
    exact regular_preorder (regular_of_kind (by simp [Node.kind]) fun part hpart => (harguments part hpart).kind) ih
  | parameters hitems ih =>
    exact regular_preorder (regular_of_kind (by simp [Node.kind]) fun part hpart => (hitems part hpart).kind) ih

/-- A statement is regular all through. -/
theorem IsStatement.regular {node : Node} (h : IsStatement node) : ∀ part ∈ node.preorder, part.Regular := by
  induction h with
  | @conditional condition body hne hcondition _ ih =>
    refine regular_preorder (regular_conditional hne fun part hpart => (hcondition part hpart).kind) ?_
    intro child hchild
    rcases List.mem_append.mp hchild with hchild | hchild
    · exact (hcondition child hchild).regular
    · exact ih child hchild
  | @function name returnType params body hparams _ ih =>
    have hkinds : ∀ part ∈ params, part.kind.isOperand = true := fun part hpart => (hparams part hpart).kind
    have hgroup : ∀ part ∈ (Node.parameters params).preorder, part.Regular := by
      refine regular_preorder (regular_of_kind (by simp [kind]) hkinds) ?_
      intro child hchild
      obtain ⟨t, name, type, -, rfl⟩ := hparams child hchild
      exact regular_var _
    refine regular_preorder (regular_of_kind (by simp [kind]) hkinds) ?_
    exact List.forall_mem_cons.mpr ⟨hgroup, ih⟩
  | @assign t name value firstTime type _ _ hvalue hfirst =>
    refine regular_preorder (regular_assign hfirst fun part hpart => (hvalue part hpart).kind) ?_
    exact List.forall_mem_cons.mpr ⟨regular_var _, fun child hchild => (hvalue child hchild).regular⟩
  | invocation _ harguments =>
    refine regular_preorder (regular_of_kind (by simp [kind]) fun part hpart => (harguments part hpart).kind) ?_
    exact fun child hchild => (harguments child hchild).regular

end Node

/-! ## What is parsed is of its sort -/

/-- What the nodes of a phrase of a sort are. -/
def Phrase.Admits : Phrase → Node → Prop
  | operand | operands _ | arguments => Node.IsOperand
  | parameters => Node.IsParameter
  | statement | program => Node.IsStatement

/-- The nodes of a phrase are of its sort. -/
theorem Derives.sorted {phrase : Phrase} {tokens : List Token} {nodes : List Node} (h : Derives phrase tokens nodes) :
    ∀ node ∈ nodes, phrase.Admits node := by
  induction h with
  | call _ _ _ ih => exact List.forall_mem_singleton.mpr (.invocation ih)
  | round _ _ ih => exact List.forall_mem_singleton.mpr (.grouped ih)
  | square _ _ ih => exact List.forall_mem_singleton.mpr (.parameters ih)
  | leaf ht => exact List.forall_mem_singleton.mpr (.leaf ht)
  | noOperands | noArguments | noParameters | noStatements => exact List.forall_mem_nil _
  | moreOperands _ _ _ _ ih ih' => exact List.forall_mem_cons.mpr ⟨ih _ List.mem_cons_self, ih'⟩
  | oneArgument _ _ ih => exact List.forall_mem_singleton.mpr (.grouped ih)
  | moreArguments _ _ _ _ _ ih ih' => exact List.forall_mem_cons.mpr ⟨.grouped ih, ih'⟩
  | oneParameter _ hn => exact List.forall_mem_singleton.mpr ⟨_, _, _, hn, rfl⟩
  | moreParameters _ hn _ _ _ ih => exact List.forall_mem_cons.mpr ⟨⟨_, _, _, hn, rfl⟩, ih⟩
  | conditional _ _ _ hne _ _ ih ih' => exact List.forall_mem_singleton.mpr (.conditional hne ih ih')
  | function _ _ _ _ _ _ ih ih' => exact List.forall_mem_singleton.mpr (.function ih ih')
  | declaration _ hn _ _ hne _ ih => exact List.forall_mem_singleton.mpr (.assign hn hne ih rfl)
  | reassignment hn _ _ hne _ ih => exact List.forall_mem_singleton.mpr (.assign hn hne ih rfl)
  | callStatement _ hne _ _ _ ih => exact List.forall_mem_singleton.mpr (.invocation hne ih)
  | moreStatements _ _ ih ih' => exact List.forall_mem_cons.mpr ⟨ih _ List.mem_cons_self, ih'⟩

/-! ## Printed trees -/

/-- The token of a name, at no place in particular. -/
def Token.ofName (name : String) : Token := ⟨.identifier name, 0⟩

/-- The token of a mark, at no place in particular. -/
def Token.ofMark (mark : Char) : Token := ⟨.character mark, 0⟩

@[simp] theorem Token.name?_ofName (name : String) : (ofName name).name? = some name := rfl

@[simp] theorem Token.isMark_ofMark (mark : Char) : (ofMark mark).isMark mark = true := by
  simp [isMark, ofMark]

/-- Tokens in brackets. -/
def Bracket.around (b : Bracket) (tokens : List Token) : List Token := .ofMark b.opening :: (tokens ++ [.ofMark b.closing])

/-- Runs of tokens with commas between them. -/
def separated (runs : List (List Token)) : List Token := [Token.ofMark ','].intercalate runs

namespace Node

mutual

/-- The tokens that an operand is printed as, none for other nodes. -/
def operandTokens : Node → List Token
  | .var v => v.token.toList
  | .parameters items => Bracket.square.around (operandRuns items).flatten
  | .invocation name arguments =>
    .ofName name :: Bracket.round.around (separated ((operandRuns arguments).map Bracket.round.around))
  | _ => []

/-- The tokens that each of some operands is printed as. -/
def operandRuns : List Node → List (List Token)
  | [] => []
  | node :: rest => operandTokens node :: operandRuns rest

end

/-- The tokens that operands are printed as. -/
def operandsTokens (nodes : List Node) : List Token := (operandRuns nodes).flatten

/-- The tokens that a parameter is printed as, none for other nodes. -/
def parameterTokens : Node → List Token
  | .var v => v.type.toList.map Token.ofName ++ v.token.toList
  | _ => []

mutual

/-- The tokens that a statement is printed as, none for other nodes. -/
def statementTokens : Node → List Token
  | .conditional condition body =>
    .ofName Rule.conditionalWord ::
      (Bracket.round.around (operandsTokens condition) ++ Bracket.curly.around (programTokens body))
  | .function name returnType params body =>
    .ofName returnType :: .ofName name ::
      (Bracket.round.around (separated (params.map parameterTokens)) ++ Bracket.curly.around (programTokens body))
  | .assign target value _ type =>
    type.toList.map Token.ofName ++ target.token.toList ++ .ofMark '=' :: (operandsTokens value ++ [.ofMark ';'])
  | node@(.invocation _ _) => operandTokens node ++ [.ofMark ';']
  | _ => []

/-- The tokens that a program is printed as. -/
def programTokens : List Node → List Token
  | [] => []
  | node :: rest => statementTokens node ++ programTokens rest

end

end Node

/-! ## Printed trees are phrases -/

namespace Bracket

theorem around_encloses (b : Bracket) : b.Encloses (.ofMark b.opening) (.ofMark b.closing) := by
  constructor <;> simp

end Bracket

@[simp] theorem separated_nil : separated [] = [] := rfl

@[simp] theorem separated_singleton (run : List Token) : separated [run] = run := by
  simp [separated, List.intercalate]

@[simp] theorem separated_cons_cons (run next : List Token) (more : List (List Token)) :
    separated (run :: next :: more) = run ++ .ofMark ',' :: separated (next :: more) := by
  simp [separated, List.intercalate]

namespace Node

@[simp] theorem operandRuns_eq_map (nodes : List Node) : operandRuns nodes = nodes.map operandTokens := by
  induction nodes with
  | nil => simp [operandRuns]
  | cons node rest ih => simp [operandRuns, ih]

@[simp] theorem operandsTokens_nil : operandsTokens [] = [] := by
  simp [operandsTokens]

@[simp] theorem operandsTokens_cons (node : Node) (rest : List Node) :
    operandsTokens (node :: rest) = operandTokens node ++ operandsTokens rest := by
  simp [operandsTokens]

/-- An operand is not printed with a round bracket in front. -/
theorem IsOperand.exists_cons {node : Node} (h : IsOperand node) :
    ∃ t rest, node.operandTokens = t :: rest ∧ t.isMark '(' = false := by
  cases h with
  | @leaf t ht =>
    refine ⟨t, [], ?_, ht.2 '(' (by decide)⟩
    simp [operandTokens, Var.ofToken]
  | invocation =>
    refine ⟨.ofName _, _, by rw [operandTokens], ?_⟩
    exact Token.isMark_of_name? (Token.name?_ofName _) _
  | parameters =>
    refine ⟨.ofMark '[', _, by rw [operandTokens]; rfl, ?_⟩
    decide

theorem not_meet_operandsTokens {nodes : List Node} (h : ∀ node ∈ nodes, IsOperand node) (front : List Token) :
    ¬ Meet front (operandsTokens nodes) := by
  cases nodes with
  | nil => simpa using not_meet_nil front
  | cons node rest =>
    obtain ⟨t, more, htokens, ht⟩ := (h node List.mem_cons_self).exists_cons
    rintro ⟨f, o, tail, -, -, hback, ho⟩
    rw [operandsTokens_cons, htokens, List.cons_append, List.cons.injEq] at hback
    rw [← hback.1, ht] at ho
    cases ho

/-- Operands are printed as a phrase if each of them is. -/
theorem derives_operandsTokens {nodes : List Node} (hsort : ∀ node ∈ nodes, IsOperand node)
    (h : ∀ node ∈ nodes, Derives .operand node.operandTokens [node]) :
    Derives (.operands true) (operandsTokens nodes) nodes := by
  induction nodes with
  | nil => simpa using Derives.noOperands
  | cons node rest ih =>
    rw [List.forall_mem_cons] at hsort h
    rw [operandsTokens_cons]
    exact .moreOperands h.1 (not_meet_operandsTokens hsort.2 _) (by simp) (ih hsort.2 h.2)

/-- An operand in round brackets is an argument by itself, a comma too. -/
theorem derives_around {tokens : List Token} {node : Node} (h : Derives .operand tokens [node]) :
    Derives (.operands false) (Bracket.round.around tokens) [node] := by
  have hround : Derives .operand (Bracket.round.around tokens) [node] :=
    .round (Bracket.around_encloses .round) (h.oneOperand nofun)
  have hcomma : ¬ BareComma (Bracket.round.around tokens) := by
    rintro ⟨t, ht, -⟩
    simp [Bracket.around] at ht
  exact hround.oneOperand fun _ => hcomma

/-- Arguments are printed as a phrase if each of them is. -/
theorem derives_arguments {nodes : List Node} (h : ∀ node ∈ nodes, Derives .operand node.operandTokens [node]) :
    Derives .arguments (separated ((operandRuns nodes).map Bracket.round.around)) nodes := by
  induction nodes with
  | nil => simpa using Derives.noArguments
  | cons node rest ih =>
    rw [List.forall_mem_cons] at h
    have hfirst := derives_around h.1
    cases rest with
    | nil =>
      have hargument : Derives .arguments (Bracket.round.around node.operandTokens) [node] := .oneArgument hfirst (by simp)
      simpa using hargument
    | cons next more =>
      have hmore := ih h.2
      simp only [operandRuns_eq_map, List.map_cons, separated_cons_cons] at hmore ⊢
      exact .moreArguments hfirst (by simp) (Token.isMark_ofMark ',') hmore (by simp)

/-- Every operand is printed as a phrase that stands for it. -/
theorem IsOperand.derives {node : Node} (h : IsOperand node) : Derives .operand node.operandTokens [node] := by
  induction h with
  | leaf ht =>
    rw [operandTokens]
    exact .leaf ht
  | @invocation name arguments _ ih =>
    rw [operandTokens]
    exact .call (Token.name?_ofName name) (Bracket.around_encloses .round) (derives_arguments ih)
  | @parameters items hitems ih =>
    rw [operandTokens]
    exact .square (Bracket.around_encloses .square) (derives_operandsTokens hitems ih)

/-- Operands are printed as a phrase that stands for them. -/
theorem derives_operands {nodes : List Node} (h : ∀ node ∈ nodes, IsOperand node) :
    Derives (.operands true) (operandsTokens nodes) nodes :=
  derives_operandsTokens h fun node hnode => (h node hnode).derives

/-- Parameters are printed as a phrase that stands for them. -/
theorem derives_parameters {nodes : List Node} (h : ∀ node ∈ nodes, IsParameter node) :
    Derives .parameters (separated (nodes.map parameterTokens)) nodes := by
  induction nodes with
  | nil => simpa using Derives.noParameters
  | cons node rest ih =>
    rw [List.forall_mem_cons] at h
    obtain ⟨⟨t, name, type, ht, rfl⟩, hrest⟩ := h
    cases rest with
    | nil => simpa [parameterTokens] using Derives.oneParameter (Token.name?_ofName type) ht
    | cons next more =>
      have hmore := ih hrest
      simp only [List.map_cons, separated_cons_cons] at hmore ⊢
      exact .moreParameters (Token.name?_ofName type) ht (Token.isMark_ofMark ',') hmore (by simp)

/-- Statements are printed as a phrase if each of them is. -/
theorem derives_programTokens {nodes : List Node} (h : ∀ node ∈ nodes, Derives .statement node.statementTokens [node]) :
    Derives .program (programTokens nodes) nodes := by
  induction nodes with
  | nil =>
    rw [programTokens]
    exact .noStatements
  | cons node rest ih =>
    rw [List.forall_mem_cons] at h
    rw [programTokens]
    exact .moreStatements h.1 (ih h.2)

/-- Every statement is printed as a phrase that stands for it. -/
theorem IsStatement.derives {node : Node} (h : IsStatement node) : Derives .statement node.statementTokens [node] := by
  have hround := Bracket.around_encloses .round
  have hcurly := Bracket.around_encloses .curly
  have hequals := Token.isMark_ofMark '='
  have hsemi := Token.isMark_ofMark ';'
  induction h with
  | @conditional condition body hne hcondition _ ih =>
    have hphrase := Derives.conditional (Token.name?_ofName _) hround (derives_operands hcondition) hne hcurly
      (derives_programTokens ih)
    simpa [statementTokens, Bracket.around] using hphrase
  | @function name returnType params body hparams _ ih =>
    have hphrase := Derives.function (Token.name?_ofName returnType) (Token.name?_ofName name) hround
      (derives_parameters hparams) hcurly (derives_programTokens ih)
    simpa [statementTokens, Bracket.around] using hphrase
  | @assign t name value firstTime type ht hne hvalue hfirst =>
    subst hfirst
    cases type with
    | none =>
      have hphrase := Derives.reassignment ht hequals (derives_operands hvalue) hne hsemi
      simpa [statementTokens] using hphrase
    | some type =>
      have hphrase := Derives.declaration (Token.name?_ofName type) ht hequals (derives_operands hvalue) hne hsemi
      simpa [statementTokens] using hphrase
  | @invocation name arguments hne harguments =>
    have hargs := derives_arguments fun node hnode => (harguments node hnode).derives
    have hphrase := Derives.callStatement (Token.name?_ofName name) hne hround hargs hsemi
    simpa [statementTokens, operandTokens, Bracket.around] using hphrase

end Node

/-- Statements are what their printed tokens are parsed as. -/
theorem parseTokens_programTokens {nodes : List Node} (h : ∀ node ∈ nodes, node.IsStatement) :
    parseTokens (Node.programTokens nodes ++ [.eof 0]) = .ok nodes := by
  have hprogram : Derives .program (Node.programTokens nodes) nodes :=
    Node.derives_programTokens fun node hnode => (h node hnode).derives
  exact hprogram.parseTokens_eq rfl

/-- What a token list with its end is parsed as are statements, whatever is in the list. -/
theorem isStatement_of_parseTokens {tokens : List Token} {nodes : List Node}
    (hended : ∃ last ∈ tokens.getLast?, last.isEof = true) (h : parseTokens tokens = .ok nodes) :
    ∀ node ∈ nodes, node.IsStatement := by
  obtain ⟨last, hlast, heof⟩ := hended
  obtain ⟨front, rfl⟩ := List.getLast?_eq_some_iff.mp hlast
  rw [parseTokens_append_eof front heof, mapError_eq_ok_iff] at h
  obtain ⟨t, hp⟩ := Slice.program_of_parse h
  obtain ⟨read, rest, -, -, hprogram⟩ := Slice.readsProgram_of_program hp
  exact hprogram.sorted

/-- The lists of nodes that token lists with their end are parsed as are the lists of statements. In no such list a statement
stands where operands do, and the constructors of its nodes refuse none of them. -/
theorem parseTokens_image (nodes : List Node) :
    ((∃ tokens, (∃ last ∈ tokens.getLast?, last.isEof = true) ∧ parseTokens tokens = .ok nodes) ↔
      ∀ node ∈ nodes, node.IsStatement) ∧
    ((∀ node ∈ nodes, node.IsStatement) → ∀ part ∈ Node.preorderAll nodes, part.Regular) := by
  refine ⟨⟨?_, ?_⟩, ?_⟩
  · rintro ⟨tokens, hended, h⟩
    exact isStatement_of_parseTokens hended h
  · intro h
    exact ⟨_, ⟨.eof 0, by simp, rfl⟩, parseTokens_programTokens h⟩
  · intro h part hpart
    rw [Node.preorderAll_eq_flatMap, List.mem_flatMap] at hpart
    obtain ⟨node, hnode, hpart⟩ := hpart
    exact (h node hnode).regular part hpart

/-- The tree of `f((,));`, a call with a bare comma for its argument. -/
def commaCall : List Node := [.invocation "f" [.var (.ofToken ⟨.character ',', 3⟩)]]

/-- A comma is an argument if it stands in brackets of its own. -/
theorem parseTokens_image_commaCall : (∀ node ∈ commaCall, node.IsStatement) ∧
    (∃ tokens, (∃ last ∈ tokens.getLast?, last.isEof = true) ∧ parseTokens tokens = .ok commaCall) ∧
    ∀ part ∈ Node.preorderAll commaCall, part.Regular := by
  have hmark : Token.isMark ⟨.character ',', 3⟩ ',' = true := rfl
  have hcomma := Token.standsAlone_of_mark hmark (by decide)
  have hcall : ∀ node ∈ commaCall, node.IsStatement := by
    refine List.forall_mem_singleton.mpr (.invocation (by decide) ?_)
    exact List.forall_mem_singleton.mpr (.leaf hcomma)
  exact ⟨hcall, (parseTokens_image commaCall).1.mpr hcall, (parseTokens_image commaCall).2 hcall⟩

end TinyScript
