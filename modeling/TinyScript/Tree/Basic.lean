import TinyScript.Token

/-!
# Program trees

A program is a list of nodes, and a `Node` is a statement, an operand or a group of operands. The set of nodes is closed and
every node owns its parts, so trees are compared, walked and printed by recursion on them.

Main operations: `children` and `preorder` walk a tree in source order, `same` compares two trees, and the constructors with
a question mark refuse the two shapes that no node has.
-/

namespace TinyScript

/-- A single-token operand, or the variable that a statement assigns to or a function declares: its name, the token it was
made from, and the declared type of a parameter. -/
structure Var where
  name : String
  token : Option Token
  type : Option String
deriving DecidableEq

/-- The operand that a token is by itself. -/
def Var.ofToken (t : Token) : Var := { name := t.lexeme, token := some t, type := none }

/-- Equality of variables, tokens compared as tokens are. -/
def Var.same (v w : Var) : Bool :=
  v.name == w.name && v.type == w.type &&
    match v.token, w.token with
    | some s, some t => s.same t
    | none, none => true
    | _, _ => false

/-- The kinds of nodes. -/
inductive NodeKind where
  | conditional
  | invocation
  | assign
  | var
  | parameters
  | function
deriving DecidableEq, Repr

/-- The name of a kind of node. -/
def NodeKind.name : NodeKind → String
  | conditional => "Conditional"
  | invocation => "Invocation"
  | assign => "Assign"
  | var => "Var"
  | parameters => "Parameters"
  | function => "Function"

/-- A node of a program tree. -/
inductive Node where
  /-- A variable reference, a literal or an operator. -/
  | var (v : Var)
  /-- A group: the parameters of a function, or operands in brackets. -/
  | parameters (items : List Node)
  /-- A body that a guard decides on. -/
  | conditional (condition body : List Node)
  /-- A call. -/
  | invocation (name : String) (arguments : List Node)
  /-- An assignment, and whether it is the first one of its variable, which declares it with a type. -/
  | assign (target : Var) (value : List Node) (firstTime : Bool) (type : Option String)
  /-- A function declaration. -/
  | function (name returnType : String) (parameters body : List Node)

instance : Inhabited Node := ⟨.parameters []⟩

namespace Node

/-- A conditional, refused without a guard. -/
def conditional? (condition body : List Node) : Except Refusal Node :=
  if condition.isEmpty then .error .emptyCondition else .ok (.conditional condition body)

/-- An assignment. It is refused if it has a type but is not the first one of its variable, or the other way round. -/
def assign? (target : Var) (value : List Node) (firstTime : Bool) (type : Option String) : Except Refusal Node :=
  if firstTime = type.isSome then .ok (.assign target value firstTime type) else .error .typeMismatch

/-- The kind of a node. -/
def kind : Node → NodeKind
  | var _ => .var
  | parameters _ => .parameters
  | conditional _ _ => .conditional
  | invocation _ _ => .invocation
  | assign _ _ _ _ => .assign
  | function _ _ _ _ => .function

/-- The parts of a node that are nodes, in source order. -/
def children : Node → List Node
  | var _ => []
  | parameters items => items
  | conditional condition body => condition ++ body
  | invocation _ arguments => arguments
  | assign target value _ _ => var target :: value
  | function _ _ params body => parameters params :: body

mutual

/-- A node and all nodes below it, each before its parts and the parts in source order. -/
def preorder : Node → List Node
  | node@(.var _) => [node]
  | node@(.parameters items) => node :: preorderAll items
  | node@(.conditional condition body) => node :: (preorderAll condition ++ preorderAll body)
  | node@(.invocation _ arguments) => node :: preorderAll arguments
  | node@(.assign target value _ _) => node :: .var target :: preorderAll value
  | node@(.function _ _ params body) => node :: .parameters params :: (preorderAll params ++ preorderAll body)

/-- The nodes of a list and all nodes below them. -/
def preorderAll : List Node → List Node
  | [] => []
  | node :: rest => preorder node ++ preorderAll rest

end

mutual

/-- Equality of trees. -/
def same : Node → Node → Bool
  | .var v, .var w => v.same w
  | .parameters items, .parameters items' => sameAll items items'
  | .conditional condition body, .conditional condition' body' =>
    sameAll condition condition' && sameAll body body'
  | .invocation name arguments, .invocation name' arguments' => name == name' && sameAll arguments arguments'
  | .assign target value firstTime type, .assign target' value' firstTime' type' =>
    target.same target' && sameAll value value' && firstTime == firstTime' && type == type'
  | .function name returnType params body, .function name' returnType' params' body' =>
    name == name' && returnType == returnType' && sameAll params params' && sameAll body body'
  | _, _ => false

/-- Equality of lists of trees. -/
def sameAll : List Node → List Node → Bool
  | [], [] => true
  | node :: rest, node' :: rest' => same node node' && sameAll rest rest'
  | _, _ => false

end

/-- The nodes of a list are those of its parts. -/
theorem preorderAll_eq_flatMap (nodes : List Node) : preorderAll nodes = nodes.flatMap preorder := by
  induction nodes with
  | nil => simp [preorderAll]
  | cons node rest ih => simp [preorderAll, ih]

/-- A node is followed by what lies below its children. -/
theorem preorder_eq_cons (node : Node) : preorder node = node :: preorderAll node.children := by
  cases node <;> simp [preorder, children, preorderAll_eq_flatMap]

end Node

end TinyScript
