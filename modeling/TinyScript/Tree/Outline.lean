import TinyScript.Tree.Basic

/-!
# Outlines

The outline of a program has a line for every node, indented by two spaces per level. Where a node has parts of different
roles, lines that only name the role stand above them.
-/

namespace TinyScript

/-- The line of a variable: a parameter shows its type, a literal its kind and text, and everything else its name. -/
def Var.label (v : Var) : String :=
  match v.type, v.token with
  | some type, _ => "Var " ++ type ++ " " ++ v.name
  | none, some token =>
    if token.value.isLiteral then "Var " ++ token.kind.word ++ " " ++ token.lexeme else "Var " ++ v.name
  | none, none => "Var " ++ v.name

namespace Node

/-- A line at a level. -/
def line (depth : Nat) (text : String) : String := String.ofList (List.replicate (2 * depth) ' ') ++ text

/-- The line of an assignment. The first one of its variable shows the type, and `assign?` makes none without. -/
def assignLabel (target : Var) (firstTime : Bool) (type : Option String) : String :=
  if firstTime then "Assign " ++ type.getD "None" ++ " " ++ target.name ++ " (declaration)" else "Assign " ++ target.name

mutual

/-- The lines of a node at a level. -/
def outline (depth : Nat) : Node → List String
  | .var v => [line depth v.label]
  | .parameters items => line depth "Parameters" :: outlineAll (depth + 1) items
  | .conditional condition body =>
    line depth "Conditional" :: line (depth + 1) "condition:" :: outlineAll (depth + 2) condition ++
      line (depth + 1) "body:" :: outlineAll (depth + 2) body
  | .invocation name arguments => line depth ("Invocation " ++ name) :: outlineAll (depth + 1) arguments
  | .assign target value firstTime type =>
    line depth (assignLabel target firstTime type) :: outlineAll (depth + 1) value
  | .function name returnType params body =>
    line depth ("Function " ++ returnType ++ " " ++ name) ::
      line (depth + 1) "Parameters" :: outlineAll (depth + 2) params ++
      line (depth + 1) "body:" :: outlineAll (depth + 2) body

/-- The lines of nodes at a level. -/
def outlineAll (depth : Nat) : List Node → List String
  | [] => []
  | node :: rest => outline depth node ++ outlineAll depth rest

end

end Node

/-- The outline of a program as one text, its lines apart and the last one not ended. -/
def outlineText (nodes : List Node) : String := "\n".intercalate (Node.outlineAll 0 nodes)

end TinyScript
