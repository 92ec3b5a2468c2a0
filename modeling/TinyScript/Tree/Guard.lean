import TinyScript.Tree.Basic

/-!
# Guards

Which guards hold without running the program: a guard of one literal operand holds if the literal is `true` or an integer
other than zero. No other guard does.
-/

namespace TinyScript

/-- A value that makes a guard hold. -/
def TokenValue.isTrue : TokenValue → Bool
  | integer value => value != 0
  | boolean value => value
  | _ => false

/-- The guard made of some operands holds. -/
def guardHolds : List Node → Bool
  | [.var v] => v.token.any (·.value.isTrue)
  | _ => false

/-- What the guards of a list of trees come to, in preorder. -/
def guardResults (nodes : List Node) : List Bool :=
  (Node.preorderAll nodes).filterMap fun
    | .conditional condition _ => some (guardHolds condition)
    | _ => none

end TinyScript
