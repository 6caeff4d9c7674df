import StaticCheck.Constant.Value
import StaticCheck.Number.Decimal
import StaticCheck.Number.Numeral
import StaticCheck.Types.Layout

/-!
# Constant folding

An evaluator folds an expression to a value and measures a type.  The literal
evaluator folds literals and the operators on them; what needs a name looked up
is out of its reach.
-/

namespace StaticCheck

def Literal.value? : Literal → Option Value
  | .int text => (Numeral.literal? text).map Value.int
  | .float text =>
    (Decimal.read? (String.ofList (text.toList.filter (· != '_')))).map
      Value.float
  | .bool value => some (.bool value)
  | .char text => text.toList.head?.map fun c => .int c.toNat
  | .str _ | .null | .undefined | .array _ => none

/-- The value of literals and of the operators on them. -/
def Expr.fold? : Expr → Option Value
  | ⟨_, _, .literal literal⟩ => literal.value?
  | ⟨_, _, .paren inner⟩ => inner.fold?
  | ⟨_, _, .unary op operand⟩ => operand.fold?.bind (Value.unary? op)
  | ⟨_, _, .binary op left right⟩ =>
    left.fold?.bind fun a => right.fold?.bind fun b => Value.binary? op a b
  | _ => none

structure Evaluator where
  /-- The value of an expression that flows into a place of the given type,
  where there is one. -/
  fold : Expr → Option Ty → Option Value
  size : Ty → Option Nat

namespace Evaluator

def foldInt (evaluator : Evaluator) (expr : Expr) : Option Int :=
  (evaluator.fold expr none).bind Value.int?

def foldFloat (evaluator : Evaluator) (expr : Expr) : Option Float :=
  (evaluator.fold expr none).bind Value.float?

/-- An integer becomes a double where a float is expected. -/
def adapt (value : Value) (expected : Option Ty) : Value :=
  match value, expected with
  | .int n, some ty => if ty.isFloat then .float (Binary64.ofInt n) else .int n
  | value, _ => value

def literal : Evaluator where
  fold expr expected := expr.fold?.map fun value => adapt value expected
  size ty := ty.layout?.map Layout.size

end Evaluator
end StaticCheck
