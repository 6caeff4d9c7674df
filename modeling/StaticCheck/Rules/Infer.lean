import StaticCheck.Rules.Assignment
import StaticCheck.Rules.Ident
import StaticCheck.Rules.Literal
import StaticCheck.Rules.Match
import StaticCheck.Rules.Member
import StaticCheck.Rules.Object
import StaticCheck.Rules.Operator

/-!
# Types of expressions

The type of an expression by its form.  A type once found is remembered under
the node; an expression met while it is being inferred has no type yet, and that
is not reported.
-/

namespace StaticCheck
namespace Rule

def inferKind (expr : Expr) : Rule (Option Ty) :=
  match expr.kind with
  | .literal literal => inferLiteral literal expr.span
  | .ident name => inferIdent name expr.span
  | .paren inner => askType inner
  | .tuple fields => inferTuple fields
  | .object name fields => inferObject name fields expr.span
  | .type ty => return (← resolveType ty expr.span).map fun _ => .type
  | .binary op left right =>
    if op.opClass == .assignment then inferAssignment op left right expr.span
    else inferBinary op left right expr.span
  | .unary op operand => inferUnary op operand expr.span
  | .call callee args => inferCall callee args expr.span
  | .index base index => inferIndex base index
  | .member base name => inferMember base name expr.span
  | .increment operand | .decrement operand => inferStep operand
  | .deref operand => inferDeref operand
  | .cast operand target => inferCast operand target expr.span
  | .typeOf operand => return (← askType operand).map fun _ => .type
  | .sizeOf operand => return some (← inferSizeOf operand expr.span)
  | .orElse left right => inferOrElse left right
  | .range start stop _ => inferRange start stop
  | .tryExpr operand => askType operand
  | .catchExpr operand _ handler => inferCatch expr.id operand handler expr.span
  | .ifExpr condition thenBranch elseBranch => do
    checkIf condition thenBranch elseBranch
    return some .void
  | .matchExpr subject cases default => do
    checkMatch subject cases default expr.span
    return some .void
  | .unreachable => return some .noreturn

def exprKey (expr : Expr) : Rule ExprKey :=
  return ⟨← currentModule, expr.id, expr.kind.form⟩

def inferExpr (expr : Expr) : Rule (Option Ty) := do
  let key ← exprKey expr
  if let some ty ← remembered? key then return some ty
  if ← isInFlight key then return none
  let answer ← withInFlight key (withSpan expr.span (inferKind expr))
  if let some ty := answer then remember key ty
  return answer

end Rule
end StaticCheck
