import StaticCheck.Lang.Tree

/-!
# Forms of expressions

What can be read off an expression without looking anything up: the expression
inside its parentheses, its form, and whether it denotes a place in storage.
-/

namespace StaticCheck

/-- The form of an expression, as part of the identity under which its type is
remembered. -/
inductive Form
  | literal
  | ident
  | paren
  | tuple
  | object
  | type
  | binary
  | unary
  | suffix
  | cast
  | typeOf
  | sizeOf
  | orElse
  | range
  | tryExpr
  | catchExpr
  | ifExpr
  | matchExpr
  | unreachable
  deriving DecidableEq, Repr, Inhabited

def ExprKind.form : ExprKind → Form
  | .literal .. => .literal
  | .ident .. => .ident
  | .paren .. => .paren
  | .tuple .. => .tuple
  | .object .. => .object
  | .type .. => .type
  | .binary .. => .binary
  | .unary .. => .unary
  | .call .. | .index .. | .member .. | .increment .. | .decrement ..
  | .deref .. => .suffix
  | .cast .. => .cast
  | .typeOf .. => .typeOf
  | .sizeOf .. => .sizeOf
  | .orElse .. => .orElse
  | .range .. => .range
  | .tryExpr .. => .tryExpr
  | .catchExpr .. => .catchExpr
  | .ifExpr .. => .ifExpr
  | .matchExpr .. => .matchExpr
  | .unreachable => .unreachable

namespace Expr

def unparen : Expr → Expr
  | ⟨_, _, .paren inner⟩ => inner.unparen
  | expr => expr

def isLiteral (expr : Expr) : Bool :=
  match expr.unparen.kind with
  | .literal _ => true
  | _ => false

def isDeref (expr : Expr) : Bool :=
  match expr.unparen.kind with
  | .deref _ => true
  | _ => false

def isRange (expr : Expr) : Bool :=
  match expr.unparen.kind with
  | .range .. => true
  | _ => false

def isUnreachable (expr : Expr) : Bool :=
  match expr.unparen.kind with
  | .unreachable => true
  | _ => false

def identName? (expr : Expr) : Option String :=
  match expr.unparen.kind with
  | .ident name => some name
  | _ => none

def isPlace : Expr → Bool
  | ⟨_, _, .ident _⟩ => true
  | ⟨_, _, .paren inner⟩ => inner.isPlace
  | ⟨_, _, .deref _⟩ => true
  | ⟨_, _, .index _ _⟩ => true
  | ⟨_, _, .member _ _⟩ => true
  | ⟨_, _, .unary .increment operand⟩ => operand.isPlace
  | ⟨_, _, .unary .decrement operand⟩ => operand.isPlace
  | ⟨_, _, .unary .reference operand⟩ => operand.isPlace
  | _ => false

end Expr
end StaticCheck
