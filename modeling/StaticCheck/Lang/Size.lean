import StaticCheck.Lang.Tree

/-!
# Sizes of program trees

The number of nodes of a tree, types included.  It bounds how deep the
judgements about a program can nest.
-/

namespace StaticCheck

mutual

def Ty.size : Ty → Nat
  | .prim _ | .named _ | .errors _ => 1
  | .pointer target _ => target.size + 1
  | .optional inner => inner.size + 1
  | .array element extent _ => element.size + extent.size + 1
  | .tuple fields => Ty.sizeAll fields + 1
  | .struct ⟨_, members, _⟩ => Member.sizeAll members + 1
  | .enum ⟨_, variants, _⟩ => Variant.sizeAll variants + 1
  | .union members => Ty.sizeAll members + 1
  | .function params result error =>
    Ty.sizeAll params + result.size + Ty.sizeOpt error + 1
  | .paren inner => inner.size + 1

def Ty.sizeAll : List Ty → Nat
  | [] => 0
  | ty :: rest => ty.size + Ty.sizeAll rest

def Ty.sizeOpt : Option Ty → Nat
  | none => 0
  | some ty => ty.size

def Member.sizeAll : List Member → Nat
  | [] => 0
  | ⟨_, ty⟩ :: rest => ty.size + Member.sizeAll rest

def Variant.sizeAll : List Variant → Nat
  | [] => 0
  | ⟨_, payload⟩ :: rest => Ty.sizeOpt payload + Variant.sizeAll rest + 1

def Extent.size : Extent → Nat
  | .slice | .fixed _ => 0
  | .expr length => length.size

def Expr.size : Expr → Nat
  | ⟨_, _, kind⟩ => kind.size + 1

def Expr.sizeAll : List Expr → Nat
  | [] => 0
  | expr :: rest => expr.size + Expr.sizeAll rest

def Expr.sizeOpt : Option Expr → Nat
  | none => 0
  | some expr => expr.size

def ExprKind.size : ExprKind → Nat
  | .literal literal => literal.size
  | .ident _ | .unreachable => 0
  | .paren inner => inner.size
  | .tuple fields => Expr.sizeAll fields
  | .object _ fields => ObjectField.sizeAll fields
  | .type ty => ty.size
  | .binary _ left right => left.size + right.size
  | .unary _ operand => operand.size
  | .call callee args => callee.size + Expr.sizeAll args
  | .index base index => base.size + index.size
  | .member base _ => base.size
  | .increment operand => operand.size
  | .decrement operand => operand.size
  | .deref operand => operand.size
  | .cast operand target => operand.size + target.size
  | .typeOf operand => operand.size
  | .sizeOf operand => operand.size
  | .orElse left right => left.size + right.size
  | .range start stop _ => Expr.sizeOpt start + Expr.sizeOpt stop
  | .tryExpr operand => operand.size
  | .catchExpr operand _ handler => operand.size + handler.size
  | .ifExpr condition thenBranch elseBranch =>
    condition.size + thenBranch.size + Stmt.sizeOpt elseBranch
  | .matchExpr subject cases default =>
    subject.size + MatchCase.sizeAll cases + Stmt.sizeOpt default

def Literal.size : Literal → Nat
  | .str _ | .int _ | .float _ | .char _ | .bool _ | .null | .undefined => 0
  | .array elements => Expr.sizeAll elements

def ObjectField.sizeAll : List ObjectField → Nat
  | [] => 0
  | ⟨_, value, _⟩ :: rest => value.size + ObjectField.sizeAll rest

def MatchCase.sizeAll : List MatchCase → Nat
  | [] => 0
  | ⟨patterns, body⟩ :: rest =>
    Expr.sizeAll patterns + body.size + MatchCase.sizeAll rest

def Stmt.size : Stmt → Nat
  | ⟨_, _, kind⟩ => kind.size + 1

def Stmt.sizeAll : List Stmt → Nat
  | [] => 0
  | stmt :: rest => stmt.size + Stmt.sizeAll rest

def Stmt.sizeOpt : Option Stmt → Nat
  | none => 0
  | some stmt => stmt.size

def StmtKind.size : StmtKind → Nat
  | .expr value => value.size
  | .block ⟨_, body, _⟩ => Stmt.sizeAll body
  | .letDecl ⟨_, _, _, ty, value⟩ => Ty.sizeOpt ty + Expr.sizeOpt value
  | .defDecl ⟨_, _, ty, value⟩ => Ty.sizeOpt ty + value.size
  | .func decl => decl.size
  | .struct ⟨_, _, _, fields, methods, _⟩ =>
    Slot.sizeAll fields + FuncDecl.sizeAll methods
  | .enum ⟨_, _, _, variants, methods, _⟩ =>
    VariantDecl.sizeAll variants + FuncDecl.sizeAll methods
  | .use _ | .breakStmt | .continueStmt => 0
  | .returnStmt value => Expr.sizeOpt value
  | .throwStmt value => value.size
  | .whileLoop condition ⟨_, body, _⟩ => condition.size + Stmt.sizeAll body
  | .forLoop _ iterable ⟨_, body, _⟩ => iterable.size + Stmt.sizeAll body

def Slot.sizeAll : List Slot → Nat
  | [] => 0
  | ⟨_, ty, _, _, default, _⟩ :: rest =>
    ty.size + Expr.sizeOpt default + Slot.sizeAll rest + 1

def FuncDecl.size : FuncDecl → Nat
  | ⟨_, _, _, params, result, _, ⟨_, body, _⟩, _⟩ =>
    Slot.sizeAll params + Ty.sizeOpt result + Stmt.sizeAll body + 1

def FuncDecl.sizeAll : List FuncDecl → Nat
  | [] => 0
  | func :: rest => func.size + FuncDecl.sizeAll rest

def VariantDecl.sizeAll : List VariantDecl → Nat
  | [] => 0
  | ⟨_, payload, _⟩ :: rest => Ty.sizeOpt payload + VariantDecl.sizeAll rest + 1

end

def Module.size (module : Module) : Nat :=
  Stmt.sizeAll module.body + 1

def Module.sizeAll : List Module → Nat
  | [] => 0
  | module :: rest => module.size + Module.sizeAll rest

def Program.size (program : Program) : Nat :=
  Module.sizeAll program.modules

end StaticCheck
