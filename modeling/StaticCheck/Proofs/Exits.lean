import StaticCheck.Lang.Expr

/-!
# Exits

A return or a throw leaves the function around it, a break or a continue the
loop around it.  The exits of a part of a program are those that leave the part
itself: they are judged by what stands around the part, while all others are
judged by a function or a loop of its own.  The length of an array type counts
on its own, since it is inferred wherever the type is resolved.  With the exits
go the loops over a binding, wherever they stand in the part: each of them sets
the type of a variable.
-/

namespace StaticCheck

/-- How control can leave a part of a program. -/
structure Exits where
  /-- By a return or a throw outside of the functions of the part. -/
  leaves : Bool := false
  /-- By a break or a continue outside of the loops and functions of the
  part. -/
  jumps : Bool := false
  /-- From the length of an array type in the part. -/
  lengths : Bool := false
  /-- The loops over a binding: the name it has and the node of the body. -/
  loops : List (String × NodeId) := []
  deriving DecidableEq, Repr

namespace Exits

def join (a b : Exits) : Exits :=
  ⟨a.leaves || b.leaves, a.jumps || b.jumps, a.lengths || b.lengths,
    a.loops ++ b.loops⟩

instance : Append Exits := ⟨join⟩

def ofLoop (body : Exits) : Exits := { body with jumps := false }

def ofFunction (body : Exits) : Exits :=
  { body with leaves := false, jumps := false }

def ofLength (length : Exits) : Exits :=
  { lengths := length.leaves || length.jumps || length.lengths,
    loops := length.loops }

end Exits

mutual

def Ty.exits : Ty → Exits
  | .prim _ | .named _ | .errors _ => {}
  | .pointer target _ => target.exits
  | .optional inner => inner.exits
  | .array element extent _ => element.exits ++ extent.exits
  | .tuple fields => Ty.exitsAll fields
  | .struct ⟨_, members, _⟩ => Member.exitsAll members
  | .enum ⟨_, variants, _⟩ => Variant.exitsAll variants
  | .union members => Ty.exitsAll members
  | .function params result error =>
    Ty.exitsAll params ++ result.exits ++ Ty.exitsOpt error
  | .paren inner => inner.exits

def Ty.exitsAll : List Ty → Exits
  | [] => {}
  | ty :: rest => ty.exits ++ Ty.exitsAll rest

def Ty.exitsOpt : Option Ty → Exits
  | none => {}
  | some ty => ty.exits

def Member.exitsAll : List Member → Exits
  | [] => {}
  | ⟨_, ty⟩ :: rest => ty.exits ++ Member.exitsAll rest

def Variant.exitsAll : List Variant → Exits
  | [] => {}
  | ⟨_, payload⟩ :: rest => Ty.exitsOpt payload ++ Variant.exitsAll rest

def Extent.exits : Extent → Exits
  | .slice | .fixed _ => {}
  | .expr length => .ofLength length.exits

def Expr.exits : Expr → Exits
  | ⟨_, _, kind⟩ => kind.exits

def Expr.exitsAll : List Expr → Exits
  | [] => {}
  | expr :: rest => expr.exits ++ Expr.exitsAll rest

def Expr.exitsOpt : Option Expr → Exits
  | none => {}
  | some expr => expr.exits

def ExprKind.exits : ExprKind → Exits
  | .literal literal => literal.exits
  | .ident _ | .unreachable => {}
  | .paren inner => inner.exits
  | .tuple fields => Expr.exitsAll fields
  | .object _ fields => ObjectField.exitsAll fields
  | .type ty => ty.exits
  | .binary _ left right => left.exits ++ right.exits
  | .unary _ operand => operand.exits
  | .call callee args => callee.exits ++ Expr.exitsAll args
  | .index base index => base.exits ++ index.exits
  | .member base _ => base.exits
  | .increment operand => operand.exits
  | .decrement operand => operand.exits
  | .deref operand => operand.exits
  | .cast operand target => operand.exits ++ target.exits
  | .typeOf operand => operand.exits
  | .sizeOf operand => operand.exits
  | .orElse left right => left.exits ++ right.exits
  | .range start stop _ => Expr.exitsOpt start ++ Expr.exitsOpt stop
  | .tryExpr operand => operand.exits
  | .catchExpr operand _ handler => operand.exits ++ handler.exits
  | .ifExpr condition thenBranch elseBranch =>
    condition.exits ++ thenBranch.exits ++ Stmt.exitsOpt elseBranch
  | .matchExpr subject cases default =>
    subject.exits ++ MatchCase.exitsAll cases ++ Stmt.exitsOpt default

def Literal.exits : Literal → Exits
  | .str _ | .int _ | .float _ | .char _ | .bool _ | .null | .undefined => {}
  | .array elements => Expr.exitsAll elements

def ObjectField.exitsAll : List ObjectField → Exits
  | [] => {}
  | ⟨_, value, _⟩ :: rest => value.exits ++ ObjectField.exitsAll rest

def MatchCase.exitsAll : List MatchCase → Exits
  | [] => {}
  | ⟨patterns, body⟩ :: rest =>
    Expr.exitsAll patterns ++ body.exits ++ MatchCase.exitsAll rest

def Stmt.exits : Stmt → Exits
  | ⟨_, _, kind⟩ => kind.exits

def Stmt.exitsAll : List Stmt → Exits
  | [] => {}
  | stmt :: rest => stmt.exits ++ Stmt.exitsAll rest

def Stmt.exitsOpt : Option Stmt → Exits
  | none => {}
  | some stmt => stmt.exits

def StmtKind.exits : StmtKind → Exits
  | .expr value => value.exits
  | .block ⟨_, body, _⟩ => Stmt.exitsAll body
  | .letDecl ⟨_, _, _, ty, value⟩ => Ty.exitsOpt ty ++ Expr.exitsOpt value
  | .defDecl ⟨_, _, ty, value⟩ => Ty.exitsOpt ty ++ value.exits
  | .func decl => decl.exits
  | .struct ⟨_, _, _, fields, methods, _⟩ =>
    Slot.exitsAll fields ++ FuncDecl.exitsAll methods
  | .enum ⟨_, _, _, variants, methods, _⟩ =>
    VariantDecl.exitsAll variants ++ FuncDecl.exitsAll methods
  | .use _ => {}
  | .returnStmt value => { leaves := true } ++ Expr.exitsOpt value
  | .throwStmt value => { leaves := true } ++ value.exits
  | .whileLoop condition ⟨_, body, _⟩ =>
    condition.exits ++ .ofLoop (Stmt.exitsAll body)
  | .forLoop binding iterable ⟨id, body, _⟩ =>
    { loops := [(binding, id)] } ++ iterable.exits ++
      .ofLoop (Stmt.exitsAll body)
  | .breakStmt | .continueStmt => { jumps := true }

def Slot.exitsAll : List Slot → Exits
  | [] => {}
  | ⟨_, ty, _, _, default, _⟩ :: rest =>
    ty.exits ++ Expr.exitsOpt default ++ Slot.exitsAll rest

def FuncDecl.exits : FuncDecl → Exits
  | ⟨_, _, _, params, result, _, ⟨_, body, _⟩, _⟩ =>
    Slot.exitsAll params ++ Ty.exitsOpt result ++
      .ofFunction (Stmt.exitsAll body)

def FuncDecl.exitsAll : List FuncDecl → Exits
  | [] => {}
  | func :: rest => func.exits ++ FuncDecl.exitsAll rest

def VariantDecl.exitsAll : List VariantDecl → Exits
  | [] => {}
  | ⟨_, payload, _⟩ :: rest => Ty.exitsOpt payload ++ VariantDecl.exitsAll rest

end

end StaticCheck
