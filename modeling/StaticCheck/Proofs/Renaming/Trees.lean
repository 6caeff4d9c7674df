import StaticCheck.Lang.Expr
import StaticCheck.Lang.Size

/-!
# Renamed trees

Node ids are renamed throughout a tree, also in the lengths of array types.
Nothing else changes.
-/

namespace StaticCheck

mutual

def Ty.rename (f : NodeId → NodeId) : Ty → Ty
  | .prim prim => .prim prim
  | .named name => .named name
  | .pointer target mutable => .pointer (target.rename f) mutable
  | .optional inner => .optional (inner.rename f)
  | .array element extent mutable =>
    .array (element.rename f) (extent.rename f) mutable
  | .tuple fields => .tuple (Ty.renameAll f fields)
  | .struct struct => .struct (struct.rename f)
  | .enum enum => .enum (enum.rename f)
  | .errors names => .errors names
  | .union members => .union (Ty.renameAll f members)
  | .function params result error =>
    .function (Ty.renameAll f params) (result.rename f) (Ty.renameOpt f error)
  | .paren inner => .paren (inner.rename f)

def Ty.renameAll (f : NodeId → NodeId) : List Ty → List Ty
  | [] => []
  | ty :: rest => ty.rename f :: Ty.renameAll f rest

def Ty.renameOpt (f : NodeId → NodeId) : Option Ty → Option Ty
  | none => none
  | some ty => some (ty.rename f)

def StructTy.rename (f : NodeId → NodeId) : StructTy → StructTy
  | ⟨name, members, scope⟩ => ⟨name, Member.renameAll f members, scope⟩

def Member.rename (f : NodeId → NodeId) : Member → Member
  | ⟨name, ty⟩ => ⟨name, ty.rename f⟩

def Member.renameAll (f : NodeId → NodeId) : List Member → List Member
  | [] => []
  | member :: rest => member.rename f :: Member.renameAll f rest

def EnumTy.rename (f : NodeId → NodeId) : EnumTy → EnumTy
  | ⟨name, variants, scope⟩ => ⟨name, Variant.renameAll f variants, scope⟩

def Variant.rename (f : NodeId → NodeId) : Variant → Variant
  | ⟨name, payload⟩ => ⟨name, Ty.renameOpt f payload⟩

def Variant.renameAll (f : NodeId → NodeId) : List Variant → List Variant
  | [] => []
  | variant :: rest => variant.rename f :: Variant.renameAll f rest

def Extent.rename (f : NodeId → NodeId) : Extent → Extent
  | .slice => .slice
  | .fixed length => .fixed length
  | .expr length => .expr (length.rename f)

def Expr.rename (f : NodeId → NodeId) : Expr → Expr
  | ⟨id, span, kind⟩ => ⟨f id, span, kind.rename f⟩

def Expr.renameAll (f : NodeId → NodeId) : List Expr → List Expr
  | [] => []
  | expr :: rest => expr.rename f :: Expr.renameAll f rest

def Expr.renameOpt (f : NodeId → NodeId) : Option Expr → Option Expr
  | none => none
  | some expr => some (expr.rename f)

def ExprKind.rename (f : NodeId → NodeId) : ExprKind → ExprKind
  | .literal literal => .literal (literal.rename f)
  | .ident name => .ident name
  | .paren inner => .paren (inner.rename f)
  | .tuple fields => .tuple (Expr.renameAll f fields)
  | .object name fields => .object name (ObjectField.renameAll f fields)
  | .type ty => .type (ty.rename f)
  | .binary op left right => .binary op (left.rename f) (right.rename f)
  | .unary op operand => .unary op (operand.rename f)
  | .call callee args => .call (callee.rename f) (Expr.renameAll f args)
  | .index base index => .index (base.rename f) (index.rename f)
  | .member base name => .member (base.rename f) name
  | .increment operand => .increment (operand.rename f)
  | .decrement operand => .decrement (operand.rename f)
  | .deref operand => .deref (operand.rename f)
  | .cast operand target => .cast (operand.rename f) (target.rename f)
  | .typeOf operand => .typeOf (operand.rename f)
  | .sizeOf operand => .sizeOf (operand.rename f)
  | .orElse left right => .orElse (left.rename f) (right.rename f)
  | .range start stop inclusive =>
    .range (Expr.renameOpt f start) (Expr.renameOpt f stop) inclusive
  | .tryExpr operand => .tryExpr (operand.rename f)
  | .catchExpr operand binding handler =>
    .catchExpr (operand.rename f) binding (handler.rename f)
  | .ifExpr condition thenBranch elseBranch =>
    .ifExpr (condition.rename f) (thenBranch.rename f)
      (Stmt.renameOpt f elseBranch)
  | .matchExpr subject cases default =>
    .matchExpr (subject.rename f) (MatchCase.renameAll f cases)
      (Stmt.renameOpt f default)
  | .unreachable => .unreachable

def Literal.rename (f : NodeId → NodeId) : Literal → Literal
  | .str text => .str text
  | .int text => .int text
  | .float text => .float text
  | .char text => .char text
  | .bool value => .bool value
  | .null => .null
  | .undefined => .undefined
  | .array elements => .array (Expr.renameAll f elements)

def ObjectField.rename (f : NodeId → NodeId) : ObjectField → ObjectField
  | ⟨name, value, span⟩ => ⟨name, value.rename f, span⟩

def ObjectField.renameAll (f : NodeId → NodeId) :
    List ObjectField → List ObjectField
  | [] => []
  | field :: rest => field.rename f :: ObjectField.renameAll f rest

def MatchCase.rename (f : NodeId → NodeId) : MatchCase → MatchCase
  | ⟨patterns, body⟩ => ⟨Expr.renameAll f patterns, body.rename f⟩

def MatchCase.renameAll (f : NodeId → NodeId) : List MatchCase → List MatchCase
  | [] => []
  | case :: rest => case.rename f :: MatchCase.renameAll f rest

def Stmt.rename (f : NodeId → NodeId) : Stmt → Stmt
  | ⟨id, span, kind⟩ => ⟨f id, span, kind.rename f⟩

def Stmt.renameAll (f : NodeId → NodeId) : List Stmt → List Stmt
  | [] => []
  | stmt :: rest => stmt.rename f :: Stmt.renameAll f rest

def Stmt.renameOpt (f : NodeId → NodeId) : Option Stmt → Option Stmt
  | none => none
  | some stmt => some (stmt.rename f)

def StmtKind.rename (f : NodeId → NodeId) : StmtKind → StmtKind
  | .expr value => .expr (value.rename f)
  | .block block => .block (block.rename f)
  | .letDecl decl => .letDecl (decl.rename f)
  | .defDecl decl => .defDecl (decl.rename f)
  | .func decl => .func (decl.rename f)
  | .struct decl => .struct (decl.rename f)
  | .enum decl => .enum (decl.rename f)
  | .use decl => .use decl
  | .returnStmt value => .returnStmt (Expr.renameOpt f value)
  | .throwStmt value => .throwStmt (value.rename f)
  | .whileLoop condition body => .whileLoop (condition.rename f) (body.rename f)
  | .forLoop binding iterable body =>
    .forLoop binding (iterable.rename f) (body.rename f)
  | .breakStmt => .breakStmt
  | .continueStmt => .continueStmt

def Block.rename (f : NodeId → NodeId) : Block → Block
  | ⟨id, body, span⟩ => ⟨f id, Stmt.renameAll f body, span⟩

def LetDecl.rename (f : NodeId → NodeId) : LetDecl → LetDecl
  | ⟨name, visibility, mutable, ty, value⟩ =>
    ⟨name, visibility, mutable, Ty.renameOpt f ty, Expr.renameOpt f value⟩

def DefDecl.rename (f : NodeId → NodeId) : DefDecl → DefDecl
  | ⟨name, visibility, ty, value⟩ =>
    ⟨name, visibility, Ty.renameOpt f ty, value.rename f⟩

def Slot.rename (f : NodeId → NodeId) : Slot → Slot
  | ⟨name, ty, visibility, mutable, default, span⟩ =>
    ⟨name, ty.rename f, visibility, mutable, Expr.renameOpt f default, span⟩

def Slot.renameAll (f : NodeId → NodeId) : List Slot → List Slot
  | [] => []
  | slot :: rest => slot.rename f :: Slot.renameAll f rest

def FuncDecl.rename (f : NodeId → NodeId) : FuncDecl → FuncDecl
  | ⟨id, name, visibility, params, result, error, body, span⟩ =>
    ⟨f id, name, visibility, Slot.renameAll f params,
      Ty.renameOpt f result, error, body.rename f, span⟩

def FuncDecl.renameAll (f : NodeId → NodeId) : List FuncDecl → List FuncDecl
  | [] => []
  | decl :: rest => decl.rename f :: FuncDecl.renameAll f rest

def StructDecl.rename (f : NodeId → NodeId) : StructDecl → StructDecl
  | ⟨id, name, visibility, fields, methods, span⟩ =>
    ⟨f id, name, visibility, Slot.renameAll f fields,
      FuncDecl.renameAll f methods, span⟩

def VariantDecl.rename (f : NodeId → NodeId) : VariantDecl → VariantDecl
  | ⟨name, payload, span⟩ => ⟨name, Ty.renameOpt f payload, span⟩

def VariantDecl.renameAll (f : NodeId → NodeId) :
    List VariantDecl → List VariantDecl
  | [] => []
  | decl :: rest => decl.rename f :: VariantDecl.renameAll f rest

def EnumDecl.rename (f : NodeId → NodeId) : EnumDecl → EnumDecl
  | ⟨id, name, visibility, variants, methods, span⟩ =>
    ⟨f id, name, visibility, VariantDecl.renameAll f variants,
      FuncDecl.renameAll f methods, span⟩

end

def Module.rename (f : NodeId → NodeId) (module : Module) : Module :=
  { module with id := f module.id, body := Stmt.renameAll f module.body }

def Program.rename (f : NodeId → NodeId) (program : Program) : Program :=
  ⟨program.modules.map (Module.rename f)⟩

end StaticCheck
