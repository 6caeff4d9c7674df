import StaticCheck.Proofs.Renaming.Trees
import StaticCheck.Proofs.Answer
import Mathlib.Logic.Basic

/-!
# What a renaming leaves alone

What is read off an expression or a type does not depend on its node ids: the
form of an expression, the constant it folds to, the text and the layout of a
type, and so on.  Only the identity of types does, since two lengths that are
not folded are the same if they are the same node; an injective renaming keeps
it.
-/

namespace StaticCheck

variable {f : NodeId → NodeId}

/-!
## Lists and options
-/

@[simp] theorem Ty.renameAll_eq (tys : List Ty) :
    Ty.renameAll f tys = tys.map (Ty.rename f) := by
  induction tys with
  | nil => rfl
  | cons ty rest ih => exact congrArg (ty.rename f :: ·) ih

@[simp] theorem Ty.renameOpt_eq (ty : Option Ty) :
    Ty.renameOpt f ty = ty.map (Ty.rename f) := by
  cases ty <;> rfl

@[simp] theorem Member.renameAll_eq (members : List Member) :
    Member.renameAll f members = members.map (Member.rename f) := by
  induction members with
  | nil => rfl
  | cons member rest ih => exact congrArg (member.rename f :: ·) ih

@[simp] theorem Variant.renameAll_eq (variants : List Variant) :
    Variant.renameAll f variants = variants.map (Variant.rename f) := by
  induction variants with
  | nil => rfl
  | cons variant rest ih => exact congrArg (variant.rename f :: ·) ih

@[simp] theorem Expr.renameAll_eq (exprs : List Expr) :
    Expr.renameAll f exprs = exprs.map (Expr.rename f) := by
  induction exprs with
  | nil => rfl
  | cons expr rest ih => exact congrArg (expr.rename f :: ·) ih

@[simp] theorem Expr.renameOpt_eq (expr : Option Expr) :
    Expr.renameOpt f expr = expr.map (Expr.rename f) := by
  cases expr <;> rfl

@[simp] theorem ObjectField.renameAll_eq (fields : List ObjectField) :
    ObjectField.renameAll f fields = fields.map (ObjectField.rename f) := by
  induction fields with
  | nil => rfl
  | cons field rest ih => exact congrArg (field.rename f :: ·) ih

@[simp] theorem MatchCase.renameAll_eq (cases : List MatchCase) :
    MatchCase.renameAll f cases = cases.map (MatchCase.rename f) := by
  induction cases with
  | nil => rfl
  | cons case rest ih => exact congrArg (case.rename f :: ·) ih

@[simp] theorem Stmt.renameAll_eq (stmts : List Stmt) :
    Stmt.renameAll f stmts = stmts.map (Stmt.rename f) := by
  induction stmts with
  | nil => rfl
  | cons stmt rest ih => exact congrArg (stmt.rename f :: ·) ih

@[simp] theorem Stmt.renameOpt_eq (stmt : Option Stmt) :
    Stmt.renameOpt f stmt = stmt.map (Stmt.rename f) := by
  cases stmt <;> rfl

@[simp] theorem Slot.renameAll_eq (slots : List Slot) :
    Slot.renameAll f slots = slots.map (Slot.rename f) := by
  induction slots with
  | nil => rfl
  | cons slot rest ih => exact congrArg (slot.rename f :: ·) ih

@[simp] theorem FuncDecl.renameAll_eq (decls : List FuncDecl) :
    FuncDecl.renameAll f decls = decls.map (FuncDecl.rename f) := by
  induction decls with
  | nil => rfl
  | cons decl rest ih => exact congrArg (decl.rename f :: ·) ih

@[simp] theorem VariantDecl.renameAll_eq (decls : List VariantDecl) :
    VariantDecl.renameAll f decls = decls.map (VariantDecl.rename f) := by
  induction decls with
  | nil => rfl
  | cons decl rest ih => exact congrArg (decl.rename f :: ·) ih

/-!
## Parts of trees
-/

@[simp] theorem Expr.rename_span (expr : Expr) :
    (expr.rename f).span = expr.span := by
  cases expr; rfl

@[simp] theorem Expr.rename_kind (expr : Expr) :
    (expr.rename f).kind = expr.kind.rename f := by
  cases expr; rfl

@[simp] theorem Expr.rename_id (expr : Expr) :
    (expr.rename f).id = f expr.id := by
  cases expr; rfl

@[simp] theorem ObjectField.rename_name (field : ObjectField) :
    (field.rename f).name = field.name := by
  cases field; rfl

@[simp] theorem ObjectField.rename_value (field : ObjectField) :
    (field.rename f).value = field.value.rename f := by
  cases field; rfl

@[simp] theorem ObjectField.rename_span (field : ObjectField) :
    (field.rename f).span = field.span := by
  cases field; rfl

@[simp] theorem MatchCase.rename_patterns (case : MatchCase) :
    (case.rename f).patterns = case.patterns.map (Expr.rename f) := by
  obtain ⟨patterns, body⟩ := case
  exact Expr.renameAll_eq patterns

@[simp] theorem MatchCase.rename_body (case : MatchCase) :
    (case.rename f).body = case.body.rename f := by
  cases case; rfl

@[simp] theorem Slot.rename_name (slot : Slot) :
    (slot.rename f).name = slot.name := by
  cases slot; rfl

@[simp] theorem Slot.rename_ty (slot : Slot) :
    (slot.rename f).ty = slot.ty.rename f := by
  cases slot; rfl

@[simp] theorem Slot.rename_default (slot : Slot) :
    (slot.rename f).default = slot.default.map (Expr.rename f) := by
  obtain ⟨_, _, _, _, default, _⟩ := slot
  exact Expr.renameOpt_eq default

@[simp] theorem VariantDecl.rename_name (decl : VariantDecl) :
    (decl.rename f).name = decl.name := by
  cases decl; rfl

@[simp] theorem VariantDecl.rename_payload (decl : VariantDecl) :
    (decl.rename f).payload = decl.payload.map (Ty.rename f) := by
  obtain ⟨_, payload, _⟩ := decl
  exact Ty.renameOpt_eq payload

@[simp] theorem ExprKind.rename_form (kind : ExprKind) :
    (kind.rename f).form = kind.form := by
  cases kind <;> rfl

@[simp] theorem Expr.rename_unparen (expr : Expr) :
    (expr.rename f).unparen = expr.unparen.rename f := by
  fun_induction Expr.unparen expr with
  | case1 id span inner ih => exact ih
  | case2 expr hparen =>
    obtain ⟨id, span, kind⟩ := expr
    cases kind with
    | paren inner => exact absurd rfl (hparen id span inner)
    | _ => rfl

/-!
## Forms of expressions
-/

namespace Expr

@[simp] theorem isLiteral_rename (expr : Expr) :
    (expr.rename f).isLiteral = expr.isLiteral := by
  rw [isLiteral, isLiteral, rename_unparen, rename_kind]
  cases expr.unparen.kind <;> rfl

@[simp] theorem isDeref_rename (expr : Expr) :
    (expr.rename f).isDeref = expr.isDeref := by
  rw [isDeref, isDeref, rename_unparen, rename_kind]
  cases expr.unparen.kind <;> rfl

@[simp] theorem isRange_rename (expr : Expr) :
    (expr.rename f).isRange = expr.isRange := by
  rw [isRange, isRange, rename_unparen, rename_kind]
  cases expr.unparen.kind <;> rfl

@[simp] theorem isUnreachable_rename (expr : Expr) :
    (expr.rename f).isUnreachable = expr.isUnreachable := by
  rw [isUnreachable, isUnreachable, rename_unparen, rename_kind]
  cases expr.unparen.kind <;> rfl

@[simp] theorem identName?_rename (expr : Expr) :
    (expr.rename f).identName? = expr.identName? := by
  rw [identName?, identName?, rename_unparen, rename_kind]
  cases expr.unparen.kind <;> rfl

@[simp] theorem ownError?_rename (expr : Expr) :
    (expr.rename f).ownError? = expr.ownError? := by
  rw [ownError?, ownError?, rename_unparen, rename_kind]
  cases expr.unparen.kind with
  | member base name => simp only [ExprKind.rename, identName?_rename]
  | _ => rfl

@[simp] theorem boolValue?_rename (expr : Expr) :
    (expr.rename f).boolValue? = expr.boolValue? := by
  rw [boolValue?, boolValue?, rename_unparen, rename_kind]
  cases expr.unparen.kind with
  | literal literal => cases literal <;> rfl
  | _ => rfl

@[simp] theorem isPlace_rename (expr : Expr) :
    (expr.rename f).isPlace = expr.isPlace := by
  obtain ⟨id, span, kind⟩ := expr
  cases kind with
  | paren inner => exact isPlace_rename inner
  | unary op operand =>
    cases op with
    | increment | decrement | reference => exact isPlace_rename operand
    | _ => rfl
  | _ => rfl

@[simp] theorem variantName?_rename (expr : Expr) :
    (expr.rename f).variantName? = expr.variantName? := by
  obtain ⟨id, span, kind⟩ := expr
  cases kind with
  | paren inner => exact variantName?_rename inner
  | call callee args => exact variantName?_rename callee
  | _ => rfl

@[simp] theorem fold?_rename (expr : Expr) :
    (expr.rename f).fold? = expr.fold? := by
  obtain ⟨id, span, kind⟩ := expr
  cases kind with
  | literal literal => cases literal <;> rfl
  | paren inner => exact fold?_rename inner
  | unary op operand =>
    exact congrArg (·.bind (Value.unary? op)) (fold?_rename operand)
  | binary op left right =>
    show ((left.rename f).fold?.bind fun a =>
      (right.rename f).fold?.bind fun b =>
      Value.binary? op a b) = _
    rw [fold?_rename left, fold?_rename right]
    rfl
  | _ => rfl

end Expr

/-!
## Sizes
-/

mutual

@[simp] theorem Ty.size_rename (ty : Ty) : (ty.rename f).size = ty.size := by
  cases ty with
  | prim | named | errors => rfl
  | pointer target | optional target | paren target =>
    exact congrArg (· + 1) target.size_rename
  | array element extent =>
    simp only [Ty.rename, Ty.size, element.size_rename, extent.size_rename]
  | tuple tys | union tys => exact congrArg (· + 1) (Ty.sizeAll_rename tys)
  | struct struct =>
    obtain ⟨name, members, scope⟩ := struct
    exact congrArg (· + 1) (Member.sizeAll_rename members)
  | enum enum =>
    obtain ⟨name, variants, scope⟩ := enum
    exact congrArg (· + 1) (Variant.sizeAll_rename variants)
  | function params result error =>
    simp only [Ty.rename, Ty.size, Ty.sizeAll_rename params, result.size_rename,
      Ty.sizeOpt_rename error]

theorem Ty.sizeAll_rename (tys : List Ty) :
    Ty.sizeAll (Ty.renameAll f tys) = Ty.sizeAll tys := by
  cases tys with
  | nil => rfl
  | cons ty rest =>
    exact congrArg₂ (· + ·) ty.size_rename (Ty.sizeAll_rename rest)

theorem Ty.sizeOpt_rename (ty : Option Ty) :
    Ty.sizeOpt (Ty.renameOpt f ty) = Ty.sizeOpt ty := by
  cases ty with
  | none => rfl
  | some ty => exact ty.size_rename

theorem Member.sizeAll_rename (members : List Member) :
    Member.sizeAll (Member.renameAll f members) = Member.sizeAll members := by
  cases members with
  | nil => rfl
  | cons member rest =>
    obtain ⟨name, ty⟩ := member
    exact congrArg₂ (· + ·) ty.size_rename (Member.sizeAll_rename rest)

theorem Variant.sizeAll_rename (variants : List Variant) :
    Variant.sizeAll (Variant.renameAll f variants) =
      Variant.sizeAll variants := by
  cases variants with
  | nil => rfl
  | cons variant rest =>
    obtain ⟨name, payload⟩ := variant
    exact congrArg₂ (· + · + 1) (Ty.sizeOpt_rename payload)
      (Variant.sizeAll_rename rest)

theorem Extent.size_rename (extent : Extent) :
    (extent.rename f).size = extent.size := by
  cases extent with
  | slice | fixed => rfl
  | expr length => exact length.size_rename

@[simp] theorem Expr.size_rename (expr : Expr) :
    (expr.rename f).size = expr.size := by
  obtain ⟨id, span, kind⟩ := expr
  exact congrArg (· + 1) kind.size_rename

theorem Expr.sizeAll_rename (exprs : List Expr) :
    Expr.sizeAll (Expr.renameAll f exprs) = Expr.sizeAll exprs := by
  cases exprs with
  | nil => rfl
  | cons expr rest =>
    exact congrArg₂ (· + ·) expr.size_rename (Expr.sizeAll_rename rest)

theorem Expr.sizeOpt_rename (expr : Option Expr) :
    Expr.sizeOpt (Expr.renameOpt f expr) = Expr.sizeOpt expr := by
  cases expr with
  | none => rfl
  | some expr => exact expr.size_rename

theorem ExprKind.size_rename (kind : ExprKind) :
    (kind.rename f).size = kind.size := by
  cases kind with
  | ident | unreachable => rfl
  | literal literal => exact literal.size_rename
  | type ty => exact ty.size_rename
  | tuple fields => exact Expr.sizeAll_rename fields
  | object name fields => exact ObjectField.sizeAll_rename fields
  | paren operand | unary _ operand | member operand | increment operand
  | decrement operand
  | deref operand | typeOf operand | sizeOf operand | tryExpr operand =>
    exact operand.size_rename
  | binary _ left right | index left right | orElse left right =>
    exact congrArg₂ (· + ·) left.size_rename right.size_rename
  | call callee args =>
    exact congrArg₂ (· + ·) callee.size_rename (Expr.sizeAll_rename args)
  | cast operand target =>
    exact congrArg₂ (· + ·) operand.size_rename target.size_rename
  | range start stop =>
    exact congrArg₂ (· + ·) (Expr.sizeOpt_rename start)
      (Expr.sizeOpt_rename stop)
  | catchExpr operand binding handler =>
    exact congrArg₂ (· + ·) operand.size_rename handler.size_rename
  | ifExpr condition thenBranch elseBranch =>
    simp only [ExprKind.rename, ExprKind.size, condition.size_rename,
      thenBranch.size_rename, Stmt.sizeOpt_rename elseBranch]
  | matchExpr subject cases default =>
    simp only [ExprKind.rename, ExprKind.size, subject.size_rename,
      MatchCase.sizeAll_rename cases, Stmt.sizeOpt_rename default]

theorem Literal.size_rename (literal : Literal) :
    (literal.rename f).size = literal.size := by
  cases literal with
  | array elements => exact Expr.sizeAll_rename elements
  | _ => rfl

theorem ObjectField.sizeAll_rename (fields : List ObjectField) :
    ObjectField.sizeAll (ObjectField.renameAll f fields) =
      ObjectField.sizeAll fields := by
  cases fields with
  | nil => rfl
  | cons field rest =>
    obtain ⟨name, value, span⟩ := field
    exact congrArg₂ (· + ·) value.size_rename (ObjectField.sizeAll_rename rest)

theorem MatchCase.sizeAll_rename (cases : List MatchCase) :
    MatchCase.sizeAll (MatchCase.renameAll f cases) =
      MatchCase.sizeAll cases := by
  cases cases with
  | nil => rfl
  | cons case rest =>
    obtain ⟨patterns, body⟩ := case
    simp only [MatchCase.renameAll, MatchCase.rename, MatchCase.sizeAll,
      Expr.sizeAll_rename patterns, body.size_rename,
      MatchCase.sizeAll_rename rest]

@[simp] theorem Stmt.size_rename (stmt : Stmt) :
    (stmt.rename f).size = stmt.size := by
  obtain ⟨id, span, kind⟩ := stmt
  exact congrArg (· + 1) kind.size_rename

theorem Stmt.sizeAll_rename (stmts : List Stmt) :
    Stmt.sizeAll (Stmt.renameAll f stmts) = Stmt.sizeAll stmts := by
  cases stmts with
  | nil => rfl
  | cons stmt rest =>
    exact congrArg₂ (· + ·) stmt.size_rename (Stmt.sizeAll_rename rest)

theorem Stmt.sizeOpt_rename (stmt : Option Stmt) :
    Stmt.sizeOpt (Stmt.renameOpt f stmt) = Stmt.sizeOpt stmt := by
  cases stmt with
  | none => rfl
  | some stmt => exact stmt.size_rename

theorem StmtKind.size_rename (kind : StmtKind) :
    (kind.rename f).size = kind.size := by
  cases kind with
  | use | breakStmt | continueStmt => rfl
  | expr value | throwStmt value => exact value.size_rename
  | block block =>
    obtain ⟨id, body, _⟩ := block
    exact Stmt.sizeAll_rename body
  | letDecl decl =>
    obtain ⟨name, visibility, mutable, ty, value⟩ := decl
    exact congrArg₂ (· + ·) (Ty.sizeOpt_rename ty) (Expr.sizeOpt_rename value)
  | defDecl decl =>
    obtain ⟨name, visibility, ty, value⟩ := decl
    exact congrArg₂ (· + ·) (Ty.sizeOpt_rename ty) value.size_rename
  | func decl => exact decl.size_rename
  | struct decl =>
    obtain ⟨id, name, visibility, fields, methods, span⟩ := decl
    exact congrArg₂ (· + ·) (Slot.sizeAll_rename fields)
      (FuncDecl.sizeAll_rename methods)
  | enum decl =>
    obtain ⟨id, name, visibility, variants, methods, span⟩ := decl
    exact congrArg₂ (· + ·) (VariantDecl.sizeAll_rename variants)
      (FuncDecl.sizeAll_rename methods)
  | returnStmt value => exact Expr.sizeOpt_rename value
  | whileLoop condition body =>
    obtain ⟨id, body, _⟩ := body
    exact congrArg₂ (· + ·) condition.size_rename (Stmt.sizeAll_rename body)
  | forLoop binding iterable body =>
    obtain ⟨id, body, _⟩ := body
    exact congrArg₂ (· + ·) iterable.size_rename (Stmt.sizeAll_rename body)

theorem Slot.sizeAll_rename (slots : List Slot) :
    Slot.sizeAll (Slot.renameAll f slots) = Slot.sizeAll slots := by
  cases slots with
  | nil => rfl
  | cons slot rest =>
    obtain ⟨name, ty, visibility, mutable, default, span⟩ := slot
    simp only [Slot.renameAll, Slot.rename, Slot.sizeAll, ty.size_rename,
      Expr.sizeOpt_rename default, Slot.sizeAll_rename rest]

theorem FuncDecl.size_rename (decl : FuncDecl) :
    (decl.rename f).size = decl.size := by
  obtain ⟨id, name, visibility, params, result, error, ⟨bodyId, body, bodySpan⟩,
    span⟩ := decl
  simp only [FuncDecl.rename, Block.rename, FuncDecl.size,
    Slot.sizeAll_rename params, Ty.sizeOpt_rename result,
    Stmt.sizeAll_rename body]

theorem FuncDecl.sizeAll_rename (decls : List FuncDecl) :
    FuncDecl.sizeAll (FuncDecl.renameAll f decls) = FuncDecl.sizeAll decls := by
  cases decls with
  | nil => rfl
  | cons decl rest =>
    exact congrArg₂ (· + ·) decl.size_rename (FuncDecl.sizeAll_rename rest)

theorem VariantDecl.sizeAll_rename (decls : List VariantDecl) :
    VariantDecl.sizeAll (VariantDecl.renameAll f decls) =
      VariantDecl.sizeAll decls := by
  cases decls with
  | nil => rfl
  | cons decl rest =>
    obtain ⟨name, payload, span⟩ := decl
    exact congrArg₂ (· + · + 1) (Ty.sizeOpt_rename payload)
      (VariantDecl.sizeAll_rename rest)

end

@[simp] theorem Program.size_rename (program : Program) :
    (program.rename f).size = program.size := by
  obtain ⟨modules⟩ := program
  induction modules with
  | nil => rfl
  | cons module rest ih =>
    exact congrArg₂ (· + ·) (congrArg (· + 1) (Stmt.sizeAll_rename module.body))
      ih

end StaticCheck
