import StaticCheck.Proofs.Renaming.Trees
import Mathlib.Logic.Embedding.Basic

/-!
# Node ids of a program

The node ids that occur in a tree, lengths of array types included.  Two
renamings do the same to a tree if and only if they agree on its node ids.
-/

namespace StaticCheck

mutual

def Ty.ids : Ty → List NodeId
  | .prim _ | .named _ | .errors _ => []
  | .pointer target _ => target.ids
  | .optional inner => inner.ids
  | .array element extent _ => element.ids ++ extent.ids
  | .tuple fields => Ty.idsAll fields
  | .struct struct => struct.ids
  | .enum enum => enum.ids
  | .union members => Ty.idsAll members
  | .function params result error =>
    Ty.idsAll params ++ result.ids ++ Ty.idsOpt error
  | .paren inner => inner.ids

def Ty.idsAll : List Ty → List NodeId
  | [] => []
  | ty :: rest => ty.ids ++ Ty.idsAll rest

def Ty.idsOpt : Option Ty → List NodeId
  | none => []
  | some ty => ty.ids

def StructTy.ids : StructTy → List NodeId
  | ⟨_, members, _⟩ => Member.idsAll members

def Member.idsAll : List Member → List NodeId
  | [] => []
  | ⟨_, ty⟩ :: rest => ty.ids ++ Member.idsAll rest

def EnumTy.ids : EnumTy → List NodeId
  | ⟨_, variants, _⟩ => Variant.idsAll variants

def Variant.idsAll : List Variant → List NodeId
  | [] => []
  | ⟨_, payload⟩ :: rest => Ty.idsOpt payload ++ Variant.idsAll rest

def Extent.ids : Extent → List NodeId
  | .slice | .fixed _ => []
  | .expr length => length.ids

def Expr.ids : Expr → List NodeId
  | ⟨id, _, kind⟩ => id :: kind.ids

def Expr.idsAll : List Expr → List NodeId
  | [] => []
  | expr :: rest => expr.ids ++ Expr.idsAll rest

def Expr.idsOpt : Option Expr → List NodeId
  | none => []
  | some expr => expr.ids

def ExprKind.ids : ExprKind → List NodeId
  | .literal literal => literal.ids
  | .ident _ | .unreachable => []
  | .tuple fields => Expr.idsAll fields
  | .object _ fields => ObjectField.idsAll fields
  | .type ty => ty.ids
  | .paren operand | .unary _ operand | .member operand _ | .increment operand
  | .decrement operand | .deref operand | .typeOf operand | .sizeOf operand
  | .tryExpr operand => operand.ids
  | .binary _ left right | .index left right | .orElse left right =>
    left.ids ++ right.ids
  | .call callee args => callee.ids ++ Expr.idsAll args
  | .cast operand target => operand.ids ++ target.ids
  | .range start stop _ => Expr.idsOpt start ++ Expr.idsOpt stop
  | .catchExpr operand _ handler => operand.ids ++ handler.ids
  | .ifExpr condition thenBranch elseBranch =>
    condition.ids ++ thenBranch.ids ++ Stmt.idsOpt elseBranch
  | .matchExpr subject cases default =>
    subject.ids ++ MatchCase.idsAll cases ++ Stmt.idsOpt default

def Literal.ids : Literal → List NodeId
  | .array elements => Expr.idsAll elements
  | .str _ | .int _ | .float _ | .char _ | .bool _ | .null | .undefined => []

def ObjectField.idsAll : List ObjectField → List NodeId
  | [] => []
  | ⟨_, value, _⟩ :: rest => value.ids ++ ObjectField.idsAll rest

def MatchCase.idsAll : List MatchCase → List NodeId
  | [] => []
  | ⟨patterns, body⟩ :: rest =>
    Expr.idsAll patterns ++ body.ids ++ MatchCase.idsAll rest

def Stmt.ids : Stmt → List NodeId
  | ⟨id, _, kind⟩ => id :: kind.ids

def Stmt.idsAll : List Stmt → List NodeId
  | [] => []
  | stmt :: rest => stmt.ids ++ Stmt.idsAll rest

def Stmt.idsOpt : Option Stmt → List NodeId
  | none => []
  | some stmt => stmt.ids

def StmtKind.ids : StmtKind → List NodeId
  | .expr value | .throwStmt value => value.ids
  | .block block => block.ids
  | .letDecl ⟨_, _, _, ty, value⟩ => Ty.idsOpt ty ++ Expr.idsOpt value
  | .defDecl ⟨_, _, ty, value⟩ => Ty.idsOpt ty ++ value.ids
  | .func decl => decl.ids
  | .struct ⟨id, _, _, fields, methods, _⟩ =>
    id :: (Slot.idsAll fields ++ FuncDecl.idsAll methods)
  | .enum ⟨id, _, _, variants, methods, _⟩ =>
    id :: (VariantDecl.idsAll variants ++ FuncDecl.idsAll methods)
  | .use _ | .breakStmt | .continueStmt => []
  | .returnStmt value => Expr.idsOpt value
  | .whileLoop condition body => condition.ids ++ body.ids
  | .forLoop _ iterable body => iterable.ids ++ body.ids

def Block.ids : Block → List NodeId
  | ⟨id, body, _⟩ => id :: Stmt.idsAll body

def Slot.idsAll : List Slot → List NodeId
  | [] => []
  | ⟨_, ty, _, _, default, _⟩ :: rest =>
    ty.ids ++ Expr.idsOpt default ++ Slot.idsAll rest

def FuncDecl.ids : FuncDecl → List NodeId
  | ⟨id, _, _, params, result, _, body, _⟩ =>
    id :: (Slot.idsAll params ++ Ty.idsOpt result ++ body.ids)

def FuncDecl.idsAll : List FuncDecl → List NodeId
  | [] => []
  | decl :: rest => decl.ids ++ FuncDecl.idsAll rest

def VariantDecl.idsAll : List VariantDecl → List NodeId
  | [] => []
  | ⟨_, payload, _⟩ :: rest => Ty.idsOpt payload ++ VariantDecl.idsAll rest

end

def Module.ids (module : Module) : List NodeId :=
  module.id :: Stmt.idsAll module.body

def Program.ids (program : Program) : List NodeId :=
  program.modules.flatMap Module.ids

variable {f g : NodeId → NodeId}

/-!
## Agreement
-/

section Agreement

attribute [local simp] or_imp forall_and Ty.rename Ty.renameAll Ty.renameOpt
  StructTy.rename
  Member.rename Member.renameAll EnumTy.rename Variant.rename Variant.renameAll
  Extent.rename
  Expr.rename Expr.renameAll Expr.renameOpt ExprKind.rename Literal.rename
  ObjectField.rename
  ObjectField.renameAll MatchCase.rename MatchCase.renameAll Stmt.rename
  Stmt.renameAll
  Stmt.renameOpt StmtKind.rename Block.rename LetDecl.rename
  DefDecl.rename Slot.rename
  Slot.renameAll FuncDecl.rename FuncDecl.renameAll StructDecl.rename
  VariantDecl.rename
  VariantDecl.renameAll EnumDecl.rename Ty.ids Ty.idsAll Ty.idsOpt StructTy.ids
  Member.idsAll
  EnumTy.ids Variant.idsAll Extent.ids Expr.ids Expr.idsAll Expr.idsOpt
  ExprKind.ids Literal.ids
  ObjectField.idsAll MatchCase.idsAll Stmt.ids Stmt.idsAll Stmt.idsOpt
  StmtKind.ids Block.ids
  Slot.idsAll FuncDecl.ids FuncDecl.idsAll VariantDecl.idsAll

mutual

theorem Ty.rename_eq_iff (ty : Ty) :
    ty.rename f = ty.rename g ↔ ∀ id ∈ ty.ids, f id = g id := by
  cases ty with
  | prim | named | errors => simp
  | pointer target | optional target | paren target =>
    simp [Ty.rename_eq_iff target]
  | array element extent mutable =>
    simp [Ty.rename_eq_iff element, Extent.rename_eq_iff extent]
  | tuple items | union items => simp [Ty.renameAll_eq_iff items]
  | struct struct => simp [StructTy.rename_eq_iff struct]
  | enum enum => simp [EnumTy.rename_eq_iff enum]
  | function params result error =>
    simp [Ty.renameAll_eq_iff params, Ty.rename_eq_iff result,
      Ty.renameOpt_eq_iff error]

theorem Ty.renameAll_eq_iff (tys : List Ty) :
    Ty.renameAll f tys = Ty.renameAll g tys ↔ ∀ id ∈ Ty.idsAll tys,
      f id = g id := by
  cases tys with
  | nil => simp
  | cons ty rest => simp [Ty.rename_eq_iff ty, Ty.renameAll_eq_iff rest]

theorem Ty.renameOpt_eq_iff (ty : Option Ty) :
    Ty.renameOpt f ty = Ty.renameOpt g ty ↔ ∀ id ∈ Ty.idsOpt ty,
      f id = g id := by
  cases ty with
  | none => simp
  | some ty => simp [Ty.rename_eq_iff ty]

theorem StructTy.rename_eq_iff (struct : StructTy) :
    struct.rename f = struct.rename g ↔ ∀ id ∈ struct.ids, f id = g id := by
  obtain ⟨name, members, scope⟩ := struct
  simp [Member.renameAll_eq_iff members]

theorem Member.renameAll_eq_iff (members : List Member) :
    Member.renameAll f members = Member.renameAll g members ↔
      ∀ id ∈ Member.idsAll members, f id = g id := by
  cases members with
  | nil => simp
  | cons member rest =>
    obtain ⟨name, ty⟩ := member
    simp [Ty.rename_eq_iff ty, Member.renameAll_eq_iff rest]

theorem EnumTy.rename_eq_iff (enum : EnumTy) :
    enum.rename f = enum.rename g ↔ ∀ id ∈ enum.ids, f id = g id := by
  obtain ⟨name, variants, scope⟩ := enum
  simp [Variant.renameAll_eq_iff variants]

theorem Variant.renameAll_eq_iff (variants : List Variant) :
    Variant.renameAll f variants = Variant.renameAll g variants ↔
      ∀ id ∈ Variant.idsAll variants, f id = g id := by
  cases variants with
  | nil => simp
  | cons variant rest =>
    obtain ⟨name, payload⟩ := variant
    simp [Ty.renameOpt_eq_iff payload, Variant.renameAll_eq_iff rest]

theorem Extent.rename_eq_iff (extent : Extent) :
    extent.rename f = extent.rename g ↔ ∀ id ∈ extent.ids, f id = g id := by
  cases extent with
  | slice | fixed => simp
  | expr length => simp [Expr.rename_eq_iff length]

theorem Expr.rename_eq_iff (expr : Expr) :
    expr.rename f = expr.rename g ↔ ∀ id ∈ expr.ids, f id = g id := by
  obtain ⟨id, span, kind⟩ := expr
  simp [ExprKind.rename_eq_iff kind]

theorem Expr.renameAll_eq_iff (exprs : List Expr) :
    Expr.renameAll f exprs = Expr.renameAll g exprs ↔
      ∀ id ∈ Expr.idsAll exprs, f id = g id := by
  cases exprs with
  | nil => simp
  | cons expr rest => simp [Expr.rename_eq_iff expr, Expr.renameAll_eq_iff rest]

theorem Expr.renameOpt_eq_iff (expr : Option Expr) :
    Expr.renameOpt f expr = Expr.renameOpt g expr ↔
      ∀ id ∈ Expr.idsOpt expr, f id = g id := by
  cases expr with
  | none => simp
  | some expr => simp [Expr.rename_eq_iff expr]

theorem ExprKind.rename_eq_iff (kind : ExprKind) :
    kind.rename f = kind.rename g ↔ ∀ id ∈ kind.ids, f id = g id := by
  cases kind with
  | literal literal => simp [Literal.rename_eq_iff literal]
  | ident | unreachable => simp
  | tuple fields => simp [Expr.renameAll_eq_iff fields]
  | object name fields => simp [ObjectField.renameAll_eq_iff fields]
  | type ty => simp [Ty.rename_eq_iff ty]
  | paren operand | unary _ operand | member operand | increment operand
  | decrement operand
  | deref operand | typeOf operand | sizeOf operand | tryExpr operand =>
    simp [Expr.rename_eq_iff operand]
  | binary _ left right | index left right | orElse left right =>
    simp [Expr.rename_eq_iff left, Expr.rename_eq_iff right]
  | call callee args =>
    simp [Expr.rename_eq_iff callee, Expr.renameAll_eq_iff args]
  | cast operand target =>
    simp [Expr.rename_eq_iff operand, Ty.rename_eq_iff target]
  | range start stop inclusive =>
    simp [Expr.renameOpt_eq_iff start, Expr.renameOpt_eq_iff stop]
  | catchExpr operand binding handler =>
    simp [Expr.rename_eq_iff operand, Stmt.rename_eq_iff handler]
  | ifExpr condition thenBranch elseBranch =>
    simp [Expr.rename_eq_iff condition, Stmt.rename_eq_iff thenBranch,
      Stmt.renameOpt_eq_iff
      elseBranch]
  | matchExpr subject cases default =>
    simp [Expr.rename_eq_iff subject, MatchCase.renameAll_eq_iff cases,
      Stmt.renameOpt_eq_iff default]

theorem Literal.rename_eq_iff (literal : Literal) :
    literal.rename f = literal.rename g ↔ ∀ id ∈ literal.ids, f id = g id := by
  cases literal with
  | array elements => simp [Expr.renameAll_eq_iff elements]
  | _ => simp

theorem ObjectField.renameAll_eq_iff (fields : List ObjectField) :
    ObjectField.renameAll f fields = ObjectField.renameAll g fields ↔
      ∀ id ∈ ObjectField.idsAll fields, f id = g id := by
  cases fields with
  | nil => simp
  | cons field rest =>
    obtain ⟨name, value, span⟩ := field
    simp [Expr.rename_eq_iff value, ObjectField.renameAll_eq_iff rest]

theorem MatchCase.renameAll_eq_iff (cases : List MatchCase) :
    MatchCase.renameAll f cases = MatchCase.renameAll g cases ↔
      ∀ id ∈ MatchCase.idsAll cases, f id = g id := by
  cases cases with
  | nil => simp
  | cons case rest =>
    obtain ⟨patterns, body⟩ := case
    simp [Expr.renameAll_eq_iff patterns, Stmt.rename_eq_iff body,
      MatchCase.renameAll_eq_iff rest, and_assoc]

theorem Stmt.rename_eq_iff (stmt : Stmt) :
    stmt.rename f = stmt.rename g ↔ ∀ id ∈ stmt.ids, f id = g id := by
  obtain ⟨id, span, kind⟩ := stmt
  simp [StmtKind.rename_eq_iff kind]

theorem Stmt.renameAll_eq_iff (stmts : List Stmt) :
    Stmt.renameAll f stmts = Stmt.renameAll g stmts ↔
      ∀ id ∈ Stmt.idsAll stmts, f id = g id := by
  cases stmts with
  | nil => simp
  | cons stmt rest => simp [Stmt.rename_eq_iff stmt, Stmt.renameAll_eq_iff rest]

theorem Stmt.renameOpt_eq_iff (stmt : Option Stmt) :
    Stmt.renameOpt f stmt = Stmt.renameOpt g stmt ↔
      ∀ id ∈ Stmt.idsOpt stmt, f id = g id := by
  cases stmt with
  | none => simp
  | some stmt => simp [Stmt.rename_eq_iff stmt]

theorem StmtKind.rename_eq_iff (kind : StmtKind) :
    kind.rename f = kind.rename g ↔ ∀ id ∈ kind.ids, f id = g id := by
  cases kind with
  | expr value | throwStmt value => simp [Expr.rename_eq_iff value]
  | block block => simp [Block.rename_eq_iff block]
  | letDecl decl =>
    obtain ⟨name, visibility, mutable, ty, value⟩ := decl
    simp [Ty.renameOpt_eq_iff ty, Expr.renameOpt_eq_iff value]
  | defDecl decl =>
    obtain ⟨name, visibility, ty, value⟩ := decl
    simp [Ty.renameOpt_eq_iff ty, Expr.rename_eq_iff value]
  | func decl => simp [FuncDecl.rename_eq_iff decl]
  | struct decl =>
    obtain ⟨id, name, visibility, fields, methods, span⟩ := decl
    simp [Slot.renameAll_eq_iff fields, FuncDecl.renameAll_eq_iff methods]
  | enum decl =>
    obtain ⟨id, name, visibility, variants, methods, span⟩ := decl
    simp [VariantDecl.renameAll_eq_iff variants,
      FuncDecl.renameAll_eq_iff methods]
  | use | breakStmt | continueStmt => simp
  | returnStmt value => simp [Expr.renameOpt_eq_iff value]
  | whileLoop condition body =>
    simp [Expr.rename_eq_iff condition, Block.rename_eq_iff body]
  | forLoop binding iterable body =>
    simp [Expr.rename_eq_iff iterable, Block.rename_eq_iff body]

theorem Block.rename_eq_iff (block : Block) :
    block.rename f = block.rename g ↔ ∀ id ∈ block.ids, f id = g id := by
  obtain ⟨id, body, _⟩ := block
  simp [Stmt.renameAll_eq_iff body]

theorem Slot.renameAll_eq_iff (slots : List Slot) :
    Slot.renameAll f slots = Slot.renameAll g slots ↔
      ∀ id ∈ Slot.idsAll slots, f id = g id := by
  cases slots with
  | nil => simp
  | cons slot rest =>
    obtain ⟨name, ty, visibility, mutable, default, span⟩ := slot
    simp [Ty.rename_eq_iff ty, Expr.renameOpt_eq_iff default,
      Slot.renameAll_eq_iff rest, and_assoc]

theorem FuncDecl.rename_eq_iff (decl : FuncDecl) :
    decl.rename f = decl.rename g ↔ ∀ id ∈ decl.ids, f id = g id := by
  obtain ⟨id, name, visibility, params, result, error, body, span⟩ := decl
  simp [Slot.renameAll_eq_iff params, Ty.renameOpt_eq_iff result,
    Block.rename_eq_iff body]

theorem FuncDecl.renameAll_eq_iff (decls : List FuncDecl) :
    FuncDecl.renameAll f decls = FuncDecl.renameAll g decls ↔
      ∀ id ∈ FuncDecl.idsAll decls, f id = g id := by
  cases decls with
  | nil => simp
  | cons decl rest =>
    simp [FuncDecl.rename_eq_iff decl, FuncDecl.renameAll_eq_iff rest]

theorem VariantDecl.renameAll_eq_iff (decls : List VariantDecl) :
    VariantDecl.renameAll f decls = VariantDecl.renameAll g decls ↔
      ∀ id ∈ VariantDecl.idsAll decls, f id = g id := by
  cases decls with
  | nil => simp
  | cons decl rest =>
    obtain ⟨name, payload, span⟩ := decl
    simp [Ty.renameOpt_eq_iff payload, VariantDecl.renameAll_eq_iff rest]

end

theorem Module.rename_eq_iff (module : Module) :
    module.rename f = module.rename g ↔ ∀ id ∈ module.ids, f id = g id := by
  simp only [Module.rename, Module.ids, Module.mk.injEq, true_and,
    List.forall_mem_cons, Stmt.renameAll_eq_iff module.body]

theorem Program.rename_eq_iff (program : Program) :
    program.rename f = program.rename g ↔ ∀ id ∈ program.ids, f id = g id := by
  simp only [Program.rename, Program.ids, Program.mk.injEq, List.map_inj_left,
    List.forall_mem_flatMap, Module.rename_eq_iff]

end Agreement

/-!
## Renamings of some node ids

A renaming of the node ids of a program can be extended to all node ids.  It is
extended in two ways that agree on those of the program alone, so what both of
them do to a tree tells whether the tree has other node ids.
-/

/-- Node ids in the list are renamed, all others are moved out of the way: past
`bound`, to places of one parity. -/
def extended (f : NodeId → NodeId) (ids : List NodeId) (bound parity : Nat)
    (id : NodeId) : NodeId :=
  if id ∈ ids then f id else ⟨bound + 2 * id.index + parity⟩

theorem extended_injective {ids : List NodeId} {bound : Nat} (parity : Nat)
    (hf : ∀ a ∈ ids, ∀ b ∈ ids, f a = f b → a = b)
    (hbound : ∀ id ∈ ids, (f id).index < bound) :
    Function.Injective (extended f ids bound parity) := by
  intro a b h
  by_cases ha : a ∈ ids <;> by_cases hb : b ∈ ids <;>
    simp only [extended, if_pos, if_neg, ha, hb, not_false_iff] at h
  · exact hf a ha b hb h
  · have hlt := hbound a ha
    rw [h] at hlt
    dsimp only at hlt
    omega
  · have hlt := hbound b hb
    rw [← h] at hlt
    dsimp only at hlt
    omega
  · obtain ⟨a⟩ := a
    obtain ⟨b⟩ := b
    simp only [NodeId.mk.injEq] at h ⊢
    omega

theorem mem_of_extended_eq {ids : List NodeId} {bound : Nat} {id : NodeId}
    (h : extended f ids bound 0 id = extended f ids bound 1 id) : id ∈ ids := by
  by_contra hid
  simp only [extended, if_neg hid, NodeId.mk.injEq] at h
  omega

/-- Two embeddings that rename the given node ids alike and agree on no
others. -/
theorem exists_embeddings {ids : List NodeId}
    (hf : ∀ a ∈ ids, ∀ b ∈ ids, f a = f b → a = b) :
    ∃ g h : NodeId ↪ NodeId, (∀ id ∈ ids, f id = g id) ∧ ∀ id, g id = h id ↔
      id ∈ ids := by
  obtain ⟨bound, hbound⟩ : ∃ bound, ∀ id ∈ ids, (f id).index < bound := by
    refine ⟨(ids.map fun id => (f id).index).max?.getD 0 + 1, fun id hid =>
      Nat.lt_succ_of_le ?_⟩
    exact List.le_max?_getD_of_mem (List.mem_map_of_mem hid)
  refine ⟨⟨_, extended_injective 0 hf hbound⟩,
    ⟨_, extended_injective 1 hf hbound⟩, ?_, ?_⟩
  · intro id hid
    exact (if_pos hid).symm
  · intro id
    refine ⟨mem_of_extended_eq, fun hid => ?_⟩
    simp [extended, hid]

end StaticCheck
