import StaticCheck.Lang.Basic
import StaticCheck.Lang.Operator

/-!
# Program trees

Types, expressions and statements form one family: an array type may hold the
expression of its length, an expression may name a type or hold statements, and
a statement holds both.  Types serve twice, as annotations written in the
program and as the answers of the checker; `named` and `paren` occur in the
first only, up to the members that a declared struct or enum keeps as written.
-/

namespace StaticCheck

inductive Prim
  | int (signed : Bool) (bits : Nat)
  | float (bits : Nat)
  /-- An integer that is not yet of a sized type, with its value where it is
  known. -/
  | comptimeInt (value : Option Int)
  | comptimeFloat
  | bool
  | null
  | undefined
  | void
  | noreturn
  | any
  | type
  | err
  deriving DecidableEq, Repr, Inhabited

mutual

inductive Ty
  | prim (prim : Prim)
  | named (name : String)
  | pointer (target : Ty) (mutable : Bool)
  | optional (inner : Ty)
  | array (element : Ty) (extent : Extent) (mutable : Bool)
  | tuple (fields : List Ty)
  | struct (struct : StructTy)
  | enum (enum : EnumTy)
  | errors (names : List String)
  | union (members : List Ty)
  | function (params : List Ty) (result : Ty) (error : Option Ty)
  | paren (inner : Ty)

/-- A struct type.  A declared struct carries the scope of its members. -/
structure StructTy where
  name : String
  members : List Member
  scope : Option ScopeId

structure Member where
  name : String
  ty : Ty

structure EnumTy where
  name : String
  variants : List Variant
  scope : Option ScopeId

structure Variant where
  name : String
  payload : Option Ty

/-- The length of an array type: none for a slice, a number, or an expression
not yet folded. -/
inductive Extent
  | slice
  | fixed (length : Nat)
  | expr (length : Expr)

structure Expr where
  id : NodeId
  span : Span
  kind : ExprKind

inductive ExprKind
  | literal (literal : Literal)
  | ident (name : String)
  | paren (inner : Expr)
  | tuple (fields : List Expr)
  | object (name : Option String) (fields : List ObjectField)
  | type (ty : Ty)
  | binary (op : BinaryOp) (left right : Expr)
  | unary (op : UnaryOp) (operand : Expr)
  | call (callee : Expr) (args : List Expr)
  | index (base index : Expr)
  | member (base : Expr) (name : String)
  | increment (operand : Expr)
  | decrement (operand : Expr)
  | deref (operand : Expr)
  | cast (operand : Expr) (target : Ty)
  | typeOf (operand : Expr)
  | sizeOf (operand : Expr)
  | orElse (left right : Expr)
  | range (start stop : Option Expr) (inclusive : Bool)
  | tryExpr (operand : Expr)
  | catchExpr (operand : Expr) (binding : Option String) (handler : Stmt)
  | ifExpr (condition : Expr) (thenBranch : Stmt) (elseBranch : Option Stmt)
  | matchExpr (subject : Expr) (cases : List MatchCase) (default : Option Stmt)
  | unreachable

/-- Literals as written.  Numbers keep their text, so that their range can be
judged later. -/
inductive Literal
  | str (text : String)
  | int (text : String)
  | float (text : String)
  | char (text : String)
  | bool (value : Bool)
  | null
  | undefined
  | array (elements : List Expr)

structure ObjectField where
  name : String
  value : Expr
  span : Span

structure MatchCase where
  patterns : List Expr
  body : Stmt

structure Stmt where
  id : NodeId
  span : Span
  kind : StmtKind

inductive StmtKind
  | expr (value : Expr)
  | block (block : Block)
  | letDecl (decl : LetDecl)
  | defDecl (decl : DefDecl)
  | func (decl : FuncDecl)
  | struct (decl : StructDecl)
  | enum (decl : EnumDecl)
  | use (decl : UseDecl)
  | returnStmt (value : Option Expr)
  | throwStmt (value : Expr)
  | whileLoop (condition : Expr) (body : Block)
  | forLoop (binding : String) (iterable : Expr) (body : Block)
  | breakStmt
  | continueStmt

structure Block where
  id : NodeId
  body : List Stmt
  span : Span

structure LetDecl where
  name : String
  visibility : Visibility
  mutable : Bool
  ty : Option Ty
  value : Option Expr

/-- A definition: a constant, a type alias or an error set, by the form of its
value. -/
structure DefDecl where
  name : String
  visibility : Visibility
  ty : Option Ty
  value : Expr

structure Slot where
  name : String
  ty : Ty
  visibility : Visibility
  mutable : Bool
  default : Option Expr
  span : Span

structure FuncDecl where
  id : NodeId
  name : String
  visibility : Visibility
  params : List Slot
  result : Option Ty
  error : Option ErrorClause
  body : Block
  span : Span

structure StructDecl where
  id : NodeId
  name : String
  visibility : Visibility
  fields : List Slot
  methods : List FuncDecl
  span : Span

structure VariantDecl where
  name : String
  payload : Option Ty
  span : Span

structure EnumDecl where
  id : NodeId
  name : String
  visibility : Visibility
  variants : List VariantDecl
  methods : List FuncDecl
  span : Span

end

structure Module where
  id : NodeId
  name : String
  path : String
  body : List Stmt

structure Program where
  modules : List Module

instance : Inhabited Ty := ⟨.prim .void⟩
instance : Inhabited Expr := ⟨⟨⟨0⟩, .none, .unreachable⟩⟩
instance : Inhabited Stmt := ⟨⟨⟨0⟩, .none, .breakStmt⟩⟩

end StaticCheck
