import StaticCheck.Proofs.Policy
import StaticCheck.Proofs.Sized

/-!
# Regimes

A regime says what the parts of a program may be asked about, and where.  What a
place is depends on the regime: it may tell which loop or function stands around
a part, or which scope is current.  A part suits a regime at a place if each
piece of it does at the place where a check comes to it.  The policies are
regimes whose places know nothing about scopes.
-/

namespace StaticCheck

structure Regime where
  /-- Where a part of a program can stand. -/
  Place : Type
  /-- The expressions that may be asked about. -/
  part : NodeId → Form → Prop
  leaves : Place → Prop
  jumps : Place → Prop
  /-- The loops over a binding that there may be. -/
  loop : String → NodeId → Prop
  inLoop : Place → Place
  inFunction : Place → Place
  enter : ScopeId → Place → Place
  /-- What has to hold of the inside of a node, in the scope that the node
  opens. -/
  opens : NodeId → (ScopeId → Prop) → Prop
  /-- The names that may be declared at a place. -/
  declares : Place → String → Prop
  /-- The symbols that pledge something of their types. -/
  pledged : SymbolId → Pledge → Prop
  /-- The names whose symbols pledge nothing at a place, or this only. -/
  assigns : Place → String → Option Pledge → Prop
  /-- Whether a scope or a name may turn out to be missing. -/
  tolerant : Prop

/-!
## Parts of a program
-/

mutual

def Ty.Suits (R : Regime) : Ty → Prop
  | .prim _ | .named _ | .errors _ => True
  | .pointer target _ => target.Suits R
  | .optional inner => inner.Suits R
  | .array element extent _ => element.Suits R ∧ extent.Suits R
  | .tuple fields => Ty.SuitAll R fields
  | .struct ⟨_, members, _⟩ => Member.SuitAll R members
  | .enum ⟨_, variants, _⟩ => Variant.SuitAll R variants
  | .union members => Ty.SuitAll R members
  | .function params result error =>
    Ty.SuitAll R params ∧ result.Suits R ∧ Ty.SuitsOpt R error
  | .paren inner => inner.Suits R

def Ty.SuitAll (R : Regime) : List Ty → Prop
  | [] => True
  | ty :: rest => ty.Suits R ∧ Ty.SuitAll R rest

def Ty.SuitsOpt (R : Regime) : Option Ty → Prop
  | none => True
  | some ty => ty.Suits R

def Member.SuitAll (R : Regime) : List Member → Prop
  | [] => True
  | ⟨_, ty⟩ :: rest => ty.Suits R ∧ Member.SuitAll R rest

def Variant.SuitAll (R : Regime) : List Variant → Prop
  | [] => True
  | ⟨_, payload⟩ :: rest => Ty.SuitsOpt R payload ∧ Variant.SuitAll R rest

/-- A length is inferred wherever its type is resolved. -/
def Extent.Suits (R : Regime) : Extent → Prop
  | .slice | .fixed _ => True
  | .expr length => ∀ place, length.Suits R place

def Expr.Suits (R : Regime) (place : R.Place) : Expr → Prop
  | ⟨id, _, kind⟩ => R.part id kind.form ∧ kind.Suits R place id

def Expr.SuitAll (R : Regime) (place : R.Place) : List Expr → Prop
  | [] => True
  | expr :: rest => expr.Suits R place ∧ Expr.SuitAll R place rest

def Expr.SuitsOpt (R : Regime) (place : R.Place) : Option Expr → Prop
  | none => True
  | some expr => expr.Suits R place

def ExprKind.Suits (R : Regime) (place : R.Place) (id : NodeId) :
    ExprKind → Prop
  | .literal literal => literal.Suits R place
  | .ident _ | .unreachable => True
  | .paren inner => inner.Suits R place
  | .tuple fields => Expr.SuitAll R place fields
  | .object _ fields => ObjectField.SuitAll R place fields
  | .type ty => ty.Suits R
  | .binary _ left right => left.Suits R place ∧ right.Suits R place
  | .unary _ operand => operand.Suits R place
  | .call callee args => callee.Suits R place ∧ Expr.SuitAll R place args
  | .index base index => base.Suits R place ∧ index.Suits R place
  | .member base _ => base.Suits R place
  | .increment operand => operand.Suits R place
  | .decrement operand => operand.Suits R place
  | .deref operand => operand.Suits R place
  | .cast operand target => operand.Suits R place ∧ target.Suits R
  | .typeOf operand => operand.Suits R place
  | .sizeOf operand => operand.Suits R place
  | .orElse left right => left.Suits R place ∧ right.Suits R place
  | .range start stop _ =>
    Expr.SuitsOpt R place start ∧ Expr.SuitsOpt R place stop
  | .tryExpr operand => operand.Suits R place
  | .catchExpr operand _ handler =>
    operand.Suits R place ∧ R.opens id fun scope =>
      handler.Suits R (R.enter scope place)
  | .ifExpr condition thenBranch elseBranch =>
    condition.Suits R place ∧ thenBranch.Suits R place ∧
      Stmt.SuitsOpt R place elseBranch
  | .matchExpr subject cases default =>
    subject.Suits R place ∧ MatchCase.SuitAll R place cases ∧
      Stmt.SuitsOpt R place default

def Literal.Suits (R : Regime) (place : R.Place) : Literal → Prop
  | .str _ | .int _ | .float _ | .char _ | .bool _ | .null | .undefined => True
  | .array elements => Expr.SuitAll R place elements

def ObjectField.SuitAll (R : Regime) (place : R.Place) : List ObjectField → Prop
  | [] => True
  | ⟨_, value, _⟩ :: rest =>
    value.Suits R place ∧ ObjectField.SuitAll R place rest

def MatchCase.SuitAll (R : Regime) (place : R.Place) : List MatchCase → Prop
  | [] => True
  | ⟨patterns, body⟩ :: rest =>
    (Expr.SuitAll R place patterns ∧ body.Suits R place) ∧
      MatchCase.SuitAll R place rest

def Stmt.Suits (R : Regime) (place : R.Place) : Stmt → Prop
  | ⟨_, _, kind⟩ => kind.Suits R place

def Stmt.SuitAll (R : Regime) (place : R.Place) : List Stmt → Prop
  | [] => True
  | stmt :: rest => stmt.Suits R place ∧ Stmt.SuitAll R place rest

def Stmt.SuitsOpt (R : Regime) (place : R.Place) : Option Stmt → Prop
  | none => True
  | some stmt => stmt.Suits R place

def StmtKind.Suits (R : Regime) (place : R.Place) : StmtKind → Prop
  | .expr value => value.Suits R place
  | .block ⟨id, body, _⟩ =>
    R.opens id fun scope => Stmt.SuitAll R (R.enter scope place) body
  | .letDecl ⟨name, _, mutable, ty, value⟩ =>
    (R.declares place name ∧
      R.assigns place name
        (if mutable && ty.isNone then some .sized else none)) ∧
      Ty.SuitsOpt R ty ∧ Expr.SuitsOpt R place value
  | .defDecl ⟨name, _, ty, value⟩ =>
    (R.declares place name ∧ R.assigns place name none) ∧ Ty.SuitsOpt R ty ∧
      value.Suits R place
  | .func decl => decl.Suits R place
  | .struct ⟨id, _, _, fields, methods, _⟩ =>
    R.opens id fun scope =>
      Slot.SuitAll R (R.enter scope place) fields ∧
        FuncDecl.SuitAll R (R.enter scope place) methods ∧
        ∀ field ∈ fields, R.assigns (R.enter scope place) field.name none
  | .enum ⟨id, _, _, variants, methods, _⟩ =>
    R.opens id fun scope =>
      VariantDecl.SuitAll R variants ∧
        FuncDecl.SuitAll R (R.enter scope place) methods
  | .use _ => True
  | .returnStmt value => R.leaves place ∧ Expr.SuitsOpt R place value
  | .throwStmt value => R.leaves place ∧ value.Suits R place
  | .whileLoop condition ⟨id, body, _⟩ =>
    condition.Suits R place ∧
      R.opens id fun scope =>
        Stmt.SuitAll R (R.enter scope (R.inLoop place)) body
  | .forLoop binding iterable ⟨id, body, _⟩ =>
    R.loop binding id ∧ iterable.Suits R place ∧
      R.opens id fun scope =>
        Stmt.SuitAll R (R.enter scope (R.inLoop place)) body
  | .breakStmt | .continueStmt => R.jumps place

def Slot.SuitAll (R : Regime) (place : R.Place) : List Slot → Prop
  | [] => True
  | ⟨_, ty, _, _, default, _⟩ :: rest =>
    (ty.Suits R ∧ Expr.SuitsOpt R place default) ∧ Slot.SuitAll R place rest

def FuncDecl.Suits (R : Regime) (place : R.Place) : FuncDecl → Prop
  | ⟨id, _, _, params, result, _, ⟨_, body, _⟩, _⟩ =>
    R.opens id fun scope =>
      Slot.SuitAll R (R.enter scope place) params ∧ Ty.SuitsOpt R result ∧
        Stmt.SuitAll R (R.enter scope (R.inFunction place)) body ∧
        ∀ param ∈ params, R.assigns (R.enter scope place) param.name none

def FuncDecl.SuitAll (R : Regime) (place : R.Place) : List FuncDecl → Prop
  | [] => True
  | func :: rest => func.Suits R place ∧ FuncDecl.SuitAll R place rest

def VariantDecl.SuitAll (R : Regime) : List VariantDecl → Prop
  | [] => True
  | ⟨_, payload, _⟩ :: rest =>
    Ty.SuitsOpt R payload ∧ VariantDecl.SuitAll R rest

end

/-!
## Policies
-/

def Policy.regime (policy : Policy) : Regime where
  Place := Place
  part _ _ := True
  leaves place := policy = .closed → place = .inFunction
  jumps place := policy = .closed → place ≠ .outside
  loop binding body := ∀ loops, policy = .listed loops → (binding, body) ∈ loops
  inLoop := Place.enterLoop
  inFunction _ := .inFunction
  enter _ place := place
  opens _ inside := ∀ scope, inside scope
  declares _ _ := True
  pledged _ _ := False
  assigns _ _ _ := True
  tolerant := True

section

variable {policy : Policy}

open Exits

theorem Policy.opens_iff {id : NodeId} {inside : ScopeId → Prop} {p : Prop}
    (h : ∀ scope, inside scope ↔ p) : policy.regime.opens id inside ↔ p := by
  exact ⟨fun hinside => (h ⟨0⟩).mp (hinside ⟨0⟩), fun hp scope =>
    (h scope).mpr hp⟩

theorem Exits.iff_append {a b : Exits} {place : Place} {p q : Prop}
    (hp : p ↔ a.Allowed policy place)
    (hq : q ↔ b.Allowed policy place) :
    p ∧ q ↔ (a ++ b).Allowed policy place := by
  exact (and_congr hp hq).trans allowed_append.symm

mutual

theorem Ty.suits_iff {place : Place} (ty : Ty) :
    ty.Suits policy.regime ↔ ty.exits.Allowed policy place := by
  cases ty with
  | prim | named | errors => exact iff_of_true trivial allowed_none
  | pointer target mutable => exact target.suits_iff
  | optional inner => exact inner.suits_iff
  | array element extent mutable =>
    exact iff_append element.suits_iff extent.suits_iff
  | tuple fields => exact Ty.suitAll_iff fields
  | struct struct =>
    obtain ⟨name, members, scope⟩ := struct
    exact Member.suitAll_iff members
  | enum enum =>
    obtain ⟨name, variants, scope⟩ := enum
    exact Variant.suitAll_iff variants
  | union members => exact Ty.suitAll_iff members
  | function params result error =>
    refine and_assoc.symm.trans (iff_append (iff_append ?_ ?_) ?_)
    · exact Ty.suitAll_iff params
    · exact result.suits_iff
    · exact Ty.suitsOpt_iff error
  | paren inner => exact inner.suits_iff

theorem Ty.suitAll_iff {place : Place} (tys : List Ty) :
    Ty.SuitAll policy.regime tys ↔ (Ty.exitsAll tys).Allowed policy place := by
  cases tys with
  | nil => exact iff_of_true trivial allowed_none
  | cons ty rest => exact iff_append ty.suits_iff (Ty.suitAll_iff rest)

theorem Ty.suitsOpt_iff {place : Place} (ty : Option Ty) :
    Ty.SuitsOpt policy.regime ty ↔ (Ty.exitsOpt ty).Allowed policy place := by
  cases ty with
  | none => exact iff_of_true trivial allowed_none
  | some ty => exact ty.suits_iff

theorem Member.suitAll_iff {place : Place} (members : List Member) :
    Member.SuitAll policy.regime members ↔
      (Member.exitsAll members).Allowed policy place := by
  cases members with
  | nil => exact iff_of_true trivial allowed_none
  | cons member rest =>
    obtain ⟨name, ty⟩ := member
    exact iff_append ty.suits_iff (Member.suitAll_iff rest)

theorem Variant.suitAll_iff {place : Place} (variants : List Variant) :
    Variant.SuitAll policy.regime variants ↔
      (Variant.exitsAll variants).Allowed policy place := by
  cases variants with
  | nil => exact iff_of_true trivial allowed_none
  | cons variant rest =>
    obtain ⟨name, payload⟩ := variant
    exact iff_append (Ty.suitsOpt_iff payload) (Variant.suitAll_iff rest)

theorem Extent.suits_iff {place : Place} (extent : Extent) :
    extent.Suits policy.regime ↔ extent.exits.Allowed policy place := by
  cases extent with
  | slice | fixed => exact iff_of_true trivial allowed_none
  | expr length =>
    refine Iff.trans ⟨fun h => ?_, fun h place => ?_⟩ allowed_ofLength.symm
    · exact length.suits_iff.mp (h Place.outside)
    · exact length.suits_iff.mpr h.anywhere

theorem Expr.suits_iff {place : Place} (expr : Expr) :
    expr.Suits policy.regime place ↔ expr.exits.Allowed policy place := by
  obtain ⟨id, span, kind⟩ := expr
  exact (and_iff_right trivial).trans (ExprKind.suits_iff id kind)

theorem Expr.suitAll_iff {place : Place} (exprs : List Expr) :
    Expr.SuitAll policy.regime place exprs ↔
      (Expr.exitsAll exprs).Allowed policy place := by
  cases exprs with
  | nil => exact iff_of_true trivial allowed_none
  | cons expr rest => exact iff_append expr.suits_iff (Expr.suitAll_iff rest)

theorem Expr.suitsOpt_iff {place : Place} (expr : Option Expr) :
    Expr.SuitsOpt policy.regime place expr ↔
      (Expr.exitsOpt expr).Allowed policy place := by
  cases expr with
  | none => exact iff_of_true trivial allowed_none
  | some expr => exact expr.suits_iff

theorem ExprKind.suits_iff {place : Place} (id : NodeId) (kind : ExprKind) :
    kind.Suits policy.regime place id ↔ kind.exits.Allowed policy place := by
  cases kind with
  | literal literal => exact literal.suits_iff
  | ident | unreachable => exact iff_of_true trivial allowed_none
  | tuple fields => exact Expr.suitAll_iff fields
  | object name fields => exact ObjectField.suitAll_iff fields
  | type ty => exact ty.suits_iff
  | binary op left right => exact iff_append left.suits_iff right.suits_iff
  | call callee args =>
    exact iff_append callee.suits_iff (Expr.suitAll_iff args)
  | index base index => exact iff_append base.suits_iff index.suits_iff
  | paren operand | unary _ operand | member operand | increment operand
  | decrement operand
  | deref operand | typeOf operand | sizeOf operand | tryExpr operand =>
    exact operand.suits_iff
  | cast operand target =>
    exact iff_append operand.suits_iff target.suits_iff
  | orElse left right => exact iff_append left.suits_iff right.suits_iff
  | range start stop inclusive =>
    exact iff_append (Expr.suitsOpt_iff start) (Expr.suitsOpt_iff stop)
  | catchExpr operand binding handler =>
    exact iff_append operand.suits_iff
      (Policy.opens_iff fun _ => handler.suits_iff)
  | ifExpr condition thenBranch elseBranch =>
    refine and_assoc.symm.trans (iff_append (iff_append ?_ ?_) ?_)
    · exact condition.suits_iff
    · exact thenBranch.suits_iff
    · exact Stmt.suitsOpt_iff elseBranch
  | matchExpr subject cases default =>
    refine and_assoc.symm.trans (iff_append (iff_append ?_ ?_) ?_)
    · exact subject.suits_iff
    · exact MatchCase.suitAll_iff cases
    · exact Stmt.suitsOpt_iff default

theorem Literal.suits_iff {place : Place} (literal : Literal) :
    literal.Suits policy.regime place ↔ literal.exits.Allowed policy place := by
  cases literal with
  | array elements => exact Expr.suitAll_iff elements
  | _ => exact iff_of_true trivial allowed_none

theorem ObjectField.suitAll_iff {place : Place} (fields : List ObjectField) :
    ObjectField.SuitAll policy.regime place fields ↔
      (ObjectField.exitsAll fields).Allowed policy place := by
  cases fields with
  | nil => exact iff_of_true trivial allowed_none
  | cons field rest =>
    obtain ⟨name, value, span⟩ := field
    exact iff_append value.suits_iff (ObjectField.suitAll_iff rest)

theorem MatchCase.suitAll_iff {place : Place} (cases : List MatchCase) :
    MatchCase.SuitAll policy.regime place cases ↔
      (MatchCase.exitsAll cases).Allowed policy place := by
  cases cases with
  | nil => exact iff_of_true trivial allowed_none
  | cons case rest =>
    obtain ⟨patterns, body⟩ := case
    refine iff_append (iff_append ?_ body.suits_iff)
      (MatchCase.suitAll_iff rest)
    exact Expr.suitAll_iff patterns

theorem Stmt.suits_iff {place : Place} (stmt : Stmt) :
    stmt.Suits policy.regime place ↔ stmt.exits.Allowed policy place := by
  obtain ⟨id, span, kind⟩ := stmt
  exact kind.suits_iff

theorem Stmt.suitAll_iff {place : Place} (stmts : List Stmt) :
    Stmt.SuitAll policy.regime place stmts ↔
      (Stmt.exitsAll stmts).Allowed policy place := by
  cases stmts with
  | nil => exact iff_of_true trivial allowed_none
  | cons stmt rest => exact iff_append stmt.suits_iff (Stmt.suitAll_iff rest)

theorem Stmt.suitsOpt_iff {place : Place} (stmt : Option Stmt) :
    Stmt.SuitsOpt policy.regime place stmt ↔
      (Stmt.exitsOpt stmt).Allowed policy place := by
  cases stmt with
  | none => exact iff_of_true trivial allowed_none
  | some stmt => exact stmt.suits_iff

theorem StmtKind.suits_iff {place : Place} (kind : StmtKind) :
    kind.Suits policy.regime place ↔ kind.exits.Allowed policy place := by
  cases kind with
  | expr value => exact value.suits_iff
  | block block =>
    obtain ⟨id, body, _⟩ := block
    exact Policy.opens_iff fun _ => Stmt.suitAll_iff body
  | letDecl decl =>
    obtain ⟨_, _, _, ty, value⟩ := decl
    refine (and_iff_right ⟨trivial, trivial⟩).trans (iff_append ?_ ?_)
    · exact Ty.suitsOpt_iff ty
    · exact Expr.suitsOpt_iff value
  | defDecl decl =>
    obtain ⟨_, _, ty, value⟩ := decl
    refine (and_iff_right ⟨trivial, trivial⟩).trans
      (iff_append ?_ value.suits_iff)
    exact Ty.suitsOpt_iff ty
  | func decl => exact decl.suits_iff
  | struct decl =>
    obtain ⟨_, _, _, fields, methods, _⟩ := decl
    refine Policy.opens_iff fun _ => iff_append ?_ ?_
    · exact Slot.suitAll_iff fields
    · exact (and_iff_left fun _ _ => trivial).trans
        (FuncDecl.suitAll_iff methods)
  | enum decl =>
    obtain ⟨_, _, _, variants, methods, _⟩ := decl
    refine Policy.opens_iff fun _ => iff_append ?_ ?_
    · exact VariantDecl.suitAll_iff variants
    · exact FuncDecl.suitAll_iff methods
  | use decl => exact iff_of_true trivial allowed_none
  | returnStmt value =>
    exact iff_append allowed_leaves.symm (Expr.suitsOpt_iff value)
  | throwStmt value => exact iff_append allowed_leaves.symm value.suits_iff
  | whileLoop condition body =>
    obtain ⟨id, body, _⟩ := body
    refine iff_append condition.suits_iff (Policy.opens_iff fun _ => ?_)
    exact (Stmt.suitAll_iff body).trans allowed_ofLoop.symm
  | forLoop binding iterable body =>
    obtain ⟨id, body, _⟩ := body
    refine and_assoc.symm.trans
      (iff_append (iff_append ?_ ?_) (Policy.opens_iff fun _ => ?_))
    · exact allowed_loop.symm
    · exact iterable.suits_iff
    · exact (Stmt.suitAll_iff body).trans allowed_ofLoop.symm
  | breakStmt | continueStmt => exact allowed_jumps.symm

theorem Slot.suitAll_iff {place : Place} (slots : List Slot) :
    Slot.SuitAll policy.regime place slots ↔
      (Slot.exitsAll slots).Allowed policy place := by
  cases slots with
  | nil => exact iff_of_true trivial allowed_none
  | cons slot rest =>
    obtain ⟨_, ty, _, _, default, _⟩ := slot
    refine iff_append (iff_append ?_ (Expr.suitsOpt_iff default))
      (Slot.suitAll_iff rest)
    exact ty.suits_iff

theorem FuncDecl.suits_iff {place : Place} (func : FuncDecl) :
    func.Suits policy.regime place ↔ func.exits.Allowed policy place := by
  obtain ⟨_, _, _, params, result, _, ⟨_, body, _⟩, _⟩ := func
  refine Policy.opens_iff fun _ =>
    and_assoc.symm.trans (iff_append (iff_append ?_ ?_) ?_)
  · exact Slot.suitAll_iff params
  · exact Ty.suitsOpt_iff result
  · refine (and_iff_left fun _ _ => trivial).trans ?_
    exact (Stmt.suitAll_iff body).trans allowed_ofFunction.symm

theorem FuncDecl.suitAll_iff {place : Place} (funcs : List FuncDecl) :
    FuncDecl.SuitAll policy.regime place funcs ↔
      (FuncDecl.exitsAll funcs).Allowed policy place := by
  cases funcs with
  | nil => exact iff_of_true trivial allowed_none
  | cons func rest =>
    exact iff_append func.suits_iff (FuncDecl.suitAll_iff rest)

theorem VariantDecl.suitAll_iff {place : Place} (variants : List VariantDecl) :
    VariantDecl.SuitAll policy.regime variants ↔
      (VariantDecl.exitsAll variants).Allowed policy place := by
  cases variants with
  | nil => exact iff_of_true trivial allowed_none
  | cons variant rest =>
    obtain ⟨_, payload, _⟩ := variant
    exact iff_append (Ty.suitsOpt_iff payload) (VariantDecl.suitAll_iff rest)

end

end

end StaticCheck
