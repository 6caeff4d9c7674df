import StaticCheck.Proofs.Chart

/-!
# The pieces of a program

All expressions of a program, wherever they stand, and the nodes and
declarations for which a check looks up what was collected.  The collector does
not walk the lengths of array types, the defaults of parameters and fields and
the patterns of a match, so a piece in one of them is marked as not walked.
-/

namespace StaticCheck

inductive Piece
  | expr (node : NodeId) (form : Form)
  /-- A node with a scope of its own. -/
  | opener (walked : Bool) (node : NodeId)
  | declaration (walked : Bool)
  deriving DecidableEq, Repr

namespace Piece

def expr? : Piece → Option (NodeId × Form)
  | .expr node form => some (node, form)
  | _ => none

def opener? : Piece → Option NodeId
  | .opener _ node => some node
  | _ => none

/-- The collector comes to everything that a check of the piece looks up. -/
def isCollected : Piece → Bool
  | .expr _ _ => true
  | .opener walked _ => walked
  | .declaration walked => walked

end Piece

def Expr.isErrorSet (expr : Expr) : Bool :=
  match expr.kind with
  | .type (.errors _) => true
  | _ => false

mutual

def Ty.pieces : Ty → List Piece
  | .prim _ | .named _ | .errors _ => []
  | .pointer target _ => target.pieces
  | .optional inner => inner.pieces
  | .array element extent _ => element.pieces ++ extent.pieces
  | .tuple fields => Ty.piecesAll fields
  | .struct ⟨_, members, _⟩ => Member.piecesAll members
  | .enum ⟨_, variants, _⟩ => Variant.piecesAll variants
  | .union members => Ty.piecesAll members
  | .function params result error =>
    Ty.piecesAll params ++ (result.pieces ++ Ty.piecesOpt error)
  | .paren inner => inner.pieces

def Ty.piecesAll : List Ty → List Piece
  | [] => []
  | ty :: rest => ty.pieces ++ Ty.piecesAll rest

def Ty.piecesOpt : Option Ty → List Piece
  | none => []
  | some ty => ty.pieces

def Member.piecesAll : List Member → List Piece
  | [] => []
  | ⟨_, ty⟩ :: rest => ty.pieces ++ Member.piecesAll rest

def Variant.piecesAll : List Variant → List Piece
  | [] => []
  | ⟨_, payload⟩ :: rest => Ty.piecesOpt payload ++ Variant.piecesAll rest

def Extent.pieces : Extent → List Piece
  | .slice | .fixed _ => []
  | .expr length => length.pieces false

def Expr.pieces (walked : Bool) : Expr → List Piece
  | ⟨id, _, kind⟩ => .expr id kind.form :: kind.pieces walked id

def Expr.piecesAll (walked : Bool) : List Expr → List Piece
  | [] => []
  | expr :: rest => expr.pieces walked ++ Expr.piecesAll walked rest

def Expr.piecesOpt (walked : Bool) : Option Expr → List Piece
  | none => []
  | some expr => expr.pieces walked

def ExprKind.pieces (walked : Bool) (id : NodeId) : ExprKind → List Piece
  | .literal literal => literal.pieces walked
  | .ident _ | .unreachable => []
  | .paren inner => inner.pieces walked
  | .tuple fields => Expr.piecesAll walked fields
  | .object _ fields => ObjectField.piecesAll walked fields
  | .type ty => ty.pieces
  | .binary _ left right => left.pieces walked ++ right.pieces walked
  | .unary _ operand => operand.pieces walked
  | .call callee args => callee.pieces walked ++ Expr.piecesAll walked args
  | .index base index => base.pieces walked ++ index.pieces walked
  | .member base _ => base.pieces walked
  | .increment operand => operand.pieces walked
  | .decrement operand => operand.pieces walked
  | .deref operand => operand.pieces walked
  | .cast operand target => operand.pieces walked ++ target.pieces
  | .typeOf operand => operand.pieces walked
  | .sizeOf operand => operand.pieces walked
  | .orElse left right => left.pieces walked ++ right.pieces walked
  | .range start stop _ =>
    Expr.piecesOpt walked start ++ Expr.piecesOpt walked stop
  | .tryExpr operand => operand.pieces walked
  | .catchExpr operand _ handler =>
    operand.pieces walked ++ (.opener walked id :: handler.pieces walked)
  | .ifExpr condition thenBranch elseBranch =>
    condition.pieces walked ++
      (thenBranch.pieces walked ++ Stmt.piecesOpt walked elseBranch)
  | .matchExpr subject cases default =>
    subject.pieces walked ++
      (MatchCase.piecesAll walked cases ++ Stmt.piecesOpt walked default)

def Literal.pieces (walked : Bool) : Literal → List Piece
  | .str _ | .int _ | .float _ | .char _ | .bool _ | .null | .undefined => []
  | .array elements => Expr.piecesAll walked elements

def ObjectField.piecesAll (walked : Bool) : List ObjectField → List Piece
  | [] => []
  | ⟨_, value, _⟩ :: rest =>
    value.pieces walked ++ ObjectField.piecesAll walked rest

def MatchCase.piecesAll (walked : Bool) : List MatchCase → List Piece
  | [] => []
  | ⟨patterns, body⟩ :: rest =>
    Expr.piecesAll false patterns ++
      (body.pieces walked ++ MatchCase.piecesAll walked rest)

def Stmt.pieces (walked : Bool) : Stmt → List Piece
  | ⟨id, _, kind⟩ => kind.pieces walked id

def Stmt.piecesAll (walked : Bool) : List Stmt → List Piece
  | [] => []
  | stmt :: rest => stmt.pieces walked ++ Stmt.piecesAll walked rest

def Stmt.piecesOpt (walked : Bool) : Option Stmt → List Piece
  | none => []
  | some stmt => stmt.pieces walked

def StmtKind.pieces (walked : Bool) (id : NodeId) : StmtKind → List Piece
  | .expr value => value.pieces walked
  | .block block => block.pieces walked
  | .letDecl ⟨_, _, _, ty, value⟩ =>
    Ty.piecesOpt ty ++ (Expr.piecesOpt walked value ++ [.declaration walked])
  | .defDecl ⟨_, _, ty, value⟩ =>
    Ty.piecesOpt ty ++ (value.pieces walked ++
      ((if value.isErrorSet then [.opener walked id] else []) ++
        [.declaration walked]))
  | .func decl => decl.pieces walked
  | .struct ⟨declId, _, _, fields, methods, _⟩ =>
    .opener walked declId ::
      (Slot.piecesAll fields ++ FuncDecl.piecesAll walked methods)
  | .enum ⟨declId, _, _, variants, methods, _⟩ =>
    .opener walked declId ::
      (VariantDecl.piecesAll variants ++ FuncDecl.piecesAll walked methods)
  | .use _ | .breakStmt | .continueStmt => []
  | .returnStmt value => Expr.piecesOpt walked value
  | .throwStmt value => value.pieces walked
  | .whileLoop condition body => condition.pieces walked ++ body.pieces walked
  | .forLoop _ iterable body => iterable.pieces walked ++ body.pieces walked

def Block.pieces (walked : Bool) : Block → List Piece
  | ⟨id, body, _⟩ => .opener walked id :: Stmt.piecesAll walked body

def Slot.piecesAll : List Slot → List Piece
  | [] => []
  | ⟨_, ty, _, _, default, _⟩ :: rest =>
    ty.pieces ++ (Expr.piecesOpt false default ++ Slot.piecesAll rest)

/-- A function and its body have the same scope under two nodes. -/
def FuncDecl.pieces (walked : Bool) : FuncDecl → List Piece
  | ⟨id, _, _, params, result, _, ⟨bodyId, body, _⟩, _⟩ =>
    .opener walked id :: .opener walked bodyId ::
      (Slot.piecesAll params ++
        (Ty.piecesOpt result ++ Stmt.piecesAll walked body))

def FuncDecl.piecesAll (walked : Bool) : List FuncDecl → List Piece
  | [] => []
  | func :: rest => func.pieces walked ++ FuncDecl.piecesAll walked rest

def VariantDecl.piecesAll : List VariantDecl → List Piece
  | [] => []
  | ⟨_, payload, _⟩ :: rest =>
    Ty.piecesOpt payload ++ VariantDecl.piecesAll rest

end

namespace Program

def pieces (program : Program) : List Piece :=
  program.modules.flatMap fun module => .opener true module.id ::
    Stmt.piecesAll true module.body

def expressions (program : Program) : List (NodeId × Form) :=
  program.pieces.filterMap Piece.expr?

def openers (program : Program) : List NodeId :=
  program.pieces.filterMap Piece.opener?

end Program

/-!
## Pieces on a chart
-/

/-- The chart has the expression; if it is whole then what is looked up was
collected. -/
def Piece.On (chart : Chart) : Piece → Prop
  | .expr node form => (node, form) ∈ chart.parts
  | .opener walked _ => chart.whole = true → walked = true
  | .declaration walked => chart.whole = true → walked = true

def Chart.Shows (chart : Chart) (pieces : List Piece) : Prop :=
  ∀ piece ∈ pieces, piece.On chart

namespace Chart

variable {chart : Chart} {piece : Piece} {first second : List Piece}

theorem shows_append :
    chart.Shows (first ++ second) ↔ chart.Shows first ∧ chart.Shows second :=
  List.forall_mem_append

theorem shows_cons :
    chart.Shows (piece :: second) ↔ piece.On chart ∧ chart.Shows second :=
  List.forall_mem_cons

theorem shows_singleton : chart.Shows [piece] ↔ piece.On chart :=
  List.forall_mem_singleton

def Doubts (chart : Chart) (walked : Bool) : Prop :=
  walked = true → chart.whole = false

theorem doubts_false : chart.Doubts false := nofun

theorem Doubts.loose {walked : Bool} (hdoubts : chart.Doubts walked)
    (hmark : chart.whole = true → walked = true) : chart.whole = false := by
  by_contra hwhole
  rw [Bool.not_eq_false] at hwhole
  exact absurd (hdoubts (hmark hwhole)) (by simp [hwhole])

end Chart

/-!
## Parts that suit a chart anywhere

Where nothing is promised to be collected, a part of a program suits the chart
at every scope if its pieces lie on the chart.
-/

section

variable {chart : Chart}

open Chart

mutual

theorem Ty.suits_of_shows (ty : Ty) (h : chart.Shows ty.pieces) :
    ty.Suits chart.regime := by
  cases ty with
  | prim | named | errors => trivial
  | pointer target _ => exact target.suits_of_shows h
  | optional inner => exact inner.suits_of_shows h
  | array element extent _ =>
    have hparts := shows_append.mp h
    exact ⟨element.suits_of_shows hparts.1, extent.suits_of_shows hparts.2⟩
  | tuple fields => exact Ty.suitAll_of_shows fields h
  | struct struct =>
    obtain ⟨_, members, _⟩ := struct
    exact Member.suitAll_of_shows members h
  | enum enum =>
    obtain ⟨_, variants, _⟩ := enum
    exact Variant.suitAll_of_shows variants h
  | union members => exact Ty.suitAll_of_shows members h
  | function params result error =>
    have hparams := shows_append.mp h
    have hresult := shows_append.mp hparams.2
    exact ⟨Ty.suitAll_of_shows params hparams.1,
      result.suits_of_shows hresult.1, Ty.suitsOpt_of_shows error hresult.2⟩
  | paren inner => exact inner.suits_of_shows h

theorem Ty.suitAll_of_shows (tys : List Ty)
    (h : chart.Shows (Ty.piecesAll tys)) : Ty.SuitAll chart.regime tys := by
  cases tys with
  | nil => trivial
  | cons ty rest =>
    have hparts := shows_append.mp h
    exact ⟨ty.suits_of_shows hparts.1, Ty.suitAll_of_shows rest hparts.2⟩

theorem Ty.suitsOpt_of_shows (ty : Option Ty)
    (h : chart.Shows (Ty.piecesOpt ty)) : Ty.SuitsOpt chart.regime ty := by
  cases ty with
  | none => trivial
  | some ty => exact ty.suits_of_shows h

theorem Member.suitAll_of_shows (members : List Member)
    (h : chart.Shows (Member.piecesAll members)) :
    Member.SuitAll chart.regime members := by
  cases members with
  | nil => trivial
  | cons member rest =>
    obtain ⟨_, ty⟩ := member
    have hparts := shows_append.mp h
    exact ⟨ty.suits_of_shows hparts.1, Member.suitAll_of_shows rest hparts.2⟩

theorem Variant.suitAll_of_shows (variants : List Variant)
    (h : chart.Shows (Variant.piecesAll variants)) :
    Variant.SuitAll chart.regime variants := by
  cases variants with
  | nil => trivial
  | cons variant rest =>
    obtain ⟨_, payload⟩ := variant
    have hparts := shows_append.mp h
    exact ⟨Ty.suitsOpt_of_shows payload hparts.1,
      Variant.suitAll_of_shows rest hparts.2⟩

theorem Extent.suits_of_shows (extent : Extent)
    (h : chart.Shows extent.pieces) : extent.Suits chart.regime := by
  cases extent with
  | slice | fixed => trivial
  | expr length => exact fun place => length.suits_of_shows doubts_false h

theorem Expr.suits_of_shows {walked : Bool} {scope : ScopeId} (expr : Expr)
    (hdoubts : chart.Doubts walked) (h : chart.Shows (expr.pieces walked)) :
    expr.Suits chart.regime scope := by
  obtain ⟨id, _, kind⟩ := expr
  have hparts := shows_cons.mp h
  exact ⟨hparts.1, kind.suits_of_shows hdoubts hparts.2⟩

theorem Expr.suitAll_of_shows {walked : Bool} {scope : ScopeId}
    (exprs : List Expr) (hdoubts : chart.Doubts walked)
    (h : chart.Shows (Expr.piecesAll walked exprs)) :
    Expr.SuitAll chart.regime scope exprs := by
  cases exprs with
  | nil => trivial
  | cons expr rest =>
    have hparts := shows_append.mp h
    exact ⟨expr.suits_of_shows hdoubts hparts.1,
      Expr.suitAll_of_shows rest hdoubts hparts.2⟩

theorem Expr.suitsOpt_of_shows {walked : Bool} {scope : ScopeId}
    (expr : Option Expr) (hdoubts : chart.Doubts walked)
    (h : chart.Shows (Expr.piecesOpt walked expr)) :
    Expr.SuitsOpt chart.regime scope expr := by
  cases expr with
  | none => trivial
  | some expr => exact expr.suits_of_shows hdoubts h

theorem ExprKind.suits_of_shows {walked : Bool} {scope : ScopeId} {id : NodeId}
    (kind : ExprKind) (hdoubts : chart.Doubts walked)
    (h : chart.Shows (kind.pieces walked id)) :
    kind.Suits chart.regime scope id := by
  cases kind with
  | literal literal => exact literal.suits_of_shows hdoubts h
  | ident | unreachable => trivial
  | tuple fields => exact Expr.suitAll_of_shows fields hdoubts h
  | object _ fields => exact ObjectField.suitAll_of_shows fields hdoubts h
  | type ty => exact ty.suits_of_shows h
  | paren operand | unary _ operand | member operand | increment operand
  | decrement operand
  | deref operand | typeOf operand | sizeOf operand | tryExpr operand =>
    exact operand.suits_of_shows hdoubts h
  | binary _ left right | index left right | orElse left right =>
    have hparts := shows_append.mp h
    exact ⟨left.suits_of_shows hdoubts hparts.1,
      right.suits_of_shows hdoubts hparts.2⟩
  | call callee args =>
    have hparts := shows_append.mp h
    exact ⟨callee.suits_of_shows hdoubts hparts.1,
      Expr.suitAll_of_shows args hdoubts hparts.2⟩
  | cast operand target =>
    have hparts := shows_append.mp h
    exact ⟨operand.suits_of_shows hdoubts hparts.1,
      target.suits_of_shows hparts.2⟩
  | range start stop _ =>
    have hparts := shows_append.mp h
    exact ⟨Expr.suitsOpt_of_shows start hdoubts hparts.1,
      Expr.suitsOpt_of_shows stop hdoubts hparts.2⟩
  | catchExpr operand _ handler =>
    have hparts := shows_append.mp h
    have hhandler := shows_cons.mp hparts.2
    exact ⟨operand.suits_of_shows hdoubts hparts.1,
      opens_of_loose (hdoubts.loose hhandler.1)
      fun _ => handler.suits_of_shows hdoubts hhandler.2⟩
  | ifExpr condition thenBranch elseBranch =>
    have hcondition := shows_append.mp h
    have hbranches := shows_append.mp hcondition.2
    exact ⟨condition.suits_of_shows hdoubts hcondition.1,
      thenBranch.suits_of_shows hdoubts hbranches.1,
      Stmt.suitsOpt_of_shows elseBranch hdoubts hbranches.2⟩
  | matchExpr subject cases default =>
    have hsubject := shows_append.mp h
    have hbranches := shows_append.mp hsubject.2
    exact ⟨subject.suits_of_shows hdoubts hsubject.1,
      MatchCase.suitAll_of_shows cases hdoubts hbranches.1,
      Stmt.suitsOpt_of_shows default hdoubts hbranches.2⟩

theorem Literal.suits_of_shows {walked : Bool} {scope : ScopeId}
    (literal : Literal) (hdoubts : chart.Doubts walked)
    (h : chart.Shows (literal.pieces walked)) :
    literal.Suits chart.regime scope := by
  cases literal with
  | array elements => exact Expr.suitAll_of_shows elements hdoubts h
  | _ => trivial

theorem ObjectField.suitAll_of_shows {walked : Bool} {scope : ScopeId}
    (fields : List ObjectField) (hdoubts : chart.Doubts walked)
    (h : chart.Shows (ObjectField.piecesAll walked fields)) :
    ObjectField.SuitAll chart.regime scope fields := by
  cases fields with
  | nil => trivial
  | cons field rest =>
    obtain ⟨_, value, _⟩ := field
    have hparts := shows_append.mp h
    exact ⟨value.suits_of_shows hdoubts hparts.1,
      ObjectField.suitAll_of_shows rest hdoubts hparts.2⟩

theorem MatchCase.suitAll_of_shows {walked : Bool} {scope : ScopeId}
    (cases : List MatchCase) (hdoubts : chart.Doubts walked)
    (h : chart.Shows (MatchCase.piecesAll walked cases)) :
    MatchCase.SuitAll chart.regime scope cases := by
  cases cases with
  | nil => trivial
  | cons case rest =>
    obtain ⟨patterns, body⟩ := case
    have hpatterns := shows_append.mp h
    have hbody := shows_append.mp hpatterns.2
    exact ⟨⟨Expr.suitAll_of_shows patterns doubts_false hpatterns.1,
      body.suits_of_shows hdoubts hbody.1⟩,
      MatchCase.suitAll_of_shows rest hdoubts hbody.2⟩

theorem Stmt.suits_of_shows {walked : Bool} {scope : ScopeId} (stmt : Stmt)
    (hdoubts : chart.Doubts walked) (h : chart.Shows (stmt.pieces walked)) :
    stmt.Suits chart.regime scope := by
  obtain ⟨id, _, kind⟩ := stmt
  exact kind.suits_of_shows hdoubts h

theorem Stmt.suitAll_of_shows {walked : Bool} {scope : ScopeId}
    (stmts : List Stmt) (hdoubts : chart.Doubts walked)
    (h : chart.Shows (Stmt.piecesAll walked stmts)) :
    Stmt.SuitAll chart.regime scope stmts := by
  cases stmts with
  | nil => trivial
  | cons stmt rest =>
    have hparts := shows_append.mp h
    exact ⟨stmt.suits_of_shows hdoubts hparts.1,
      Stmt.suitAll_of_shows rest hdoubts hparts.2⟩

theorem Stmt.suitsOpt_of_shows {walked : Bool} {scope : ScopeId}
    (stmt : Option Stmt) (hdoubts : chart.Doubts walked)
    (h : chart.Shows (Stmt.piecesOpt walked stmt)) :
    Stmt.SuitsOpt chart.regime scope stmt := by
  cases stmt with
  | none => trivial
  | some stmt => exact stmt.suits_of_shows hdoubts h

theorem StmtKind.suits_of_shows {walked : Bool} {scope : ScopeId} {id : NodeId}
    (kind : StmtKind) (hdoubts : chart.Doubts walked)
    (h : chart.Shows (kind.pieces walked id)) :
    kind.Suits chart.regime scope := by
  cases kind with
  | expr value => exact value.suits_of_shows hdoubts h
  | block block =>
    obtain ⟨blockId, body, blockSpan⟩ := block
    have hparts := shows_cons.mp h
    exact opens_of_loose (hdoubts.loose hparts.1) fun _ =>
      Stmt.suitAll_of_shows body hdoubts hparts.2
  | letDecl decl =>
    obtain ⟨name, _, _, ty, value⟩ := decl
    have hty := shows_append.mp h
    have hvalue := shows_append.mp hty.2
    have hloose := hdoubts.loose (shows_singleton.mp hvalue.2)
    exact ⟨⟨fun _ => hloose, assigns_of_loose hloose⟩,
      Ty.suitsOpt_of_shows ty hty.1,
      Expr.suitsOpt_of_shows value hdoubts hvalue.1⟩
  | defDecl decl =>
    obtain ⟨name, _, ty, value⟩ := decl
    have hty := shows_append.mp h
    have hvalue := shows_append.mp hty.2
    have hloose :=
      hdoubts.loose (shows_singleton.mp (shows_append.mp hvalue.2).2)
    exact ⟨⟨fun _ => hloose, assigns_of_loose hloose⟩,
      Ty.suitsOpt_of_shows ty hty.1, value.suits_of_shows hdoubts hvalue.1⟩
  | func decl => exact decl.suits_of_shows hdoubts h
  | struct decl =>
    obtain ⟨declId, _, _, fields, methods, _⟩ := decl
    have hopener := shows_cons.mp h
    have hparts := shows_append.mp hopener.2
    have hloose := hdoubts.loose hopener.1
    exact opens_of_loose hloose fun _ =>
      ⟨Slot.suitAll_of_shows fields hparts.1,
        FuncDecl.suitAll_of_shows methods hdoubts hparts.2, fun _ _ =>
          assigns_of_loose hloose⟩
  | enum decl =>
    obtain ⟨declId, _, _, variants, methods, _⟩ := decl
    have hopener := shows_cons.mp h
    have hparts := shows_append.mp hopener.2
    exact opens_of_loose (hdoubts.loose hopener.1) fun _ =>
      ⟨VariantDecl.suitAll_of_shows variants hparts.1,
        FuncDecl.suitAll_of_shows methods hdoubts hparts.2⟩
  | use | breakStmt | continueStmt => trivial
  | returnStmt value => exact ⟨trivial, Expr.suitsOpt_of_shows value hdoubts h⟩
  | throwStmt value => exact ⟨trivial, value.suits_of_shows hdoubts h⟩
  | whileLoop condition body =>
    obtain ⟨bodyId, body, _⟩ := body
    have hcondition := shows_append.mp h
    have hbody := shows_cons.mp hcondition.2
    exact ⟨condition.suits_of_shows hdoubts hcondition.1,
      opens_of_loose (hdoubts.loose hbody.1) fun _ =>
        Stmt.suitAll_of_shows body hdoubts hbody.2⟩
  | forLoop binding iterable body =>
    obtain ⟨bodyId, body, _⟩ := body
    have hiterable := shows_append.mp h
    have hbody := shows_cons.mp hiterable.2
    have hloose := hdoubts.loose hbody.1
    exact ⟨binds_of_loose hloose, iterable.suits_of_shows hdoubts hiterable.1,
      opens_of_loose hloose fun _ => Stmt.suitAll_of_shows body hdoubts hbody.2⟩

theorem Slot.suitAll_of_shows {scope : ScopeId} (slots : List Slot)
    (h : chart.Shows (Slot.piecesAll slots)) :
    Slot.SuitAll chart.regime scope slots := by
  cases slots with
  | nil => trivial
  | cons slot rest =>
    obtain ⟨_, ty, _, _, default, _⟩ := slot
    have hty := shows_append.mp h
    have hdefault := shows_append.mp hty.2
    exact ⟨⟨ty.suits_of_shows hty.1,
      Expr.suitsOpt_of_shows default doubts_false hdefault.1⟩,
      Slot.suitAll_of_shows rest hdefault.2⟩

theorem FuncDecl.suits_of_shows {walked : Bool} {scope : ScopeId}
    (func : FuncDecl) (hdoubts : chart.Doubts walked)
    (h : chart.Shows (func.pieces walked)) :
    func.Suits chart.regime scope := by
  obtain ⟨id, _, _, params, result, _, ⟨bodyId, body, _⟩, _⟩ := func
  have hopener := shows_cons.mp h
  have hparams := shows_append.mp (shows_cons.mp hopener.2).2
  have hresult := shows_append.mp hparams.2
  have hloose := hdoubts.loose hopener.1
  exact opens_of_loose hloose fun _ =>
    ⟨Slot.suitAll_of_shows params hparams.1,
      Ty.suitsOpt_of_shows result hresult.1,
      Stmt.suitAll_of_shows body hdoubts hresult.2, fun _ _ =>
        assigns_of_loose hloose⟩

theorem FuncDecl.suitAll_of_shows {walked : Bool} {scope : ScopeId}
    (funcs : List FuncDecl) (hdoubts : chart.Doubts walked)
    (h : chart.Shows (FuncDecl.piecesAll walked funcs)) :
    FuncDecl.SuitAll chart.regime scope funcs := by
  cases funcs with
  | nil => trivial
  | cons func rest =>
    have hparts := shows_append.mp h
    exact ⟨func.suits_of_shows hdoubts hparts.1,
      FuncDecl.suitAll_of_shows rest hdoubts hparts.2⟩

theorem VariantDecl.suitAll_of_shows (variants : List VariantDecl)
    (h : chart.Shows (VariantDecl.piecesAll variants)) :
    VariantDecl.SuitAll chart.regime variants := by
  cases variants with
  | nil => trivial
  | cons variant rest =>
    obtain ⟨_, payload, _⟩ := variant
    have hparts := shows_append.mp h
    exact ⟨Ty.suitsOpt_of_shows payload hparts.1,
      VariantDecl.suitAll_of_shows rest hparts.2⟩

end

end

end StaticCheck
