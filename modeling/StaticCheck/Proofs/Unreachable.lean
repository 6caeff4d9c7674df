import StaticCheck.Proofs.NameLookup
import StaticCheck.Proofs.Ranges

/-!
# Unreachable statements

In a list of statements everything after the first one that control never goes
past is skipped.  Skipping is described by the session it leads to: one report
for each statement, in order and at its place, and the names that the statements
bind in the current scope declared.  A list is checked by checking its
statements one by one up to the one that leaves it, and then skipping the rest.
-/

namespace StaticCheck

open Rule

/-!
## Statements that leave a list
-/

inductive Expr.Unreachable : Expr → Prop
  | bare {id : NodeId} {span : Span} : Expr.Unreachable ⟨id, span, .unreachable⟩
  | paren {id : NodeId} {span : Span} {inner : Expr}
      (hinner : inner.Unreachable) : Expr.Unreachable ⟨id, span, .paren inner⟩

/-- Control never goes past the statement. -/
inductive Stmt.Leaves : Stmt → Prop
  | returns {id : NodeId} {span : Span} {value : Option Expr} :
      Stmt.Leaves ⟨id, span, .returnStmt value⟩
  | throws {id : NodeId} {span : Span} {value : Expr} :
      Stmt.Leaves ⟨id, span, .throwStmt value⟩
  | unreachable {id : NodeId} {span : Span} {expr : Expr}
      (hexpr : expr.Unreachable) : Stmt.Leaves ⟨id, span, .expr expr⟩
  | block {id blockId : NodeId} {span blockSpan : Span} {body : List Stmt}
      {stmt : Stmt}
      (hmem : stmt ∈ body) (hstmt : stmt.Leaves) :
      Stmt.Leaves ⟨id, span, .block ⟨blockId, body, blockSpan⟩⟩

theorem Expr.isUnreachable_iff (expr : Expr) :
    expr.isUnreachable = true ↔ expr.Unreachable := by
  unfold isUnreachable
  fun_induction Expr.unparen expr with
  | case1 id span inner ih =>
    rw [ih]
    constructor
    · exact .paren
    · rintro ⟨⟩
      assumption
  | case2 expr hparen =>
    obtain ⟨id, span, kind⟩ := expr
    constructor
    · intro hkind
      cases kind with
      | unreachable => exact .bare
      | _ => cases hkind
    · rintro (- | -)
      · rfl
      · exact (hparen _ _ _ rfl).elim

mutual

theorem Stmt.alwaysExits_iff (stmt : Stmt) :
    stmt.alwaysExits = true ↔ stmt.Leaves := by
  obtain ⟨id, span, kind⟩ := stmt
  cases kind with
  | returnStmt value => exact ⟨fun _ => .returns, fun _ => rfl⟩
  | throwStmt value => exact ⟨fun _ => .throws, fun _ => rfl⟩
  | expr value =>
    refine value.isUnreachable_iff.trans ⟨.unreachable, ?_⟩
    rintro ⟨⟩
    assumption
  | block block =>
    obtain ⟨blockId, body, blockSpan⟩ := block
    refine (Stmt.anyExits_iff body).trans ⟨?_, ?_⟩
    · rintro ⟨stmt, hmem, hstmt⟩
      exact .block hmem hstmt
    · rintro ⟨⟩
      exact ⟨_, ‹_›, ‹_›⟩
  | _ => exact ⟨fun h => (Bool.false_ne_true h).elim, fun h => by cases h⟩

theorem Stmt.anyExits_iff (stmts : List Stmt) :
    Stmt.anyExits stmts = true ↔ ∃ stmt ∈ stmts, stmt.Leaves := by
  cases stmts with
  | nil => simp [Stmt.anyExits]
  | cons stmt rest =>
    rw [Stmt.anyExits, Bool.or_eq_true, Stmt.alwaysExits_iff stmt,
      Stmt.anyExits_iff rest, List.exists_mem_cons_iff]

end

/-!
## Skipped statements
-/

namespace ScopeTree

variable {tree : ScopeTree} {f g : SymbolId → Bool}

theorem getElem?_withDeclared (tree : ScopeTree) (f : SymbolId → Bool)
    (index : Nat) : (tree.withDeclared f).symbols[index]? =
      tree.symbols[index]?.map fun symbol =>
      { symbol with declared := f ⟨index⟩ } :=
  Array.getElem?_mapIdx

theorem withDeclared_congr
    (h : ∀ id, id.index < tree.symbols.size → f id = g id) :
    tree.withDeclared f = tree.withDeclared g := by
  have hsymbols : (tree.withDeclared f).symbols =
      (tree.withDeclared g).symbols := by
    refine Array.ext_getElem? fun index => ?_
    rw [getElem?_withDeclared, getElem?_withDeclared]
    refine Option.map_congr fun symbol hsymbol => ?_
    rw [h ⟨index⟩ (Array.getElem?_eq_some_iff.mp hsymbol).1]
  exact congrArg (fun symbols => { tree with symbols }) hsymbols

theorem withDeclared_withDeclared :
    (tree.withDeclared f).withDeclared g = tree.withDeclared g := by
  have hsymbols : ((tree.withDeclared f).withDeclared g).symbols =
      (tree.withDeclared g).symbols := by
    refine Array.ext_getElem? fun index => ?_
    simp only [getElem?_withDeclared, Option.map_map]
    rfl
  exact congrArg (fun symbols => { tree with symbols }) hsymbols

theorem symbol_of_getElem? {index : Nat} {symbol : Symbol}
    (h : tree.symbols[index]? = some symbol) :
    tree.symbol ⟨index⟩ = symbol := by
  unfold ScopeTree.symbol
  rw [h, Option.getD_some]

theorem withDeclared_self :
    tree.withDeclared (fun id => (tree.symbol id).declared) = tree := by
  have hsymbols :
      (tree.withDeclared fun id => (tree.symbol id).declared).symbols =
      tree.symbols := by
    refine Array.ext_getElem? fun index => ?_
    rw [getElem?_withDeclared]
    cases hsymbol : tree.symbols[index]? with
    | none => rfl
    | some symbol => rw [Option.map_some, symbol_of_getElem? hsymbol]
  exact congrArg (fun symbols => { tree with symbols }) hsymbols

theorem declared_withDeclared {id : SymbolId}
    (hid : id.index < tree.symbols.size) :
    ((tree.withDeclared f).symbol id).declared = f id := by
  have hsymbol := tree.getElem?_withDeclared f id.index
  rw [Array.getElem?_eq_getElem hid, Option.map_some] at hsymbol
  rw [symbol_of_getElem? hsymbol]

theorem updateSymbol_declared (tree : ScopeTree) (id : SymbolId) :
    tree.updateSymbol id (fun symbol => { symbol with declared := true }) =
      tree.withDeclared fun other => (tree.symbol other).declared || some id ==
      some other := by
  have hsymbols :
      (tree.updateSymbol id fun symbol =>
        { symbol with declared := true }).symbols =
        (tree.withDeclared fun other =>
          (tree.symbol other).declared || some id == some other).symbols := by
    refine Array.ext_getElem? fun index => ?_
    rw [getElem?_withDeclared]
    by_cases hid : id = ⟨index⟩
    · subst hid
      cases hsymbol : tree.symbols[index]? with
      | none =>
        have hsize := Array.getElem?_eq_none_iff.mp hsymbol
        simp [updateSymbol, hsize]
      | some symbol =>
        have hsize := (Array.getElem?_eq_some_iff.mp hsymbol).1
        simp [updateSymbol, hsize, symbol_of_getElem? hsymbol]
    · have hindex : id.index ≠ index := fun heq => hid (heq ▸ rfl)
      rw [updateSymbol, Array.getElem?_setIfInBounds_ne hindex]
      cases hsymbol : tree.symbols[index]? with
      | none => rfl
      | some symbol =>
        have hother : (some id == some (⟨index⟩ : SymbolId)) = false :=
          beq_false_of_ne fun heq => hid (Option.some.inj heq)
        rw [Option.map_some, symbol_of_getElem? hsymbol, hother, Bool.or_false]
  exact congrArg (fun symbols => { tree with symbols }) hsymbols

def isBoundIn (tree : ScopeTree) (stmts : List Stmt) (id : SymbolId) : Bool :=
  stmts.any fun stmt =>
    match stmt.kind with
    | .letDecl decl => tree.lookupLocal tree.current decl.name == some id
    | .defDecl decl => tree.lookupLocal tree.current decl.name == some id
    | _ => false

def declaring (tree : ScopeTree) (stmts : List Stmt) : ScopeTree :=
  tree.withDeclared fun id => (tree.symbol id).declared ||
    tree.isBoundIn stmts id

theorem declaring_of_unbound {stmts : List Stmt}
    (h : ∀ id, tree.isBoundIn stmts id = false) :
    tree.declaring stmts = tree := by
  unfold declaring
  simp only [h, Bool.or_false]
  exact withDeclared_self

theorem isBoundIn_singleton (stmt : Stmt) (id : SymbolId) :
    tree.isBoundIn [stmt] id =
      (stmt.boundName?.bind (tree.lookupLocal tree.current) == some id) := by
  obtain ⟨node, span, kind⟩ := stmt
  rw [isBoundIn, List.any_cons, List.any_nil, Bool.or_false]
  cases kind with
  | _ => rfl

theorem declaring_cons (stmt : Stmt) (rest : List Stmt) :
    (tree.declaring [stmt]).declaring rest = tree.declaring (stmt :: rest) := by
  refine withDeclared_withDeclared.trans (withDeclared_congr fun id hid => ?_)
  -- declaring a symbol changes no table of names, so the others bind what they
  -- bound before
  have hrest : (tree.declaring [stmt]).isBoundIn rest id =
      tree.isBoundIn rest id := rfl
  have hall : tree.isBoundIn (stmt :: rest) id =
      (tree.isBoundIn [stmt] id || tree.isBoundIn rest id) := by
    simp only [isBoundIn, List.any_cons, List.any_nil, Bool.or_false]
  rw [hrest, declaring, declared_withDeclared hid, Bool.or_assoc, hall]

end ScopeTree

/-- The session after a list of statements was skipped: each of them is reported
at its place, and the variables and definitions among them are declared. -/
def Session.skipping (s : Session) (stmts : List Stmt) : Session :=
  { s with
    diagnostics :=
      ⟨s.diagnostics.items ++ stmts.map fun stmt =>
        ⟨⟨.unreachableCode, stmt.span⟩, .error⟩⟩
    tree := s.tree.declaring stmts }

namespace Rule

theorem declareBound_run (stmt : Stmt) (judge : Judge) (s : Session) :
    declareBound stmt judge s =
      ((), { s with tree := s.tree.declaring [stmt] }) := by
  have hnone
      (h : stmt.boundName?.bind (s.tree.lookupLocal s.tree.current) = none) :
      s.tree.declaring [stmt] = s.tree :=
    ScopeTree.declaring_of_unbound fun id => by
      rw [ScopeTree.isBoundIn_singleton, h]; rfl
  unfold declareBound
  cases hname : stmt.boundName? with
  | none =>
    rw [hnone (by rw [hname]; rfl)]
    rfl
  | some name =>
    dsimp only
    rw [bind_tree, bind_lookupLocal]
    cases hid : s.tree.lookupLocal s.tree.current name with
    | none =>
      rw [hnone (by rw [hname]; exact hid)]
      rfl
    | some id =>
      have htree :
          s.tree.updateSymbol id (fun symbol =>
            { symbol with declared := true }) =
          s.tree.declaring [stmt] := by
        rw [ScopeTree.updateSymbol_declared, ScopeTree.declaring]
        simp only [ScopeTree.isBoundIn_singleton, hname, Option.bind_some, hid]
      rw [← htree]
      rfl

theorem skipUnreachable_run (stmt : Stmt) (judge : Judge) (s : Session) :
    skipUnreachable stmt judge s = ((), s.skipping [stmt]) := by
  unfold skipUnreachable
  rw [bind_run, declareBound_run]
  rfl

theorem forEach_skipUnreachable_run (stmts : List Stmt) (judge : Judge)
    (s : Session) :
    forEach skipUnreachable stmts judge s = ((), s.skipping stmts) := by
  induction stmts generalizing s with
  | nil =>
    have htree : s.tree.declaring [] = s.tree :=
      ScopeTree.declaring_of_unbound fun _ => rfl
    simp only [Session.skipping, htree, List.map_nil, List.append_nil]
    rfl
  | cons stmt rest ih =>
    have hskip : (s.skipping [stmt]).skipping rest =
        s.skipping (stmt :: rest) := by
      simp only [Session.skipping, ScopeTree.declaring_cons, List.append_assoc]
      rfl
    rw [forEach, bind_run, skipUnreachable_run, ih, hskip]

/-!
## Lists of statements
-/

def checkStatement (stmt : Stmt) : Rule Unit := askValid stmt >>= reportFailure

variable {stmts before after : List Stmt} {last : Stmt}

theorem checkStatements_of_staying (h : ∀ stmt ∈ stmts, ¬stmt.Leaves) :
    checkStatements stmts = forEach checkStatement stmts := by
  induction stmts with
  | nil => rfl
  | cons stmt rest ih =>
    rw [List.forall_mem_cons, ← Stmt.alwaysExits_iff, Bool.not_eq_true] at h
    rw [checkStatements_cons, h.1, if_neg Bool.false_ne_true, ih h.2]
    rfl

theorem checkStatements_of_leaving (hbefore : ∀ stmt ∈ before, ¬stmt.Leaves)
    (hlast : last.Leaves) : checkStatements (before ++ last :: after) =
      forEach checkStatement (before ++ [last]) >>= fun _ =>
      forEach skipUnreachable after := by
  induction before with
  | nil =>
    rw [List.nil_append, checkStatements_cons,
      last.alwaysExits_iff.mpr hlast, if_pos rfl]
    rfl
  | cons stmt rest ih =>
    rw [List.forall_mem_cons, ← Stmt.alwaysExits_iff,
      Bool.not_eq_true] at hbefore
    rw [List.cons_append, checkStatements_cons, hbefore.1,
      if_neg Bool.false_ne_true, ih hbefore.2]
    rfl

end Rule

/-- Unreachable code is flagged exactly.  Where some statement of a list leaves
it, the list is checked by checking the statements up to the first such one, and
then the others are only skipped; where none does, every statement is checked
and the list itself flags nothing. -/
theorem unreachable_statements_are_skipped
    (stmts : List Stmt)
    (judge : Judge)
    (s : Session) :
    (∀ before last after, stmts = before ++ last :: after →
      (∀ stmt ∈ before, ¬stmt.Leaves) → last.Leaves →
      checkStatements stmts judge s =
      ((),
        (forEach checkStatement (before ++ [last]) judge s).2.skipping after)) ∧
    ((∀ stmt ∈ stmts, ¬stmt.Leaves) → checkStatements stmts judge s =
      forEach checkStatement stmts judge s) := by
  constructor
  · rintro before last after rfl hbefore hlast
    rw [checkStatements_of_leaving hbefore hlast, bind_run,
      forEach_skipUnreachable_run]
  · intro hstay
    rw [checkStatements_of_staying hstay]

def useLeaveBind : List Stmt :=
  [⟨⟨1⟩, .none, .expr ⟨⟨2⟩, .none, .ident "x"⟩⟩, ⟨⟨3⟩, .none, .returnStmt none⟩,
    ⟨⟨4⟩, .none, .letDecl ⟨"x", .priv, false, some .bool, none⟩⟩]

def Session.beforeUse : Session :=
  let s := Session.new (soleModule useLeaveBind) {}
  { s with tree := s.tree.enter ⟨1⟩ }

/-- The binding after the `return` is flagged and becomes declared; without the
`return` nothing is flagged by the list. -/
theorem unreachable_statements_are_skipped_of_return :
    (checkStatements useLeaveBind (Judge.limited 3) Session.beforeUse =
      ((), (forEach checkStatement (useLeaveBind.take 2) (Judge.limited 3)
        Session.beforeUse).2.skipping (useLeaveBind.drop 2)) ∧
    checkStatements (useLeaveBind.take 1) (Judge.limited 3) Session.beforeUse =
      forEach checkStatement (useLeaveBind.take 1) (Judge.limited 3)
      Session.beforeUse) ∧
    (Session.beforeUse.tree.symbol ⟨0⟩).declared = false ∧
    ((checkStatements useLeaveBind (Judge.limited 3)
      Session.beforeUse).2.tree.symbol ⟨0⟩).declared = true := by
  have hstay : ∀ stmt ∈ useLeaveBind.take 1, ¬stmt.Leaves := by
    intro stmt hstmt
    rw [← Stmt.alwaysExits_iff]
    cases List.mem_singleton.mp hstmt
    decide
  refine ⟨⟨?_, ?_⟩, by decide +kernel, by decide +kernel⟩
  · exact (unreachable_statements_are_skipped useLeaveBind (Judge.limited 3)
      Session.beforeUse).1 _ _ _ rfl hstay .returns
  · exact (unreachable_statements_are_skipped (useLeaveBind.take 1)
      (Judge.limited 3) Session.beforeUse).2 hstay

end StaticCheck
