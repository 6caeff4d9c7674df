import StaticCheck.Proofs.Rerun

/-!
# What can be asked of a checker

A checker can be asked for a pass or a reset, and for every single judgement, in
any scope and as a trial.  Whatever is asked, and in which order, the program
stays as it was collected: scopes, tables and declarations do not change, and of
a symbol nothing but its type and its flags.  If policies are kept by what the
session holds and by what is asked, they are kept by the sessions that follow.
-/

namespace StaticCheck

open Rule

/-!
## Queries and operations
-/

inductive Query
  | infer (expr : Expr)
  | inferExpecting (expr : Expr) (expected : Option Ty)
  | validate (stmt : Stmt)
  | resolveType (ty : Ty) (span : Span)
  | tryResolve (ty : Ty)
  | normalize (ty : Ty)
  | resolveLayout (ty : Ty)
  | exprAsType (expr : Expr)
  | constInt (expr : Expr)
  | placeMutability (expr : Expr)
  | isCompatible (target source : Ty) (expr : Option Expr)
  | canCast (target source : Ty)
  | containsType (id : SymbolId) (ty : Ty)
  | checkConstruction (struct : StructTy) (fields : List ObjectField)
      (span : Span)
  | symbolType (id : SymbolId)
  | reportInternal (finding : Finding)

def Query.run : Query → Check Unit
  | infer expr => discard (Check.infer expr)
  | inferExpecting expr expected => discard (Check.inferExpecting expr expected)
  | validate stmt => discard (Check.validate stmt)
  | resolveType ty span => discard (Check.resolveType ty span)
  | tryResolve ty => discard (Check.tryResolve ty)
  | normalize ty => discard (Check.normalize ty)
  | resolveLayout ty => discard (Check.resolveLayout ty)
  | exprAsType expr => discard (Check.exprAsType expr)
  | constInt expr => discard (Check.constInt expr)
  | placeMutability expr => discard (Check.placeMutability expr)
  | isCompatible target source expr =>
    discard (Check.isCompatible target source expr)
  | canCast target source => discard (Check.canCast target source)
  | containsType id ty => discard (Check.containsType id ty)
  | checkConstruction struct fields span =>
    discard (Check.checkConstruction struct fields span)
  | symbolType id => discard (Check.symbolType id)
  | reportInternal finding => Check.reportInternal finding

def Query.exits : Query → Exits
  | infer expr | exprAsType expr | constInt expr | placeMutability expr =>
    expr.exits
  | inferExpecting expr expected => expr.exits ++ Ty.exitsOpt expected
  | validate stmt => stmt.exits
  | resolveType ty _ | tryResolve ty | normalize ty | resolveLayout ty =>
    ty.exits
  | isCompatible target source _ | canCast target source =>
    target.exits ++ source.exits
  | checkConstruction struct fields _ =>
    (Ty.struct struct).exits ++ ObjectField.exitsAll fields
  | containsType .. | symbolType _ | reportInternal _ => {}

/-- What a checker can be asked to do.  Further operations can be done in a
scope and in a trial. -/
inductive Operation
  | handle
  | reset
  | ask (query : Query)
  | within (scope : ScopeId) (operations : List Operation)
  | trial (operations : List Operation)

mutual

def Operation.run : Operation → Check Unit
  | .handle => discard Check.handle
  | .reset => Check.reset
  | .ask query => query.run
  | .within scope operations => Check.within scope (Operation.runAll operations)
  | .trial operations => discard (Check.speculate (Operation.runAll operations))

def Operation.runAll : List Operation → Check Unit
  | [] => return ()
  | operation :: rest => do
    operation.run
    Operation.runAll rest

end

mutual

def Operation.exits : Operation → Exits
  | .handle | .reset => {}
  | .ask query => query.exits
  | .within _ operations => Operation.exitsAll operations
  | .trial operations => Operation.exitsAll operations

def Operation.exitsAll : List Operation → Exits
  | [] => {}
  | operation :: rest => operation.exits ++ Operation.exitsAll rest

end

/-!
## Sessions after an operation
-/

variable {α β : Type} {policy : Policy}

/-- A session after some operations: it has the same program and, as that of the
start, holds only what is within the policy. -/
structure Session.Guards (policy : Policy) (s t : Session) : Prop where
  within : t.Within policy .outside
  program : t.program = s.program
  tree : s.tree.SameProgram t.tree
  keeps : s.tree.Keeps policy t.tree

def Guarded (policy : Policy) (check : Check α) : Prop :=
  ∀ s : Session, s.Within policy .outside → s.program.Allowed policy →
    s.Guards policy (check s).2

namespace Guarded

theorem pure (a : α) : Guarded policy (Pure.pure a : Check α) := by
  intro _ hs _
  exact ⟨hs, rfl, .refl _, .refl _⟩

theorem bind {check : Check α} {next : α → Check β}
    (hcheck : Guarded policy check) (hnext : ∀ a, Guarded policy (next a)) :
    Guarded policy (check >>= next) := by
  intro s hs hprogram
  have hfirst := hcheck s hs hprogram
  have hsecond :=
    hnext (check s).1 (check s).2 hfirst.within (hfirst.program ▸ hprogram)
  exact ⟨hsecond.within, hsecond.program.trans hfirst.program,
    hfirst.tree.trans hsecond.tree, hfirst.keeps.trans hsecond.keeps⟩

theorem discard {check : Check α} (hcheck : Guarded policy check) :
    Guarded policy (Functor.discard check) := hcheck

theorem ask [Found α] {rule : Rule α} (hrule : Composed policy .outside rule)
    (size : Nat) : Guarded policy (Check.ask size rule) := by
  intro s hs _
  have hstep := hrule.preserves (Judge.limited_preserves (s.depth size)) s hs
  exact ⟨hstep.within, hstep.advances.program,
    hstep.advances.tree.toSameProgram, hstep.keeps⟩

theorem handle : Guarded policy Check.handle := by
  intro s hs hprogram
  have hwithin : (Check.checked s).Within policy .outside :=
    Check.modules_within hs hprogram 0
  have hprogress := Check.checked_progress s
  have hleads : s.Leads policy (Check.checked s) :=
    Check.modules_step hs hprogram 0
  exact ⟨{ hwithin with }, hprogress.program, hprogress.tree.toSameProgram,
    hleads.keeps⟩

theorem reset : Guarded policy Check.reset := by
  intro _ hs _
  exact ⟨hs.reset, rfl, { ScopeTree.SameProgram.refl _ with },
    { ScopeTree.Keeps.refl _ with }⟩

theorem within {check : Check α} (hcheck : Guarded policy check)
    (scope : ScopeId) : Guarded policy (Check.within scope check) := by
  intro s hs hprogram
  have hinner : { s with tree := s.tree.enter scope }.Within policy .outside :=
    hs.setTree hs.symbols
  have hend := hcheck _ hinner hprogram
  exact ⟨hend.within.setTree hend.within.symbols, hend.program,
    { hend.tree with },
    { hend.keeps with }⟩

theorem speculate {check : Check α} (hcheck : Guarded policy check) :
    Guarded policy (Check.speculate check) := by
  intro s hs hprogram
  have hend := hcheck { s with cache := s.cache.beginTrial }
    (hs.setCache hs.cache.beginTrial) hprogram
  refine ⟨?_, hend.program, { hend.tree with }, { hend.keeps with }⟩
  exact
    { symbols := hend.within.symbols
      cache := hend.within.cache.rollbackTrial
      expectations := hs.expectations
      frame := hs.frame }

end Guarded

theorem Query.asks {P : Check Unit → Prop} (query : Query)
    (h : query.exits.Allowed policy .outside)
    (ask : ∀ {α : Type} [Found α] {rule : Rule α} (size : Nat),
      Composed policy .outside rule → P (discard (Check.ask size rule))) :
    P query.run := by
  cases query with
  | infer expr => exact ask _ (.inferExpr (expr.suits_iff.mpr h))
  | inferExpecting expr expected =>
    obtain ⟨hexpr, hexpected⟩ := Exits.allowed_append.mp h
    exact ask _
      (.withExpected
        (fits_of_obeys ((Ty.allowed_opt_iff expected).mp hexpected))
      (.inferExpr (expr.suits_iff.mpr hexpr)))
  | validate stmt => exact ask _ (.validateStmt (stmt.suits_iff.mpr h))
  | resolveType ty span => exact ask _ (.resolveType (ty.allowed_iff.mp h))
  | tryResolve ty => exact ask _ (.resolveTy ty (ty.allowed_iff.mp h))
  | normalize ty =>
    exact ask _ (.normalize (fits_of_obeys (ty.allowed_iff.mp h)))
  | resolveLayout ty => exact ask _ (.resolveLayout (ty.allowed_iff.mp h))
  | exprAsType expr => exact ask _ (.exprAsType (expr.suits_iff.mpr h))
  | constInt expr => exact ask _ (.constInt (expr.suits_iff.mpr h))
  | placeMutability expr =>
    exact ask _ (.placeMutability (expr.suits_iff.mpr h))
  | isCompatible target source expr =>
    obtain ⟨htarget, hsource⟩ := Exits.allowed_append.mp h
    exact ask _ (.isCompatible (fits_of_obeys (target.allowed_iff.mp htarget))
      (fits_of_obeys (source.allowed_iff.mp hsource)))
  | canCast target source =>
    obtain ⟨htarget, hsource⟩ := Exits.allowed_append.mp h
    exact ask _ (.canCast (fits_of_obeys (target.allowed_iff.mp htarget))
      (fits_of_obeys (source.allowed_iff.mp hsource)))
  | containsType id ty => exact ask _ .containsType
  | checkConstruction struct fields span =>
    obtain ⟨hstruct, hfields⟩ := Exits.allowed_append.mp h
    have hobeys := (Ty.meets_struct struct).mp ((Ty.allowed_iff _).mp hstruct)
    have heach := (ObjectField.suitAll_iff fields).mpr hfields
    exact ask _
      (.checkConstruction hobeys
        ((ObjectField.suitAll_iff_forall fields).mp heach))
  | symbolType id => exact ask _ .symbolType
  | reportInternal finding => exact ask 0 (.reportInternal trivial)

theorem Query.guarded (query : Query)
    (h : query.exits.Allowed policy .outside) : Guarded policy query.run := by
  exact query.asks h fun _ hrule => .discard (.ask hrule _)

mutual

theorem Operation.guarded (operation : Operation)
    (h : operation.exits.Allowed policy .outside) :
    Guarded policy operation.run := by
  cases operation with
  | handle => exact .discard .handle
  | reset => exact .reset
  | ask query => exact query.guarded h
  | within scope operations =>
    exact .within (Operation.guarded_all operations h) scope
  | trial operations =>
    exact .discard (.speculate (Operation.guarded_all operations h))

theorem Operation.guarded_all (operations : List Operation)
    (h : (Operation.exitsAll operations).Allowed policy .outside) :
    Guarded policy (Operation.runAll operations) := by
  cases operations with
  | nil => exact .pure ()
  | cons operation rest =>
    obtain ⟨hoperation, hrest⟩ := Exits.allowed_append.mp h
    exact .bind (Operation.guarded operation hoperation) fun _ =>
      Operation.guarded_all rest hrest

end

/-- Whatever is asked of a checker, in whichever session, it changes neither
scopes nor tables, and of a symbol nothing but its type and its flags, of which
none is cleared. -/
theorem operations_keep_the_program (operations : List Operation)
    (s : Session) :
    s.tree.SameProgram (Operation.runAll operations s).2.tree := by
  exact (Operation.guarded_all operations Exits.allowed_free s s.within_free
    fun _ _ stmt _ => stmt.suits_free).tree

end StaticCheck
