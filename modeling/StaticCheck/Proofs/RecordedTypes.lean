import StaticCheck.Proofs.Operations

/-!
# Types stay once they are recorded

The type of a symbol is recorded when it is first needed, from many different
places.  No operation takes it back or replaces it, with one exception: a loop
records the type of its variable each time it is checked, whatever was recorded
before.
-/

namespace StaticCheck

open Rule

/-!
## More loops on the list
-/

section Listed

variable {loops more : List (String × NodeId)} {place : Place}

theorem Exits.Allowed.listed_mono {exits : Exits}
    (h : exits.Allowed (.listed loops) place) (hsub : loops ⊆ more) :
    exits.Allowed (.listed more) place := by
  intro loop hloop
  exact hsub (h loop hloop)

theorem Ty.obeys_listed_mono {ty : Ty} (h : Obeys (.listed loops) ty)
    (hsub : loops ⊆ more) : Obeys (.listed more) ty := by
  have hexits : ty.exits.Allowed (.listed loops) .outside :=
    ty.allowed_iff.mpr h
  exact ty.allowed_iff.mp (hexits.listed_mono hsub)

theorem Symbol.obeys_listed_mono {symbol : Symbol}
    (h : Obeys (.listed loops) symbol) (hsub : loops ⊆ more) :
    Obeys (.listed more) symbol where
  ty _ hmem := Ty.obeys_listed_mono (h.ty _ hmem) hsub
  params _ hmem := Ty.obeys_listed_mono (h.params _ hmem) hsub
  result _ hmem := Ty.obeys_listed_mono (h.result _ hmem) hsub
  ascribed _ hmem := Ty.obeys_listed_mono (h.ascribed _ hmem) hsub
  aliased _ hmem := Ty.obeys_listed_mono (h.aliased _ hmem) hsub
  initializer value hmem place := by
    have hexits := value.suits_iff.mp (h.initializer value hmem Place.outside)
    exact value.suits_iff.mpr (hexits.listed_mono hsub).anywhere

theorem Program.Allowed.listed_mono {program : Program}
    (h : program.Allowed (.listed loops)) (hsub : loops ⊆ more) :
    program.Allowed (.listed more) := by
  intro module hmodule stmt hstmt
  exact stmt.suits_iff.mpr
      ((stmt.suits_iff.mp (h module hmodule stmt hstmt)).listed_mono hsub)

end Listed

/-!
## Sessions that operations lead to
-/

/-- A session that a checker gets into by operations with the given loops:
between two operations, or amidst one, in a trial or in another scope. -/
inductive Session.Reached (start : Session) (loops : List (String × NodeId)) :
    Session → Prop
  | start : Reached start loops start
  | run {s : Session} {operation : Operation} (hs : Reached start loops s)
      (hloops : operation.exits.loops ⊆ loops) :
      Reached start loops (operation.run s).2
  | enter {s : Session} (scope : ScopeId) (hs : Reached start loops s) :
      Reached start loops { s with tree := s.tree.enter scope }
  | beginTrial {s : Session} (hs : Reached start loops s) :
      Reached start loops { s with cache := s.cache.beginTrial }

variable {program : Program} {options : Options} {evaluator : Evaluator}
  {loops : List (String × NodeId)} {s : Session}

theorem Session.Guards.run {operation : Operation}
    (hloops : operation.exits.loops ⊆ loops)
    (h : ((Session.new program options).withEvaluator evaluator).Guards
      (.listed (program.loops ++ loops)) s) :
    s.Guards (.listed (program.loops ++ loops)) (operation.run s).2 := by
  have hexits : operation.exits.Allowed
      (.listed (program.loops ++ loops)) .outside :=
    fun loop hloop => List.mem_append_right _ (hloops hloop)
  have hprogram : s.program.Allowed (.listed (program.loops ++ loops)) := by
    rw [h.program]
    exact program.allowed_loops.listed_mono (List.subset_append_left _ _)
  exact operation.guarded hexits s h.within hprogram

theorem Session.Reached.guards
    (h : ((Session.new program options).withEvaluator evaluator).Reached loops
      s) :
    ((Session.new program options).withEvaluator evaluator).Guards
      (.listed (program.loops ++ loops)) s := by
  induction h with
  | start =>
    refine ⟨Session.new_within_of_obeys evaluator fun id =>
      ?_, rfl, .refl _, .refl _⟩
    exact Symbol.obeys_listed_mono (Symbol.Fits.of_tree program id).obeys
      (List.subset_append_left _ _)
  | run _ hloops ih =>
    have hstep := ih.run hloops
    exact ⟨hstep.within, hstep.program.trans ih.program,
      ih.tree.trans hstep.tree, ih.keeps.trans hstep.keeps⟩
  | enter scope _ ih =>
    exact ⟨ih.within.setTree ih.within.symbols, ih.program, { ih.tree with },
      { ih.keeps with }⟩
  | beginTrial _ ih =>
    exact ⟨ih.within.setCache ih.within.cache.beginTrial, ih.program,
      ih.tree, ih.keeps⟩

/-- Whatever is asked of a checker in whichever session it is in, a recorded
type stays, unless it is that of a symbol that a loop binds. -/
theorem recorded_types_stay
    {operation : Operation}
    {id : SymbolId}
    {ty : Ty}
    (hs : ((Session.new program options).withEvaluator evaluator).Reached loops
      s)
    (hloops : operation.exits.loops ⊆ loops)
    (hfree : s.tree.NoLoopBinds (program.loops ++ loops) id)
    (hty : (s.tree.symbol id).ty = some ty) :
    ((operation.run s).2.tree.symbol id).ty = some ty := by
  exact (hs.guards.run hloops).keeps.types _ rfl id hfree ty hty

def loopBeforeShadow (ty : Ty) : Program :=
  soleModule [
    ⟨⟨1⟩, .none,
      .letDecl
      ⟨"a", .priv, false, some (.array (.int true 32) (.fixed 2) false),
        some ⟨⟨2⟩, .none, .literal .undefined⟩⟩⟩,
    ⟨⟨3⟩, .none, .func ⟨⟨4⟩, "f", .priv, [], some .void, none, ⟨⟨5⟩, [
      ⟨⟨6⟩, .none, .forLoop "x" ⟨⟨7⟩, .none, .ident "a"⟩ ⟨⟨8⟩, [], .none⟩⟩,
      ⟨⟨9⟩, .none, .letDecl ⟨"a", .priv, false, some ty,
        some ⟨⟨10⟩, .none, .literal .undefined⟩⟩⟩], .none⟩, .none⟩⟩]

def Program.passedOnce (program : Program) : Session :=
  (Operation.reset.run
    (Operation.handle.run
      ((Session.new program {}).withEvaluator .literal)).2).2

theorem Program.passedOnce_reached (program : Program) :
    ((Session.new program {}).withEvaluator .literal).Reached []
      program.passedOnce := by
  exact .run (.run .start (List.nil_subset _)) (List.nil_subset _)

/-- The array of the module keeps its type in a trial of a further pass. -/
theorem recorded_types_stay_of_shadow :
    ∃ ty, ((loopBeforeShadow .bool).passedOnce.tree.symbol ⟨0⟩).ty = some ty ∧
      (((Operation.trial [.handle]).run
        (loopBeforeShadow .bool).passedOnce).2.tree.symbol ⟨0⟩).ty =
        some ty := by
  have htyped :
      ((loopBeforeShadow .bool).passedOnce.tree.symbol ⟨0⟩).ty.isSome =
      true := by
    decide +kernel
  obtain ⟨ty, hty⟩ := Option.isSome_iff_exists.mp htyped
  have hfree : (loopBeforeShadow .bool).passedOnce.tree.NoLoopBinds
      ((loopBeforeShadow .bool).loops ++ []) ⟨0⟩ := by
    decide +kernel
  exact ⟨ty, hty,
    recorded_types_stay (loopBeforeShadow .bool).passedOnce_reached
    (List.nil_subset _) hfree hty⟩

/-- In the second pass the loop finds the variable of the function declared: its
own variable, typed in the first pass, gets another type or loses it. -/
theorem loop_variable_types_change :
    [loopBeforeShadow (.array .bool (.fixed 2) false),
      loopBeforeShadow .bool].map (fun program =>
      ((program.passedOnce.tree.symbol ⟨2⟩).ty.map Ty.text,
        ((Operation.handle.run program.passedOnce).2.tree.symbol ⟨2⟩).ty.map
        Ty.text)) =
      [(some "i32", some "bool"), (some "i32", none)] := by
  decide +kernel

end StaticCheck
