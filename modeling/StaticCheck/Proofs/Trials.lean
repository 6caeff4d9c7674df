import StaticCheck.Proofs.Cache.Rollback
import StaticCheck.Proofs.Verdict

/-!
# Trials leave no trace

A trial runs a part of the checker in earnest and then takes back what it did,
by four different means: the reports are cut off, the cache replays its journal,
the frame is put back, and the place in the program is restored.  Here it is
proved that they agree, whatever the trial runs into, further trials included.

For the cache this needs to know what a check can do to it.  Every rule only
inserts and holds trials of its own, so its work on the cache is a list of
`CacheStep`s; what the end of the trial makes of such a list is known from the
theory of the cache.
-/

namespace StaticCheck

open Rule

variable {α β : Type}
variable {judge : Judge} {s : Session}

/-!
## Work on the cache
-/

/-- All that the check does to the cache are insertions and whole trials. -/
def WorksInSteps (check : Check α) : Prop :=
  ∀ s : Session, ∃ steps, (check s).2.cache = CacheStep.runAll steps s.cache

abbrev Judge.WorksInSteps (judge : Judge) : Prop :=
  judge.Answers Policy.free.regime.loose fun _ _ _ check =>
    StaticCheck.WorksInSteps check

namespace WorksInSteps

theorem still {check : Check α} (h : ∀ s, (check s).2.cache = s.cache) :
    WorksInSteps check :=
  fun s => ⟨[], h s⟩

theorem bind {check : Check α} {next : α → Check β}
    (hcheck : WorksInSteps check) (hnext : ∀ a, WorksInSteps (next a)) :
    WorksInSteps (check >>= next) := by
  intro s
  obtain ⟨first, hfirst⟩ := hcheck s
  obtain ⟨second, hsecond⟩ := hnext (check s).1 (check s).2
  refine ⟨first ++ second, ?_⟩
  rw [CacheStep.runAll_append, ← hfirst]
  exact hsecond

theorem bindRule {rule : Rule α} {next : α → Rule β}
    (hrule : WorksInSteps (rule judge))
    (hnext : ∀ a, WorksInSteps (next a judge)) :
    WorksInSteps ((rule >>= next) judge) :=
  bind hrule hnext

theorem discard {check : Check α} (hcheck : WorksInSteps check) :
    WorksInSteps (Functor.discard check) :=
  fun s => hcheck s

theorem typedOnce {id : SymbolId} {typing : Symbol → Rule (Option Ty)}
    (htyping : ∀ symbol, WorksInSteps (typing symbol judge)) :
    WorksInSteps (typedOnce id typing judge) := by
  intro s
  cases hty : (s.tree.symbol id).ty with
  | some ty =>
    rw [Rule.typedOnce_of_some hty]
    exact ⟨[], rfl⟩
  | none =>
    obtain ⟨steps, hsteps⟩ := htyping (s.tree.symbol id) s
    rw [Rule.typedOnce_of_none hty]
    generalize typing (s.tree.symbol id) judge s = typed at hsteps
    obtain ⟨answer, t⟩ := typed
    cases answer with
    | none => exact ⟨steps, hsteps⟩
    | some ty => exact ⟨steps, hsteps⟩

theorem speculate {rule : Rule α} (hrule : WorksInSteps (rule judge)) :
    WorksInSteps (speculate rule judge) := by
  intro s
  obtain ⟨steps, hsteps⟩ := hrule { s with cache := s.cache.beginTrial }
  exact ⟨[.trial steps], congrArg TypeCache.rollbackTrial hsteps⟩

theorem memoized {expr : Expr} (hkind : WorksInSteps (inferKind expr judge)) :
    WorksInSteps (inferExpr expr judge) := by
  unfold inferExpr
  refine bindRule (still fun _ => rfl) fun key => bindRule (still fun _ => rfl)
    fun known => ?_
  cases known with
  | some ty => exact .still fun _ => rfl
  | none =>
    refine bindRule (still fun _ => rfl) fun busy => ?_
    cases busy with
    | true => exact .still fun _ => rfl
    | false =>
      refine bindRule (fun s => hkind _) fun answer => ?_
      cases answer with
      | none => exact .still fun _ => rfl
      | some ty =>
        exact bindRule (fun s => ⟨[.insert key ty], rfl⟩) fun _ =>
          .still fun _ => rfl

end WorksInSteps

theorem Attested.worksInSteps {place : Policy.free.regime.loose.Place} [Found α]
    {rule : Rule α} (h : Attested Policy.free.regime.loose place rule)
    (hjudge : judge.WorksInSteps) :
    WorksInSteps (rule judge) := by
  induction h with
  | pure _ => exact .still fun _ => rfl
  | bind _ _ hrule hnext =>
    exact .bind hrule fun a => hnext a (fits_free a)
  | askType hexpr => exact hjudge.infer hexpr
  | askValid hstmt => exact hjudge.validate hstmt
  | askResolved hty => exact hjudge.resolve .outside hty
  | askCompatible =>
    exact hjudge.compatible .outside (fits_free _) (fits_free _)
  | askCastable => exact hjudge.castable .outside (fits_free _) (fits_free _)
  | askValue _ hvalue => exact hjudge.checkValue (fits_free _) hvalue
  | askPeeled => exact hjudge.peel .outside (fits_free _)
  | seeTree _ hnext =>
    exact fun s => hnext s.tree ⟨Policy.describes (Answer.free _), False.elim⟩ s
  | expected? | isUnfolding | evaluator | containsType | isInStatic | isInLoop
  | frame? | report
  | reportInternal | reportCast | updateSymbol | bindLoop | updateFrame =>
    exact .still fun _ => rfl
  | misusesInstance =>
    apply WorksInSteps.still
    intro s
    rw [Rule.misusesInstance_run]
  | typedOnce _ _ htyping =>
    exact .typedOnce fun symbol => htyping symbol (fits_free symbol)
  | withScope _ hrule | withSpan _ hrule | withDeclaration _ hrule
  | withExpected _ _ hrule
  | withLoop _ hrule | withUnfolding _ hrule | withSavedState _ hrule =>
    exact fun s => hrule _
  | speculate _ hrule => exact .speculate hrule
  | withFrame _ _ _ _ hrule hnext hlost =>
    refine .bindRule (fun s => hrule _) fun walked => ?_
    obtain ⟨_ | finished, a⟩ := walked
    · exact hlost trivial a
    · exact hnext finished a
  | memoized _ _ hkind => exact .memoized hkind

theorem Judge.limited_worksInSteps (n : Nat) : (limited n).WorksInSteps := by
  exact limited_answers (fun _ _ => .still fun _ => rfl)
    (fun h ih => h.worksInSteps ih) n

/-!
## Sessions that a checker gets into
-/

/-- A session that a checker can be in: between calls, or amidst one, where
nothing is assumed but that the cache is changed by its own operations. -/
inductive Session.Reachable : Session → Prop
  | opened (program : Program) (options : Options) (evaluator : Evaluator) :
      Reachable ((Session.new program options).withEvaluator evaluator)
  | called {s : Session} (h : Reachable s) (call : Call) :
      Reachable (call.run s)
  | amidst {s t : Session} (h : Reachable s)
      (hcache : t.cache = s.cache ∨ ∃ operation : TypeCache.Operation,
        t.cache = operation.run s.cache) : Reachable t

theorem WorksInSteps.consistent {check : Check α} (h : WorksInSteps check)
    (hs : s.cache.Consistent) : (check s).2.cache.Consistent := by
  obtain ⟨steps, hsteps⟩ := h s
  rw [hsteps]
  exact (TypeCache.Reversible.runAll hs steps).consistent

theorem Composed.asks_in_steps [Found α] {rule : Rule α}
    (h : Composed .free .outside rule) (size : Nat) :
    WorksInSteps (Check.ask size rule) := by
  intro s
  exact h.worksInSteps (Judge.limited_worksInSteps (s.depth size)) s

mutual

theorem Question.worksInSteps (question : Question) :
    WorksInSteps question.ask := by
  cases question with
  | infer expr =>
    have hrule : Composed .free .outside (Rule.inferExpr expr) :=
      .inferExpr (Expr.suits_free _)
    exact .discard (hrule.asks_in_steps expr.size)
  | inferExpecting expr expected =>
    have hrule : Composed .free .outside
        (Rule.withExpected expected (Rule.inferExpr expr)) :=
      .withExpected (fits_free expected) (.inferExpr (Expr.suits_free _))
    exact .discard (hrule.asks_in_steps _)
  | validate stmt =>
    have hrule : Composed .free .outside (Rule.validateStmt stmt) :=
      .validateStmt (Stmt.suits_free _)
    exact .discard (hrule.asks_in_steps stmt.size)
  | trial questions =>
    have htrial : WorksInSteps (Check.speculate (Question.askAll questions)) :=
      .speculate (Question.worksInSteps_all questions)
    exact .discard htrial

theorem Question.worksInSteps_all (questions : List Question) :
    WorksInSteps (Question.askAll questions) := by
  cases questions with
  | nil => exact .still fun _ => rfl
  | cons question rest =>
    exact .bind (Question.worksInSteps question) fun _ =>
      Question.worksInSteps_all rest

end

theorem checkModule_worksInSteps (module : Module) (n : Nat) :
    WorksInSteps (checkModule module (Judge.limited n)) := by
  intro s
  cases hscope : s.tree.nodeScope? module.id with
  | none =>
    rw [checkModule_of_none _ hscope]
    exact ⟨[], rfl⟩
  | some scope =>
    rw [checkModule_of_scope _ hscope]
    have hbody : Composed .free .outside
        (withScope scope (checkStatements module.body)) :=
      .withScope (.checkStatements fun stmt _ => stmt.suits_free)
    exact hbody.worksInSteps (Judge.limited_worksInSteps n) _

theorem Check.modules_worksInSteps (index : Nat) (modules : List Module) :
    WorksInSteps (Check.modules index modules) := by
  induction modules generalizing index with
  | nil => exact .still fun _ => rfl
  | cons module rest ih =>
    have hreport (result : Except Finding Unit) : Composed .free .outside
        (reportFailure result) :=
      .reportFailure result
    have hmodule : WorksInSteps (Check.module index module) := by
      intro s
      have hcheck := checkModule_worksInSteps module (s.depth 0)
      have hfailure (result : Except Finding Unit) :=
        (hreport result).worksInSteps (Judge.limited_worksInSteps (s.depth 0))
      exact hcheck.bind hfailure { s with module := index }
    intro s
    rw [Check.modules_cons]
    exact hmodule.bind (fun _ => ih (index + 1)) s

theorem Call.consistent_run (hs : s.cache.Consistent) (call : Call) :
    (call.run s).cache.Consistent := by
  cases call with
  | handle =>
    exact (Check.modules_worksInSteps 0 s.program.modules).consistent hs
  | reset => exact .clear s.cache
  | ask question => exact question.worksInSteps.consistent hs

theorem Session.Reachable.consistent (h : s.Reachable) :
    s.cache.Consistent := by
  induction h with
  | opened program options evaluator => exact .new options.cacheCapacity
  | called _ call ih => exact Call.consistent_run ih call
  | amidst _ hcache ih =>
    rcases hcache with hsame | ⟨operation, hrun⟩
    · rw [hsame]
      exact ih
    · rw [hrun]
      exact ih.run operation

/-!
## What a trial leaves behind
-/

def trialEnd (rule : Rule α) (judge : Judge) (s : Session) : Session :=
  (withSavedState rule judge { s with cache := s.cache.beginTrial }).2

/-- After the trial the session is at the place where it was, with the reports,
the frame and the open trials that it had, and the cache has lost nothing but
old keys, and none if no key was evicted.  The flag tells whether the trial
added an error to the reports. -/
structure LeavesNoTrace (rule : Rule α) (judge : Judge) (s : Session) :
    Prop where
  diagnostics : (speculate rule judge s).2.diagnostics = s.diagnostics
  frame : (speculate rule judge s).2.frame = s.frame
  context : (speculate rule judge s).2.context = s.context
  scope : (speculate rule judge s).2.tree.current = s.tree.current
  inFlight : (speculate rule judge s).2.inFlight = s.inFlight
  unfolding : (speculate rule judge s).2.unfolding = s.unfolding
  trials : (speculate rule judge s).2.cache.trials = s.cache.trials
  order : (speculate rule judge s).2.cache.order <:+ s.cache.order
  types : ∀ key, (speculate rule judge s).2.cache.get? key =
    if key ∈ (speculate rule judge s).2.cache.order then s.cache.get?
      key else none
  steps : ∃ steps, (trialEnd rule judge s).cache =
    CacheStep.runAll steps s.cache.beginTrial
  unevicted : ∀ steps, (trialEnd rule judge s).cache =
    CacheStep.runAll steps s.cache.beginTrial →
    CacheStep.evictsAny steps s.cache.beginTrial = false →
    (speculate rule judge s).2.cache = s.cache
  added : s.diagnostics.items <+: (trialEnd rule judge s).diagnostics.items
  failed : (speculate rule judge s).1.2 = true ↔
    ∃ report ∈ (trialEnd rule judge s).diagnostics.items.drop
    s.diagnostics.items.length, report.severity = .error

theorem Diagnostics.truncate_of_prefix {before after : Diagnostics}
    (h : before.items <+: after.items) :
    after.truncate before.size = before := by
  unfold truncate size
  rw [← List.prefix_iff_eq_take.mp h]

theorem leavesNoTrace {rule : Rule α} (hs : s.cache.Consistent)
    (hadvances : { s with cache := s.cache.beginTrial }.Advances
      (trialEnd rule judge s))
    (hsteps : WorksInSteps (rule judge)) : LeavesNoTrace rule judge s := by
  obtain ⟨steps, hrun⟩ := hsteps { s with cache := s.cache.beginTrial }
  have hend : (trialEnd rule judge s).cache =
      CacheStep.runAll steps s.cache.beginTrial := hrun
  have hbody := TypeCache.Reversible.runAll hs.beginTrial steps
  rw [← hend] at hbody
  obtain ⟨hremains, htrials, -⟩ := hbody.rollback
  have hadded : s.diagnostics.items <+:
      (trialEnd rule judge s).diagnostics.items :=
    hadvances.diagnostics
  constructor
  · exact Diagnostics.truncate_of_prefix hadded
  · rfl
  · exact hadvances.context
  · exact hadvances.tree.current
  · exact hadvances.inFlight
  · exact hadvances.unfolding
  · exact htrials
  · exact hremains.order
  · exact hremains.get?_eq hbody.consistent.rollbackTrial hs
  · exact ⟨steps, hend⟩
  -- Any account of the trial in steps will do, not only the one found above.
  · intro others hothers hnone
    have hother := TypeCache.Reversible.runAll hs.beginTrial others
    rw [← hothers, hnone] at hother
    exact hother.rollback.2.2 rfl
  · exact hadded
  · have hflag : (speculate rule judge s).1.2 =
        decide
          (0 < (trialEnd rule judge s).diagnostics.errorsSince
            s.diagnostics.size) := rfl
    rw [hflag, decide_eq_true_eq]
    unfold Diagnostics.errorsSince
    rw [List.countP_pos_iff]
    simp only [Diagnostic.isError, beq_iff_eq]
    rfl

theorem Composed.leavesNoTrace [Found α] {rule : Rule α}
    (h : Composed .free .outside rule) (n : Nat) (hs : s.cache.Consistent) :
    LeavesNoTrace rule (Judge.limited n) s := by
  have hsaved : Composed .free .outside (Rule.withSavedState rule) :=
    .withSavedState h
  exact StaticCheck.leavesNoTrace hs (hsaved.advances n _)
    (h.worksInSteps (Judge.limited_worksInSteps n))

/-- In every session that a checker gets into, a trial leaves no trace: the
trial of an expression where a type is expected, the trial of a candidate for
the shape of a literal, and a trial of several questions, which may be trials
themselves. -/
theorem trials_leave_no_trace
    {s : Session}
    (hs : s.Reachable)
    (n : Nat) :
    (∀ expr expected, LeavesNoTrace (withExpected expected (inferExpr expr))
      (Judge.limited n) s) ∧
    (∀ struct fields, LeavesNoTrace (fitsShape struct fields)
      (Judge.limited n) s) ∧
    (∀ questions, LeavesNoTrace (fun _ => Question.askAll questions)
      Judge.exhausted s) := by
  have hcache := hs.consistent
  refine ⟨fun expr expected => ?_, fun struct fields => ?_, fun questions => ?_⟩
  · have hrule : Composed .free .outside
        (withExpected expected (inferExpr expr)) :=
      .withExpected (fits_free expected) (.inferExpr (Expr.suits_free _))
    exact hrule.leavesNoTrace n hcache
  · have hrule : Composed .free .outside (fitsShape struct fields) :=
      .fitsShape (Answer.free struct) fun field _ => field.value.suits_free
    exact hrule.leavesNoTrace n hcache
  · have hsaved : Preserves .free .outside
        (withSavedState (fun _ => Question.askAll questions) Judge.exhausted) :=
      .withSavedState (Question.preserves_all questions)
    apply leavesNoTrace hcache
    · exact (hsaved _ (Session.within_free _)).advances
    · exact Question.worksInSteps_all questions

def fullSession : Session :=
  Call.run ((Session.new ⟨[]⟩ { cacheCapacity := 1 }).withEvaluator .literal)
    (.ask (.infer ⟨⟨1⟩, .none, .literal (.bool true)⟩))

/-- A trial that evicts the only type that is remembered, and reports an
error. -/
theorem trials_leave_no_trace_of_eviction :
    let expr : Expr := ⟨⟨2⟩, .none, .tuple
      [⟨⟨3⟩, .none, .literal (.bool true)⟩, ⟨⟨4⟩, .none, .ident "x"⟩]⟩
    let trial := speculate (withExpected none (inferExpr expr))
      (Judge.limited 3) fullSession
    fullSession.Reachable ∧ fullSession.cache.size = 1 ∧ trial.1.2 = true ∧
      trial.2.cache.size = 0 ∧
      LeavesNoTrace (withExpected none (inferExpr expr)) (Judge.limited 3)
      fullSession := by
  intro expr trial
  have hreachable : fullSession.Reachable := .called (.opened _ _ _) _
  refine ⟨hreachable, by decide +kernel, by decide +kernel, by
    decide +kernel, ?_⟩
  exact (trials_leave_no_trace hreachable 3).1 expr none

end StaticCheck
