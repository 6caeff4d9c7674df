import StaticCheck.Proofs.Pass

/-!
# Reports and verdicts over a history of calls

A checker is called in any order: passes, resets, single questions, and trials
of questions.  Along every such history the list of reports only grows at its
end, and a pass fails exactly if an error was reported since the last pass or
reset ended.
-/

namespace StaticCheck

/-- A question that can be asked between passes.  A trial asks several and takes
back what they reported. -/
inductive Question
  | infer (expr : Expr)
  | inferExpecting (expr : Expr) (expected : Option Ty)
  | validate (stmt : Stmt)
  | trial (questions : List Question)

mutual

def Question.ask : Question → Check Unit
  | .infer expr => discard (Check.infer expr)
  | .inferExpecting expr expected =>
    discard (Check.inferExpecting expr expected)
  | .validate stmt => discard (Check.validate stmt)
  | .trial questions => discard (Check.speculate (Question.askAll questions))

def Question.askAll : List Question → Check Unit
  | [] => return ()
  | question :: rest => do
    question.ask
    Question.askAll rest

end

inductive Call
  | handle
  | reset
  | ask (question : Question)

namespace Call

def run (s : Session) : Call → Session
  | .handle => (Check.handle s).2
  | .reset => (Check.reset s).2
  | .ask question => (question.ask s).2

def startsCount : Call → Bool
  | .handle | .reset => true
  | .ask _ => false

def runAll (start : Session) (calls : List Call) : Session :=
  calls.foldl run start

/-- Number of reports at the end of the last pass or reset of a history; `count`
if it has none. -/
def lastCount (start : Session) (count : Nat) : List Call → Nat
  | [] => count
  | call :: rest =>
    lastCount (call.run start)
      (if call.startsCount then (call.run start).diagnostics.size else count)
        rest

end Call

/-!
## One call
-/

mutual

theorem Question.preserves (question : Question) :
    Preserves .free .outside question.ask := by
  cases question with
  | infer expr =>
    have hrule : Composed .free .outside (Rule.inferExpr expr) :=
      .inferExpr (Expr.suits_free _)
    exact .bind (fun s => hrule.preserves (Judge.limited_preserves _) s)
      fun _ _ => .pure trivial
  | inferExpecting expr expected =>
    have hrule : Composed .free .outside
        (Rule.withExpected expected (Rule.inferExpr expr)) :=
      .withExpected (fits_free expected) (.inferExpr (Expr.suits_free _))
    exact .bind (fun s => hrule.preserves (Judge.limited_preserves _) s)
      fun _ _ => .pure trivial
  | validate stmt =>
    have hrule : Composed .free .outside (Rule.validateStmt stmt) :=
      .validateStmt (Stmt.suits_free _)
    exact .bind (fun s => hrule.preserves (Judge.limited_preserves _) s)
      fun _ _ => .pure trivial
  | trial questions =>
    have htrial : Preserves .free .outside
        (Check.speculate (Question.askAll questions)) :=
      .speculate (Question.preserves_all questions)
    exact .bind htrial fun _ _ => .pure trivial

theorem Question.preserves_all (questions : List Question) :
    Preserves .free .outside (Question.askAll questions) := by
  cases questions with
  | nil => exact .pure trivial
  | cons question rest =>
    exact .bind (Question.preserves question) fun _ _ =>
      Question.preserves_all rest

end

theorem Question.advances (question : Question) (s : Session) :
    s.Advances (question.ask s).2 := by
  exact (question.preserves s s.within_free).advances

theorem Call.keeps_reports (call : Call) (s : Session) :
    s.diagnostics.items <+: (call.run s).diagnostics.items := by
  cases call with
  | handle => exact (Check.checked_progress s).diagnostics
  | reset => exact List.prefix_rfl
  | ask question => exact (question.advances s).diagnostics

theorem Call.passStart_run (call : Call) (s : Session) :
    (call.run s).passStart =
      if call.startsCount then (call.run s).diagnostics.size
      else s.passStart := by
  cases call with
  | handle => rfl
  | reset => rfl
  | ask question => exact (question.advances s).passStart

/-!
## Histories
-/

theorem Call.passStart_runAll (start : Session) (count : Nat)
    (calls : List Call) (hcount : start.passStart = count) :
    (Call.runAll start calls).passStart = Call.lastCount start count calls := by
  induction calls generalizing start count with
  | nil => exact hcount
  | cons call rest ih =>
    refine ih (call.run start) _ ?_
    rw [call.passStart_run, hcount]

theorem Diagnostics.errorsSince_eq_zero (log : Diagnostics) (start : Nat) :
    (log.errorsSince start == 0) = false ↔
      ∃ report ∈ log.items.drop start, report.severity = .error := by
  have hcount : log.errorsSince start = 0 ↔
      ∀ report ∈ log.items.drop start, ¬report.isError =
      true := List.countP_eq_zero
  rw [beq_eq_false_iff_ne, ne_eq, hcount]
  simp [Diagnostic.isError]

/-- Each call, also one inside a trial, keeps the reports before it in front of
its own.  After every history of calls a pass fails if and only if an error was
reported after the end of the last pass or reset, or at all if there was
none. -/
theorem reports_grow_and_verdict_exact
    (program : Program)
    (options : Options)
    (evaluator : Evaluator)
    (calls : List Call) :
    let start := (Session.new program options).withEvaluator evaluator
    let s := Call.runAll start calls
    (∀ (t : Session) (call : Call),
      t.diagnostics.items <+: (call.run t).diagnostics.items) ∧
      ((Check.handle s).1 = false ↔
        ∃ report ∈
        (Check.handle s).2.diagnostics.items.drop (Call.lastCount start 0
          calls), report.severity = .error) := by
  intro start s
  refine ⟨fun t call => call.keeps_reports t, ?_⟩
  have hstart : s.passStart = Call.lastCount start 0 calls :=
    Call.passStart_runAll start 0 calls rfl
  have hkept : (Check.checked s).passStart = s.passStart :=
    (Check.checked_progress s).passStart
  rw [Check.handle_eq, hkept, hstart]
  exact Diagnostics.errorsSince_eq_zero _ _

end StaticCheck
