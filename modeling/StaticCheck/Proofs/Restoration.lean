import StaticCheck.Proofs.Preservation

/-!
# Walks come back to where they started

Inference and checking walk through a program by entering scopes, opening loops
and frames, and marking what is under way.  However such a walk ends, with an
answer or without, it leaves the checker at the place where it started.
-/

namespace StaticCheck

open Rule

/-- The checker stands at the same place of the program.  The function around,
if there is one, may have been marked as left by a return or a throw. -/
structure Session.SamePlace (before after : Session) : Prop where
  scope : after.tree.current = before.tree.current
  context : after.context = before.context
  inFlight : after.inFlight = before.inFlight
  unfolding : after.unfolding = before.unfolding
  passStart : after.passStart = before.passStart
  module : after.module = before.module
  noFrame : before.frame = none → after.frame = none
  frame : ∀ frame, before.frame = some frame →
    ∃ returned thrown : Bool, after.frame = some { frame with
      hasReturn := frame.hasReturn || returned
      hasThrow := frame.hasThrow || thrown }

theorem Frame.Advances.eq_marked {a b : Frame} (h : a.Advances b) :
    b = { a with
      hasReturn := a.hasReturn || b.hasReturn
      hasThrow := a.hasThrow || b.hasThrow } := by
  have hreturn : (a.hasReturn || b.hasReturn) = b.hasReturn := by
    cases hbefore : a.hasReturn with
    | false => rfl
    | true => simp [h.hasReturn hbefore]
  have hthrow : (a.hasThrow || b.hasThrow) = b.hasThrow := by
    cases hbefore : a.hasThrow with
    | false => rfl
    | true => simp [h.hasThrow hbefore]
  rw [hreturn, hthrow]
  exact h.fixed

theorem Session.Advances.samePlace {before after : Session}
    (h : before.Advances after) : before.SamePlace after where
  scope := h.tree.current
  context := h.context
  inFlight := h.inFlight
  unfolding := h.unfolding
  passStart := h.passStart
  module := h.module
  noFrame hnone := by
    have hframe := h.frame
    rw [hnone] at hframe
    cases hafter : after.frame with
    | none => rfl
    | some frame =>
      rw [hafter] at hframe
      cases hframe
  frame frame hsome := by
    have hframe := h.frame
    rw [hsome] at hframe
    cases hafter : after.frame with
    | none =>
      rw [hafter] at hframe
      cases hframe
    | some later =>
      rw [hafter] at hframe
      cases hframe with
      | some hlater =>
        refine ⟨later.hasReturn, later.hasThrow, ?_⟩
        rw [← hlater.eq_marked]

/-- Whatever it answers and whatever it reports, every walk over an expression,
a statement, a list of statements or a function leaves the checker at the place
where it started. -/
theorem walks_return_to_their_place
    (n : Nat)
    (s : Session) :
    (∀ expr, s.SamePlace (inferExpr expr (Judge.limited n) s).2) ∧
    (∀ expr expected,
      s.SamePlace
      (withExpected expected (inferExpr expr) (Judge.limited n) s).2) ∧
    (∀ stmt, s.SamePlace (validateStmt stmt (Judge.limited n) s).2) ∧
    (∀ stmts, s.SamePlace (checkStatements stmts (Judge.limited n) s).2) ∧
    (∀ func owner,
      s.SamePlace (checkFunction func owner (Judge.limited n) s).2) := by
  have hplace : ∀ {α : Type} [Found α] {rule : Rule α},
      Composed .free .outside rule → s.SamePlace (rule (Judge.limited n) s).2 :=
    fun hrule => (hrule.advances n s).samePlace
  refine ⟨fun expr => ?_, fun expr expected => ?_, fun stmt => ?_,
    fun stmts => ?_, fun func owner => ?_⟩
  · exact hplace (.inferExpr (Expr.suits_free _))
  · exact hplace
      (.withExpected (fits_free expected) (.inferExpr (Expr.suits_free _)))
  · exact hplace (.validateStmt (Stmt.suits_free _))
  · exact hplace (.checkStatements fun stmt _ => stmt.suits_free)
  · exact hplace (.checkFunction (func.suits_iff.mpr Exits.allowed_free))

end StaticCheck
