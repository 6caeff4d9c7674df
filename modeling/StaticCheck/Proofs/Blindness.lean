import StaticCheck.Proofs.Preservation

/-!
# Where a symbol is typed from

A symbol is typed on first use, and the use may stand in the body of any
function.  If nothing that is looked at on the way has an exit that leaves it,
then the typing does not see the function or the loop that the use stands in: it
goes the same way wherever it starts.
-/

namespace StaticCheck

open Rule

variable {place : Place} {α β : Type}
variable {judge : Judge}

namespace Session

def inside (s : Session) (frame : Option Frame) (depth : Nat) : Session :=
  { s with frame, context := s.context.setLoopDepth depth }

/-- The session as it would stand under another function, if its place is not in
one of its own, and another number of loops. -/
def elsewhere (place : Place) (frame : Option Frame) (depth : Nat)
    (s : Session) : Session :=
  s.inside (if place = .inFunction then s.frame else frame) depth

end Session

structure Session.LooksLike (place : Place) (s : Session) (frame : Option Frame)
    (depth : Nat) : Prop where
  owner : staticOwner? frame = staticOwner? s.frame
  loop : place ≠ .outside → (0 < depth ↔ 0 < s.context.loopDepth)

/-- The check goes the same way under every function and every number of loops
that look alike. -/
def Blind (place : Place) (check : Check α) : Prop :=
  ∀ (s : Session) (frame : Option Frame) (depth : Nat), s.Within .closed place →
    s.LooksLike place frame depth →
    check (s.elsewhere place frame depth) =
      ((check s).1, (check s).2.elsewhere place frame depth)

abbrev Judge.Blind (judge : Judge) : Prop :=
  judge.Answers Policy.closed.regime.loose fun place _ _ check =>
    StaticCheck.Blind place check

/-!
## Single steps
-/

theorem Session.Advances.staticOwner_eq {a b : Session} (h : a.Advances b) :
    staticOwner? b.frame = staticOwner? a.frame := by
  have hframe := h.frame
  generalize a.frame = before at hframe
  generalize b.frame = after at hframe
  cases hframe with
  | none => rfl
  | some hlater =>
    rw [hlater.fixed]
    rfl

theorem Session.LooksLike.advance {a b : Session} {frame : Option Frame}
    {depth : Nat} (h : a.LooksLike place frame depth)
    (hadvance : a.Advances b) :
    b.LooksLike place frame depth where
  owner := h.owner.trans hadvance.staticOwner_eq.symm
  loop hplace := by
    rw [hadvance.context]
    exact h.loop hplace

theorem Session.elsewhere_tree (s : Session) (frame : Option Frame)
    (depth : Nat) : (s.elsewhere place frame depth).tree = s.tree := rfl

theorem Session.elsewhere_staticOwner {s : Session} {frame : Option Frame}
    {depth : Nat} (h : s.LooksLike place frame depth) :
    staticOwner? (s.elsewhere place frame depth).frame =
      staticOwner? s.frame := by
  show staticOwner? (if place = .inFunction then s.frame else frame) = _
  split
  · rfl
  · exact h.owner

namespace Blind

variable {rule : Rule α}

theorem pure (a : α) : Blind place (Pure.pure a : Check α) :=
  fun _ _ _ _ _ => rfl

theorem bind [Answer α] {check : Check α} {next : α → Check β}
    (hcheck : Blind place check) (hstep : Preserves .closed place check)
    (hnext : ∀ a, Obeys .closed a → Blind place (next a)) :
    Blind place (check >>= next) := by
  intro s frame depth hs hlooks
  have hfirst := hstep s hs
  have hsecond := hnext _ hfirst.answer _ frame depth hfirst.within
    (hlooks.advance hfirst.advances)
  show (next (check (s.elsewhere place frame depth)).1)
    (check (s.elsewhere place frame depth)).2 = _
  rw [hcheck s frame depth hs hlooks]
  exact hsecond

theorem bindRule [Answer α] {next : α → Rule β}
    (hrule : Blind place (rule judge))
    (hstep : Preserves .closed place (rule judge))
    (hnext : ∀ a, Obeys .closed a → Blind place (next a judge)) :
    Blind place ((rule >>= next) judge) :=
  bind hrule hstep hnext

theorem read (f : Session → α)
    (hf : ∀ (s : Session) frame depth, s.LooksLike place frame depth →
      f (s.elsewhere place frame depth) = f s) :
      Blind place fun s => (f s, s) := by
  intro s frame depth _ hlooks
  show (f (s.elsewhere place frame depth), s.elsewhere place frame depth) = _
  rw [hf s frame depth hlooks]

theorem change (f : Session → Session)
    (hf : ∀ (s : Session) frame depth,
      f (s.elsewhere place frame depth) = (f s).elsewhere place frame depth) :
    Blind place fun s => ((), f s) := by
  intro s frame depth _ _
  show ((), f (s.elsewhere place frame depth)) = _
  rw [hf s frame depth]

theorem isInStatic (judge : Judge) : Blind place (isInStatic judge) := by
  refine read _ fun s frame depth hlooks => ?_
  have hany : ∀ frame : Option Frame,
      frame.any (·.isStatic) = (staticOwner? frame).isSome := by
    intro frame
    cases frame with
    | none => rfl
    | some frame =>
      cases hstatic : frame.isStatic <;> simp [staticOwner?, hstatic]
  show (s.elsewhere place frame depth).frame.any (·.isStatic) =
    s.frame.any (·.isStatic)
  rw [hany, hany, Session.elsewhere_staticOwner hlooks]

theorem isInLoop (hplace : place ≠ .outside) (judge : Judge) :
    Blind place (isInLoop judge) := by
  refine read _ fun s frame depth hlooks => ?_
  show decide (0 < depth) = decide (0 < s.context.loopDepth)
  rw [decide_eq_decide]
  exact hlooks.loop hplace

theorem misusesInstance {id : SymbolId} (judge : Judge) :
    Blind place (misusesInstance id judge) := by
  intro s frame depth _ hlooks
  rw [Rule.misusesInstance_run, Rule.misusesInstance_run,
    Session.elsewhere_staticOwner hlooks]
  rfl

theorem frame? (judge : Judge) : Blind .inFunction (frame? judge) :=
  read _ fun _ _ _ _ => rfl

theorem typedOnce {id : SymbolId} {typing : Symbol → Rule (Option Ty)}
    (htyping : ∀ symbol, Obeys .closed symbol →
      Blind place (typing symbol judge)) :
    Blind place (typedOnce id typing judge) := by
  intro s frame depth hs hlooks
  cases hty : (s.tree.symbol id).ty with
  | some ty =>
    rw [Rule.typedOnce_of_some hty]
    exact Rule.typedOnce_of_some hty
  | none =>
    have hnone : ((s.elsewhere place frame depth).tree.symbol id).ty = none :=
      hty
    rw [Rule.typedOnce_of_none hty, Rule.typedOnce_of_none hnone,
      Session.elsewhere_tree, htyping _ (hs.symbols id) s frame depth hs hlooks]
    rcases typing (s.tree.symbol id) judge s with ⟨_ | ty, s'⟩ <;> rfl

/-!
## Brackets
-/

theorem bracket {inner : Place} {check : Check α} (enter : Session → Session)
    (leave : Session → Session → Session) (answer : Session → Session → α → β)
    (loops : Nat → Nat) (hcheck : Blind inner check)
    (hwithin : ∀ s : Session, s.Within .closed place →
      (enter s).Within .closed inner)
    (hlooks : ∀ (s : Session) frame depth, s.LooksLike place frame depth →
      (enter s).LooksLike inner frame (loops depth))
    (henter : ∀ (s : Session) frame depth,
      enter (s.elsewhere place frame depth) = (enter s).elsewhere inner frame
      (loops depth))
    (hleave : ∀ (s t : Session) frame depth,
      leave (s.elsewhere place frame depth)
      (t.elsewhere inner frame (loops depth)) =
      (leave s t).elsewhere place frame depth)
    (hanswer : ∀ (s t : Session) frame depth a,
      answer (s.elsewhere place frame depth)
      (t.elsewhere inner frame (loops depth)) a = answer s t a) :
    Blind place fun s =>
      (answer s (check (enter s)).2 (check (enter s)).1,
        leave s (check (enter s)).2) := by
  intro s frame depth hs hlike
  have hinner := hcheck (enter s) frame (loops depth) (hwithin s hs)
    (hlooks s frame depth hlike)
  show (answer (s.elsewhere place frame depth)
    (check (enter (s.elsewhere place frame depth))).2
      (check (enter (s.elsewhere place frame depth))).1,
    leave (s.elsewhere place frame depth)
    (check (enter (s.elsewhere place frame depth))).2) = _
  rw [henter, hinner, hleave, hanswer]

theorem withScope {scope : ScopeId} (hrule : Blind place (rule judge)) :
    Blind place (withScope scope rule judge) := by
  exact bracket (fun s => { s with tree := s.tree.enter scope })
    (fun s t => { t with tree := t.tree.enter s.tree.current })
    (fun _ _ a => a) id hrule
    (fun _ hs => hs.setTree hs.symbols) (fun _ _ _ h => { h with })
    (fun _ _ _ => rfl)
    (fun _ _ _ _ => rfl) fun _ _ _ _ _ => rfl

theorem bracketContext {enter leave : Context → Context}
    (hobeys : ∀ context : Context, Obeys .closed context.expectations →
      Obeys .closed (enter context).expectations)
    (henter : ∀ (context : Context) depth,
      enter (context.setLoopDepth depth) = (enter context).setLoopDepth depth)
    (hleave : ∀ (context : Context) depth,
      leave (context.setLoopDepth depth) = (leave context).setLoopDepth depth)
    (hloops : ∀ context : Context, (enter context).loopDepth =
      context.loopDepth)
    (hrule : Blind place (rule judge)) :
    Blind place ((do
      updateContext enter
      let answer ← rule
      updateContext leave
      return answer : Rule α) judge) := by
  refine bracket (fun s => { s with context := enter s.context })
    (fun _ t => { t with context := leave t.context }) (fun _ _ a => a) id hrule
    (fun _ hs => hs.setContext (hobeys _ hs.expectations)) ?_ ?_ ?_
    fun _ _ _ _ _ => rfl
  · intro s frame depth h
    refine { h with loop := fun hplace => ?_ }
    rw [hloops]
    exact h.loop hplace
  · intro s frame depth
    show { s with
      frame := _, context := enter (s.context.setLoopDepth depth) } = _
    rw [henter]
    rfl
  · intro s t frame depth
    show { t with
      frame := _, context := leave (t.context.setLoopDepth depth) } = _
    rw [hleave]
    rfl

theorem withLoop (hrule : Blind place.enterLoop (rule judge)) :
    Blind place (withLoop rule judge) := by
  refine bracket (fun s => { s with context := s.context.enterLoop })
    (fun _ t => { t with context := t.context.exitLoop }) (fun _ _ a => a)
    (· + 1) hrule
    ?_ ?_ ?_ ?_ fun _ _ _ _ _ => rfl
  · intro s hs
    exact { hs with frame := fun h => hs.frame fun hclosed =>
      Place.enterLoop_eq_inFunction.mp (h hclosed) }
  · intro s frame depth h
    exact { owner := h.owner, loop := fun _ => by simp [Context.enterLoop] }
  · intro s frame depth
    cases place <;> rfl
  · intro s t frame depth
    cases place <;> rfl

theorem withInFlight {key : ExprKey} (hrule : Blind place (rule judge)) :
    Blind place (withInFlight key rule judge) := by
  exact bracket (fun s => { s with inFlight := key :: s.inFlight })
    (fun _ t => { t with inFlight := t.inFlight.erase key })
    (fun _ _ a => a) id hrule
    (fun _ hs => { hs with }) (fun _ _ _ h => { h with }) (fun _ _ _ => rfl)
    (fun _ _ _ _ => rfl) fun _ _ _ _ _ => rfl

theorem withUnfolding {id : SymbolId} (hrule : Blind place (rule judge)) :
    Blind place (withUnfolding id rule judge) := by
  exact bracket (fun s => { s with unfolding := id :: s.unfolding })
    (fun _ t => { t with unfolding := t.unfolding.tail })
    (fun _ _ a => a) (·) hrule
    (fun _ hs => { hs with }) (fun _ _ _ h => { h with }) (fun _ _ _ => rfl)
    (fun _ _ _ _ => rfl) fun _ _ _ _ _ => rfl

theorem withSavedState (hrule : Blind place (rule judge)) :
    Blind place (withSavedState rule judge) := by
  exact bracket (fun s => s)
    (fun s t =>
      { t with tree := t.tree.enter s.tree.current, context := s.context })
    (fun _ _ a => a) id hrule (fun _ hs => hs) (fun _ _ _ h => h)
    (fun _ _ _ => rfl)
    (fun _ _ _ _ => rfl) fun _ _ _ _ _ => rfl

theorem speculate (hrule : Blind place (rule judge)) :
    Blind place (speculate rule judge) := by
  exact bracket (fun s => { s with cache := s.cache.beginTrial })
    (fun s t =>
      { t with
        cache := t.cache.rollbackTrial
        diagnostics := t.diagnostics.truncate s.diagnostics.size
        frame := s.frame })
    (fun s t a =>
      (a, decide (0 < t.diagnostics.errorsSince s.diagnostics.size))) id
    (withSavedState hrule)
    (fun _ hs => hs.setCache hs.cache.beginTrial) (fun _ _ _ h => { h with })
    (fun _ _ _ => rfl)
    (fun _ _ _ _ => rfl) fun _ _ _ _ _ => rfl

theorem withFrame {frame : Frame} :
    Blind place (withFrame frame rule judge) :=
  fun _ _ _ _ _ => rfl

theorem memoized {expr : Expr} (hkind : Blind place (inferKind expr judge))
    (hpreserves : Preserves .closed place (inferKind expr judge)) :
    Blind place (inferExpr expr judge) := by
  unfold inferExpr
  refine bindRule (read _ fun _ _ _ _ => rfl) (.read _ fun s _ => meets_inert _)
    fun key _ => ?_
  refine bindRule (read _ fun _ _ _ _ => rfl)
    (.read _ fun s hs => hs.cache.get? key) fun known hknown => ?_
  cases known with
  | some ty => exact .pure _
  | none =>
    refine bindRule (read _ fun _ _ _ _ => rfl)
      (.read _ fun s _ => meets_inert _) fun busy _ => ?_
    cases busy with
    | true => exact .pure _
    | false =>
      have hinferred :
          Blind place (withSpan expr.span (inferKind expr) judge) :=
        bracketContext (fun _ h => h) (fun _ _ => rfl) (fun _ _ => rfl)
          (fun _ => rfl) hkind
      have hkept : Preserves .closed place
          (withSpan expr.span (inferKind expr) judge) :=
        .bracketContext Iff.rfl (fun _ h => h) (fun _ => rfl) hpreserves
      refine bindRule (withInFlight hinferred) (.withInFlight hkept)
        fun answer hanswer => ?_
      cases answer with
      | none => exact .pure _
      | some ty =>
        refine bindRule (.change _ fun _ _ _ => rfl)
          (.remember (meets_some.mp hanswer) judge) fun _ _ => ?_
        exact .pure _

end Blind

/-!
## Rules and judges
-/

theorem Attested.blind {place : Policy.closed.regime.loose.Place} {α : Type}
    [Found α] {rule : Rule α}
    (h : Attested Policy.closed.regime.loose place rule) (hjudge : judge.Blind)
    (hpreserves : judge.Preserves .closed) :
    Blind place (rule judge) := by
  induction h with
  | pure _ => exact .pure _
  | bind hfirst _ hrule hnext =>
    exact .bind hrule (hfirst.preserves hpreserves) fun a ha =>
      hnext a (fits_of_obeys ha)
  | askType hexpr => exact hjudge.infer hexpr
  | askValid hstmt => exact hjudge.validate hstmt
  | askResolved hty => exact hjudge.resolve _ hty
  | askCompatible htarget hsource =>
    exact hjudge.compatible _ htarget hsource
  | askCastable htarget hsource =>
    exact hjudge.castable _ htarget hsource
  | askValue htarget hvalue => exact hjudge.checkValue htarget hvalue
  | askPeeled hty => exact hjudge.peel _ hty
  | seeTree _ hnext =>
    intro s frame depth hs hlooks
    exact hnext s.tree ⟨Policy.describes hs.symbols, False.elim⟩ s frame
      depth hs hlooks
  | expected? | isUnfolding | evaluator | containsType =>
    exact .read _ fun _ _ _ _ => rfl
  | isInStatic => exact .isInStatic judge
  | misusesInstance => exact .misusesInstance judge
  | isInLoop hplace => exact .isInLoop (hplace rfl) judge
  | frame? hplace =>
    obtain rfl := hplace rfl
    exact .frame? judge
  | report | reportInternal | reportCast | updateSymbol | bindLoop =>
    exact .change _ fun _ _ _ => rfl
  | updateFrame hplace =>
    obtain rfl := hplace rfl
    exact .change _ fun _ _ _ => rfl
  | typedOnce _ _ htyping =>
    exact .typedOnce fun symbol hsymbol =>
      htyping symbol (fits_of_obeys hsymbol)
  | withScope _ hrule => exact .withScope hrule
  | withSpan _ hrule | withDeclaration _ hrule =>
    exact .bracketContext (fun _ h => h) (fun _ _ => rfl) (fun _ _ => rfl)
      (fun _ => rfl) hrule
  | withExpected hexpected _ hrule =>
    refine .bracketContext (fun _ h => ?_) (fun _ _ => rfl) (fun _ _ => rfl)
      (fun _ => rfl) hrule
    exact meets_cons.mpr ⟨hexpected.1, h⟩
  | withLoop _ hrule => exact .withLoop hrule
  | withUnfolding _ hrule => exact .withUnfolding hrule
  | withSavedState _ hrule => exact .withSavedState hrule
  | speculate _ hrule => exact .speculate hrule
  | withFrame hframe hrule _ _ _ hnext hlost =>
    refine .bindRule .withFrame (.withFrame hframe.1
      (hrule.preserves hpreserves)) fun walked _ => ?_
    obtain ⟨_ | finished, a⟩ := walked
    · exact hlost trivial a
    · exact hnext finished a
  | memoized _ hrule hkind => exact .memoized hkind (hrule.preserves hpreserves)

theorem Judge.limited_blind (n : Nat) : (limited n).Blind := by
  exact limited_answers (fun a _ => .pure a)
    (fun {n} _ _ _ _ h ih => h.blind ih (limited_preserves n)) n

/-!
## Typing a symbol
-/

theorem Session.new_within {program : Program} {options : Options}
    (evaluator : Evaluator)
    (h : ∀ symbol ∈ program.collect.tree.symbols.toList, Obeys .closed symbol) :
    ((Session.new program options).withEvaluator evaluator).Within
      .closed place := by
  exact Session.new_within_of_obeys evaluator (ScopeTree.obeys_of_symbols h)

/-- Outside of every function the frame is not looked at, so any may stand in
for it. -/
theorem Session.Within.inside {s : Session} (h : s.Within .closed .outside)
    (frame : Option Frame) (depth : Nat) :
    (s.inside frame depth).Within .closed .outside := by
  exact { h with frame := fun hplace => nomatch hplace rfl }

/-- If no initializer and no length that the session holds has an exit that
leaves it, then typing a symbol does not depend on the function and the loops
around the place where it is asked for: the answer, the reports and all else
come out the same under any two functions of which the same is seen from
outside, and both are left as they were. -/
theorem symbolType_ignores_surroundings
    (s : Session)
    (id : SymbolId)
    (f g : Option Frame)
    (d e : Nat)
    (hclosed : s.Within .closed .outside)
    (hseen : staticOwner? f = staticOwner? g) :
    ∃ (answer : Option Ty) (s' : Session),
      Check.symbolType id (s.inside f d) = (answer, s'.inside f d) ∧
      Check.symbolType id (s.inside g e) = (answer, s'.inside g e) := by
  have hrule : Composed .closed .outside (Rule.symbolType id) := .symbolType
  have hblind :=
    hrule.blind (Judge.limited_blind (s.depth 0)) (Judge.limited_preserves _)
  -- Both runs are compared with the one under `f`, and so with each other.
  have hwithin := hclosed.inside f d
  have hloop : ∀ depth, Place.outside ≠ .outside →
      (0 < depth ↔ 0 < (s.inside f d).context.loopDepth) :=
        fun _ h => absurd rfl h
  exact ⟨_, _, hblind (s.inside f d) f d hwithin ⟨rfl, hloop d⟩,
    hblind (s.inside f d) g e hwithin ⟨hseen.symm, hloop e⟩⟩

def useBeforeBinding (value : ExprKind) : Program :=
  ⟨[⟨⟨0⟩, "main", "main", [
    ⟨⟨1⟩, .none, .func ⟨⟨2⟩, "f", .priv, [], some .void, none,
      ⟨⟨3⟩, [⟨⟨4⟩, .none, .expr ⟨⟨5⟩, .none, .ident "x"⟩⟩], .none⟩, .none⟩⟩,
    ⟨⟨6⟩, .none,
      .letDecl ⟨"x", .priv, false, none, some ⟨⟨7⟩, .none, value⟩⟩⟩]⟩]⟩

def whenTrue (kind : StmtKind) : ExprKind :=
  .ifExpr ⟨⟨8⟩, .none, .literal (.bool true)⟩ ⟨⟨9⟩, .none, kind⟩ none

def leftLoop : StmtKind :=
  .whileLoop ⟨⟨10⟩, .none, .literal (.bool true)⟩
    ⟨⟨11⟩, [⟨⟨12⟩, .none, .breakStmt⟩], .none⟩

def plainFrame : Frame where
  name := "f"
  result := some .void
  errorType := none
  errorMode := none
  ownErrors := []
  isStatic := false
  owner := none

/-- An initializer whose only exit is received by a loop of its own is typed in
the body of the function, under three loops, as it is at the level of the
module. -/
theorem symbolType_ignores_surroundings_of_loop :
    let s := Session.new (useBeforeBinding (whenTrue leftLoop)) {}
    ∃ (answer : Option Ty) (s' : Session),
      Check.symbolType ⟨1⟩ (s.inside none 0) = (answer, s'.inside none 0) ∧
      Check.symbolType ⟨1⟩ (s.inside (some plainFrame) 3) =
        (answer, s'.inside (some plainFrame) 3) := by
  have hclosed : ∀ symbol ∈
      (useBeforeBinding (whenTrue leftLoop)).collect.tree.symbols.toList,
      Obeys .closed symbol := by
    decide +kernel
  exact symbolType_ignores_surroundings _ ⟨1⟩ none (some plainFrame) 0 3
    (Session.new_within .literal hclosed) rfl

/-- An initializer that returns is refused at the level of the module.  In the
body of a function it is accepted, and the function is marked as having
returned. -/
theorem symbolType_sees_function_around :
    let s := Session.new (useBeforeBinding (whenTrue (.returnStmt none))) {}
    (Check.symbolType ⟨1⟩ s).2.diagnostics.items =
        [⟨⟨.returnOutsideFunction, .none⟩, .error⟩] ∧
      (Check.symbolType ⟨1⟩
        (s.inside (some plainFrame) 0)).2.diagnostics.items = [] ∧
      ((Check.symbolType ⟨1⟩ (s.inside (some plainFrame) 0)).2.frame.map
        (·.hasReturn)) = some true := by
  decide +kernel

end StaticCheck
