import StaticCheck.Proofs.References

/-!
# Inferences

The type of an expression is either remembered or found by an inference.  Here
the inferences are followed that a run of the checker carries out, each with the
session in which it took place.  Whatever a session remembers was found by one
of them.
-/

namespace StaticCheck

open Rule

/-!
## One inference
-/

namespace Session

def opened (s : Session) (expr : Expr) : Session :=
  { s with
    inFlight := s.key expr :: s.inFlight
    context := s.context.pushSpan expr.span }

def closed (t : Session) (key : ExprKey) (answer : Option Ty) : Session :=
  { t with
    inFlight := t.inFlight.erase key
    context := t.context.popSpan
    cache := answer.elim t.cache (t.cache.insert key) }

/-- An inference of the expression would be carried out: its type is not
remembered, and it is not being inferred. -/
structure IsNew (s : Session) (expr : Expr) : Prop where
  remembered : s.remembered? expr = none
  inFlight : s.inFlight.contains (s.key expr) = false

end Session

section

variable {s t : Session} {expr : Expr} {judge : Judge}

theorem inferExpr_of_remembered {ty : Ty} (h : s.remembered? expr = some ty) :
    inferExpr expr judge s = (some ty, s) := by
  unfold Session.remembered? Session.key at h
  unfold inferExpr
  rw [bind_run, exprKey_run]
  dsimp only
  rw [bind_run, remembered?_run, h]
  rfl

theorem inferExpr_of_new (hnew : s.IsNew expr) {answer : Option Ty}
    (hkind : inferKind expr judge (s.opened expr) = (answer, t)) :
    inferExpr expr judge s = (answer, t.closed (s.key expr) answer) := by
  have hremembered := hnew.remembered
  have hflight := hnew.inFlight
  unfold Session.remembered? Session.key at hremembered
  unfold Session.key at hflight
  unfold inferExpr
  rw [bind_run, exprKey_run]
  dsimp only
  rw [bind_run, remembered?_run, hremembered]
  dsimp only
  rw [bind_run, isInFlight_run, hflight]
  have hrun :
      withInFlight (s.key expr) (withSpan expr.span (inferKind expr)) judge s =
      (answer, { t with
        inFlight := t.inFlight.erase (s.key expr),
          context := t.context.popSpan }) :=
    congrArg (fun result : Option Ty × Session =>
      (result.1, ({ result.2 with
        inFlight := result.2.inFlight.erase (s.key expr)
        context := result.2.context.popSpan } : Session))) hkind
  refine (bind_of_run hrun).trans ?_
  cases answer with
  | none => rfl
  | some ty => rfl

theorem inferExpr_cases (s : Session) (expr : Expr) (judge : Judge) :
    (∃ ty, s.remembered? expr = some ty ∧ inferExpr expr judge s =
      (some ty, s)) ∨ inferExpr expr judge s = (none, s) ∨ s.IsNew expr := by
  cases hremembered : s.remembered? expr with
  | some ty => exact .inl ⟨ty, rfl, inferExpr_of_remembered hremembered⟩
  | none =>
    right
    cases hflight : s.inFlight.contains (s.key expr) with
    | true => exact .inl (inferExpr_of_inFlight hremembered hflight)
    | false => exact .inr ⟨hremembered, hflight⟩

end

/-- An inference: of an expression, in a session, by the judge of some depth. -/
structure Inference where
  depth : Nat
  expr : Expr
  session : Session

namespace Inference

def result (inference : Inference) : Option Ty × Session :=
  inferKind inference.expr (Judge.limited inference.depth)
    (inference.session.opened inference.expr)

structure Finds (inference : Inference) (key : ExprKey) (ty : Ty) : Prop where
  isNew : inference.session.IsNew inference.expr
  key_eq : inference.session.key inference.expr = key
  answer : inference.result.1 = some ty

end Inference

/-!
## Inferences that a run carries out
-/

abbrev Regular {α : Type} [Found α] (rule : Rule α) : Prop :=
  ∃ place, Attested Policy.free.regime.loose place rule

/-- Run from the session by the judge of depth `n`, the rule carries out the
inference.  The run is followed along the certificate of the rule, and into the
questions that it asks. -/
inductive Carries :
    (n : Nat) → {α : Type} → [Found α] → Rule α → Session → Inference → Prop
  | here {n : Nat} {expr : Expr} {s : Session} (hnew : s.IsNew expr) :
      Carries n (inferExpr expr) s ⟨n, expr, s⟩
  | form {n : Nat} {expr : Expr} {s : Session} {i : Inference}
      (hnew : s.IsNew expr)
      (h : Carries n (inferKind expr) (s.opened expr) i) :
      Carries n (inferExpr expr) s i
  | first {n : Nat} {α β : Type} [Found α] [Found β] {rule : Rule α}
      {next : α → Rule β}
      {s : Session} {i : Inference} (hrule : Regular rule)
      (hnext : ∀ a, Regular (next a))
      (h : Carries n rule s i) : Carries n (rule >>= next) s i
  | next {n : Nat} {α β : Type} [Found α] [Found β] {rule : Rule α}
      {next : α → Rule β}
      {s : Session} {i : Inference} (hrule : Regular rule)
      (hnext : ∀ a, Regular (next a))
      (h : Carries n (next (rule (Judge.limited n) s).1)
        (rule (Judge.limited n) s).2 i) :
      Carries n (rule >>= next) s i
  -- Questions.
  | askType {n : Nat} {expr : Expr} {s : Session} {i : Inference}
      (h : Carries n (inferExpr expr) s i) : Carries (n + 1) (askType expr) s i
  | askValid {n : Nat} {stmt : Stmt} {s : Session} {i : Inference}
      (h : Carries n (validateStmt stmt) s i) :
      Carries (n + 1) (askValid stmt) s i
  | askResolved {n : Nat} {ty : Ty} {span : Span} {loud : Bool} {s : Session}
      {i : Inference} (h : Carries n (resolveTy span loud ty) s i) :
      Carries (n + 1) (askResolved ty span loud) s i
  | askCompatible {n : Nat} {target source : Ty} {s : Session} {i : Inference}
      (h : Carries n (Rule.compatible target source) s i) :
      Carries (n + 1) (askCompatible target source) s i
  | askCastable {n : Nat} {target source : Ty} {s : Session} {i : Inference}
      (h : Carries n (canCast target source) s i) :
      Carries (n + 1) (askCastable target source) s i
  | askValue {n : Nat} {target : Ty} {value : Expr} {s : Session}
      {i : Inference} (h : Carries n (checkInitializer target value) s i) :
      Carries (n + 1) (askValue target value) s i
  | askPeeled {n : Nat} {ty : Ty} {s : Session} {i : Inference}
      (h : Carries n (peelOptionals ty) s i) :
      Carries (n + 1) (askPeeled ty) s i
  -- Looks at the session.
  | seeTree {n : Nat} {β : Type} [Found β] {next : ScopeTree → Rule β}
      {s : Session}
      {i : Inference} (hnext : ∀ tree, Regular (next tree))
      (h : Carries n (next s.tree) s i) :
      Carries n (tree >>= next) s i
  | typedOnce {n : Nat} {id : SymbolId} {typing : Symbol → Rule (Option Ty)}
      {s : Session}
      {i : Inference} (htyping : ∀ symbol, Regular (typing symbol))
      (huntyped : (s.tree.symbol id).ty = none)
      (h : Carries n (typing (s.tree.symbol id)) s i) :
      Carries n (typedOnce id typing) s i
  -- Brackets.
  | withScope {n : Nat} {α : Type} [Found α] {scope : ScopeId} {rule : Rule α}
      {s : Session}
      {i : Inference} (hrule : Regular rule)
      (h : Carries n rule { s with tree := s.tree.enter scope } i) :
      Carries n (withScope scope rule) s i
  | withContext {n : Nat} {α : Type} [Found α] {enter leave : Context → Context}
      {rule : Rule α}
      {s : Session} {i : Inference} (hrule : Regular rule)
      (h : Carries n rule { s with context := enter s.context } i) :
      Carries n (do
        updateContext enter
        let answer ← rule
        updateContext leave
        return answer) s i
  | withUnfolding {n : Nat} {α : Type} [Found α] {id : SymbolId} {rule : Rule α}
      {s : Session}
      {i : Inference} (hrule : Regular rule)
      (h : Carries n rule { s with unfolding := id :: s.unfolding } i) :
      Carries n (withUnfolding id rule) s i
  | withSavedState {n : Nat} {α : Type} [Found α] {rule : Rule α} {s : Session}
      {i : Inference}
      (hrule : Regular rule) (h : Carries n rule s i) :
      Carries n (withSavedState rule) s i
  | speculate {n : Nat} {α : Type} [Found α] {rule : Rule α} {s : Session}
      {i : Inference}
      (hrule : Regular rule)
      (h : Carries n rule { s with cache := s.cache.beginTrial } i) :
      Carries n (speculate rule) s i
  | inFrame {n : Nat} {α β : Type} [Found α] [Found β] {frame : Frame}
      {rule : Rule α}
      {next : Option Frame × α → Rule β} {s : Session} {i : Inference}
        (hrule : Regular rule)
      (hnext : ∀ a, Regular (next a))
      (h : Carries n rule { s with
        frame := some frame, context := s.context.setLoopDepth 0 } i) :
      Carries n (withFrame frame rule >>= next) s i
  | afterFrame {n : Nat} {α β : Type} [Found α] [Found β] {frame : Frame}
      {rule : Rule α}
      {next : Option Frame × α → Rule β} {s : Session} {i : Inference}
        (hrule : Regular rule)
      (hnext : ∀ a, Regular (next a))
      (h : Carries n (next (withFrame frame rule (Judge.limited n) s).1)
        (withFrame frame rule (Judge.limited n) s).2 i) :
      Carries n (withFrame frame rule >>= next) s i

/-!
## Every remembered type was found
-/

section Accounts

variable {α β : Type} [Found α] [Found β] {n : Nat}

def Accounts (n : Nat) (rule : Rule α) : Prop :=
  ∀ (s : Session) (key : ExprKey) (ty : Ty),
    (rule (Judge.limited n) s).2.cache.Records key ty →
      s.cache.Records key ty ∨ ∃ i, Carries n rule s i ∧ i.Finds key ty

namespace Accounts

theorem still {rule : Rule α}
    (h : ∀ s, (rule (Judge.limited n) s).2.cache = s.cache) :
    Accounts n rule := by
  intro s _ _ hrecords
  exact .inl (h s ▸ hrecords)

theorem inside {rule : Rule α} {whole : Rule β} (h : Accounts n rule)
    (inner : Session → Session)
    (hbefore : ∀ s key ty, (inner s).cache.Records key ty →
      s.cache.Records key ty)
    (hafter : ∀ s key ty, (whole (Judge.limited n) s).2.cache.Records key ty →
      (rule (Judge.limited n) (inner s)).2.cache.Records key ty)
    (hcarries : ∀ s i, Carries n rule (inner s) i → Carries n whole s i) :
    Accounts n whole := by
  intro s key ty hrecords
  rcases h (inner s) key ty (hafter s key ty hrecords) with hold
    | ⟨i, hi, hfinds⟩
  · exact .inl (hbefore s key ty hold)
  · exact .inr ⟨i, hcarries s i hi, hfinds⟩

theorem bind {rule : Rule α} {next : α → Rule β} (hrule : Accounts n rule)
    (hnext : ∀ a, Accounts n (next a)) (hregular : Regular rule)
    (hregularNext : ∀ a, Regular (next a)) : Accounts n (rule >>= next) := by
  intro s key ty hrecords
  rcases hnext _ _ key ty hrecords with hmid | ⟨i, hi, hfinds⟩
  · rcases hrule s key ty hmid with hold | ⟨i, hi, hfinds⟩
    · exact .inl hold
    · exact .inr ⟨i, .first hregular hregularNext hi, hfinds⟩
  · exact .inr ⟨i, .next hregular hregularNext hi, hfinds⟩

theorem inferExpr {expr : Expr} (hkind : Accounts n (inferKind expr)) :
    Accounts n (inferExpr expr) := by
  intro s key ty hrecords
  rcases inferExpr_cases s expr (Judge.limited n) with ⟨_, -, hrun⟩
    | hrun | hnew
  · rw [hrun] at hrecords
    exact .inl hrecords
  · rw [hrun] at hrecords
    exact .inl hrecords
  · rcases hrun : inferKind expr (Judge.limited n)
      (s.opened expr) with ⟨answer, t⟩
    rw [inferExpr_of_new hnew hrun] at hrecords
    have hnested : t.cache.Records key ty →
        s.cache.Records key ty ∨ ∃ i, Carries n (Rule.inferExpr expr) s i ∧
        i.Finds key ty := by
      intro hold
      have hkept := hkind (s.opened expr) key ty (by rwa [hrun])
      exact hkept.imp_right fun ⟨i, hi, hfinds⟩ => ⟨i, .form hnew hi, hfinds⟩
    cases answer with
    | none => exact hnested hrecords
    | some found =>
      rcases TypeCache.records_of_insert hrecords with ⟨rfl, rfl⟩ | hold
      · exact .inr ⟨_, .here hnew, hnew, rfl, congrArg Prod.fst hrun⟩
      · exact hnested hold

theorem question {ask rule : Rule α} (h : Accounts n rule)
    (hrun : ∀ s, ask (Judge.limited (n + 1)) s = rule (Judge.limited n) s)
    (hcarries : ∀ s i, Carries n rule s i → Carries (n + 1) ask s i) :
    Accounts (n + 1) ask := by
  intro s key ty hrecords
  rw [hrun] at hrecords
  exact (h s key ty hrecords).imp_right fun ⟨i, hi, hfinds⟩ =>
    ⟨i, hcarries s i hi, hfinds⟩

theorem withContext {enter leave : Context → Context} {rule : Rule α}
    (h : Accounts n rule) (hregular : Regular rule) :
    Accounts n (do
      updateContext enter
      let answer ← rule
      updateContext leave
      return answer) :=
  .inside h (fun s => { s with context := enter s.context })
    (fun _ _ _ hrecords => hrecords)
    (fun _ _ _ hrecords => hrecords) fun _ _ hi => .withContext hregular hi

theorem typedOnce {id : SymbolId} {typing : Symbol → Rule (Option Ty)}
    (h : ∀ symbol, Accounts n (typing symbol))
    (hregular : ∀ symbol, Regular (typing symbol)) :
    Accounts n (typedOnce id typing) := by
  intro s key ty hrecords
  cases hty : (s.tree.symbol id).ty with
  | some known =>
    rw [typedOnce_of_some hty] at hrecords
    exact .inl hrecords
  | none =>
    have hinner :
        (typing (s.tree.symbol id) (Judge.limited n) s).2.cache.Records
        key ty := by
      rw [typedOnce_of_none hty] at hrecords
      rcases hrun : typing (s.tree.symbol id) (Judge.limited n)
        s with ⟨_ | found, t⟩ <;>
        rwa [hrun] at hrecords
    exact (h _ s key ty hinner).imp_right fun ⟨i, hi, hfinds⟩ =>
      ⟨i, .typedOnce hregular hty hi, hfinds⟩

theorem withFrame {frame : Frame} {rule : Rule α}
    {next : Option Frame × α → Rule β} (h : Accounts n rule)
    (hregular : Regular rule) (hnext : ∀ a, Accounts n (next a))
    (hregularNext : ∀ a, Regular (next a)) :
    Accounts n (withFrame frame rule >>= next) := by
  intro s key ty hrecords
  rcases hnext _ _ key ty hrecords with hmid | ⟨i, hi, hfinds⟩
  · exact (h _ key ty hmid).imp_right fun ⟨i, hi, hfinds⟩ =>
      ⟨i, .inFrame hregular hregularNext hi, hfinds⟩
  · exact .inr ⟨i, .afterFrame hregular hregularNext hi, hfinds⟩

end Accounts

structure Judge.Accounts (n : Nat) : Prop where
  infer : ∀ expr, StaticCheck.Accounts n (askType expr)
  validate : ∀ stmt, StaticCheck.Accounts n (askValid stmt)
  resolve : ∀ ty span loud, StaticCheck.Accounts n (askResolved ty span loud)
  compatible : ∀ target source,
    StaticCheck.Accounts n (askCompatible target source)
  castable : ∀ target source, StaticCheck.Accounts n (askCastable target source)
  checkValue : ∀ target value, StaticCheck.Accounts n (askValue target value)
  peel : ∀ ty, StaticCheck.Accounts n (askPeeled ty)

theorem Attested.accounts {place : Policy.free.regime.loose.Place}
    {rule : Rule α} (h : Attested Policy.free.regime.loose place rule)
    (hjudge : Judge.Accounts n) :
    Accounts n rule := by
  induction h with
  | pure | expected? | isUnfolding | evaluator | containsType | isInStatic
  | isInLoop | frame?
  | report | reportInternal | updateSymbol | updateFrame =>
    exact .still fun _ => rfl
  | misusesInstance => exact .still fun s => by rw [misusesInstance_run]
  | reportCast => exact .still fun s => by rw [reportCast_run]
  | bindLoop => exact .still fun _ => rfl
  | bind hrule hnext ih ihNext =>
    exact .bind ih (fun a => ihNext a (fits_free a)) ⟨_, hrule⟩
      fun a => ⟨_, hnext a (fits_free a)⟩
  | askType => exact hjudge.infer _
  | askValid => exact hjudge.validate _
  | askResolved => exact hjudge.resolve _ _ _
  | askCompatible => exact hjudge.compatible _ _
  | askCastable => exact hjudge.castable _ _
  | askValue => exact hjudge.checkValue _ _
  | askPeeled => exact hjudge.peel _
  | seeTree hnext ih =>
    have hsees : ∀ place tree,
        Policy.free.regime.loose.Describes place tree := fun _ _ =>
      ⟨Policy.describes (Answer.free _), False.elim⟩
    intro s key ty hrecords
    exact (ih s.tree (hsees _ _) s key ty hrecords).imp_right
      fun ⟨i, hi, hfinds⟩ =>
      ⟨i, .seeTree (fun tree => ⟨_, hnext tree (hsees _ _)⟩) hi, hfinds⟩
  | typedOnce htyping _ ih =>
    exact .typedOnce (fun symbol => ih symbol (fits_free symbol))
      fun symbol => ⟨_, htyping symbol (fits_free symbol)⟩
  | @withScope _ _ _ scope _ hrule ih =>
    exact .inside ih (fun s => { s with tree := s.tree.enter scope })
      (fun _ _ _ h => h)
      (fun _ _ _ h => h) fun _ _ hi => .withScope ⟨_, hrule⟩ hi
  | withSpan hrule ih => exact .withContext ih ⟨_, hrule⟩
  | withDeclaration hrule ih => exact .withContext ih ⟨_, hrule⟩
  | withExpected _ hrule ih => exact .withContext ih ⟨_, hrule⟩
  | withLoop hrule ih => exact .withContext ih ⟨_, hrule⟩
  | withUnfolding hrule ih =>
    exact .inside ih (fun s => { s with unfolding := _ :: s.unfolding })
      (fun _ _ _ h => h)
      (fun _ _ _ h => h) fun _ _ hi => .withUnfolding ⟨_, hrule⟩ hi
  | withSavedState hrule ih =>
    exact .inside ih (fun s => s) (fun _ _ _ h => h) (fun _ _ _ h => h)
      fun _ _ hi => .withSavedState ⟨_, hrule⟩ hi
  | speculate hrule ih =>
    exact .inside ih (fun s => { s with cache := s.cache.beginTrial })
      (fun _ _ _ h => TypeCache.records_of_beginTrial h)
      (fun _ _ _ h => TypeCache.records_of_rollbackTrial h)
      fun _ _ hi => .speculate ⟨_, hrule⟩ hi
  | withFrame _ hrule hnext hlost ih ihNext ihLost =>
    refine .withFrame ih ⟨_, hrule⟩ (fun walked => ?_) fun walked => ?_
    · obtain ⟨_ | finished, a⟩ := walked
      · exact ihLost trivial a
      · exact ihNext finished a
    · obtain ⟨_ | finished, a⟩ := walked
      · exact ⟨_, hlost trivial a⟩
      · exact ⟨_, hnext finished a⟩
  | memoized _ _ ih => exact .inferExpr ih

theorem Regular.accounts {rule : Rule α} (h : Regular rule)
    (hjudge : Judge.Accounts n) : Accounts n rule := by
  exact h.elim fun _ hrule => hrule.accounts hjudge

namespace Regular

theorem inferExpr (expr : Expr) : Regular (inferExpr expr) := by
  exact ⟨Place.outside, .inferExpr (Expr.suits_free _)⟩

theorem validateStmt (stmt : Stmt) : Regular (validateStmt stmt) := by
  exact ⟨Place.outside, .validateStmt (Stmt.suits_free _)⟩

theorem resolveTy (ty : Ty) (span : Span) (loud : Bool) :
    Regular (resolveTy span loud ty) := by
  exact ⟨Place.outside, .resolveTy ty (Answer.free ty)⟩

theorem compatible (target source : Ty) :
    Regular (compatible target source) := by
  exact ⟨Place.outside, .compatible (fits_free target) (fits_free source)⟩

theorem canCast (target source : Ty) : Regular (canCast target source) := by
  exact ⟨Place.outside, .canCast (fits_free target) (fits_free source)⟩

theorem checkInitializer (target : Ty) (value : Expr) :
    Regular (checkInitializer target value) := by
  exact ⟨Place.outside,
    .checkInitializer (fits_free target) (Expr.suits_free _)⟩

theorem peelOptionals (ty : Ty) : Regular (peelOptionals ty) := by
  exact ⟨Place.outside, .peelOptionals (fits_free ty)⟩

end Regular

theorem Judge.limited_accounts (n : Nat) : Judge.Accounts n := by
  induction n with
  | zero => constructor <;> intros <;> exact .still fun _ => rfl
  | succ n ih =>
    exact {
      infer := fun expr =>
        .question ((Regular.inferExpr expr).accounts ih) (fun _ => rfl)
          fun _ _ => .askType
      validate := fun stmt =>
        .question ((Regular.validateStmt stmt).accounts ih) (fun _ => rfl)
          fun _ _ => .askValid
      resolve := fun ty span loud =>
        .question ((Regular.resolveTy ty span loud).accounts ih) (fun _ => rfl)
          fun _ _ => .askResolved
      compatible := fun target source =>
        .question ((Regular.compatible target source).accounts ih)
          (fun _ => rfl) fun _ _ => .askCompatible
      castable := fun target source =>
        .question ((Regular.canCast target source).accounts ih) (fun _ => rfl)
          fun _ _ => .askCastable
      checkValue := fun target value =>
        .question ((Regular.checkInitializer target value).accounts ih)
          (fun _ => rfl) fun _ _ => .askValue
      peel := fun ty =>
        .question ((Regular.peelOptionals ty).accounts ih) (fun _ => rfl)
          fun _ _ => .askPeeled }

end Accounts

/-!
## Sessions with the inferences that led to them
-/

/-- A session that a checker gets into, with the log of the inferences carried
out on the way.  Rules are run one after another; between them anything may
change if only nothing is remembered anew, as when a scope or another module is
entered, a trial begins or ends, or the session is reset. -/
inductive Session.Traced (start : Session) : (Inference → Prop) → Session → Prop
  | start : Traced start (fun _ => False) start
  | run {log : Inference → Prop} {s : Session} {α : Type} [Found α]
      {rule : Rule α} (n : Nat)
      (hs : Traced start log s) (hrule : Regular rule) :
      Traced start (fun i => log i ∨ Carries n rule s i)
      (rule (Judge.limited n) s).2
  | turn {log : Inference → Prop} {s t : Session} (hs : Traced start log s)
      (hrecords : ∀ key ty, t.cache.Records key ty → s.cache.Records key ty) :
      Traced start log t

theorem Session.Traced.finds {start s : Session} {log : Inference → Prop}
    (hs : start.Traced log s) (hstart : ∀ key ty, ¬start.cache.Records key ty)
    {key : ExprKey} {ty : Ty} (hrecords : s.cache.Records key ty) :
    ∃ i, log i ∧ i.Finds key ty := by
  induction hs generalizing key ty with
  | start => exact absurd hrecords (hstart key ty)
  | run n _ hrule ih =>
    rcases hrule.accounts (Judge.limited_accounts n) _ key ty
      hrecords with hold | hnew
    · obtain ⟨i, hi, hfinds⟩ := ih hold
      exact ⟨i, .inl hi, hfinds⟩
    · obtain ⟨i, hi, hfinds⟩ := hnew
      exact ⟨i, .inr hi, hfinds⟩
  | turn _ hrecordsOld ih => exact ih (hrecordsOld key ty hrecords)

/-!
## Inferences inside of one another
-/

section Nested

variable {α : Type} [Found α] {n : Nat} {rule : Rule α} {start s : Session}
    {i j : Inference} {log : Inference → Prop}

theorem Carries.nested (h : Carries n rule s i)
    (hj : Carries i.depth (inferKind i.expr) (i.session.opened i.expr) j) :
    Carries n rule s j := by
  induction h with
  | here hnew => exact .form hnew hj
  | form hnew _ ih => exact .form hnew (ih hj)
  | first hrule hnext _ ih => exact .first hrule hnext (ih hj)
  | next hrule hnext _ ih => exact .next hrule hnext (ih hj)
  | askType _ ih => exact .askType (ih hj)
  | askValid _ ih => exact .askValid (ih hj)
  | askResolved _ ih => exact .askResolved (ih hj)
  | askCompatible _ ih => exact .askCompatible (ih hj)
  | askCastable _ ih => exact .askCastable (ih hj)
  | askValue _ ih => exact .askValue (ih hj)
  | askPeeled _ ih => exact .askPeeled (ih hj)
  | seeTree hnext _ ih => exact .seeTree hnext (ih hj)
  | typedOnce htyping huntyped _ ih => exact .typedOnce htyping huntyped (ih hj)
  | withScope hrule _ ih => exact .withScope hrule (ih hj)
  | withContext hrule _ ih => exact .withContext hrule (ih hj)
  | withUnfolding hrule _ ih => exact .withUnfolding hrule (ih hj)
  | withSavedState hrule _ ih => exact .withSavedState hrule (ih hj)
  | speculate hrule _ ih => exact .speculate hrule (ih hj)
  | inFrame hrule hnext _ ih => exact .inFrame hrule hnext (ih hj)
  | afterFrame hrule hnext _ ih => exact .afterFrame hrule hnext (ih hj)

theorem Session.Traced.nested (hs : start.Traced log s) (hi : log i)
    (hj : Carries i.depth (inferKind i.expr) (i.session.opened i.expr) j) :
    log j := by
  induction hs with
  | start => exact hi
  | run _ _ _ ih => exact hi.imp ih fun h => h.nested hj
  | turn _ _ ih => exact ih hi

/-- A session that a checker gets into by inferences all of which are in the
log. -/
def Session.TracedWithin (start : Session) (log : Inference → Prop)
    (s : Session) : Prop :=
  ∃ part, (∀ i, part i → log i) ∧ start.Traced part s

theorem Session.TracedWithin.mono {log' : Inference → Prop}
    (hs : start.TracedWithin log s) (h : ∀ i, log i → log' i) :
    start.TracedWithin log' s := by
  exact hs.imp fun _ ⟨hpart, htraced⟩ => ⟨fun i hi => h i (hpart i hi), htraced⟩

theorem Carries.tracedWithin (h : Carries n rule s i)
    (hs : start.Traced log s) :
    start.TracedWithin (fun j => log j ∨ Carries n rule s j) i.session := by
  induction h generalizing log with
  | here => exact ⟨log, fun _ => .inl, hs⟩
  | form hnew _ ih =>
    exact (ih (hs.turn fun _ _ h => h)).mono fun _ => Or.imp_right (.form hnew)
  | first hrule hnext _ ih =>
    exact (ih hs).mono fun _ => Or.imp_right (.first hrule hnext)
  | @next n _ _ _ _ _ _ _ _ hrule hnext _ ih =>
    refine (ih (hs.run n hrule)).mono fun j hj => ?_
    rcases hj with (hj | hj) | hj
    · exact .inl hj
    · exact .inr (.first hrule hnext hj)
    · exact .inr (.next hrule hnext hj)
  | askType _ ih => exact (ih hs).mono fun _ => Or.imp_right .askType
  | askValid _ ih => exact (ih hs).mono fun _ => Or.imp_right .askValid
  | askResolved _ ih => exact (ih hs).mono fun _ => Or.imp_right .askResolved
  | askCompatible _ ih =>
    exact (ih hs).mono fun _ => Or.imp_right .askCompatible
  | askCastable _ ih => exact (ih hs).mono fun _ => Or.imp_right .askCastable
  | askValue _ ih => exact (ih hs).mono fun _ => Or.imp_right .askValue
  | askPeeled _ ih => exact (ih hs).mono fun _ => Or.imp_right .askPeeled
  | seeTree hnext _ ih =>
    exact (ih hs).mono fun _ => Or.imp_right (.seeTree hnext)
  | typedOnce htyping huntyped _ ih =>
    exact (ih hs).mono fun _ => Or.imp_right (.typedOnce htyping huntyped)
  | withScope hrule _ ih =>
    exact (ih (hs.turn fun _ _ h => h)).mono fun _ =>
      Or.imp_right (.withScope hrule)
  | withContext hrule _ ih =>
    exact (ih (hs.turn fun _ _ h => h)).mono fun _ =>
      Or.imp_right (.withContext hrule)
  | withUnfolding hrule _ ih =>
    exact (ih (hs.turn fun _ _ h => h)).mono fun _ =>
      Or.imp_right (.withUnfolding hrule)
  | withSavedState hrule _ ih =>
    exact (ih hs).mono fun _ => Or.imp_right (.withSavedState hrule)
  | speculate hrule _ ih =>
    exact (ih (hs.turn fun _ _ => TypeCache.records_of_beginTrial)).mono
      fun _ => Or.imp_right (.speculate hrule)
  | inFrame hrule hnext _ ih =>
    exact (ih (hs.turn fun _ _ h => h)).mono fun _ =>
      Or.imp_right (.inFrame hrule hnext)
  | @afterFrame n _ _ _ _ frame _ _ s _ hrule hnext _ ih =>
    -- The frame is entered, the rule runs in it, and it is left.
    have hinside : start.Traced log { s with
        frame := some frame, context := s.context.setLoopDepth 0 } :=
          hs.turn fun _ _ h => h
    refine (ih ((hinside.run n hrule).turn fun _ _ h => h)).mono fun j hj => ?_
    rcases hj with (hj | hj) | hj
    · exact .inl hj
    · exact .inr (.inFrame hrule hnext hj)
    · exact .inr (.afterFrame hrule hnext hj)

theorem Session.Traced.within (hs : start.Traced log s) (hi : log i) :
    start.TracedWithin log i.session := by
  induction hs with
  | start => exact hi.elim
  | run n hs _ ih =>
    rcases hi with hi | hi
    · exact (ih hi).mono fun _ => .inl
    · exact hi.tracedWithin hs
  | turn _ _ ih => exact ih hi

end Nested

end StaticCheck
