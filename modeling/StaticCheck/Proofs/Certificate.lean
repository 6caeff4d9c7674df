import StaticCheck.Proofs.Sized
import StaticCheck.Proofs.Standard

/-!
# How rules are put together

Every rule is put together from a few kinds of steps: questions to the judge,
looks at the session, single changes of it, and brackets that undo what they
change.  `Attested` is the certificate of this under a regime: what is asked
about suits the regime at the place where it is asked, and the function or the
loop around is looked at only where the regime allows it.  What holds of the
steps holds then of every rule, by one induction over the certificates.
-/

namespace StaticCheck

open Rule

/-!
## Running rules
-/

namespace Rule

variable {α β : Type}

theorem bind_run (rule : Rule α) (next : α → Rule β) (judge : Judge)
    (s : Session) :
    (rule >>= next) judge s = next (rule judge s).1 judge (rule judge s).2 :=
  rfl

-- A rule that starts with a look at the session goes on with what it saw.

theorem bind_tree (next : ScopeTree → Rule α) (judge : Judge) (s : Session) :
    (tree >>= next) judge s = next s.tree judge s := rfl

theorem bind_symbol (id : SymbolId) (next : Symbol → Rule α) (judge : Judge)
    (s : Session) :
    (symbol id >>= next) judge s = next (s.tree.symbol id) judge s := rfl

theorem bind_lookupLocal (scope : ScopeId) (name : String)
    (next : Option SymbolId → Rule α) (judge : Judge) (s : Session) :
    (lookupLocal scope name >>= next) judge s =
      next (s.tree.lookupLocal scope name) judge s := rfl

theorem bind_frame? (next : Option Frame → Rule α) (judge : Judge)
    (s : Session) : (frame? >>= next) judge s = next s.frame judge s := rfl

end Rule

section Answers

variable {α β : Type} {judge : Judge} {s t : Session}

theorem exists_of_bind {rule : Rule (Option α)}
    {next : Option α → Rule (Option β)} {b : β}
    (hnone : ∀ s, next none judge s = (none, s))
    (hrun : (rule >>= next) judge s = (some b, t)) :
    ∃ a mid, rule judge s = (some a, mid) ∧ next (some a) judge mid =
      (some b, t) := by
  rw [bind_run] at hrun
  cases hfound : rule judge s with
  | mk answer mid =>
    rw [hfound] at hrun
    cases answer with
    | none =>
      rw [hnone] at hrun
      cases hrun
    | some a => exact ⟨a, mid, rfl, hrun⟩

theorem length_of_mapSome {rule : α → Rule (Option β)} {items : List α}
    {answers : List β} (h : mapSome rule items judge s = (some answers, t)) :
    answers.length = items.length := by
  induction items generalizing s answers with
  | nil =>
    cases h
    rfl
  | cons item rest ih =>
    obtain ⟨answer, asked, -, h⟩ := exists_of_bind (fun _ => rfl) h
    obtain ⟨others, last, hrest, h⟩ := exists_of_bind (fun _ => rfl) h
    cases h
    simp [ih hrest]

end Answers

/-!
## Certificates
-/

def Problem.isInternal : Problem → Bool
  | .internalError _ => true
  | _ => false

def Regime.PledgesOnly (R : Regime) (id : SymbolId) (pledge? : Option Pledge) :
    Prop :=
  ∀ pledge, R.pledged id pledge → pledge? = some pledge

/-- What a regime knows about the scope tree at a place. -/
structure Regime.Describes (R : Regime) (place : R.Place) (tree : ScopeTree) :
    Prop where
  symbols : ∀ id, Meets R (tree.symbol id)
  opened : ∀ {id : NodeId} {inside : ScopeId → Prop} {scope : ScopeId},
    R.opens id inside → tree.nodeScope? id = some scope → inside scope
  unopened : ∀ {id : NodeId} {inside : ScopeId → Prop},
    R.opens id inside → tree.nodeScope? id = none → R.tolerant
  undeclared : ∀ {name : String},
    R.declares place name → tree.lookupLocal tree.current name =
    none → R.tolerant
  here : ∃ around, place = R.enter tree.current around
  assigned :
    ∀ {around : R.Place} {scope : ScopeId} {name : String} {id : SymbolId}
      {pledge? : Option Pledge},
    place = R.enter scope around → R.assigns place name pledge? →
      tree.lookupLocal scope name = some id → R.PledgesOnly id pledge?

/-- Whatever type the rule finds, the pledge allows it. -/
def Honours (pledge : Pledge) (rule : Rule (Option Ty)) : Prop :=
  ∀ (judge : Judge) (s : Session) (ty : Ty), (rule judge s).1 =
    some ty → pledge.Allows ty

namespace Honours

variable {pledge : Pledge} {rule : Rule (Option Ty)}

theorem none : Honours pledge (Pure.pure none) := by
  intro judge s ty hty
  cases hty

theorem pure {ty : Ty} (hty : pledge.Allows ty) :
    Honours pledge (Pure.pure (some ty)) := by
  intro judge s found hfound
  cases hfound
  exact hty

theorem bind {α : Type} {first : Rule α} {next : α → Rule (Option Ty)}
    (hnext : ∀ a, Honours pledge (next a)) :
    Honours pledge (first >>= next) := by
  intro judge s ty hty
  exact hnext _ judge _ ty hty

theorem withScope {scope : ScopeId} (h : Honours pledge rule) :
    Honours pledge (withScope scope rule) := by
  intro judge s ty hty
  exact h judge _ ty hty

theorem withUnfolding {id : SymbolId} (h : Honours pledge rule) :
    Honours pledge (withUnfolding id rule) := by
  intro judge s ty hty
  exact h judge _ ty hty

end Honours

structure Standard.Describes (R : Standard) (place : R.Place)
    (tree : ScopeTree) : Prop extends R.toRegime.Describes place tree where
  settled : R.strict → ∀ id, Settled (tree.symbol id)

/-- The rule is a composition of certified steps at a place, which find what
fits a standard. -/
inductive Attested (R : Standard) :
    (place : R.Place) → {α : Type} → [Found α] → Rule α → Prop
  | pure {place : R.Place} {α : Type} [Found α] {a : α} (ha : Fits R a) :
      Attested R place (Pure.pure a : Rule α)
  | bind {place : R.Place} {α β : Type} [Found α] [Found β] {rule : Rule α}
      {next : α → Rule β}
      (hrule : Attested R place rule)
      (hnext : ∀ a, Fits R a → Attested R place (next a)) :
      Attested R place (rule >>= next)
  -- Questions.
  | askType {place : R.Place} {expr : Expr} (hexpr : expr.Suits R place) :
      Attested R place (askType expr)
  | askValid {place : R.Place} {stmt : Stmt} (hstmt : stmt.Suits R place) :
      Attested R place (askValid stmt)
  | askResolved {place : R.Place} {ty : Ty} {span : Span} {loud : Bool}
      (hty : Meets R ty) : Attested R place (askResolved ty span loud)
  | askCompatible {place : R.Place} {target source : Ty}
      (htarget : Fits R target)
      (hsource : Fits R source) : Attested R place (askCompatible target source)
  | askCastable {place : R.Place} {target source : Ty} (htarget : Fits R target)
      (hsource : Fits R source) : Attested R place (askCastable target source)
  | askValue {place : R.Place} {target : Ty} {value : Expr}
      (htarget : Fits R target)
      (hvalue : value.Suits R place) : Attested R place (askValue target value)
  | askPeeled {place : R.Place} {ty : Ty} (hty : Fits R ty) :
      Attested R place (askPeeled ty)
  -- Looks at the session.
  | seeTree {place : R.Place} {β : Type} [Found β] {next : ScopeTree → Rule β}
      (hnext : ∀ tree, R.Describes place tree → Attested R place (next tree)) :
      Attested R place (tree >>= next)
  | expected? {place : R.Place} : Attested R place expected?
  | isUnfolding {place : R.Place} {id : SymbolId} :
      Attested R place (isUnfolding id)
  | evaluator {place : R.Place} : Attested R place evaluator
  | containsType {place : R.Place} {id : SymbolId} {ty : Ty} :
      Attested R place (containsType id ty)
  | isInStatic {place : R.Place} : Attested R place isInStatic
  | misusesInstance {place : R.Place} {id : SymbolId} :
      Attested R place (misusesInstance id)
  | isInLoop {place : R.Place} (hplace : R.jumps place) :
      Attested R place isInLoop
  | frame? {place : R.Place} (hplace : R.leaves place) : Attested R place frame?
  -- Changes.
  | report {place : R.Place} {problem : Problem} {span : Span}
      (hproblem : problem.isInternal = false) :
      Attested R place (report problem span)
  | reportInternal {place : R.Place} {finding : Finding} (hfails : R.tolerant) :
      Attested R place (reportInternal finding)
  | reportCast {place : R.Place} {problem : Problem} {span : Span}
      (hproblem : problem.isInternal = false) :
      Attested R place (reportCast problem span)
  | updateSymbol {place : R.Place} {id : SymbolId} {f : Symbol → Symbol}
      (hadvance : ∀ symbol : Symbol, symbol.Advances (f symbol))
      (htyped : ∀ (symbol : Symbol) (ty : Ty), symbol.ty = some ty →
        (f symbol).ty = some ty)
      (hfits : ∀ symbol : Symbol, Fits R symbol → Fits R (f symbol))
      (hkeeps : ∀ pledge, R.pledged id pledge → ∀ symbol : Symbol,
        symbol.Keeps pledge → (f symbol).Keeps pledge) :
      Attested R place (updateSymbol id f)
  | bindLoop {place : R.Place} {binding : String} {body : NodeId}
      {ty : Option Ty} (hloop : R.loop binding body) (hty : Fits R ty) :
      Attested R place (bindLoop binding body ty)
  | updateFrame {place : R.Place} {f : Frame → Frame} (hplace : R.leaves place)
      (hadvance : ∀ frame : Frame, frame.Advances (f frame)) :
      Attested R place (updateFrame f)
  | typedOnce {place : R.Place} {id : SymbolId}
      {typing : Symbol → Rule (Option Ty)}
      (htyping : ∀ symbol, Fits R symbol → Attested R place (typing symbol))
      (hhonours : ∀ (symbol : Symbol) (pledge : Pledge),
        symbol.pledge? = some pledge → Honours pledge (typing symbol)) :
      Attested R place (typedOnce id typing)
  -- Brackets.
  | withScope {place : R.Place} {α : Type} [Found α] {scope : ScopeId}
      {rule : Rule α}
      (hrule : Attested R (R.enter scope place) rule) :
      Attested R place (withScope scope rule)
  | withSpan {place : R.Place} {α : Type} [Found α] {span : Span}
      {rule : Rule α}
      (hrule : Attested R place rule) : Attested R place (withSpan span rule)
  | withDeclaration {place : R.Place} {α : Type} [Found α] {name : String}
      {rule : Rule α}
      (hrule : Attested R place rule) :
      Attested R place (withDeclaration name rule)
  | withExpected {place : R.Place} {α : Type} [Found α] {expected : Option Ty}
      {rule : Rule α}
      (hexpected : Fits R expected) (hrule : Attested R place rule) :
      Attested R place (withExpected expected rule)
  | withLoop {place : R.Place} {α : Type} [Found α] {rule : Rule α}
      (hrule : Attested R (R.inLoop place) rule) :
      Attested R place (withLoop rule)
  | withUnfolding {place : R.Place} {α : Type} [Found α] {id : SymbolId}
      {rule : Rule α}
      (hrule : Attested R place rule) : Attested R place (withUnfolding id rule)
  | withSavedState {place : R.Place} {α : Type} [Found α] {rule : Rule α}
      (hrule : Attested R place rule) : Attested R place (withSavedState rule)
  | speculate {place : R.Place} {α : Type} [Found α] {rule : Rule α}
      (hrule : Attested R place rule) : Attested R place (speculate rule)
  -- The frame is still there when the body has been checked.
  | withFrame {place : R.Place} {α β : Type} [Found α] [Found β] {frame : Frame}
      {rule : Rule α} {next : Option Frame × α → Rule β} (hframe : Fits R frame)
      (hrule : Attested R (R.inFunction place) rule)
      (hnext : ∀ finished a, Attested R place (next (some finished, a)))
      (hlost : R.tolerant → ∀ a, Attested R place (next (none, a))) :
      Attested R place (withFrame frame rule >>= next)
  -- What is inferred is remembered under the node.
  | memoized {place : R.Place} {expr : Expr} (hexpr : expr.Suits R place)
      (hkind : Attested R place (inferKind expr)) :
      Attested R place (inferExpr expr)

namespace Attested

variable {R : Standard} {place : R.Place} {α β : Type} [Found α] [Found β]

/-!
## Answers and branches
-/

theorem answer [Typeless α] (a : α) : Attested R place (Pure.pure a : Rule α) :=
  .pure (fits_typeless a)

theorem noAnswer : Attested R place (Pure.pure none : Rule (Option α)) :=
  .pure fits_none

theorem ok :
    Attested R place (Pure.pure (.ok ()) : Rule (Except Finding Unit)) :=
  .pure (fits_ok ())

theorem fails {finding : Finding} (hfails : R.tolerant) :
    Attested R place
      (Pure.pure (.error finding) : Rule (Except Finding Unit)) := by
  exact .pure ⟨fun _ => hfails, fun _ => trivial⟩

theorem ite {c : Prop} [Decidable c] {yes no : Rule α}
    (hyes : Attested R place yes) (hno : Attested R place no) :
    Attested R place (if c then yes else no) := by
  split
  · exact hyes
  · exact hno

theorem bindOption {rule : Rule (Option α)} {next : Option α → Rule β}
    (hrule : Attested R place rule) (hnone : Attested R place (next none))
    (hsome : ∀ a, Fits R a → Attested R place (next (some a))) :
    Attested R place (rule >>= next) := by
  refine .bind hrule fun answer hanswer => ?_
  cases answer with
  | none => exact hnone
  | some a => exact hsome a (fits_some.mp hanswer)

theorem andThen {rule : Rule Unit} {next : Unit → Rule β}
    (hrule : Attested R place rule) (hnext : Attested R place (next ())) :
    Attested R place (rule >>= next) :=
  .bind hrule fun _ _ => hnext

theorem discard {rule : Rule α} (hrule : Attested R place rule) :
    Attested R place (Functor.discard rule) := by
  exact .bind hrule fun _ _ => .answer ()

/-!
## Steps made of the given ones
-/

theorem symbol {id : SymbolId} : Attested R place (Rule.symbol id) := by
  have hread : Rule.symbol id = Rule.tree >>= fun tree =>
      Pure.pure (tree.symbol id) := rfl
  rw [hread]
  exact .seeTree fun tree htree =>
    .pure ⟨htree.symbols id, fun hstrict => htree.settled hstrict id⟩

theorem lookup {name : String} : Attested R place (Rule.lookup name) := by
  have hread : Rule.lookup name = Rule.tree >>= fun tree =>
      Pure.pure (tree.lookup name) := rfl
  rw [hread]
  exact .seeTree fun tree _ => .answer (tree.lookup name)

theorem lookupLocal {scope : ScopeId} {name : String} :
    Attested R place (Rule.lookupLocal scope name) := by
  have hread : Rule.lookupLocal scope name =
      Rule.tree >>= fun tree => Pure.pure (tree.lookupLocal scope name) := rfl
  rw [hread]
  exact .seeTree fun tree _ => .answer (tree.lookupLocal scope name)

theorem reportMismatch {expected received : String} {span : Span} :
    Attested R place (reportMismatch expected received span) := .report rfl

theorem reportFailure {result : Except Finding Unit} (hresult : Fits R result) :
    Attested R place (reportFailure result) := by
  cases result with
  | ok u => exact .answer ()
  | error finding => exact .reportInternal (hresult.1 rfl)

theorem updateFlags {id : SymbolId} {f : Symbol → Symbol}
    (hadvance : ∀ symbol : Symbol, symbol.Advances (f symbol))
    (hty : ∀ symbol : Symbol, (f symbol).ty = symbol.ty) :
    Attested R place (Rule.updateSymbol id f) := by
  refine .updateSymbol hadvance ?_ ?_ ?_
  · intro symbol ty hknown
    exact (hty symbol).trans hknown
  · intro symbol hsymbol
    rw [(hadvance symbol).fixed, hty symbol]
    exact ⟨{ hsymbol.1 with }, hsymbol.2⟩
  · intro _ _ symbol hkeeps ty hknown
    exact hkeeps ty ((hty symbol).symm.trans hknown)

theorem markUsed {id : SymbolId} : Attested R place (markUsed id) := by
  refine .updateFlags (fun symbol => ?_) fun _ => rfl
  exact { Symbol.Advances.refl symbol with fixed := rfl, used := fun _ => rfl }

theorem setTypeIfNone {id : SymbolId} {ty : Option Ty} (hty : Fits R ty)
    (hfree : R.PledgesOnly id none) :
    Attested R place (setTypeIfNone id ty) := by
  refine .updateSymbol (fun symbol => ?_) (fun symbol known hknown => ?_)
    (fun symbol hsymbol => ?_) fun pledge hpledged => ?_
  · exact { Symbol.Advances.refl symbol with fixed := rfl }
  · simp [hknown]
  · have hknown := fits_or (fits_symbol hsymbol) hty
    exact ⟨{ hsymbol.1 with ty := hknown.1 }, hknown.2⟩
  · cases hfree pledge hpledged

theorem inferExpecting {expr : Expr} {expected : Option Ty}
    (hexpr : expr.Suits R place) (hexpected : Fits R expected) :
    Attested R place (inferExpecting expr expected) := by
  exact .withExpected hexpected (.askType hexpr)

theorem inScope? {scope : Option ScopeId} {rule : Rule α}
    (hrule : ∀ place, Attested R place rule) :
    Attested R place (inScope? scope rule) := by
  cases scope with
  | none => exact hrule place
  | some scope => exact .withScope (hrule _)

/-!
## Rules on lists
-/

variable {γ : Type} {items : List γ}

theorem forEach {rule : γ → Rule Unit}
    (hrule : ∀ a ∈ items, Attested R place (rule a)) :
    Attested R place (forEach rule items) := by
  induction items with
  | nil => exact .answer ()
  | cons a rest ih =>
    rw [List.forall_mem_cons] at hrule
    exact .andThen hrule.1 (ih hrule.2)

theorem mapSome {rule : γ → Rule (Option β)}
    (hrule : ∀ a ∈ items, Attested R place (rule a)) :
    Attested R place (mapSome rule items) := by
  induction items with
  | nil => exact .pure (by simp)
  | cons a rest ih =>
    rw [List.forall_mem_cons] at hrule
    refine .bindOption hrule.1 .noAnswer fun b hb => ?_
    exact .bindOption (ih hrule.2) .noAnswer fun bs hbs =>
      .pure (by simp [hb, hbs])

theorem mapEach {rule : γ → Rule β}
    (hrule : ∀ a ∈ items, Attested R place (rule a)) :
    Attested R place (mapEach rule items) := by
  induction items with
  | nil => exact .pure fits_nil
  | cons a rest ih =>
    rw [List.forall_mem_cons] at hrule
    refine .bind hrule.1 fun b hb => ?_
    exact .bind (ih hrule.2) fun bs hbs => .pure (by simp [hb, hbs])

variable {rule : γ → Rule Bool} (hrule : ∀ a ∈ items, Attested R place (rule a))

include hrule

theorem anyOf : Attested R place (anyOf rule items) := by
  induction items with
  | nil => exact .answer false
  | cons a rest ih =>
    rw [List.forall_mem_cons] at hrule
    exact .bind hrule.1 fun _ _ => .ite (.answer true) (ih hrule.2)

theorem allOf : Attested R place (allOf rule items) := by
  induction items with
  | nil => exact .answer true
  | cons a rest ih =>
    rw [List.forall_mem_cons] at hrule
    exact .bind hrule.1 fun _ _ => .ite (ih hrule.2) (.answer false)

theorem everyOf : Attested R place (everyOf rule items) := by
  induction items with
  | nil => exact .answer true
  | cons a rest ih =>
    rw [List.forall_mem_cons] at hrule
    exact .bind hrule.1 fun _ _ => .bind (ih hrule.2) fun _ _ => .answer _

end Attested
end StaticCheck
