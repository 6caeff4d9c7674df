import StaticCheck.Proofs.Renaming.Session

/-!
# Rules under a renaming

Two rules are renamed versions of each other if from a session and its renamed
version they lead to a session and its renamed version again, with an answer and
its renamed version.  This is proved for each kind of step, and from then on
rules are compared step by step.  The evaluator is that of literals, which does
not see node ids.
-/

namespace StaticCheck

open Rule

variable {α β ρ : Type} [Renames α] [Renames β] {f : NodeId ↪ NodeId}

theorem rename_inert {g : NodeId → NodeId} (h : ∀ a : α, rename g a = a)
    (answer : Option α) : rename g answer = answer := by
  cases answer with
  | none => rfl
  | some a => exact congrArg some (h a)

/-- The second check does in the renamed session what the first one does in the
session. -/
def Check.RenamedTo (f : NodeId ↪ NodeId) (check check' : Check α) : Prop :=
  ∀ s : Session, s.evaluator = .literal →
    check' (s.rename f) = (rename f (check s).1, (check s).2.rename f) ∧
      (check s).2.evaluator = .literal

theorem Check.RenamedTo.bind {check check' : Check α} {next next' : α → Check β}
    (hcheck : Check.RenamedTo f check check')
    (hnext : ∀ a, Check.RenamedTo f (next a) (next' (rename f a))) :
    Check.RenamedTo f (check >>= next) (check' >>= next') := by
  intro s hs
  obtain ⟨hrun, hevaluator⟩ := hcheck s hs
  have hrest := hnext (check s).1 (check s).2 hevaluator
  refine ⟨?_, hrest.2⟩
  show next' (check' (s.rename f)).1 (check' (s.rename f)).2 = _
  rw [hrun]
  exact hrest.1

structure Judge.RenamedTo (f : NodeId ↪ NodeId) (judge judge' : Judge) :
    Prop where
  infer : ∀ expr,
    Check.RenamedTo f (judge.infer expr) (judge'.infer (expr.rename f))
  validate : ∀ stmt,
    Check.RenamedTo f (judge.validate stmt) (judge'.validate (stmt.rename f))
  resolve : ∀ ty span loud,
    Check.RenamedTo f (judge.resolve ty span loud)
    (judge'.resolve (ty.rename f) span loud)
  compatible : ∀ target source,
    Check.RenamedTo f (judge.compatible target source)
      (judge'.compatible (target.rename f) (source.rename f))
  castable : ∀ target source,
    Check.RenamedTo f (judge.castable target source)
      (judge'.castable (target.rename f) (source.rename f))
  checkValue : ∀ target value,
    Check.RenamedTo f (judge.checkValue target value)
      (judge'.checkValue (target.rename f) (value.rename f))
  peel : ∀ ty, Check.RenamedTo f (judge.peel ty) (judge'.peel (ty.rename f))

/-- Rules, and functions that lead from data to rules. -/
class Renamable (ρ : Type) where
  RenamedTo : (NodeId ↪ NodeId) → ρ → ρ → Prop

/-- The second rule is the renamed version of the first one. -/
def Renamed [Renamable ρ] (f : NodeId ↪ NodeId) (rule rule' : ρ) : Prop :=
  Renamable.RenamedTo f rule rule'

instance : Renamable (Rule α) where
  RenamedTo f rule rule' := ∀ ⦃judge judge' : Judge⦄, judge.RenamedTo f judge' →
    Check.RenamedTo f (rule judge) (rule' judge')

instance [Renamable ρ] : Renamable (α → ρ) where
  RenamedTo f rule rule' := ∀ a, Renamed f (rule a) (rule' (rename f a))

instance {α : Type} [NoIds α] [Renamable ρ] : Renamable (α → ρ) where
  RenamedTo f rule rule' := ∀ a, Renamed f (rule a) (rule' a)

/-- The rule does with renamed data the renamed version of what it does with the
data. -/
abbrev Equivariant [Renamable ρ] (f : NodeId ↪ NodeId) (rule : ρ) : Prop :=
  Renamed f rule rule

namespace Renamed

variable {rule rule' : Rule α}

theorem pure {a a' : α} (h : a' = rename f a) :
    Renamed f (Pure.pure a : Rule α) (Pure.pure a') := by
  rintro judge judge' - s hs
  exact ⟨congrArg (·, s.rename f) h, hs⟩

theorem bind {next next' : α → Rule β} (hrule : Renamed f rule rule')
    (hnext : Renamed f next next') :
    Renamed f (rule >>= next) (rule' >>= next') := by
  intro judge judge' hjudge
  show Check.RenamedTo f (rule judge >>= fun a => next a judge)
    (rule' judge' >>= fun a => next' a judge')
  exact (hrule hjudge).bind fun a => hnext a hjudge

theorem andThen {rule rule' : Rule Unit} {next next' : Rule β}
    (hrule : Renamed f rule rule') (hnext : Renamed f next next') :
    Renamed f (rule >>= fun _ => next) (rule' >>= fun _ => next') :=
  .bind hrule fun _ => hnext

theorem noAnswer :
    Renamed f (Pure.pure none : Rule (Option α)) (Pure.pure none) := .pure rfl

theorem bindOption {rule rule' : Rule (Option α)}
    {next next' : Option α → Rule β} (hrule : Renamed f rule rule')
    (hnone : Renamed f (next none) (next' none))
    (hsome : ∀ a, Renamed f (next (some a)) (next' (some (rename f a)))) :
    Renamed f (rule >>= next) (rule' >>= next') := by
  refine .bind hrule fun answer => ?_
  cases answer with
  | none => exact hnone
  | some a => exact hsome a

theorem ite {c c' : Prop} [Decidable c] [Decidable c']
    {rule rule' other other' : Rule α} (hc : c' ↔ c)
    (hrule : Renamed f rule rule') (hother : Renamed f other other') :
    Renamed f (if c then rule else other) (if c' then rule' else other') := by
  by_cases h : c
  · rw [if_pos h, if_pos (hc.mpr h)]
    exact hrule
  · rw [if_neg h, if_neg fun h' => h (hc.mp h')]
    exact hother

/-!
## Questions
-/

theorem askType : Equivariant f askType := by
  intro expr _ _ hjudge
  exact hjudge.infer expr

theorem askValid : Equivariant f askValid := by
  intro stmt _ _ hjudge
  exact hjudge.validate stmt

theorem askResolved : Equivariant f askResolved := by
  intro ty span loud _ _ hjudge
  exact hjudge.resolve ty span loud

theorem askCompatible : Equivariant f askCompatible := by
  intro target source _ _ hjudge
  exact hjudge.compatible target source

theorem askCastable : Equivariant f askCastable := by
  intro target source _ _ hjudge
  exact hjudge.castable target source

theorem askValue : Equivariant f askValue := by
  intro target value _ _ hjudge
  exact hjudge.checkValue target value

theorem askPeeled : Equivariant f askPeeled := by
  intro ty _ _ hjudge
  exact hjudge.peel ty

/-!
## Looks at the session
-/

theorem session : Renamed f (get : Rule Session) get :=
  fun _ _ _ _ hs => ⟨rfl, hs⟩

theorem look {look look' : Session → α}
    (h : ∀ s : Session, look' (s.rename f) = rename f (look s)) :
    Renamed f (do return look (← get) : Rule α) (do return look' (← get)) := by
  exact .bind .session fun s => .pure (h s)

theorem tree : Equivariant f tree := .look fun _ => rfl

theorem symbol : Equivariant f symbol := by
  intro id
  exact .look fun _ => ScopeTree.symbol_rename id

theorem lookup : Equivariant f lookup := by
  intro name
  refine .look fun s => ?_
  rw [rename_inert fun _ => rfl]
  exact ScopeTree.lookup_rename name

theorem lookupLocal : Equivariant f lookupLocal := by
  intro _ _
  refine .look fun s => ?_
  rw [rename_inert fun _ => rfl]
  rfl

theorem expected? : Equivariant f expected? := by
  refine .look fun s => ?_
  show (s.context.expectations.map (Option.map (Ty.rename f))).head?.join =
    Option.map (Ty.rename f) s.context.expectations.head?.join
  rw [List.head?_map, Option.join_map_eq_map_join]

theorem frame? : Equivariant f frame? := .look fun _ => rfl

theorem isInLoop : Equivariant f isInLoop := .look fun _ => rfl

theorem currentModule : Equivariant f currentModule := .look fun _ => rfl

theorem remembered? : Equivariant f remembered? := by
  intro key
  exact .look fun _ => TypeCache.get?_rename f.injective key

theorem isInFlight : Equivariant f isInFlight := by
  intro key
  refine .look fun s => ?_
  show (s.inFlight.map (ExprKey.rename f)).contains (key.rename f) =
    s.inFlight.contains key
  rw [Bool.eq_iff_iff, List.contains_iff_mem, List.contains_iff_mem]
  exact List.mem_map_of_injective (ExprKey.rename_injective f.injective)

theorem isUnfolding : Equivariant f isUnfolding := fun _ => .look fun _ => rfl

theorem evaluator {next next' : Evaluator → Rule α}
    (hnext : Renamed f (next .literal) (next' .literal)) :
    Renamed f (Rule.evaluator >>= next) (Rule.evaluator >>= next') := by
  intro judge judge' hjudge s hs
  have hrun : (Rule.evaluator >>= next) judge s = next .literal judge s :=
    congrArg (next · judge s) hs
  have hrun' : (Rule.evaluator >>= next') judge' (s.rename f) =
      next' .literal judge' (s.rename f) :=
    congrArg (next' · judge' (s.rename f)) hs
  rw [hrun, hrun']
  exact hnext hjudge s hs

/-!
## Changes of the session
-/

theorem update {g g' : Session → Session}
    (h : ∀ s : Session, g' (s.rename f) = (g s).rename f)
    (hevaluator : ∀ s, (g s).evaluator = s.evaluator) :
    Renamed f (update g) (update g') := by
  rintro judge judge' - s hs
  exact ⟨congrArg ((), ·) (h s), (hevaluator s).trans hs⟩

theorem updateTree {g g' : ScopeTree → ScopeTree}
    (h : ∀ tree : ScopeTree, g' (tree.rename f) = (g tree).rename f) :
    Renamed f (updateTree g) (updateTree g') := by
  exact .update
    (fun s =>
      congrArg (fun tree => ({ s.rename f with tree } : Session)) (h s.tree))
    fun _ => rfl

theorem updateContext {g g' : Context → Context}
    (h : ∀ context : Context, g' (context.rename f) = (g context).rename f) :
    Renamed f (updateContext g) (updateContext g') := by
  exact .update
    (fun s => congrArg (fun context => ({ s.rename f with context } : Session))
    (h s.context)) fun _ => rfl

theorem updateSymbol {g g' : Symbol → Symbol} (id : SymbolId)
    (h : ∀ symbol : Symbol, g' (symbol.rename f) = (g symbol).rename f) :
    Renamed f (updateSymbol id g) (updateSymbol id g') := by
  exact .updateTree fun tree => tree.updateSymbol_rename id (h _)

theorem setType : Equivariant f setType := by
  intro id _
  exact .updateSymbol id fun _ => rfl

theorem setTypeIfNone : Equivariant f setTypeIfNone := by
  intro id _
  refine .updateSymbol id fun symbol => ?_
  simp only [rename, Symbol.rename, Option.map_or]

theorem markUsed : Equivariant f markUsed := by
  intro id
  exact .updateSymbol id fun _ => rfl

theorem remember : Equivariant f remember := by
  intro key ty
  refine .update (fun s => ?_) fun _ => rfl
  exact congrArg (fun cache => ({ s.rename f with cache } : Session))
    (TypeCache.insert_rename f.injective key ty)

theorem updateFrame {g g' : Frame → Frame}
    (h : ∀ frame : Frame, g' (frame.rename f) = (g frame).rename f) :
    Renamed f (updateFrame g) (updateFrame g') := by
  refine .update (fun s => ?_) fun _ => rfl
  refine congrArg (fun frame => ({ s.rename f with frame } : Session)) ?_
  show (s.frame.map (Frame.rename f)).map g' =
    (s.frame.map g).map (Frame.rename f)
  rw [Option.map_map, Option.map_map]
  exact congrArg (Option.map · s.frame) (funext h)

theorem bindLoop : Equivariant f bindLoop := by
  intro binding body ty
  exact .updateTree fun tree =>
    tree.bindLoop_rename f.injective binding body ty

theorem report {problem problem' : Problem} (span : Span)
    (h : problem' = problem) :
    Renamed f (report problem span) (report problem' span) := by
  rw [h]
  exact .update (fun _ => rfl) fun _ => rfl

theorem reportMismatch {expected expected' received received' : String}
    (span : Span) (hexpected : expected' = expected)
    (hreceived : received' = received) :
    Renamed f (reportMismatch expected received span)
      (reportMismatch expected' received' span) := by
  exact .report span (by rw [hexpected, hreceived])

theorem reportInternal : Equivariant f reportInternal := by
  intro _
  exact .update (fun _ => rfl) fun _ => rfl

theorem reportFailure : Equivariant f reportFailure := by
  intro result
  cases result with
  | ok => exact .pure rfl
  | error finding => exact .reportInternal finding

theorem reportCast {problem problem' : Problem} (span : Span)
    (h : problem' = problem) :
    Renamed f (reportCast problem span) (reportCast problem' span) := by
  rw [h]
  exact .update (fun _ => rfl) fun _ => rfl

theorem discard (h : Renamed f rule rule') :
    Renamed f (Functor.discard rule) (Functor.discard rule') := by
  have hthen : Renamed f (rule >>= fun _ => Pure.pure ())
      (rule' >>= fun _ => Pure.pure ()) :=
    .bind h fun _ => .pure rfl
  exact hthen

theorem typedOnce {typing typing' : Symbol → Rule (Option Ty)} (id : SymbolId)
    (h : Renamed f typing typing') :
    Renamed f (typedOnce id typing) (typedOnce id typing') := by
  refine .bind (.symbol id) fun symbol => ?_
  cases hty : symbol.ty with
  | some ty =>
    have hty' : (rename f symbol).ty = some (ty.rename f) :=
      congrArg (Option.map _) hty
    rw [hty']
    exact .pure rfl
  | none =>
    have hty' : (rename f symbol).ty = none := congrArg (Option.map _) hty
    rw [hty']
    exact .bindOption (h symbol) (.pure rfl) fun ty => .bind (.setType id ty)
      fun _ => .pure rfl

/-!
## Brackets
-/

theorem withScope (scope : ScopeId) (h : Renamed f rule rule') :
    Renamed f (withScope scope rule) (withScope scope rule') := by
  refine .bind .tree fun tree => .bind (.updateTree fun _ => rfl) fun _ => ?_
  exact .bind h fun _ => .bind (.updateTree fun _ => rfl) fun _ => .pure rfl

theorem inContext {enter enter' leave : Context → Context}
    (henter : ∀ context : Context, enter' (context.rename f) =
      (enter context).rename f)
    (hleave : ∀ context : Context, leave (context.rename f) =
      (leave context).rename f)
    (h : Renamed f rule rule') :
    Renamed f (do
      Rule.updateContext enter
      let answer ← rule
      Rule.updateContext leave
      return answer) (do
      Rule.updateContext enter'
      let answer ← rule'
      Rule.updateContext leave
      return answer) :=
  .bind (.updateContext henter) fun _ => .bind h fun _ =>
    .bind (.updateContext hleave) fun _ => .pure rfl

theorem withSpan (span : Span) (h : Renamed f rule rule') :
    Renamed f (withSpan span rule) (withSpan span rule') := by
  exact .inContext (fun _ => rfl) (fun _ => rfl) h

theorem withDeclaration (name : String) (h : Renamed f rule rule') :
    Renamed f (withDeclaration name rule) (withDeclaration name rule') := by
  exact .inContext (fun _ => rfl) (fun _ => rfl) h

theorem withExpected (expected : Option Ty) (h : Renamed f rule rule') :
    Renamed f (withExpected expected rule)
      (withExpected (expected.map (Ty.rename f)) rule') := by
  refine .inContext (fun _ => rfl) (fun context => ?_) h
  simp only [Context.popExpected, Context.rename, List.map_tail]

theorem withLoop (h : Renamed f rule rule') :
    Renamed f (withLoop rule) (withLoop rule') := by
  exact .inContext (fun _ => rfl) (fun _ => rfl) h

theorem withInFlight (key : ExprKey) (h : Renamed f rule rule') :
    Renamed f (withInFlight key rule) (withInFlight (key.rename f) rule') := by
  refine .bind (.update (fun _ => rfl) fun _ => rfl) fun _ =>
    .bind h fun _ => ?_
  refine .bind (.update (fun s => ?_) fun _ => rfl) fun _ => .pure rfl
  refine congrArg (fun inFlight => ({ s.rename f with inFlight } : Session)) ?_
  exact (List.map_erase (ExprKey.rename_injective f.injective) s.inFlight).symm

theorem withUnfolding (id : SymbolId) (h : Renamed f rule rule') :
    Renamed f (withUnfolding id rule) (withUnfolding id rule') := by
  exact .bind (.update (fun _ => rfl) fun _ => rfl) fun _ => .bind h fun _ =>
    .bind (.update (fun _ => rfl) fun _ => rfl) fun _ => .pure rfl

theorem withSavedState (h : Renamed f rule rule') :
    Renamed f (withSavedState rule) (withSavedState rule') := by
  refine .bind .session fun before => .bind h fun answer => ?_
  exact .bind (.update (fun _ => rfl) fun _ => rfl) fun _ => .pure rfl

theorem speculate (h : Renamed f rule rule') :
    Renamed f (speculate rule) (speculate rule') := by
  refine .bind .session fun before =>
    .bind (.update (fun _ => rfl) fun _ => rfl) fun _ => ?_
  refine .bind h.withSavedState fun answer => .bind .session fun after => ?_
  refine .bind (.update (fun s => ?_) fun _ => rfl) fun _ => .pure rfl
  have hcache : (s.cache.rename f).rollbackTrial =
      s.cache.rollbackTrial.rename f :=
    TypeCache.rollbackTrial_rename f.injective
  simp only [Session.rename, hcache]
  rfl

theorem withFrame (frame : Frame) (h : Renamed f rule rule') :
    Renamed f (withFrame frame rule) (withFrame (frame.rename f) rule') := by
  refine .bind .session fun before =>
    .bind (.update (fun _ => rfl) fun _ => rfl) fun _ => ?_
  refine .bind h fun answer => .bind .session fun after => ?_
  exact .bind (.update (fun _ => rfl) fun _ => rfl) fun _ => .pure rfl

/-!
## Rules on lists
-/

section

variable {γ : Type} [Renames γ] {list list' : List γ}

theorem mapSome {rule rule' : γ → Rule (Option β)}
    (h : Renamed f rule rule') (hlist : list' = list.map (rename f)) :
    Renamed f (mapSome rule list) (mapSome rule' list') := by
  subst hlist
  induction list with
  | nil => exact .pure rfl
  | cons c rest ih =>
    refine .bindOption (h c) (.pure rfl) fun b => ?_
    exact .bindOption ih (.pure rfl) fun bs => .pure rfl

theorem mapEach {rule rule' : γ → Rule β} (h : Renamed f rule rule')
    (hlist : list' = list.map (rename f)) :
    Renamed f (mapEach rule list) (mapEach rule' list') := by
  subst hlist
  induction list with
  | nil => exact .pure rfl
  | cons c rest ih => exact .bind (h c) fun b => .bind ih fun bs => .pure rfl

theorem forEach {rule rule' : γ → Rule Unit} (h : Renamed f rule rule')
    (hlist : list' = list.map (rename f)) :
    Renamed f (forEach rule list) (forEach rule' list') := by
  subst hlist
  induction list with
  | nil => exact .pure rfl
  | cons c rest ih => exact .bind (h c) fun _ => ih

variable {rule rule' : γ → Rule Bool} (h : Renamed f rule rule')
  (hlist : list' = list.map (rename f))

include h hlist

theorem anyOf : Renamed f (anyOf rule list) (anyOf rule' list') := by
  subst hlist
  induction list with
  | nil => exact .pure rfl
  | cons c rest ih => exact .bind (h c) fun found => .ite Iff.rfl (.pure rfl) ih

theorem allOf : Renamed f (allOf rule list) (allOf rule' list') := by
  subst hlist
  induction list with
  | nil => exact .pure rfl
  | cons c rest ih => exact .bind (h c) fun found => .ite Iff.rfl ih (.pure rfl)

theorem everyOf : Renamed f (everyOf rule list) (everyOf rule' list') := by
  subst hlist
  induction list with
  | nil => exact .pure rfl
  | cons c rest ih =>
    exact .bind (h c) fun first => .bind ih fun others => .pure rfl

end

theorem inferExpecting : Equivariant f inferExpecting := by
  intro expr expected
  exact .withExpected expected (.askType expr)

end Renamed

end StaticCheck
