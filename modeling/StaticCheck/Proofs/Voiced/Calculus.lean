import StaticCheck.Proofs.Visits

/-!
# Rules that answer or report

Many rules give no answer only where they report an error.  Such rules are
called voiced, and a few laws put them together from smaller ones.  Whether a
rule is voiced can depend on where in the program it runs: an expression that is
met again while it is being inferred has no type, and neither has a symbol that
is still being typed.  It also depends on the symbols of types and functions
keeping the types they were collected with, which they do if all that loops bind
are variables.
-/

namespace StaticCheck

open Rule

/-!
## Views
-/

/-- From where in a program a question is asked: in which scope, while which
symbols are being typed or unfolded, and inside of which expressions. -/
structure View (program : Program) where
  scope : ScopeId
  unfolding : List SymbolId
  above : List (NodeId × Form)
  nodup : unfolding.Nodup
  known : ∀ id ∈ unfolding, id.index < program.collect.tree.symbols.size

variable {α β : Type} {program : Program} {n : Nat} {view : View program}

namespace View

def ofScope (program : Program) (scope : ScopeId) : View program :=
  ⟨scope, [], [], .nil, fun _ h => (List.not_mem_nil h).elim⟩

def enter (view : View program) (scope : ScopeId) : View program :=
  { view with scope }

def inside (view : View program) (node : NodeId × Form) : View program :=
  { view with above := node :: view.above }

def unfold (view : View program) (id : SymbolId)
    (hknown : id.index < program.collect.tree.symbols.size)
    (hnew : id ∉ view.unfolding) :
    View program :=
  { view with
    unfolding := id :: view.unfolding
    nodup := List.nodup_cons.mpr ⟨hnew, view.nodup⟩
    known := List.forall_mem_cons.mpr ⟨hknown, view.known⟩ }

/-- Number of symbols that are left to unfold. -/
def room (view : View program) : Nat :=
  program.collect.tree.symbols.size - view.unfolding.length

/-- How far questions from the view can lead away from the expression that they
are about: to the initializers of the symbols that are left, each no larger than
the program. -/
def depth (view : View program) : Nat := view.room * (program.size + 1)

theorem room_unfold {id : SymbolId}
    (hknown : id.index < program.collect.tree.symbols.size)
    (hnew : id ∉ view.unfolding) :
    (view.unfold id hknown hnew).room + 1 = view.room := by
  have hlength :=
    ScopeTree.length_le_of_known (view.unfold id hknown hnew).nodup
    (view.unfold id hknown hnew).known
  have hcons : (view.unfold id hknown hnew).unfolding.length =
      view.unfolding.length + 1 := rfl
  rw [hcons] at hlength
  unfold room
  rw [hcons]
  omega

theorem depth_unfold {id : SymbolId}
    (hknown : id.index < program.collect.tree.symbols.size)
    (hnew : id ∉ view.unfolding) :
    (view.unfold id hknown hnew).depth + (program.size + 1) = view.depth := by
  unfold depth
  rw [← room_unfold hknown hnew, Nat.succ_mul]

theorem room_le_depth (view : View program) : view.room ≤ view.depth := by
  exact Nat.le_mul_of_pos_right _ (Nat.succ_pos _)

end View

/-- All that the loops of the program bind are variables.  They are, if no two
nodes share a scope. -/
def Program.LoopsBindVariables (program : Program) : Prop :=
  ∀ loop ∈ program.loops,
    ∀ id ∈ program.collect.tree.loopVariable? loop.1 loop.2,
    (program.collect.tree.symbol id).kind = .var

instance (program : Program) : Decidable program.LoopsBindVariables :=
  inferInstanceAs (Decidable (∀ loop ∈ program.loops, _))

/-- What rules find in a check of the program holds only loops of the
program. -/
abbrev Program.standard (program : Program) : Standard :=
  (Policy.listed program.loops).regime.loose

abbrev Expr.Legal (program : Program) (expr : Expr) : Prop :=
  expr.Suits program.standard.toRegime Place.outside

theorem Expr.legal_of_suits {expr : Expr} {place : Place}
    (h : expr.Suits program.standard.toRegime place) : expr.Legal program := by
  have hloops : expr.exits.Allowed (.listed program.loops) place :=
    expr.suits_iff.mp h
  exact expr.suits_iff.mpr hloops

/-- The rule asks only about loops of the program. -/
abbrev Lawful (program : Program) {α : Type} [Found α] (rule : Rule α) : Prop :=
  Composed (.listed program.loops) .outside rule

theorem Symbol.suits_of_tree (program : Program) (id : SymbolId) :
    (program.collect.tree.symbol id).Suits program.standard.toRegime := by
  exact (Symbol.Fits.of_tree program id).obeys

/-- The session of a check of the program is where the view says. -/
structure Session.Sees (view : View program) (s : Session) : Prop where
  loops : program.LoopsBindVariables
  within : s.Within (.listed program.loops) .outside
  keeps : ∀ id, (program.collect.tree.symbol id).kind ≠ .var →
    program.collect.tree.KeepsType s.tree id
  tree : program.collect.tree.Grows s.tree
  current : s.tree.current = view.scope
  unfolding : s.unfolding = view.unfolding
  inFlight : ∀ key ∈ s.inFlight, (key.node, key.form) ∈ view.above

theorem ScopeTree.Grows.loopVariable?_eq {a b : ScopeTree} (h : a.Grows b)
    (binding : String) (body : NodeId) :
    b.loopVariable? binding body = a.loopVariable? binding body := by
  simp only [loopVariable?, h.nodeScope?_eq, h.lookupLocal_eq]

namespace Session.Sees

variable {s t : Session}

theorem noLoopBinds (h : s.Sees view) {id : SymbolId}
    (hkind : (program.collect.tree.symbol id).kind ≠ .var) :
    s.tree.NoLoopBinds program.loops id := by
  intro loop hloop hbound
  rw [h.tree.loopVariable?_eq] at hbound
  exact hkind (h.loops loop hloop id hbound)

theorem later [Answer α] {result : α × Session} (h : s.Sees view)
    (hstep : s.Step (.listed program.loops) .outside result) :
    result.2.Sees view where
  loops := h.loops
  within := hstep.within
  keeps id hkind ty hty :=
    hstep.keeps.types _ rfl id (h.noLoopBinds hkind) ty
      (h.keeps id hkind ty hty)
  tree := h.tree.trans hstep.advances.tree.grows
  current := hstep.advances.tree.current.trans h.current
  unfolding := hstep.advances.unfolding.trans h.unfolding
  inFlight := by
    rw [hstep.advances.inFlight]
    exact h.inFlight

theorem anywhere [Answer α] {result : α × Session} {place : Place}
    (h : s.Sees view) (hstep : s.Step (.listed program.loops) place result) :
    result.2.Sees view := by
  exact h.later
    { hstep with
      within :=
        { hstep.within with frame := fun _ => hstep.within.frame nofun } }

theorem run [Found α] {rule : Rule α} (h : s.Sees view)
    (hrule : Lawful program rule) (n : Nat) :
    (rule (Judge.limited n) s).2.Sees view := by
  exact h.later (hrule.step n h.within)

theorem fits [Found α] {rule : Rule α} (h : s.Sees view)
    (hrule : Lawful program rule) (n : Nat) :
    Fits program.standard (rule (Judge.limited n) s).1 := by
  exact fits_of_obeys (hrule.step n h.within).answer

theorem enter (h : s.Sees view) (scope : ScopeId) :
    { s with tree := s.tree.enter scope }.Sees (view.enter scope) := by
  exact { h with
    within := (h.within.enter scope).within
    tree := { h.tree with }
    current := rfl }

theorem setContext (h : s.Sees view) {context : Context}
    (hcontext : Obeys (.listed program.loops) context.expectations) :
    { s with context }.Sees view := by
  exact { h with within := h.within.setContext hcontext }

theorem infer (h : s.Sees view) (key : ExprKey) :
    { s with inFlight := key :: s.inFlight }.Sees
      (view.inside (key.node, key.form)) := by
  exact { h with
    within := { h.within with }
    inFlight := by
      intro other hother
      rcases List.mem_cons.mp hother with rfl | hother
      · exact .head _
      · exact .tail _ (h.inFlight other hother) }

theorem unfold (h : s.Sees view) {id : SymbolId}
    (hknown : id.index < program.collect.tree.symbols.size)
    (hnew : id ∉ view.unfolding) :
    { s with unfolding := id :: s.unfolding }.Sees
      (view.unfold id hknown hnew) := by
  exact { h with
    within := { h.within with }
    unfolding := congrArg (id :: ·) h.unfolding }

theorem symbol (h : s.Sees view) (id : SymbolId) :
    (program.collect.tree.symbol id).Advances (s.tree.symbol id) :=
  h.tree.symbols id

end Session.Sees

/-!
## Voiced rules
-/

/-- Asked from the view, the rule gives an answer unless an error was
reported. -/
structure Voiced (n : Nat) (view : View program) (rule : Rule (Option α)) :
    Prop where
  answers : ∀ s : Session, s.Sees view → (rule (Judge.limited n) s).2.Clean →
    (rule (Judge.limited n) s).1.isSome = true

/-- A lawful rule that is voiced.  Other rules can go on after it. -/
structure Asked (n : Nat) (view : View program) [Found α]
    (rule : Rule (Option α)) : Prop extends Voiced n view rule where
  lawful : Lawful program rule

theorem reported_not_clean {s : Session} {problem : Problem} {span : Span}
    {judge : Judge} :
    ¬((do report problem span; return none : Rule (Option α)) judge s).2.Clean := by
  exact (Session.Leads.refl _ : Session.Leads .free _ _).not_clean (a := s)

namespace Voiced

variable [Found α] {rule : Rule (Option α)}

theorem answer (a : β) : Voiced n view (pure (some a) : Rule (Option β)) where
  answers _ _ _ := rfl

theorem reported {problem : Problem} {span : Span} :
    Voiced n view (do report problem span; return none : Rule (Option β)) where
  answers _ _ hclean := (reported_not_clean hclean).elim

theorem reporting {problem : Problem} {span : Span} {next : Rule (Option α)}
    (hnext : Lawful program next) :
    Voiced n view (do report problem span; next) where
  answers s hs hclean := by
    have hreport : Lawful program (report problem span) := Composed.report
    exact absurd hclean
      ((hnext.step n (hs.run hreport n).within).leads.not_clean (a := s))

theorem after {rule : Rule α} {next : α → Rule (Option β)}
    (hrule : Lawful program rule)
    (hnext : ∀ a, Fits program.standard a → Voiced n view (next a)) :
    Voiced n view (rule >>= next) where
  answers _ hs hclean :=
    (hnext _ (hs.fits hrule n)).answers _ (hs.run hrule n) hclean

end Voiced

namespace Asked

variable [Found α] [Found β] {rule : Rule (Option α)}

/-- The error that stands for a missing answer is still there after the next
rule, which may rely on what is true of every answer. -/
theorem bindFound {next : Option α → Rule (Option β)} {P : α → Prop}
    (hrule : Asked n view rule)
    (hfound : ∀ s : Session, s.Sees view →
      ∀ a ∈ (rule (Judge.limited n) s).1, P a)
    (hnone : Lawful program (next none))
    (hnext : ∀ a, P a → Fits program.standard a →
      Voiced n view (next (some a))) :
    Voiced n view (rule >>= next) where
  answers s hs hclean := by
    rw [bind_run] at hclean ⊢
    have hlater := hs.run hrule.lawful n
    have hfits := hs.fits hrule.lawful n
    have hanswers := hrule.answers s hs
    have hfound := hfound s hs
    generalize rule (Judge.limited n) s =
      run at hclean hlater hfits hanswers hfound ⊢
    obtain ⟨answer, t⟩ := run
    cases answer with
    | none =>
      have ht : t.Clean := (hnone.step n hlater.within).leads.clean hclean
      exact absurd (hanswers ht) (by simp)
    | some a =>
      exact (hnext a (hfound a rfl) (fits_some.mp hfits)).answers t
        hlater hclean

theorem bind {next : Option α → Rule (Option β)}
    (hrule : Asked n view rule) (hnone : Lawful program (next none))
    (hnext : ∀ a, Fits program.standard a → Voiced n view (next (some a))) :
    Voiced n view (rule >>= next) := by
  exact hrule.bindFound (P := fun _ => True) (fun _ _ _ _ => trivial) hnone
    fun a _ => hnext a

theorem map (hrule : Asked n view rule) (f : α → β) :
    Voiced n view (do return (← rule).map f) := by
  exact hrule.bind .noAnswer fun a _ => .answer (f a)

theorem mapSome {γ : Type} {rule : γ → Rule (Option β)} {items : List γ}
    (hrule : ∀ a ∈ items, Asked n view (rule a)) :
    Asked n view (mapSome rule items) := by
  induction items with
  | nil =>
    exact ⟨.answer [], .mapSome fun _ hmem => (List.not_mem_nil hmem).elim⟩
  | cons a rest ih =>
    have hlawful : Lawful program (Rule.mapSome rule (a :: rest)) :=
      .mapSome fun a hmem => (hrule a hmem).lawful
    rw [List.forall_mem_cons] at hrule
    refine ⟨hrule.1.bind .noAnswer fun b _ => ?_, hlawful⟩
    exact (ih hrule.2).bind .noAnswer fun bs _ => .answer (b :: bs)

end Asked

namespace Voiced

variable {rule : Rule (Option α)}

theorem ite {c : Prop} [Decidable c] {yes no : Rule (Option β)}
    (hyes : c → Voiced n view yes) (hno : ¬c → Voiced n view no) :
    Voiced n view (if c then yes else no) := by
  by_cases h : c
  · rw [if_pos h]
    exact hyes h
  · rw [if_neg h]
    exact hno h

theorem guarded {test : Rule Bool} {next : Rule (Option β)}
    (htest : Lawful program test)
    (hpassed : ∀ s : Session, (test (Judge.limited n) s).2.Clean →
      (test (Judge.limited n) s).1 = true)
    (hnext : Voiced n view next) :
    Voiced n view (do if !(← test) then return none else next) where
  answers s hs hclean := by
    rw [bind_run] at hclean ⊢
    have hlater := hs.run htest n
    have hpass := hpassed s
    generalize test (Judge.limited n) s = run at hclean hlater hpass ⊢
    obtain ⟨passed, t⟩ := run
    cases passed with
    | false => exact absurd (hpass hclean) (by simp)
    | true => exact hnext.answers t hlater hclean

theorem readSymbol {id : SymbolId} {next : Symbol → Rule (Option β)}
    (hnext : ∀ symbol, (program.collect.tree.symbol id).Advances symbol →
      ((program.collect.tree.symbol id).kind ≠ .var →
        ∀ ty, (program.collect.tree.symbol id).ty = some ty →
        symbol.ty = some ty) →
      Voiced n view (next symbol)) : Voiced n view (symbol id >>= next) where
  answers s hs hclean :=
    (hnext _ (hs.symbol id) (hs.keeps id)).answers s hs hclean

/-!
### Brackets
-/

theorem withScope {scope : ScopeId} (hrule : Voiced n (view.enter scope) rule) :
    Voiced n view (withScope scope rule) where
  answers _ hs hclean := hrule.answers _ (hs.enter scope) hclean

theorem withUnfolding {id : SymbolId}
    {hknown : id.index < program.collect.tree.symbols.size}
    {hnew : id ∉ view.unfolding}
    (hrule : Voiced n (view.unfold id hknown hnew) rule) :
    Voiced n view (withUnfolding id rule) where
  answers _ hs hclean := hrule.answers _ (hs.unfold hknown hnew) hclean

theorem withSpan (hrule : Voiced n view rule) (span : Span) :
    Voiced n view (withSpan span rule) where
  answers _ hs hclean :=
    hrule.answers _ (hs.setContext hs.within.expectations) hclean

theorem withDeclaration (hrule : Voiced n view rule) (name : String) :
    Voiced n view (withDeclaration name rule) where
  answers _ hs hclean :=
    hrule.answers _ (hs.setContext hs.within.expectations) hclean

theorem outside {node : NodeId × Form}
    (hrule : Voiced n (view.inside node) rule) : Voiced n view rule where
  answers s hs hclean := by
    refine hrule.answers s { hs with inFlight := fun key hkey => ?_ } hclean
    exact .tail _ (hs.inFlight key hkey)

end Voiced

theorem Asked.withExpected [Found α] {rule : Rule (Option α)}
    {expected : Option Ty} (hrule : Asked n view rule)
    (hexpected : Fits program.standard expected) :
    Asked n view (withExpected expected rule) where
  lawful := Attested.withExpected hexpected hrule.lawful
  answers _ hs hclean := by
    refine hrule.answers _ (hs.setContext ?_) hclean
    exact List.forall_mem_cons.mpr ⟨hexpected.1, hs.within.expectations⟩

theorem isUnfolding_run (id : SymbolId) (judge : Judge) (s : Session) :
    isUnfolding id judge s = (s.unfolding.contains id, s) := rfl

theorem answers_typedOnce {id : SymbolId} {typing : Symbol → Rule (Option Ty)}
    {judge : Judge} {s : Session}
    (hclean : (typedOnce id typing judge s).2.Clean)
    (htyping : (s.tree.symbol id).ty = none →
      (typing (s.tree.symbol id) judge s).2.Clean →
      (typing (s.tree.symbol id) judge s).1.isSome = true) :
    (typedOnce id typing judge s).1.isSome = true := by
  cases hty : (s.tree.symbol id).ty with
  | some ty =>
    rw [typedOnce_of_some hty]
    rfl
  | none =>
    rw [typedOnce_of_none hty] at hclean ⊢
    have hanswer := htyping hty
    generalize typing (s.tree.symbol id) judge s = run at hanswer hclean ⊢
    obtain ⟨answer, t⟩ := run
    cases answer with
    | none => exact hanswer hclean
    | some ty => rfl

end StaticCheck
