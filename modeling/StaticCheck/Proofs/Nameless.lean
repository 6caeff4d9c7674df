import StaticCheck.Proofs.Charted

/-!
# Types of values hold no names

If no type that a session holds for a value has a name or a parenthesis in it,
then none does after a rule, and none is found by it.  This takes no more than
that the rules are put together from steps that find what fits a standard.
-/

namespace StaticCheck

open Rule

variable {α β : Type}

def Standard.nameless : Standard := ⟨Policy.free.regime, True⟩

theorem fits_nameless [Found α] {a : α} : Fits .nameless a ↔ Settled a := by
  exact ⟨fun h => h.2 trivial, fun h => ⟨Answer.free a, fun _ => h⟩⟩

structure Session.Nameless (s : Session) : Prop where
  symbols : ∀ id, Settled (s.tree.symbol id)
  cache : ∀ ty, s.cache.Holds ty → ty.Nameless
  expectations : Settled s.context.expectations
  frame : Settled s.frame

def Settles [Found α] (check : Check α) : Prop :=
  ∀ s : Session, s.Nameless → Settled (check s).1 ∧ (check s).2.Nameless

abbrev Judge.Nameless (judge : Judge) : Prop :=
  judge.Answers .nameless fun _ _ _ check => Settles check

namespace Settles

variable [Found α] [Found β] {rule : Rule α} {judge : Judge}

theorem bindRule {next : α → Rule β} (hrule : Settles (rule judge))
    (hnext : ∀ a, Settled a → Settles (next a judge)) :
    Settles ((rule >>= next) judge) := by
  intro s hs
  obtain ⟨ha, ht⟩ := hrule s hs
  exact hnext _ ha _ ht

theorem bindOption {rule : Rule (Option α)} {next : Option α → Rule β}
    (hrule : Settles (rule judge)) (hnone : Settles (next none judge))
    (hsome : ∀ a, Settled a → Settles (next (some a) judge)) :
    Settles ((rule >>= next) judge) := by
  refine hrule.bindRule fun answer hanswer => ?_
  cases answer with
  | none => exact hnone
  | some a => exact hsome a (hanswer a rfl)

theorem noAnswer : Settles ((pure none : Rule (Option α)) judge) := by
  intro _ hs
  exact ⟨fun _ h => absurd h.symm (Option.some_ne_none _), hs⟩

theorem found {a : α} (ha : Settled a) :
    Settles ((pure (some a) : Rule (Option α)) judge) := by
  intro _ hs
  exact ⟨fun _ h => Option.some.inj h ▸ ha, hs⟩

theorem bracket {f g : Session → Session}
    (hf : ∀ s, s.Nameless → (f s).Nameless)
    (hg : ∀ s, s.Nameless → (g s).Nameless) (hrule : Settles (rule judge)) :
    Settles ((do
      update f
      let answer ← rule
      update g
      return answer) judge) := by
  intro s hs
  obtain ⟨ha, ht⟩ := hrule _ (hf s hs)
  exact ⟨ha, hg _ ht⟩

theorem updateSymbol {id : SymbolId} {f : Symbol → Symbol}
    (hf : ∀ symbol : Symbol, Settled symbol → Settled (f symbol)) :
    Settles (updateSymbol id f judge) := by
  refine fun s hs => ⟨trivial, { hs with symbols := fun other => ?_ }⟩
  exact s.tree.symbol_updateSymbol_induction id f (P := fun a b => Settled a →
    Settled b) (hf _) (fun _ h => h) other (hs.symbols other)

theorem typedOnce {id : SymbolId} {typing : Symbol → Rule (Option Ty)}
    (htyping : ∀ symbol : Symbol, Settled symbol →
      Settles (typing symbol judge)) :
    Settles (typedOnce id typing judge) := by
  unfold Rule.typedOnce
  refine bindRule (fun s hs => ⟨hs.symbols id, hs⟩) fun symbol hsymbol => ?_
  cases hty : symbol.ty with
  | some ty => exact found (hsymbol ty hty)
  | none =>
    refine bindOption (htyping symbol hsymbol) noAnswer fun ty hty => ?_
    refine bindRule (updateSymbol fun _ _ _ h => Option.some.inj h ▸ hty)
      fun _ _ => ?_
    exact found hty

theorem bindLoop {binding : String} {body : NodeId} {ty : Option Ty}
    (hty : Settled ty) : Settles (bindLoop binding body ty judge) := by
  intro s hs
  have hrun : Rule.bindLoop binding body ty judge s =
      ((), { s with tree := s.tree.bindLoop binding body ty }) := rfl
  rw [hrun, ScopeTree.bindLoop]
  cases s.tree.loopVariable? binding body with
  | none => exact ⟨trivial, hs⟩
  | some id =>
    have hbound (symbol : Symbol) (_ : Settled symbol) :
        Settled { symbol with ty } := hty
    exact (updateSymbol hbound : Settles (Rule.updateSymbol id _ judge)) s hs

theorem speculate (hrule : Settles (rule judge)) :
    Settles (speculate rule judge) := by
  intro s hs
  have hbegun : { s with cache := s.cache.beginTrial }.Nameless :=
    { hs with
      cache := fun ty hty => hs.cache ty (TypeCache.holds_of_beginTrial hty) }
  obtain ⟨ha, ht⟩ := hrule _ hbegun
  exact ⟨⟨ha, trivial⟩, { ht with
    cache := fun ty hty => ht.cache ty (TypeCache.holds_of_rollbackTrial hty)
    expectations := hs.expectations
    frame := hs.frame }⟩

theorem memoized {expr : Expr} (hkind : Settles (inferKind expr judge)) :
    Settles (inferExpr expr judge) := by
  unfold inferExpr
  refine bindRule (fun s hs => ⟨trivial, hs⟩) fun key _ => ?_
  refine bindOption (fun s hs => ⟨fun ty hty => ?_, hs⟩) ?_
    fun ty hty => found hty
  · exact hs.cache ty (TypeCache.holds_of_get? hty)
  refine bindRule (fun s hs => ⟨trivial, hs⟩) fun busy _ => ?_
  cases busy with
  | true => exact noAnswer
  | false =>
    have hspan : Settles (withSpan expr.span (inferKind expr) judge) :=
      bracket (fun _ hs => { hs with }) (fun _ hs => { hs with }) hkind
    have hinner :
        Settles
        (withInFlight key (withSpan expr.span (inferKind expr)) judge) :=
      bracket (fun _ hs => { hs with }) (fun _ hs => { hs with }) hspan
    refine bindOption hinner noAnswer fun ty hty => ?_
    · refine bindRule
        (fun s hs => ⟨trivial, { hs with cache := fun other h => ?_ }⟩)
        fun _ _ => ?_
      · rcases TypeCache.holds_of_insert h with rfl | h
        · exact hty
        · exact hs.cache other h
      · exact found hty

end Settles

theorem Attested.settles {place : Standard.nameless.Place} [Found α]
    {rule : Rule α} (h : Attested .nameless place rule) {judge : Judge}
    (hjudge : judge.Nameless) :
    Settles (rule judge) := by
  induction h with
  | pure ha => exact fun _ hs => ⟨fits_nameless.mp ha, hs⟩
  | bind _ _ hrule hnext =>
    exact hrule.bindRule fun a ha => hnext a (fits_nameless.mpr ha)
  | askType hexpr => exact hjudge.infer hexpr
  | askValid hstmt => exact hjudge.validate hstmt
  | askResolved hty => exact hjudge.resolve Place.outside hty
  | askCompatible htarget hsource =>
    exact hjudge.compatible Place.outside htarget hsource
  | askCastable htarget hsource =>
    exact hjudge.castable Place.outside htarget hsource
  | askValue htarget hvalue => exact hjudge.checkValue htarget hvalue
  | askPeeled hty => exact hjudge.peel Place.outside hty
  | seeTree _ hnext =>
    refine fun s hs => hnext s.tree ?_ s hs
    exact { Policy.describes (Answer.free s.tree) with
      settled := fun _ => hs.symbols }
  | expected? =>
    refine fun s hs => ⟨fun ty hty => ?_, hs⟩
    have hhead := Option.join_eq_some_iff.mp hty
    exact hs.expectations (some ty) (List.mem_of_mem_head? hhead) ty rfl
  | isUnfolding | evaluator | containsType | isInStatic | isInLoop =>
    exact fun _ hs => ⟨trivial, hs⟩
  | misusesInstance =>
    intro s hs
    rw [misusesInstance_run]
    exact ⟨trivial, hs⟩
  | frame? => exact fun _ hs => ⟨hs.frame, hs⟩
  | report | reportInternal | reportCast =>
    exact fun _ hs => ⟨trivial, { hs with }⟩
  | updateSymbol _ _ hfits =>
    exact .updateSymbol fun symbol h =>
      fits_nameless.mp (hfits symbol (fits_nameless.mpr h))
  | bindLoop _ hty => exact .bindLoop (fits_nameless.mp hty)
  | updateFrame _ hadvance =>
    refine fun s hs => ⟨trivial, { hs with frame := fun frame hframe => ?_ }⟩
    obtain ⟨before, hbefore, rfl⟩ := Option.map_eq_some_iff.mp hframe
    rw [(hadvance before).fixed]
    exact hs.frame before hbefore
  | typedOnce _ _ htyping =>
    exact .typedOnce fun symbol h => htyping symbol (fits_nameless.mpr h)
  | @withScope _ _ _ scope _ _ hrule =>
    intro s hs
    obtain ⟨ha, ht⟩ := hrule { s with tree := s.tree.enter scope } { hs with }
    exact ⟨ha, { ht with }⟩
  | withSpan _ hrule | withDeclaration _ hrule | withLoop _ hrule
  | withUnfolding _ hrule =>
    exact .bracket (fun _ hs => { hs with }) (fun _ hs => { hs with }) hrule
  | withExpected hexpected _ hrule =>
    have hpush := fits_nameless.mp hexpected
    refine .bracket (fun _ hs => { hs with expectations := ?_ })
      (fun _ hs => { hs with expectations := fun _ h => ?_ }) hrule
    · exact List.forall_mem_cons.mpr ⟨hpush, hs.expectations⟩
    · exact hs.expectations _ (List.mem_of_mem_tail h)
  | withSavedState _ hrule =>
    exact fun s hs =>
      ⟨(hrule s hs).1, { (hrule s hs).2 with expectations := hs.expectations }⟩
  | speculate _ hrule => exact hrule.speculate
  | @withFrame _ _ _ _ _ frame rule _ hframe _ _ _ hrule hnext hlost =>
    have hwalk : Settles (Rule.withFrame frame rule judge) := by
      intro s hs
      obtain ⟨ha, ht⟩ := hrule
        { s with frame := some frame, context := s.context.setLoopDepth 0 }
        { hs with
          frame := fun _ h => Option.some.inj h ▸ fits_nameless.mp hframe }
      exact ⟨⟨ht.frame, ha⟩, { ht with frame := hs.frame }⟩
    refine hwalk.bindRule fun walked _ => ?_
    obtain ⟨_ | finished, a⟩ := walked
    · exact hlost trivial a
    · exact hnext finished a
  | memoized _ _ hkind => exact hkind.memoized

theorem Judge.limited_nameless (n : Nat) : (limited n).Nameless := by
  exact limited_answers (fun _ ha _ hs => ⟨fits_nameless.mp ha, hs⟩)
    (fun h ih => h.settles ih) n

/-!
## Programs that were collected and checked
-/

namespace Symbol

theorem nameless_placeless : Placeless (Settled : Symbol → Prop) :=
  fun _ _ _ h => h

theorem nameless_of_some {symbol : Symbol} {ty : Ty} (h : symbol.ty = some ty)
    (hty : ty.Nameless) : Settled symbol := by
  intro found hfound
  rw [h] at hfound
  exact Option.some.inj hfound ▸ hty

theorem nameless_of_none {symbol : Symbol} (h : symbol.ty = none) :
    Settled symbol := by
  intro found hfound
  rw [h] at hfound
  cases hfound

theorem nameless_owner {limits : Limits} {ty : Ty} (h : limits.Owner ty) :
    ty.Nameless := by
  have hdeclared := h.declared
  cases ty with
  | struct struct =>
    obtain ⟨name, members, scope⟩ := struct
    cases scope with
    | some scope => rfl
    | none => cases hdeclared
  | enum => rfl
  | _ => cases hdeclared

theorem nameless_declarable {limits : Limits} :
    Declarable limits (Settled : Symbol → Prop) where
  binding _ _ _ := nameless_of_none rfl
  constant _ _ _ := nameless_of_none rfl
  typeAlias _ _ _ _ _ := nameless_of_none rfl
  errorSet _ _ _ _ _ := nameless_of_some rfl rfl
  errorMember _ _ _ := nameless_of_some rfl rfl
  use _ _ _ := nameless_of_none rfl
  function _ _ _ _ := nameless_of_none rfl
  receiver _ _ howner := nameless_of_some rfl (nameless_owner howner)
  selfErr _ _ := nameless_of_some rfl rfl
  param owner slot howner _ := by
    intro ty hty
    have hself : (if slot.name == selfName then owner else none) = some ty :=
      hty
    split at hself
    · exact nameless_owner (howner ty hself)
    · cases hself
  type _ _ _ _ _ hty hmembers := by
    refine nameless_of_some rfl (nameless_owner ⟨hty, ?_⟩)
    rw [hmembers]
    rfl
  field _ _ := nameless_of_none rfl
  variant _ _ hty _ := nameless_of_some rfl (nameless_owner hty)
  forBinding _ _ := nameless_of_none rfl
  catchBinding _ _ := nameless_of_some rfl rfl

end Symbol

theorem Session.nameless_of_symbols {s : Session}
    (h : ∀ id, Settled (s.tree.symbol id)) (hentries : s.cache.entries = [])
    (htrials : s.cache.trials = [])
    (hexpectations : s.context.expectations = []) (hframe : s.frame = none) :
    s.Nameless := by
  refine ⟨h, fun ty hty => ?_, ?_, ?_⟩
  · simp [TypeCache.Holds, hentries, htrials] at hty
  · rw [hexpectations]
    exact List.forall_mem_nil _
  · rw [hframe]
    exact fun _ h => absurd h.symm (Option.some_ne_none _)

theorem settles_checkModule (module : Module) (n : Nat) :
    Settles (checkModule module (Judge.limited n)) := by
  intro s hs
  cases hscope : s.tree.nodeScope? module.id with
  | none =>
    rw [checkModule_of_none _ hscope]
    exact ⟨trivial, hs⟩
  | some scope =>
    rw [checkModule_of_scope _ hscope]
    have hbody : Attested .nameless Place.outside
        (withScope scope (checkStatements module.body)) :=
      .withScope (.checkStatements fun stmt _ => stmt.suits_free)
    have hmoved :
        { s with
          context := s.context.setModule module.name module.path }.Nameless :=
      { hs with }
    exact ⟨trivial, (hbody.settles (Judge.limited_nameless n) _ hmoved).2⟩

theorem Check.modules_nameless (index : Nat) (modules : List Module)
    {s : Session} (hs : s.Nameless) :
    (Check.modules index modules s).2.Nameless := by
  induction modules generalizing index s with
  | nil => exact hs
  | cons module rest ih =>
    have hreport (result : Except Finding Unit) :
        Attested .nameless Place.outside (reportFailure result) :=
      .reportFailure ⟨fun _ => trivial, fun _ => trivial⟩
    have hmodule :
        Settles
        ((checkModule module >>= reportFailure) (Judge.limited (s.depth 0))) :=
      (settles_checkModule module _).bindRule fun result _ =>
        (hreport result).settles (Judge.limited_nameless _)
    rw [modules_cons]
    exact ih (index + 1) (hmodule { s with module := index } { hs with }).2

theorem Program.session_nameless (program : Program) (options : Options)
    (evaluator : Evaluator) (n : Nat) :
    (program.session options evaluator n).Nameless := by
  induction n with
  | zero =>
    refine Session.nameless_of_symbols ?_ rfl rfl rfl rfl
    exact Collected.symbol Symbol.nameless_declarable Symbol.nameless_placeless
      fun _ => Symbol.nameless_of_none rfl
  | succ n ih =>
    have hchecked :
        (Check.checked (program.session options evaluator n)).Nameless :=
      Check.modules_nameless 0 _ ih
    exact Session.nameless_of_symbols hchecked.symbols rfl rfl rfl rfl

end StaticCheck
