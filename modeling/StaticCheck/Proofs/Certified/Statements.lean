import StaticCheck.Proofs.Certified.Forms

/-!
# Rules on statements and the judges

The rules that check statements, functions and declarations are composed of
certified steps, and so are the rules with which a judge answers.
-/

namespace StaticCheck
namespace Attested

open Rule

variable {R : Standard} {place : R.Place}
variable {id : SymbolId} {span : Span} {value : Expr} {ty : Ty}
    {body scope : ScopeId} {func : FuncDecl} {name : String}

/-!
## Statement lists and loops
-/

theorem declare :
    Attested R place
      (Rule.updateSymbol id fun symbol =>
        { symbol with declared := true }) := by
  refine .updateFlags (fun symbol => ?_) fun _ => rfl
  exact { Symbol.Advances.refl symbol with
    fixed := rfl, declared := fun _ => rfl }

theorem markChecked :
    Attested R place
      (Rule.updateSymbol id fun symbol => { symbol with checked := true }) := by
  refine .updateFlags (fun symbol => ?_) fun _ => rfl
  exact { Symbol.Advances.refl symbol with
    fixed := rfl, checked := fun _ => rfl }

theorem declareBound {stmt : Stmt} :
    Attested R place (Rule.declareBound stmt) := by
  unfold Rule.declareBound
  split
  · refine .seeTree fun tree _ => ?_
    exact .bindOption .lookupLocal (.answer ()) fun id _ => .declare
  · exact .answer ()

theorem checkStatements {stmts : List Stmt}
    (hstmts : ∀ stmt ∈ stmts, stmt.Suits R place) :
    Attested R place (Rule.checkStatements stmts) := by
  induction stmts with
  | nil => exact .answer ()
  | cons stmt rest ih =>
    rw [List.forall_mem_cons] at hstmts
    refine .bind (.askValid hstmts.1) fun _ hresult =>
      .andThen (.reportFailure hresult) ?_
    refine .ite (.forEach fun skipped _ => ?_) (ih hstmts.2)
    exact .andThen (.report rfl) .declareBound

theorem checkBlock {block : Block}
    (hbody : R.opens block.id fun scope =>
      ∀ stmt ∈ block.body, stmt.Suits R (R.enter scope place)) :
    Attested R place (Rule.checkBlock block) := by
  refine .seeTree fun tree htree => ?_
  split
  · next scope hscope =>
      have hinside := htree.opened hbody hscope
      exact .bind (.withScope (.checkStatements hinside)) fun _ _ => .ok
  · next hscope => exact .fails (htree.unopened hbody hscope)

theorem checkWhile {condition : Expr} {body : Block}
    (hcondition : condition.Suits R place)
    (hbody : R.opens body.id fun scope =>
      ∀ stmt ∈ body.body, stmt.Suits R (R.enter scope (R.inLoop place))) :
    Attested R place (Rule.checkWhile condition body) := by
  exact .andThen (.checkCondition hcondition) (.withLoop (.checkBlock hbody))

theorem elementType {iterable : Expr} (hiterable : iterable.Suits R place) :
    Attested R place (Rule.elementType iterable) := by
  refine .bindOption (.askType hiterable) .noAnswer fun ty hty => ?_
  refine .ite (.pure (by simp)) (.bind (.derefOnce hty) fun ty hty => ?_)
  split
  · rw [Ty.fits_array] at hty
    exact .pure (fits_some.mpr hty.1)
  · exact .andThen .reportMismatch .noAnswer

theorem checkFor {binding : String} {iterable : Expr} {body : Block}
    (hloop : R.loop binding body.id) (hiterable : iterable.Suits R place)
    (hbody : R.opens body.id fun scope =>
      ∀ stmt ∈ body.body, stmt.Suits R (R.enter scope (R.inLoop place))) :
    Attested R place (Rule.checkFor binding iterable body) := by
  refine .bind (.elementType hiterable) fun element helement =>
    .seeTree fun tree htree => ?_
  split
  · next hscope =>
      exact .fails (htree.unopened hbody (Option.isNone_iff_eq_none.mp hscope))
  · exact .andThen (.bindLoop hloop helement) (.withLoop (.checkBlock hbody))

theorem checkJump {keyword : String} (hplace : R.jumps place) :
    Attested R place (Rule.checkJump keyword span) := by
  exact .bind (.isInLoop hplace) fun _ _ => .ite (.report rfl) (.answer ())

/-!
## Returns and throws
-/

theorem checkReturned {expected source : Ty} (hexpected : Fits R expected)
    (hsource : Fits R source) :
    Attested R place (Rule.checkReturned expected source value) := by
  refine .bind (.normalize hexpected) fun resolved _ => ?_
  exact .ite .reportMismatch (.discard (.checkFlow hexpected hsource))

theorem checkBareReturn {expected : Option Ty} (hexpected : Fits R expected) :
    Attested R place (Rule.checkBareReturn expected span) := by
  unfold Rule.checkBareReturn
  split
  · refine .bind (.normalize (fits_some.mp hexpected)) fun resolved _ => ?_
    exact .ite .reportMismatch (.answer ())
  · exact .answer ()

theorem checkReturn {value : Option Expr} (hplace : R.leaves place)
    (hvalue : ∀ expr ∈ value, expr.Suits R place) :
    Attested R place (Rule.checkReturn value span) := by
  refine .bindOption (.frame? hplace) ?_ fun frame hframe => ?_
  · refine .andThen (.report rfl) (.inferEach fun expr hexpr => ?_)
    exact hvalue expr (Option.mem_toList.mp hexpr)
  · have hresult := (fits_frame.mp hframe).1
    refine .andThen (.updateFrame hplace fun frame => ⟨rfl, fun _ => rfl, id⟩)
      ?_
    cases value with
    | none => exact .checkBareReturn hresult
    | some expr =>
      have hexpr := hvalue expr rfl
      refine .bindOption (.inferExpecting hexpr hresult) (.answer ())
        fun source hsource => ?_
      dsimp only
      split
      · next expected hexpected =>
          exact .checkReturned (fits_option.mp hresult expected hexpected)
            hsource
      · exact .answer ()

theorem checkRaised {frame : Frame} {thrown : Ty} (hframe : Fits R frame) :
    Attested R place (Rule.checkRaised frame thrown value) := by
  unfold Rule.checkRaised
  split
  · next ty hty =>
      refine .bind (.normalize (fits_option.mp (fits_frame.mp hframe).2 ty hty))
        fun ty _ => ?_
      split
      · exact .ite (.report rfl) (.answer ())
      · exact .answer ()
  · exact .answer ()

theorem checkThrown {frame : Frame} {mode : ErrorMode} {thrown : Ty}
    (hframe : Fits R frame) :
    Attested R place (Rule.checkThrown frame mode thrown value) := by
  cases mode with
  | anyError =>
    unfold Rule.checkThrown
    dsimp only
    split
    · exact .answer ()
    · exact .ite (.report rfl) (.answer ())
  | selfGroup => exact .ite (.report rfl) (.answer ())
  | namedSet => exact .checkRaised hframe
  | group => exact .checkRaised hframe

theorem checkThrow (hplace : R.leaves place) (hvalue : value.Suits R place) :
    Attested R place (Rule.checkThrow value span) := by
  refine .bind (.frame? hplace) fun frame hframe => ?_
  split
  · refine .andThen (.updateFrame hplace fun frame => ⟨rfl, id, fun _ => rfl⟩)
      ?_
    refine .bindOption (.askType hvalue) (.answer ()) fun thrown hthrown => ?_
    exact .bind (.normalize hthrown) fun thrown _ =>
      .checkThrown (fits_some.mp hframe)
  · exact .andThen (.report rfl) (.discard (.askType hvalue))

/-!
## Functions
-/

theorem checkGivenValue {value : Option Expr} (hty : Fits R ty)
    (hvalue : ∀ expr ∈ value, expr.Suits R place) :
    Attested R place
      (Rule.forEach (Rule.checkInitializer ty) value.toList) := by
  exact .forEach fun expr hexpr =>
    .checkInitializer hty (hvalue expr (Option.mem_toList.mp hexpr))

theorem bindLookup {next : Option SymbolId → Rule Unit}
    (hname : R.assigns (R.enter scope place) name none)
    (hnone : Attested R (R.enter scope place) (next none))
    (hsome : ∀ id, R.PledgesOnly id none →
      Attested R (R.enter scope place) (next (some id))) :
    Attested R (R.enter scope place)
      (Rule.lookupLocal scope name >>= next) := by
  have hread : Rule.lookupLocal scope name >>= next = Rule.tree >>= fun tree =>
      next (tree.lookupLocal scope name) := rfl
  rw [hread]
  refine .seeTree fun tree htree => ?_
  cases hlookup : tree.lookupLocal scope name with
  | none => exact hnone
  | some id => exact hsome id (htree.assigned rfl hname hlookup)

theorem typeParam {param : Slot} (hty : Meets R param.ty)
    (hname : R.assigns (R.enter body place) param.name none)
    (hdefault : ∀ value ∈ param.default, value.Suits R (R.enter body place)) :
    Attested R (R.enter body place) (Rule.typeParam body param) := by
  refine .bindOption (.resolveType hty) (.answer ()) fun ty hty => ?_
  have hvalue := checkGivenValue hty hdefault
  refine .bindLookup hname hvalue fun id hfree => ?_
  exact .andThen (.setTypeIfNone (fits_some.mpr hty) hfree) hvalue

theorem checkParam {isMethod : Bool} {param : Slot} (hty : Meets R param.ty)
    (hname : R.assigns (R.enter body place) param.name none)
    (hdefault : ∀ value ∈ param.default, value.Suits R (R.enter body place)) :
    Attested R (R.enter body place) (Rule.checkParam body isMethod param) := by
  have htyped : Attested R (R.enter body place)
      (if !(isMethod && param.name == selfName) then Rule.typeParam body param
        else return ()) :=
    .ite (.typeParam hty hname hdefault) (.answer ())
  exact .ite (.andThen (.report rfl) htyped) htyped

theorem resultType (hresult : Meets R func.result) :
    Attested R place (Rule.resultType func) := by
  unfold Rule.resultType
  split
  · next ty hty => exact .resolveType (hresult ty hty)
  · exact .pure (by simp)

theorem errorType : Attested R place (Rule.errorType func) := by
  unfold Rule.errorType
  split
  · next clause _ =>
      refine .bindOption (.resolveType clause.meets_toTy) .noAnswer
        fun ty hty => ?_
      dsimp only
      split
      · exact .pure (fits_some.mpr hty)
      · exact .andThen .reportMismatch .noAnswer
      · exact .pure (fits_some.mpr hty)
  · exact .noAnswer

theorem openFrame {owner : Option ScopeId}
    (hparams : ∀ param ∈ func.params, Meets R param.ty ∧
      ∀ value ∈ param.default, value.Suits R (R.enter body place))
    (hresult : Meets R func.result)
    (hnames : ∀ param ∈ func.params,
      R.assigns (R.enter body place) param.name none) :
    Attested R (R.enter body place) (Rule.openFrame func body owner) := by
  refine .andThen (.forEach fun param hmem => ?_)
    (.bind (.resultType hresult) ?_)
  · exact .checkParam (hparams param hmem).1 (hnames param hmem)
      (hparams param hmem).2
  · exact fun result hresult =>
      .bind .errorType fun error herror =>
        .pure (fits_frame.mpr ⟨hresult, herror⟩)

theorem declareFunction : Attested R place (Rule.declareFunction name) := by
  refine .seeTree fun tree _ => .bindOption .lookupLocal (.answer ())
    fun id _ => ?_
  exact .andThen (.discard .functionType) .markChecked

theorem checkBody {owner : Option ScopeId}
    (hparams : ∀ param ∈ func.params, Meets R param.ty ∧
      ∀ value ∈ param.default, value.Suits R (R.enter body place))
    (hresult : Meets R func.result)
    (hbody : ∀ stmt ∈ func.body.body,
      stmt.Suits R (R.enter body (R.inFunction place)))
    (hnames : ∀ param ∈ func.params,
      R.assigns (R.enter body place) param.name none) :
    Attested R place (Rule.checkBody func owner body) := by
  refine .bind (.withScope (.openFrame hparams hresult hnames))
    fun frame hframe => ?_
  refine .withFrame hframe (.withScope (.checkStatements hbody))
    (fun finished _ => ?_) ?_
  · exact .ite (.andThen (.report rfl) .ok) .ok
  · exact fun hlost _ => .fails hlost

theorem checkFunction {owner : Option ScopeId} (hfunc : func.Suits R place) :
    Attested R place (Rule.checkFunction func owner) := by
  rw [FuncDecl.suits_iff_opens] at hfunc
  refine .seeTree fun tree htree => ?_
  split
  · next body hscope =>
      obtain ⟨hparams, hresult, hbody, hnames⟩ := htree.opened hfunc hscope
      exact .andThen .declareFunction (.checkBody hparams hresult hbody hnames)
  · next hscope =>
      exact .fails
        (htree.unopened hfunc (Option.eq_none_iff_forall_ne_some.mpr hscope))

/-!
## Type declarations
-/

theorem typeOfMembers? :
    Attested R place (Rule.typeOfMembers? scope name) := by
  refine .seeTree fun tree _ => ?_
  split
  · split <;> exact .answer _
  · exact .noAnswer

theorem reportCycle {declared : Option SymbolId} :
    Attested R place (Rule.reportCycle declared ty name span) := by
  unfold Rule.reportCycle
  split
  · refine .bind .containsType fun found _ => ?_
    exact .ite (.andThen (.report rfl) (.answer true)) (.answer false)
  · exact .answer false

theorem recordField {field : Slot} (hty : Fits R ty)
    (hname : R.assigns (R.enter scope place) field.name none) :
    Attested R (R.enter scope place) (Rule.recordField scope field ty) := by
  refine .bindLookup hname (.answer ()) fun id hfree => ?_
  exact .andThen (.setTypeIfNone (fits_some.mpr hty) hfree) .markChecked

theorem checkFieldType {field : Slot} (hty : Meets R field.ty)
    (hname : R.assigns (R.enter scope place) field.name none)
    (hdefault : ∀ value ∈ field.default, value.Suits R (R.enter scope place)) :
    Attested R (R.enter scope place) (Rule.checkFieldType scope field) := by
  refine .bindOption (.resolveType hty) (.answer ()) fun ty hty => ?_
  exact .andThen (.recordField hty hname) (checkGivenValue hty hdefault)

theorem checkStructField {declared : Option SymbolId} {owner : String}
    {field : Slot} (hty : Meets R field.ty)
    (hname : R.assigns (R.enter scope place) field.name none)
    (hdefault : ∀ value ∈ field.default, value.Suits R (R.enter scope place)) :
    Attested R (R.enter scope place)
      (Rule.checkStructField scope declared owner field) := by
  have hrest : Attested R (R.enter scope place) (do
      if ← Rule.reportCycle declared field.ty owner field.span then return ()
      Rule.checkFieldType scope field) :=
    .bind .reportCycle fun cyclic _ =>
      .ite (.answer ()) (.checkFieldType hty hname hdefault)
  exact .ite (.andThen (.report rfl) hrest) hrest

theorem checkPayload {declared : Option SymbolId} {owner : String}
    {variant : VariantDecl} (hpayload : Meets R variant.payload) :
    Attested R place (Rule.checkPayload declared owner variant) := by
  unfold Rule.checkPayload
  split
  · next payload hsome =>
      refine .bind .reportCycle fun cyclic _ => .ite (.answer ()) ?_
      exact .discard (.resolveType (hpayload payload hsome))
  · exact .answer ()

theorem checkMembers {id : NodeId} {methods : List FuncDecl}
    {members : ScopeId → Option SymbolId → Rule Unit} {inside : ScopeId → Prop}
    (hinside : R.opens id inside)
    (hmembers : ∀ scope, inside scope → ∀ declared,
      Attested R (R.enter scope place) (members scope declared))
    (hmethods : ∀ scope, inside scope →
      ∀ method ∈ methods, method.Suits R (R.enter scope place)) :
    Attested R place (Rule.checkMembers id name span methods members) := by
  refine .seeTree fun tree htree => ?_
  split
  · next scope hscope =>
      have hscope := htree.opened hinside hscope
      refine .bind .typeOfMembers? fun declared _ =>
        .andThen (.withScope ?_) .ok
      refine .andThen (hmembers scope hscope declared)
        (.forEach fun method hmem => ?_)
      refine .bind (.checkFunction (hmethods scope hscope method hmem))
        fun _ hresult => ?_
      exact .reportFailure hresult
  · next hscope =>
      exact .fails
        (htree.unopened hinside (Option.eq_none_iff_forall_ne_some.mpr hscope))

theorem checkStruct {decl : StructDecl}
    (hdecl : (StmtKind.struct decl).Suits R place) :
    Attested R place (Rule.checkStruct decl) := by
  obtain ⟨_, _, _, fields, methods, _⟩ := decl
  simp only [StmtKind.Suits, Slot.suitAll_iff_forall,
    FuncDecl.suitAll_iff_forall] at hdecl
  refine .checkMembers hdecl (fun scope hscope declared => ?_)
    fun _ hscope => hscope.2.1
  refine .forEach fun field hmem => ?_
  exact .checkStructField (hscope.1 field hmem).1 (hscope.2.2 field hmem)
    (hscope.1 field hmem).2

theorem checkEnum {decl : EnumDecl}
    (hdecl : (StmtKind.enum decl).Suits R place) :
    Attested R place (Rule.checkEnum decl) := by
  obtain ⟨_, _, _, variants, methods, _⟩ := decl
  simp only [StmtKind.Suits, VariantDecl.suitAll_iff_meets,
    FuncDecl.suitAll_iff_forall] at hdecl
  refine .checkMembers hdecl (fun scope hscope declared => ?_)
    fun _ hscope => hscope.2
  exact .forEach fun variant hmem => .checkPayload (hscope.1 variant hmem)

/-!
## Bindings and definitions
-/

theorem bindDeclared
    {next : Except Finding SymbolId → Rule (Except Finding Unit)}
    (hname : R.declares place name)
    (hmissing : R.tolerant →
      ∀ finding, Attested R place (next (.error finding)))
    (hfound : ∀ id,
      (∀ pledge?, R.assigns place name pledge? → R.PledgesOnly id pledge?) →
      Attested R place (next (.ok id))) :
    Attested R place (Rule.declaredSymbol name span >>= next) := by
  have hread : Rule.declaredSymbol name span >>= next =
      Rule.tree >>= fun tree =>
      next ((tree.lookupLocal tree.current name).elim
        (.error (.fault ("`" ++ name ++ "` was never collected") span))
        .ok) := by
    funext judge s
    unfold Rule.declaredSymbol
    rw [Rule.bind_run, Rule.bind_tree, Rule.bind_tree, Rule.bind_lookupLocal]
    cases s.tree.lookupLocal s.tree.current name <;> rfl
  rw [hread]
  refine .seeTree fun tree htree => ?_
  cases hlookup : tree.lookupLocal tree.current name with
  | none => exact hmissing (htree.undeclared hname hlookup) _
  | some id =>
    obtain ⟨around, hplace⟩ := htree.here
    exact hfound id fun _ hassigns => htree.assigned hplace hassigns hlookup

theorem checkBareVariant (hvalue : value.Suits R place) :
    Attested R place (Rule.checkBareVariant value) := by
  unfold Rule.checkBareVariant
  split
  · next base name hkind =>
      have hbase := hvalue.unparen.kind
      rw [hkind, ExprKind.Suits] at hbase
      refine .bind (.exprAsType hbase) fun named _ => ?_
      split
      · split
        · exact .reportMismatch
        · exact .answer ()
      · exact .answer ()
  · exact .answer ()

theorem annotatedType {written : Ty} {value : Option Expr}
    (hwritten : Meets R written) (hvalue : ∀ expr ∈ value, expr.Suits R place) :
    Attested R place (Rule.annotatedType written value span) := by
  refine .bindOption (.resolveType hwritten) .noAnswer fun target htarget => ?_
  exact .andThen (.checkGivenValue htarget hvalue)
    (.pure (fits_some.mpr htarget))

theorem bindingType {decl : LetDecl} (hty : Meets R decl.ty)
    (hvalue : ∀ expr ∈ decl.value, expr.Suits R place) :
    Attested R place (Rule.bindingType decl span) := by
  unfold Rule.bindingType
  split
  · next _ written hwritten =>
      exact .annotatedType (hty written hwritten) hvalue
  · next value _ hsome =>
      refine .bind (.inferExpecting (hvalue value hsome) fits_none)
        fun ty hty => .pure ?_
      split
      · exact fits_map hty fun _ => Ty.fits_concretize
      · exact hty
  · exact .andThen (.report rfl) .noAnswer

theorem recordBinding {ty : Option Ty} {given : Bool} (hty : Fits R ty)
    (hallows : ∀ pledge, R.pledged id pledge → ∀ found, ty = some found →
      pledge.Allows found) :
    Attested R place (Rule.updateSymbol id fun symbol =>
      { symbol with
        declared := true
        initialized := symbol.initialized || given
        checked := true
        ty := symbol.ty.or ty }) := by
  refine .updateSymbol (fun symbol => ?_) (fun symbol known hknown => ?_)
    (fun _ hsymbol => ?_) ?_
  · exact {
      fixed := rfl
      declared := fun _ => rfl
      initialized := fun h => by simp [h]
      used := fun h => h
      checked := fun _ => rfl }
  · simp [hknown]
  · have hknown := fits_or (fits_symbol hsymbol) hty
    exact ⟨{ hsymbol.1 with ty := hknown.1 }, hknown.2⟩
  · intro pledge hpledged symbol hsymbol found hfound
    rcases Option.or_eq_some_iff.mp hfound with hknown | ⟨-, hnew⟩
    · exact hsymbol found hknown
    · exact hallows pledge hpledged found hnew

/-- What follows the typing of a binding.  A mutable one without annotation has
got a sized type. -/
theorem bindLetType {decl : LetDecl}
    {next : Option Ty → Rule (Except Finding Unit)} (hty : Meets R decl.ty)
    (hvalue : ∀ expr ∈ decl.value, expr.Suits R place)
    (hnext : ∀ ty, Fits R ty → ((decl.mutable && decl.ty.isNone) = true →
      ∀ found, ty = some found → found.Sized) → Attested R place (next ty)) :
    Attested R place (Rule.withDeclaration decl.name (do
      Rule.forEach Rule.checkBareVariant decl.value.toList
      Rule.bindingType decl span) >>= next) := by
  obtain ⟨name, visibility, mutable, ty, value⟩ := decl
  dsimp only at hty hvalue hnext ⊢
  have hbare :
      Attested R place (Rule.forEach Rule.checkBareVariant value.toList) :=
    .forEach fun expr hmem =>
      .checkBareVariant (hvalue expr (Option.mem_toList.mp hmem))
  cases hopen : mutable && ty.isNone with
  | false =>
    refine .bind (.withDeclaration (.andThen hbare (.bindingType hty hvalue)))
      fun ty hty => ?_
    exact hnext ty hty fun hmutable => absurd (hopen.symm.trans hmutable)
      Bool.false_ne_true
  | true =>
    obtain ⟨rfl, hnone⟩ := Bool.and_eq_true_iff.mp hopen
    cases Option.isNone_iff_eq_none.mp hnone
    cases value with
    | none =>
      have hreported : Attested R place (Rule.withDeclaration name (do
          Rule.forEach Rule.checkBareVariant (none : Option Expr).toList
          Rule.report
            (.cannotInferType ("`" ++ name ++ "` without a type or value"))
            span) >>=
            fun _ => next none) := by
        refine .andThen (.withDeclaration (.andThen hbare (.report rfl))) ?_
        exact hnext none fits_none fun _ found hfound => absurd hfound (by simp)
      exact hreported
    | some value =>
      have hinferred : Attested R place (Rule.withDeclaration name (do
          Rule.forEach Rule.checkBareVariant (some value).toList
          Rule.inferExpecting value none) >>= fun ty =>
            next (ty.map Ty.concretize)) := by
        have hgiven := inferExpecting (hvalue value rfl) fits_none
        refine .bind (.withDeclaration (.andThen hbare hgiven)) fun ty hty => ?_
        refine hnext _ (fits_map hty fun _ => Ty.fits_concretize)
          fun _ found hfound => ?_
        obtain ⟨inner, -, rfl⟩ := Option.map_eq_some_iff.mp hfound
        exact inner.sized_concretize
      exact hinferred

theorem checkLet {decl : LetDecl} (hname : R.declares place decl.name)
    (hassigns : R.assigns place decl.name
      (if decl.mutable && decl.ty.isNone then some .sized else none))
    (hty : Meets R decl.ty)
    (hvalue : ∀ expr ∈ decl.value, expr.Suits R place) :
    Attested R place (Rule.checkLet decl span) := by
  refine .bindDeclared hname (fun hlost _ => .fails hlost) fun id hfree => ?_
  refine .bindLetType hty hvalue fun ty hty hsized => ?_
  refine .andThen (.recordBinding hty fun pledge hpledged => ?_) .ok
  obtain ⟨hopen, heq⟩ := Option.ite_none_right_eq_some.mp
    (hfree _ hassigns pledge hpledged)
  cases heq
  exact hsized hopen

theorem checkAlias :
    Attested R place (Rule.checkAlias id name ty span) := by
  refine .bind .containsType fun found _ => .ite (.report rfl) ?_
  exact .discard (.resolveType (Ty.meets_named _))

theorem checkConstant {decl : DefDecl} (hfree : R.PledgesOnly id none)
    (hty : Meets R decl.ty) (hvalue : decl.value.Suits R place) :
    Attested R place (Rule.checkConstant id decl span) := by
  refine .andThen (.checkBareVariant hvalue) ?_
  dsimp only
  split
  · next written hwritten =>
      refine .bind (.annotatedType (hty written hwritten) ?_) fun ty hty =>
        .setTypeIfNone hty hfree
      intro expr hexpr
      cases hexpr
      exact hvalue
  · exact .bind (.inferExpecting hvalue fits_none) fun ty hty =>
      .setTypeIfNone hty hfree

theorem declareChecked :
    Attested R place
      (Rule.updateSymbol id fun symbol =>
        { symbol with declared := true, checked := true }) := by
  refine .updateFlags (fun symbol => ?_) fun _ => rfl
  exact { Symbol.Advances.refl symbol with
    fixed := rfl, declared := fun _ => rfl, checked := fun _ => rfl }

theorem checkDefined {decl : DefDecl} (hfree : R.PledgesOnly id none)
    (hty : Meets R decl.ty) (hvalue : decl.value.Suits R place) :
    Attested R place (Rule.checkDefined id decl span) := by
  unfold Rule.checkDefined
  split
  · exact .answer ()
  · exact .checkAlias
  · exact .checkConstant hfree hty hvalue

theorem checkDef {decl : DefDecl} (hname : R.declares place decl.name)
    (hassigns : R.assigns place decl.name none) (hty : Meets R decl.ty)
    (hvalue : decl.value.Suits R place) :
    Attested R place (Rule.checkDef decl span) := by
  refine .bindDeclared hname (fun hlost _ => .fails hlost) fun id hfree => ?_
  refine .andThen (.withDeclaration ?_) (.andThen .declareChecked .ok)
  exact .checkDefined (hfree none hassigns) hty hvalue

theorem checkUse {decl : UseDecl} :
    Attested R place (Rule.checkUse decl span) := by
  exact .seeTree fun _ _ => .ite (.report rfl) (.answer ())

/-!
## What a judge answers with
-/

theorem inferKind {expr : Expr} (hexpr : expr.Suits R place) :
    Attested R place (Rule.inferKind expr) := by
  obtain ⟨id, span, kind⟩ := expr
  have hkind : kind.Suits R place id := hexpr.kind
  unfold Rule.inferKind
  cases kind with
  | literal literal => exact .inferLiteral hkind
  | ident name => exact .inferIdent
  | paren inner => exact .askType hkind
  | tuple fields =>
    exact .inferTuple ((Expr.suitAll_iff_forall fields).mp hkind)
  | object name fields =>
    exact .inferObject ((ObjectField.suitAll_iff_forall fields).mp hkind)
  | type ty =>
    exact .bind (.resolveType hkind) fun ty hty =>
      .pure (fits_map hty fun _ _ => by simp)
  | binary op left right =>
    refine .ite (.inferAssignment hkind.1 hkind.2) ?_
    exact .inferBinary hkind.1 hkind.2
  | unary op operand => exact .inferUnary hkind
  | call callee args =>
    exact .inferCall hkind.1 ((Expr.suitAll_iff_forall args).mp hkind.2)
  | index base index => exact .inferIndex hkind.1 hkind.2
  | member base name => exact .inferMember hkind
  | increment operand => exact .inferStep hkind
  | decrement operand => exact .inferStep hkind
  | deref operand => exact .inferDeref hkind
  | cast operand target => exact .inferCast hkind.1 hkind.2
  | typeOf operand =>
    exact .bind (.askType hkind) fun ty hty =>
      .pure (fits_map hty fun _ _ => by simp)
  | sizeOf operand =>
    exact .bind (.inferSizeOf hkind) fun ty hty => .pure (fits_some.mpr hty)
  | orElse left right => exact .inferOrElse hkind.1 hkind.2
  | range start stop inclusive =>
    simp only [ExprKind.Suits, Expr.suitsOpt_iff_forall] at hkind
    exact .inferRange hkind.1 hkind.2
  | tryExpr operand => exact .askType hkind
  | catchExpr operand binding handler => exact .inferCatch hkind.1 hkind.2
  | ifExpr condition thenBranch elseBranch =>
    simp only [ExprKind.Suits, Stmt.suitsOpt_iff_forall] at hkind
    exact .andThen (.checkIf hkind.1 hkind.2.1 hkind.2.2) (.pure (by simp))
  | matchExpr subject cases default =>
    simp only [ExprKind.Suits, MatchCase.suitAll_iff_forall,
      Stmt.suitsOpt_iff_forall] at hkind
    exact .andThen (.checkMatch hkind.1 hkind.2.1 hkind.2.2) (.pure (by simp))
  | unreachable => exact .pure (by simp)

theorem inferExpr {expr : Expr} (hexpr : expr.Suits R place) :
    Attested R place (Rule.inferExpr expr) := by
  exact .memoized hexpr (.inferKind hexpr)

theorem validateKind {stmt : Stmt} (hstmt : stmt.Suits R place) :
    Attested R place (Rule.validateKind stmt) := by
  obtain ⟨id, span, kind⟩ := stmt
  have hkind : kind.Suits R place := hstmt
  unfold Rule.validateKind
  cases kind with
  | expr value => exact .bind (.discard (.askType hkind)) fun _ _ => .ok
  | block block =>
    obtain ⟨id, body, _⟩ := block
    simp only [StmtKind.Suits, Stmt.suitAll_iff_forall] at hkind
    exact .checkBlock hkind
  | letDecl decl =>
    obtain ⟨_, _, _, ty, value⟩ := decl
    simp only [StmtKind.Suits, Ty.suitsOpt_iff_meets,
      Expr.suitsOpt_iff_forall] at hkind
    exact .checkLet hkind.1.1 hkind.1.2 hkind.2.1 hkind.2.2
  | defDecl decl =>
    obtain ⟨_, _, ty, value⟩ := decl
    simp only [StmtKind.Suits, Ty.suitsOpt_iff_meets] at hkind
    exact .checkDef hkind.1.1 hkind.1.2 hkind.2.1 hkind.2.2
  | func decl => exact .checkFunction hkind
  | struct decl => exact .checkStruct hkind
  | enum decl => exact .checkEnum hkind
  | use decl => exact .bind .checkUse fun _ _ => .ok
  | returnStmt value =>
    simp only [StmtKind.Suits, Expr.suitsOpt_iff_forall] at hkind
    exact .bind (.checkReturn hkind.1 hkind.2) fun _ _ => .ok
  | throwStmt value => exact .bind (.checkThrow hkind.1 hkind.2) fun _ _ => .ok
  | whileLoop condition body =>
    obtain ⟨id, body, _⟩ := body
    simp only [StmtKind.Suits, Stmt.suitAll_iff_forall] at hkind
    exact .checkWhile hkind.1 hkind.2
  | forLoop binding iterable body =>
    obtain ⟨id, body, _⟩ := body
    simp only [StmtKind.Suits, Stmt.suitAll_iff_forall] at hkind
    exact .checkFor hkind.1 hkind.2.1 hkind.2.2
  | breakStmt => exact .bind (.checkJump hkind) fun _ _ => .ok
  | continueStmt => exact .bind (.checkJump hkind) fun _ _ => .ok

theorem validateStmt {stmt : Stmt} (hstmt : stmt.Suits R place) :
    Attested R place (Rule.validateStmt stmt) := by
  exact .withSpan (.validateKind hstmt)

end Attested

/-!
## The answers of a judge
-/

/-- The judge's answers to all questions that meet the standard have a
property. -/
structure Judge.Answers (R : Standard)
    (P : R.Place → {α : Type} → [Found α] → Check α → Prop) (judge : Judge) :
    Prop where
  infer {place : R.Place} {expr : Expr} (hexpr : expr.Suits R place) :
    P place (judge.infer expr)
  validate {place : R.Place} {stmt : Stmt} (hstmt : stmt.Suits R place) :
    P place (judge.validate stmt)
  resolve {ty : Ty} {span : Span} {loud : Bool} (place : R.Place)
    (hty : Meets R.toRegime ty) : P place (judge.resolve ty span loud)
  compatible {target source : Ty} (place : R.Place) (htarget : Fits R target)
    (hsource : Fits R source) : P place (judge.compatible target source)
  castable {target source : Ty} (place : R.Place) (htarget : Fits R target)
    (hsource : Fits R source) : P place (judge.castable target source)
  checkValue {place : R.Place} {target : Ty} {value : Expr}
    (htarget : Fits R target)
    (hvalue : value.Suits R place) : P place (judge.checkValue target value)
  peel {ty : Ty} (place : R.Place) (hty : Fits R ty) : P place (judge.peel ty)

/-- What the rules pass on from the questions that they ask holds of every
answer of the judges that nest them. -/
theorem Judge.limited_answers {R : Standard}
    {P : R.Place → {α : Type} → [Found α] → Check α → Prop}
    (hpure : ∀ {place : R.Place} {α : Type} [Found α] (a : α), Fits R a →
      P place (pure a : Check α))
    (hrule : ∀ {n : Nat} {place : R.Place} {α : Type} [Found α] {rule : Rule α},
      Attested R place rule →
      (limited n).Answers R P → P place (rule (limited n)))
    (n : Nat) : (limited n).Answers R P := by
  induction n with
  | zero =>
    exact {
      infer := fun _ => hpure _ fits_none
      validate := fun _ => hpure _ (fits_ok ())
      resolve := fun _ _ => hpure _ fits_none
      compatible := fun _ _ _ => hpure _ (fits_typeless _)
      castable := fun _ _ _ => hpure _ (fits_typeless _)
      checkValue := fun _ _ => hpure _ (fits_typeless _)
      peel := fun _ hty => hpure _ (fits_pair.mpr ⟨fits_typeless _, hty⟩) }
  | succ n ih =>
    exact {
      infer := fun hexpr => hrule (.inferExpr hexpr) ih
      validate := fun hstmt => hrule (.validateStmt hstmt) ih
      resolve := fun _ hty => hrule (.resolveTy _ hty) ih
      compatible :=
        fun _ htarget hsource => hrule (.compatible htarget hsource) ih
      castable := fun _ htarget hsource => hrule (.canCast htarget hsource) ih
      checkValue :=
        fun htarget hvalue => hrule (.checkInitializer htarget hvalue) ih
      peel := fun _ hty => hrule (.peelOptionals hty) ih }

end StaticCheck
