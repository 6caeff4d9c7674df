import StaticCheck.Proofs.Renaming.Expressions

/-!
# Statements under a renaming

The rules that check statements, functions and declarations lead from renamed
questions to renamed answers.
-/

namespace StaticCheck
namespace Renamed

variable {f : NodeId ↪ NodeId}

/-!
## Statement lists and loops
-/

theorem declareBound : Equivariant f Rule.declareBound := by
  intro stmt
  simp only [rename, Rule.declareBound, Stmt.boundName?_rename]
  cases stmt.boundName? with
  | none => exact .pure rfl
  | some name =>
    refine .bind .tree fun tree => .bindOption (.lookupLocal tree.current name)
      (.pure rfl) ?_
    exact fun id => .updateSymbol id fun _ => rfl

theorem skipUnreachable : Equivariant f Rule.skipUnreachable := by
  intro stmt
  simp only [rename, Rule.skipUnreachable, Stmt.rename_span]
  exact .andThen (.report stmt.span rfl) (.declareBound stmt)

theorem checkStatements : Equivariant f Rule.checkStatements := by
  intro stmts
  induction stmts with
  | nil => exact .pure rfl
  | cons stmt rest ih =>
    refine .bind (.askValid stmt) fun result =>
      .andThen (.reportFailure result) ?_
    exact .ite (by simp only [rename, Stmt.alwaysExits_rename])
      (.forEach .skipUnreachable rfl) ih

theorem checkBlock : Equivariant f Rule.checkBlock := by
  intro block
  obtain ⟨id, body, _⟩ := block
  refine .bind .tree fun tree => ?_
  simp only [rename, Block.rename, ScopeTree.nodeScope?_rename f.injective,
    Stmt.renameAll_eq]
  cases tree.nodeScope? id with
  | none => exact .pure rfl
  | some scope =>
    exact .bind (.withScope scope (.checkStatements body)) fun _ => .pure rfl

theorem checkWhile : Equivariant f Rule.checkWhile := by
  intro condition body
  exact .andThen (.checkCondition condition)
    (.withLoop (.checkBlock body))

theorem elementType : Equivariant f Rule.elementType := by
  intro iterable
  simp only [rename, Rule.elementType, Expr.isRange_rename, Expr.rename_span]
  refine .bindOption (.askType iterable) .noAnswer fun ty =>
    .ite Iff.rfl (.pure rfl) ?_
  refine .bind (.derefOnce ty) fun ty => ?_
  cases ty with
  | array element extent mutable => exact .pure rfl
  | _ => exact .andThen (.reportMismatch _ rfl (Ty.text_rename _)) .noAnswer

theorem checkFor : Equivariant f Rule.checkFor := by
  intro binding iterable body
  have hid : (body.rename f).id = f body.id := by cases body; rfl
  have hspan : (body.rename f).span = body.span := by cases body; rfl
  simp only [rename, Rule.checkFor, hid, hspan]
  refine .bind (.elementType iterable) fun element => .bind .tree fun tree => ?_
  simp only [rename, ScopeTree.nodeScope?_rename f.injective]
  refine .ite Iff.rfl (.pure rfl)
    (.andThen (.bindLoop binding body.id element) ?_)
  exact .withLoop (.checkBlock body)

theorem checkJump : Equivariant f Rule.checkJump := by
  intro _ span
  exact .bind .isInLoop fun _ =>
    .ite Iff.rfl (.report span rfl) (.pure rfl)

/-!
## Returns and throws
-/

theorem checkReturned : Equivariant f Rule.checkReturned := by
  intro expected source value
  simp only [rename, Rule.checkReturned, Ty.isMeta_rename, Ty.text_rename,
    Expr.rename_span]
  refine .bind (.normalize expected) fun resolved => ?_
  refine .ite (by simp [rename]) (.reportMismatch _ rfl rfl) ?_
  exact .discard (.checkFlow expected source value value.span)

theorem checkBareReturn : Equivariant f Rule.checkBareReturn := by
  intro expected span
  cases expected with
  | none => exact .pure rfl
  | some expected =>
    refine .bind (.normalize expected) fun resolved => ?_
    refine .ite (by simp [rename]) (.reportMismatch span ?_ rfl) (.pure rfl)
    exact Ty.text_rename expected

theorem checkReturn : Equivariant f Rule.checkReturn := by
  intro value span
  refine .bindOption .frame? (.andThen (.report span rfl) ?_) fun frame => ?_
  · refine .forEach (fun value => .discard (.askType value)) ?_
    cases value <;> rfl
  refine .andThen (.updateFrame fun _ => rfl) ?_
  obtain ⟨_, result, _⟩ := frame
  cases value with
  | none => exact .checkBareReturn result span
  | some value =>
    refine .bindOption (.inferExpecting value result) (.pure rfl)
      fun source => ?_
    cases result with
    | none => exact .pure rfl
    | some expected => exact .checkReturned expected source value

theorem reportThrown : Equivariant f Rule.reportThrown := by
  intro _ _ value
  simp only [rename, Rule.reportThrown, Ty.text_rename, Expr.rename_span]
  exact .report value.span rfl

theorem checkRaised : Equivariant f Rule.checkRaised := by
  intro frame thrown value
  obtain ⟨_, _, errorType, _⟩ := frame
  cases errorType with
  | none => exact .pure rfl
  | some errorType =>
    refine .bind (.normalize errorType) fun ty => ?_
    cases ty with
    | errors allowed =>
      refine .ite ?_ (.reportThrown _ thrown value) (.pure rfl)
      simp only [rename, thrownErrors_rename]
    | _ => exact .pure rfl

theorem checkThrown : Equivariant f Rule.checkThrown := by
  intro frame mode thrown value
  cases mode with
  | anyError =>
    unfold Rule.checkThrown
    cases thrown with
    | errors => exact .pure rfl
    | _ =>
      refine .ite ?_ (.reportThrown _ _ value) (.pure rfl)
      simp only [rename, Ty.isErr_rename]
  | selfGroup =>
    refine .ite ?_ (.reportThrown _ thrown value) (.pure rfl)
    simp only [rename, Expr.ownError?_rename]
    rfl
  | namedSet | group => exact .checkRaised frame thrown value

theorem checkThrow : Equivariant f Rule.checkThrow := by
  intro value span
  have houtside : ∀ name, Renamed f (do
      Rule.report (.throwWithoutErrorType name) span
      Functor.discard (Rule.askType value)) (do
      Rule.report (.throwWithoutErrorType name) span
      Functor.discard (Rule.askType (value.rename f))) :=
    fun name => .andThen (.report span rfl) (.discard (.askType value))
  refine .bind .frame? fun frame => ?_
  cases frame with
  | none => exact houtside _
  | some frame =>
    obtain ⟨name, result, errorType, errorMode, ownErrors, _⟩ := frame
    cases errorMode with
    | none => exact houtside _
    | some mode =>
      refine .andThen (.updateFrame fun _ => rfl) ?_
      refine .bindOption (.askType value) (.pure rfl) fun thrown => ?_
      exact .bind (.normalize thrown) fun thrown =>
        .checkThrown _ mode thrown value

/-!
## Functions
-/

theorem checkGivenValue (ty : Ty) (value : Option Expr) :
    Renamed f (Rule.forEach (Rule.checkInitializer ty) value.toList)
      (Rule.forEach (Rule.checkInitializer (ty.rename f))
        (Expr.renameOpt f value).toList) := by
  refine .forEach (.checkInitializer ty) ?_
  cases value <;> rfl

theorem typeParam : Equivariant f Rule.typeParam := by
  intro body param
  obtain ⟨name, ty, visibility, mutable, default, span⟩ := param
  refine .bindOption (.resolveType ty span) (.pure rfl) fun ty => ?_
  have hvalue := checkGivenValue (f := f) ty default
  refine .bindOption (.lookupLocal body name) hvalue fun id => ?_
  exact .andThen (.setTypeIfNone id (some ty)) hvalue

theorem checkParam : Equivariant f Rule.checkParam := by
  intro body _ param
  have htyped := typeParam (f := f) body param
  obtain ⟨name, ty, visibility, mutable, default, span⟩ := param
  refine .ite Iff.rfl (.andThen (.report span rfl) ?_) ?_
  · exact .ite Iff.rfl htyped (.pure rfl)
  · exact .ite Iff.rfl htyped (.pure rfl)

theorem resultType : Equivariant f Rule.resultType := by
  intro func
  obtain ⟨_, _, _, _, result, _, _, span⟩ := func
  cases result with
  | none => exact .pure rfl
  | some ty => exact .resolveType ty span

theorem errorType : Equivariant f Rule.errorType := by
  intro func
  obtain ⟨_, _, _, _, _, error, _, span⟩ := func
  cases error with
  | none => exact .noAnswer
  | some clause =>
    have hclause := resolveType (f := f) clause.toTy span
    simp only [rename, clause.toTy_rename] at hclause
    refine .bindOption hclause .noAnswer fun ty => ?_
    cases clause with
    | named name =>
      cases ty with
      | errors => exact .pure rfl
      | _ =>
        exact .andThen (.reportMismatch span rfl (Ty.text_rename _)) .noAnswer
    | _ => exact .pure rfl

theorem openFrame : Equivariant f Rule.openFrame := by
  intro func body owner
  have hresult := resultType (f := f) func
  have herror := errorType (f := f) func
  obtain ⟨_, _, _, params, _, _, _, _⟩ := func
  refine .andThen
    (.forEach (.checkParam body owner.isSome) (Slot.renameAll_eq params)) ?_
  exact .bind hresult fun result => .bind herror fun error => .pure rfl

theorem declareFunction : Equivariant f Rule.declareFunction := by
  intro name
  refine .bind .tree fun tree => .bindOption (.lookupLocal tree.current name)
    (.pure rfl) ?_
  exact fun id => .andThen (.discard (.functionType id))
    (.updateSymbol id fun _ => rfl)

theorem returnsValue_rename (frame : Frame) :
    (frame.rename f).returnsValue = frame.returnsValue := by
  obtain ⟨_, result, _⟩ := frame
  cases result <;> simp [Frame.returnsValue, Frame.rename]

theorem checkBody : Equivariant f Rule.checkBody := by
  intro func owner body
  refine .bind (.withScope body (.openFrame func body owner)) fun frame => ?_
  obtain ⟨_, name, _, _, _, _, ⟨_, stmts⟩, span⟩ := func
  have hstmts := checkStatements (f := f) stmts
  simp only [rename, ← Stmt.renameAll_eq] at hstmts
  refine .bind (.withFrame frame (.withScope body hstmts)) fun finished => ?_
  obtain ⟨finished, _⟩ := finished
  cases finished with
  | none => exact .pure rfl
  | some finished =>
    refine .ite ?_ (.andThen (.report span rfl) (.pure rfl)) (.pure rfl)
    rw [show (rename f finished).returnsValue =
      _ from returnsValue_rename finished]
    rfl

theorem checkFunction : Equivariant f Rule.checkFunction := by
  intro func owner
  have hbody := checkBody (f := f) func owner
  obtain ⟨id, name, _, _, _, _, _, _⟩ := func
  refine .bind .tree fun tree => ?_
  simp only [rename, FuncDecl.rename, ScopeTree.nodeScope?_rename f.injective]
  cases tree.nodeScope? id with
  | none => exact .pure rfl
  | some body => exact .andThen (.declareFunction name) (hbody body)

/-!
## Type declarations
-/

theorem typeOfMembers? : Equivariant f Rule.typeOfMembers? := by
  intro scope name
  refine .bind .tree fun tree => ?_
  simp only [rename, ScopeTree.parent?_rename, ScopeTree.lookupLocal_rename,
    ScopeTree.symbol_rename]
  cases tree.parent? scope with
  | none => exact .noAnswer
  | some parent =>
    dsimp only
    cases tree.lookupLocal parent name with
    | none => exact .noAnswer
    | some id => exact .pure (rename_inert (fun _ => rfl) _).symm

theorem containsType : Equivariant f Rule.containsType := by
  intro id ty
  exact .bind .session fun s =>
    .pure (ScopeTree.contains_rename id s.unfolding s.tree.current ty)

theorem reportCycle : Equivariant f Rule.reportCycle := by
  intro declared ty _ span
  cases declared with
  | none => exact .pure rfl
  | some id =>
    refine .bind (.containsType id ty) fun found => ?_
    exact .ite Iff.rfl (.andThen (.report span rfl) (.pure rfl)) (.pure rfl)

theorem recordField : Equivariant f Rule.recordField := by
  intro scope field ty
  obtain ⟨name, _, _, _, _, _⟩ := field
  refine .bindOption (.lookupLocal scope name) (.pure rfl) fun id => ?_
  exact .andThen (.setTypeIfNone id (some ty)) (.updateSymbol id fun _ => rfl)

theorem checkFieldType : Equivariant f Rule.checkFieldType := by
  intro scope field
  have hrecord := recordField (f := f) scope field
  obtain ⟨_, ty, _, _, default, span⟩ := field
  refine .bindOption (.resolveType ty span) (.pure rfl) fun ty => ?_
  exact .andThen (hrecord ty) (.checkGivenValue ty default)

theorem checkStructField : Equivariant f Rule.checkStructField := by
  intro scope declared owner field
  have htype := checkFieldType (f := f) scope field
  obtain ⟨_, ty, _, _, _, span⟩ := field
  refine .ite Iff.rfl (.andThen (.report span rfl) ?_) ?_
  · exact .bind (.reportCycle declared ty owner span) fun _ =>
      .ite Iff.rfl (.pure rfl) htype
  · exact .bind (.reportCycle declared ty owner span) fun _ =>
      .ite Iff.rfl (.pure rfl) htype

theorem checkPayload : Equivariant f Rule.checkPayload := by
  intro declared owner variant
  obtain ⟨_, payload, span⟩ := variant
  cases payload with
  | none => exact .pure rfl
  | some payload =>
    refine .bind (.reportCycle declared payload owner span) fun cyclic => ?_
    exact .ite Iff.rfl (.pure rfl) (.discard (.resolveType payload span))

theorem checkMethod : Equivariant f Rule.checkMethod := by
  intro scope method
  exact .bind (.checkFunction method (some scope)) fun result =>
    .reportFailure result

theorem checkMembers {members members' : ScopeId → Option SymbolId → Rule Unit}
    (id : NodeId) (name : String) (span : Span) (methods : List FuncDecl)
    (hmembers : ∀ scope declared, Renamed f (members scope declared)
      (members' scope declared)) :
    Renamed f (Rule.checkMembers id name span methods members)
      (Rule.checkMembers (f id) name span (FuncDecl.renameAll f methods)
        members') := by
  refine .bind .tree fun tree => ?_
  simp only [rename, ScopeTree.nodeScope?_rename f.injective]
  cases tree.nodeScope? id with
  | none => exact .pure rfl
  | some scope =>
    refine .bind (.typeOfMembers? scope name) fun declared => ?_
    rw [rename_inert fun _ => rfl]
    refine .andThen (.withScope scope (.andThen (hmembers scope declared) ?_))
      (.pure rfl)
    exact .forEach (.checkMethod scope) (FuncDecl.renameAll_eq methods)

theorem checkStruct : Equivariant f Rule.checkStruct := by
  intro decl
  obtain ⟨id, name, _, fields, methods, span⟩ := decl
  refine .checkMembers id name span methods fun scope declared => ?_
  exact .forEach (.checkStructField scope declared name)
    (Slot.renameAll_eq fields)

theorem checkEnum : Equivariant f Rule.checkEnum := by
  intro decl
  obtain ⟨id, name, _, variants, methods, span⟩ := decl
  refine .checkMembers id name span methods fun scope declared => ?_
  exact .forEach (.checkPayload declared name)
    (VariantDecl.renameAll_eq variants)

/-!
## Bindings and definitions
-/

theorem declaredSymbol : Equivariant f Rule.declaredSymbol := by
  intro name _
  refine .bind .tree fun tree => ?_
  exact .bindOption (.lookupLocal tree.current name) (.pure rfl)
    fun id => .pure rfl

theorem checkBareVariant : Equivariant f Rule.checkBareVariant := by
  intro value
  simp only [rename, Rule.checkBareVariant, Expr.rename_unparen,
    Expr.rename_kind, Expr.rename_span]
  cases value.unparen.kind with
  | member base name =>
    refine .bindOption (.exprAsType base) (.pure rfl) fun ty => ?_
    cases ty with
    | enum enum =>
      simp only [rename, Ty.rename, EnumTy.variant?_rename, EnumTy.rename_name]
      cases enum.variant? name with
      | none => exact .pure rfl
      | some variant =>
        obtain ⟨_, payload⟩ := variant
        cases payload with
        | none => exact .pure rfl
        | some payload =>
          refine .reportMismatch _ ?_ rfl
          rw [Ty.text_rename]
    | _ => exact .pure rfl
  | _ => exact .pure rfl

theorem annotatedType : Equivariant f Rule.annotatedType := by
  intro written value span
  refine .bindOption (.resolveType written span) .noAnswer fun target => ?_
  have hvalue := checkGivenValue (f := f) target value
  rw [Expr.renameOpt_eq] at hvalue
  exact .andThen hvalue (.pure rfl)

theorem bindingType : Equivariant f Rule.bindingType := by
  intro decl span
  obtain ⟨name, visibility, mutable, ty, value⟩ := decl
  cases ty with
  | some written => cases value <;> exact .annotatedType written _ span
  | none =>
    cases value with
    | none => exact .andThen (.report span rfl) .noAnswer
    | some value =>
      refine .bind (.inferExpecting value none) fun ty => .pure ?_
      cases mutable <;> cases ty <;> simp [rename, LetDecl.rename]

theorem checkLet : Equivariant f Rule.checkLet := by
  intro decl span
  have htype := bindingType (f := f) decl span
  obtain ⟨name, visibility, mutable, ty, value⟩ := decl
  refine .bind (.declaredSymbol name span) fun found => ?_
  cases found with
  | error finding => exact .pure rfl
  | ok id =>
    refine .bind
      (.withDeclaration name (.andThen (.forEach .checkBareVariant ?_) htype))
      ?_
    · cases value <;> rfl
    · refine fun ty => .andThen (.updateSymbol id fun symbol => ?_) (.pure rfl)
      cases value <;>
        simp [rename, Symbol.rename, LetDecl.rename, Expr.renameOpt,
          Option.map_or]

theorem checkAlias : Equivariant f Rule.checkAlias := by
  intro id name ty span
  refine .bind (.containsType id ty) fun found =>
    .ite Iff.rfl (.report span rfl) ?_
  exact .discard (.resolveType (.named name) span)

theorem checkConstant : Equivariant f Rule.checkConstant := by
  intro id decl span
  obtain ⟨name, visibility, ty, value⟩ := decl
  refine .andThen (.checkBareVariant value) ?_
  cases ty with
  | some written =>
    exact .bind (.annotatedType written (some value) span) fun ty =>
      .setTypeIfNone id ty
  | none =>
    exact .bind (.inferExpecting value none) fun ty => .setTypeIfNone id ty

theorem checkDefined : Equivariant f Rule.checkDefined := by
  intro id decl span
  have hconstant := checkConstant (f := f) id decl span
  obtain ⟨name, visibility, ty, ⟨node, place, kind⟩⟩ := decl
  cases kind with
  | type ty =>
    cases ty with
    | errors => exact .pure rfl
    | _ => exact .checkAlias id name _ span
  | _ => exact hconstant

theorem checkDef : Equivariant f Rule.checkDef := by
  intro decl span
  have hdefined := fun id => checkDefined (f := f) id decl span
  obtain ⟨name, visibility, ty, value⟩ := decl
  refine .bind (.declaredSymbol name span) fun found => ?_
  cases found with
  | error finding => exact .pure rfl
  | ok id =>
    refine .andThen (.withDeclaration name (hdefined id)) ?_
    exact .andThen (.updateSymbol id fun _ => rfl) (.pure rfl)

theorem checkUse : Equivariant f Rule.checkUse := by
  intro _ span
  exact .bind .tree fun _ => .ite Iff.rfl (.report span rfl) (.pure rfl)

theorem validateKind : Equivariant f Rule.validateKind := by
  intro stmt
  obtain ⟨id, span, kind⟩ := stmt
  cases kind with
  | expr value => exact .bind (.discard (.askType value)) fun _ => .pure rfl
  | block block => exact .checkBlock block
  | letDecl decl => exact .checkLet decl span
  | defDecl decl => exact .checkDef decl span
  | func decl => exact .checkFunction decl none
  | struct decl => exact .checkStruct decl
  | enum decl => exact .checkEnum decl
  | use decl => exact .bind (.checkUse decl span) fun _ => .pure rfl
  | returnStmt value =>
    have hreturn := checkReturn (f := f) value span
    simp only [rename, ← Expr.renameOpt_eq] at hreturn
    exact .bind hreturn fun _ => .pure rfl
  | throwStmt value => exact .bind (.checkThrow value span) fun _ => .pure rfl
  | whileLoop condition body => exact .checkWhile condition body
  | forLoop binding iterable body => exact .checkFor binding iterable body
  | breakStmt => exact .bind (.checkJump _ span) fun _ => .pure rfl
  | continueStmt => exact .bind (.checkJump _ span) fun _ => .pure rfl

theorem validateStmt : Equivariant f Rule.validateStmt := by
  intro stmt
  simp only [rename, Rule.validateStmt, Stmt.rename_span]
  exact .withSpan stmt.span (.validateKind stmt)

theorem checkModule : Equivariant f Rule.checkModule := by
  intro module
  refine .bind .tree fun tree => ?_
  simp only [rename, Module.rename, ScopeTree.nodeScope?_rename f.injective,
    Stmt.renameAll_eq]
  cases tree.nodeScope? module.id with
  | none => exact .pure rfl
  | some scope =>
    refine .andThen (.updateContext fun _ => rfl) ?_
    exact .bind (.withScope scope (.checkStatements module.body))
      fun _ => .pure rfl

end Renamed
end StaticCheck
