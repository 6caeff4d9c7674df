import StaticCheck.Proofs.Renaming.Values

/-!
# Expressions under a renaming

The rules on object literals, special forms and matches lead from renamed
questions to renamed answers, and so does the inference of an expression: a type
is remembered under a renamed key if and only if it was remembered under the
key.
-/

namespace StaticCheck

def Rule.ShapeField.rename (f : NodeId → NodeId) (field : Rule.ShapeField) :
    Rule.ShapeField :=
  { field with ty := field.ty.map (Ty.rename f) }

instance : Renames Rule.ShapeField := ⟨Rule.ShapeField.rename⟩

namespace Renamed

variable {f : NodeId ↪ NodeId}

/-!
## Object literals
-/

theorem checkFieldValue : Equivariant f Rule.checkFieldValue := by
  intro expected field
  simp only [rename, Rule.checkFieldValue, ObjectField.rename_value,
    ObjectField.rename_span]
  refine .bindOption (.inferExpecting field.value (some expected)) (.pure rfl)
    fun received => ?_
  exact .checkFlow expected received field.value field.span

theorem settableField? : Equivariant f Rule.settableField? := by
  intro _ _ _
  simp only [rename, Rule.settableField?, StructTy.rename_name,
    ObjectField.rename_name, ObjectField.rename_span]
  refine .bind .tree fun tree => ?_
  simp only [rename, ScopeTree.lookupLocal_rename, ScopeTree.symbol_rename,
    Symbol.rename_kind, Symbol.rename_visibility, ScopeTree.isWithin_rename,
    ScopeTree.rename_current]
  split
  · exact .andThen (.report _ rfl) .noAnswer
  · split
    · exact .andThen (.report _ rfl) .noAnswer
    · exact .ite Iff.rfl (.pure rfl) (.andThen (.report _ rfl) .noAnswer)
    · exact .pure rfl

theorem checkGivenField : Equivariant f Rule.checkGivenField := by
  intro struct scope field
  refine .bindOption (.settableField? struct scope field) (.pure rfl)
    fun id => ?_
  exact .bindOption (.symbolType id) (.pure rfl) fun expected =>
    .checkFieldValue expected field

theorem checkGivenMember : Equivariant f Rule.checkGivenMember := by
  intro struct field
  simp only [rename, Rule.checkGivenMember, ObjectField.rename_name,
    StructTy.member?_rename, ObjectField.rename_span]
  cases struct.member? field.name with
  | none => exact .andThen (.report _ rfl) (.pure rfl)
  | some member =>
    exact .bindOption (.resolveMember struct member) (.pure rfl) fun expected =>
      .checkFieldValue expected field

theorem checkGiven : Equivariant f Rule.checkGiven := by
  intro _ _ span _
  simp only [rename, Rule.checkGiven, StructTy.rename_name, List.any_map]
  refine .ite ?_ (.pure rfl) (.andThen (.report span rfl) (.pure rfl))
  simp [Function.comp_def]

theorem requiredFields : Equivariant f Rule.requiredFields := by
  intro scope
  refine .bind .tree fun tree => .pure ?_
  have hrequired : ∀ symbol : Symbol,
      (symbol.rename f).isRequiredField = symbol.isRequiredField := by
    intro symbol
    simp only [Symbol.isRequiredField, Symbol.rename, SymbolInfo.rename,
      Option.isNone_map]
    rfl
  have hsymbols :
      ((tree.rename f).scope scope).symbols.map (tree.rename f).symbol =
      ((tree.scope scope).symbols.map tree.symbol).map (Symbol.rename f) := by
    simp
  simp only [rename, hsymbols]
  simp [List.filter_map, Function.comp_def, hrequired]

theorem checkConstruction : Equivariant f Rule.checkConstruction := by
  intro struct fields span
  simp only [rename, Rule.checkConstruction, StructTy.rename_scope,
    StructTy.rename_members]
  cases struct.scope with
  | some scope =>
    refine .bind (.everyOf (.checkGivenField struct scope) rfl) fun given => ?_
    refine .bind (.requiredFields scope) fun required => ?_
    refine .bind (.everyOf (.checkGiven struct fields span) ?_)
      fun complete => .pure rfl
    rfl
  | none =>
    refine .bind (.everyOf (.checkGivenMember struct) rfl) fun given => ?_
    refine .bind (.everyOf (.checkGiven struct fields span) ?_)
      fun complete => .pure rfl
    simp [rename]

theorem shapeField? : Equivariant f Rule.shapeField? := by
  intro id
  refine .bind (.symbol id) fun symbol => .ite Iff.rfl .noAnswer ?_
  refine .bind (.symbolType id) fun ty => .pure ?_
  have hinitializer : (symbol.rename f).info.initializer.isSome =
      symbol.info.initializer.isSome := by
    simp [Symbol.rename, SymbolInfo.rename]
  simp only [rename, hinitializer]
  rfl

theorem shapeMember : Equivariant f Rule.shapeMember := by
  intro struct member
  refine .bind (.resolveMember struct member) fun ty => .pure ?_
  simp only [rename, Member.rename_name]
  rfl

theorem shapeFields : Equivariant f Rule.shapeFields := by
  intro struct
  simp only [rename, Rule.shapeFields, StructTy.rename_scope,
    StructTy.rename_members]
  cases struct.scope with
  | none => exact .mapEach (.shapeMember struct) rfl
  | some scope =>
    refine .bind .tree fun tree => .bind (.mapEach .shapeField? ?_)
      fun fields => .pure ?_
    · simp [rename]
    · simp [rename, List.filterMap_map, List.map_filterMap]

theorem fitsField : Equivariant f Rule.fitsField := by
  intro given field
  have hprovided :
      (given.map (ObjectField.rename f)).find? (·.name == field.name) =
      (given.find? (·.name == field.name)).map (ObjectField.rename f) := by
    have htest :
        (fun other : ObjectField => other.name == field.name) ∘
        ObjectField.rename f =
        fun other => other.name == field.name := funext fun other => by simp
    rw [List.find?_map, htest]
  obtain ⟨name, expected, optional⟩ := field
  simp only [rename, Rule.fitsField, Rule.ShapeField.rename, hprovided]
  cases given.find? (·.name == name) with
  | none => exact .pure rfl
  | some provided =>
    cases expected with
    | none => exact .pure rfl
    | some expected =>
      simp only [Option.map_some, ObjectField.rename_value]
      refine .bindOption (.inferExpecting provided.value (some expected))
        (.pure rfl) ?_
      exact fun received => .isCompatible expected received
        (some provided.value)

theorem fitsShape : Equivariant f Rule.fitsShape := by
  intro struct given
  refine .bind (.shapeFields struct) fun fields => ?_
  refine .ite ?_ (.pure rfl) (.allOf (.fitsField given) rfl)
  simp [rename, Rule.ShapeField.rename]

theorem matchCandidate : Equivariant f Rule.matchCandidate := by
  intro fields span candidates
  induction candidates with
  | nil => exact .noAnswer
  | cons candidate rest ih =>
    refine .bind (.normalize candidate) fun ty => ?_
    cases ty with
    | struct struct =>
      refine .bind (.speculate (.fitsShape struct fields)) fun trial =>
        .ite Iff.rfl ?_ ih
      exact .andThen (.discard (.checkConstruction struct fields span))
        (.pure rfl)
    | _ => exact ih

theorem checkUnique : Equivariant f Rule.checkUnique := by
  intro seen fields
  induction fields generalizing seen with
  | nil => exact .pure rfl
  | cons field rest ih =>
    simp only [rename, List.map_cons, Rule.checkUnique, ObjectField.rename_name,
      ObjectField.rename_span]
    refine .ite Iff.rfl ?_ (ih _)
    exact .andThen (.report _ rfl) (.andThen (.discard (ih seen)) (.pure rfl))

theorem constructNamed : Equivariant f Rule.constructNamed := by
  intro name fields span
  refine .bindOption (.resolveType (.named name) span) .noAnswer fun ty => ?_
  cases ty with
  | struct struct =>
    have hconstruct : Renamed f (do
        Functor.discard (Rule.checkConstruction struct fields span)
        return some (Ty.struct struct)) (do
        Functor.discard (Rule.checkConstruction (struct.rename f)
          (fields.map (ObjectField.rename f)) span)
        return some (Ty.struct (struct.rename f))) :=
      .andThen (.discard (.checkConstruction struct fields span)) (.pure rfl)
    refine .bindOption .expected? hconstruct fun expected => ?_
    refine .bind (.normalize expected) fun expected => ?_
    cases expected with
    | struct expected =>
      refine .ite ?_
        (.andThen (.reportMismatch span (StructTy.rename_name _) rfl) .noAnswer)
        hconstruct
      simp only [StructTy.rename_scope]
    | _ => exact hconstruct
  | _ => exact .andThen (.reportMismatch span rfl (Ty.text_rename _)) .noAnswer

theorem adoptExpected : Equivariant f Rule.adoptExpected := by
  intro fields span
  refine .bindOption .expected? .noAnswer fun expected =>
    .bind (.normalize expected) fun ty => ?_
  cases ty with
  | struct struct =>
    refine .ite (by rw [StructTy.rename_scope]) ?_ .noAnswer
    exact .andThen (.discard (.checkConstruction struct fields span))
      (.pure rfl)
  | union members =>
    have hmatch := matchCandidate (f := f) fields span members
    simp only [rename, ← Ty.renameAll_eq] at hmatch
    exact hmatch
  | optional inner => exact .matchCandidate fields span [inner]
  | _ => exact .noAnswer

theorem synthesizeMember : Equivariant f Rule.synthesizeMember := by
  intro field
  simp only [rename, Rule.synthesizeMember, ObjectField.rename_value,
    ObjectField.rename_name]
  exact .bindOption (.inferExpecting field.value none) .noAnswer
    fun ty => .pure rfl

theorem synthesize : Equivariant f Rule.synthesize := by
  intro _
  refine .bindOption (.mapSome .synthesizeMember rfl) .noAnswer
    fun members => .pure ?_
  simp [rename, Ty.rename, StructTy.rename]

theorem inferObject : Equivariant f Rule.inferObject := by
  intro name fields span
  refine .bind (.checkUnique [] fields) fun unique => .ite Iff.rfl .noAnswer ?_
  cases name with
  | some name => exact .constructNamed name fields span
  | none =>
    exact .bindOption (.adoptExpected fields span) (.synthesize fields)
      fun ty => .pure rfl

/-!
## Special forms
-/

theorem inferCast : Equivariant f Rule.inferCast := by
  intro operand target span
  refine .bindOption (.inferExpecting operand none) .noAnswer fun source => ?_
  refine .bindOption (.resolveType target span) .noAnswer fun target => ?_
  refine .bind (.canCast target source) fun castable => ?_
  simp only [rename, Ty.text_rename]
  exact .ite Iff.rfl (.andThen (.reportCast span rfl) (.pure rfl)) (.pure rfl)

theorem sizedType : Equivariant f Rule.sizedType := by
  intro operand
  refine .bindOption (.exprAsType operand) ?_ fun ty => .pure rfl
  refine .bindOption (.askType operand) .noAnswer fun ty => .pure ?_
  exact congrArg some (Ty.concretize_rename ty)

theorem measure : Equivariant f Rule.measure := by
  intro operand
  refine .bindOption (.sizedType operand) .noAnswer fun ty => ?_
  refine .bindOption (.resolveLayout ty) .noAnswer fun layout =>
    .evaluator (.pure ?_)
  rw [rename_inert fun _ => rfl]
  exact Evaluator.literal_size_rename layout

theorem inferSizeOf : Equivariant f Rule.inferSizeOf := by
  intro operand span
  refine .bindOption (.measure operand) ?_ fun size => .pure rfl
  exact .andThen (.report span rfl) (.pure rfl)

theorem inferOrElse : Equivariant f Rule.inferOrElse := by
  intro left right
  simp only [rename, Rule.inferOrElse, Expr.rename_span]
  refine .bindOption (.askType left) .noAnswer fun leftTy =>
    .bind (.normalize leftTy) fun ty => ?_
  cases ty with
  | optional inner =>
    refine .bindOption (.inferExpecting right (some inner)) .noAnswer
      fun rightTy => ?_
    refine .bind (.normalize rightTy) fun resolved => ?_
    refine .ite (by simp [rename]) (.pure rfl) ?_
    cases resolved with
    | optional rightInner =>
      refine .bind (.isCompatible inner rightInner none) fun agree => ?_
      refine .ite Iff.rfl (.andThen (.reportMismatch _ ?_ ?_) (.pure rfl))
        (.pure rfl)
      · exact Ty.text_rename (.optional inner)
      · exact Ty.text_rename rightTy
    | _ =>
      refine .bind (.isCompatible inner _ (some right)) fun agree => ?_
      refine .ite Iff.rfl (.andThen (.reportMismatch _ ?_ ?_) (.pure rfl))
        (.pure rfl)
      · exact Ty.text_rename inner
      · exact Ty.text_rename _
  | _ => exact .andThen (.discard (.askType right)) (.pure rfl)

theorem checkBound : Equivariant f Rule.checkBound := by
  intro bound
  refine .bindOption (.askType bound) (.pure rfl) fun ty =>
    .bind (.normalize ty) fun ty => ?_
  simp only [rename, Ty.isInteger_rename, Ty.text_rename, Expr.rename_span]
  exact .ite Iff.rfl (.reportMismatch _ rfl rfl) (.pure rfl)

theorem inferRange : Equivariant f Rule.inferRange := by
  intro start stop
  refine .andThen (.forEach .checkBound ?_) (.pure rfl)
  cases start <;> cases stop <;> rfl

theorem checkCondition : Equivariant f Rule.checkCondition := by
  intro condition
  refine .bindOption (.askType condition) (.pure rfl) fun ty =>
    .bind (.normalize ty) fun ty => ?_
  simp only [rename, Ty.isBool_rename, Ty.text_rename, Expr.rename_span]
  exact .ite Iff.rfl (.reportMismatch _ rfl rfl) (.pure rfl)

theorem checkBranch : Equivariant f Rule.checkBranch := by
  intro body
  exact .bind (.withSavedState (.askValid body)) fun result =>
    .reportFailure result

theorem checkIf : Equivariant f Rule.checkIf := by
  intro condition _ elseBranch
  refine .andThen (.checkCondition condition) (.forEach .checkBranch ?_)
  cases elseBranch <;> rfl

theorem checkHandler : Equivariant f Rule.checkHandler := by
  intro id handler _
  refine .bind .tree fun tree => ?_
  simp only [rename, ScopeTree.nodeScope?_rename f.injective]
  cases tree.nodeScope? id with
  | none => exact .reportInternal _
  | some scope =>
    refine .bind (.withSavedState (.withScope scope (.askValid handler)))
      fun result => ?_
    exact .reportFailure result

theorem inferCatch : Equivariant f Rule.inferCatch := by
  intro id operand handler span
  exact .bind (.askType operand) fun _ =>
    .andThen (.checkHandler id handler span) (.pure rfl)

/-!
## Matches
-/

theorem checkVariantPattern : Equivariant f Rule.checkVariantPattern := by
  intro _ pattern
  simp only [rename, Rule.checkVariantPattern, Expr.variantName?_rename,
    EnumTy.variant?_rename, EnumTy.rename_name, Expr.rename_span,
    Option.isNone_map]
  cases pattern.variantName? with
  | none => exact .reportMismatch _ rfl rfl
  | some name => exact .ite Iff.rfl (.report _ rfl) (.pure rfl)

theorem checkPattern : Equivariant f Rule.checkPattern := by
  intro subject pattern
  simp only [rename, Rule.checkPattern, Expr.isRange_rename, Expr.rename_span]
  have hrange := discard (f := f) (.askType pattern)
  cases subject with
  | none => exact .ite Iff.rfl hrange (.pure rfl)
  | some subject =>
    cases subject with
    | enum enum => exact .checkVariantPattern enum pattern
    | _ =>
      refine .ite Iff.rfl hrange ?_
      refine .bindOption (.inferExpecting pattern (some _)) (.pure rfl)
        fun ty => ?_
      refine .bind (.isCompatible _ ty (some pattern)) fun agree => ?_
      refine .ite Iff.rfl (.reportMismatch _ ?_ ?_) (.pure rfl)
      · exact Ty.text_rename _
      · exact Ty.text_rename ty

theorem checkCase : Equivariant f Rule.checkCase := by
  intro subject case
  simp only [rename, Rule.checkCase, MatchCase.rename_body]
  exact .andThen (.forEach (.checkPattern subject) case.rename_patterns)
    (.checkBranch case.body)

theorem checkBranches : Equivariant f Rule.checkBranches := by
  intro subject cases default span
  refine .andThen (.forEach (.checkCase subject) rfl)
    (.andThen (.forEach .checkBranch ?_) ?_)
  · cases default <;> rfl
  · refine .ite (by simp only [rename, Option.isNone_map]) ?_ (.pure rfl)
    cases subject with
    | none => exact .pure rfl
    | some subject =>
      have hpatterns : (cases.map (MatchCase.rename f)).flatMap (·.patterns) =
          (cases.flatMap (·.patterns)).map (Expr.rename f) := by
        simp [List.flatMap_map, List.map_flatMap]
      simp only [rename, Option.map_some, hpatterns, missingCases_rename]
      exact .ite Iff.rfl (.report span rfl) (.pure rfl)

theorem checkMatch : Equivariant f Rule.checkMatch := by
  intro subject cases default span
  refine .bindOption (.askType subject) ?_ fun ty => .bind (.normalize ty)
    fun ty => ?_
  · exact .checkBranches none cases default span
  · exact .checkBranches (some ty) cases default span

/-!
## Inference
-/

theorem inferKind : Equivariant f Rule.inferKind := by
  intro expr
  obtain ⟨id, span, kind⟩ := expr
  cases kind with
  | literal literal => exact .inferLiteral literal span
  | ident name => exact .inferIdent name span
  | paren inner => exact .askType inner
  | tuple fields =>
    have htuple := inferTuple (f := f) fields
    simp only [rename, ← Expr.renameAll_eq] at htuple
    exact htuple
  | object name fields =>
    have hobject := inferObject (f := f) name fields span
    simp only [rename, ← ObjectField.renameAll_eq] at hobject
    exact hobject
  | type ty =>
    exact .bindOption (.resolveType ty span) .noAnswer fun ty => .pure rfl
  | binary op left right =>
    exact .ite Iff.rfl (.inferAssignment op left right span)
      (.inferBinary op left right span)
  | unary op operand => exact .inferUnary op operand span
  | call callee args =>
    have hcall := inferCall (f := f) callee args span
    simp only [rename, ← Expr.renameAll_eq] at hcall
    exact hcall
  | index base index => exact .inferIndex base index
  | member base name => exact .inferMember base name span
  | increment operand | decrement operand => exact .inferStep operand
  | deref operand => exact .inferDeref operand
  | cast operand target => exact .inferCast operand target span
  | typeOf operand =>
    exact .bindOption (.askType operand) .noAnswer fun ty => .pure rfl
  | sizeOf operand =>
    exact .bind (.inferSizeOf operand span) fun ty => .pure rfl
  | orElse left right => exact .inferOrElse left right
  | range start stop inclusive =>
    have hrange := inferRange (f := f) start stop
    simp only [rename, ← Expr.renameOpt_eq] at hrange
    exact hrange
  | tryExpr operand => exact .askType operand
  | catchExpr operand binding handler =>
    exact .inferCatch id operand handler span
  | ifExpr condition thenBranch elseBranch =>
    have hif := checkIf (f := f) condition thenBranch elseBranch
    simp only [rename, ← Stmt.renameOpt_eq] at hif
    exact .andThen hif (.pure rfl)
  | matchExpr subject cases default =>
    have hmatch := checkMatch (f := f) subject cases default span
    simp only [rename, ← MatchCase.renameAll_eq, ← Stmt.renameOpt_eq] at hmatch
    exact .andThen hmatch (.pure rfl)
  | unreachable => exact .pure rfl

theorem exprKey : Equivariant f Rule.exprKey := by
  intro _
  refine .bind .currentModule fun module => .pure ?_
  simp only [rename, Expr.rename_id, Expr.rename_kind, ExprKind.rename_form]
  rfl

theorem inferExpr : Equivariant f Rule.inferExpr := by
  intro expr
  refine .bind (.exprKey expr) fun key => ?_
  refine .bindOption (.remembered? key) ?_ fun ty => .pure rfl
  refine .bind (.isInFlight key) fun busy => .ite Iff.rfl .noAnswer ?_
  simp only [rename, Expr.rename_span]
  refine .bindOption (.withInFlight key (.withSpan expr.span (.inferKind expr)))
    .noAnswer ?_
  exact fun ty => .andThen (.remember key ty) (.pure rfl)

end Renamed
end StaticCheck
