import StaticCheck.Proofs.Renaming.Calculus

/-!
# Types under a renaming

The rules that resolve types, type symbols, compare types and check the flow of
values lead from renamed questions to renamed answers.
-/

namespace StaticCheck
namespace Renamed

variable {f : NodeId ↪ NodeId}

/-!
## Resolution
-/

theorem constInt : Equivariant f Rule.constInt := by
  intro expr
  refine .evaluator ?_
  simp only [rename, Evaluator.literal_foldInt_rename]
  cases Evaluator.literal.foldInt expr with
  | some value => exact .pure rfl
  | none =>
    refine .bindOption (.askType expr) (.pure rfl) fun ty => ?_
    cases ty with
    | prim prim =>
      cases prim <;> exact .pure (rename_inert (fun _ => rfl) _).symm
    | _ => exact .pure rfl

theorem resolveExtent : Equivariant f Rule.resolveExtent := by
  intro extent
  cases extent with
  | slice | fixed => exact .pure rfl
  | expr length =>
    refine .bindOption (.constInt length) (.pure rfl) fun n => ?_
    exact .ite Iff.rfl (.pure rfl) (.pure rfl)

theorem reportIfLoud (problem : Problem) (span : Span) (loud : Bool) :
    Equivariant f (do
      if loud then Rule.report problem span
      return none : Rule (Option Ty)) := by
  exact .ite Iff.rfl (.andThen (.report span rfl) .noAnswer) .noAnswer

theorem unfoldAlias : Equivariant f Rule.unfoldAlias := by
  intro id _ span loud
  refine .typedOnce id fun symbol => ?_
  have haliased : (rename f symbol).info.aliased =
      symbol.info.aliased.map (Ty.rename f) := rfl
  rw [haliased]
  cases symbol.info.aliased with
  | none => exact .pure rfl
  | some aliased =>
    refine .bind (.isUnfolding id) fun busy => .ite Iff.rfl ?_ ?_
    · exact .reportIfLoud _ span loud
    · exact .withUnfolding id
        (.withScope symbol.scope (.askResolved aliased span loud))

theorem resolveNamed : Equivariant f Rule.resolveNamed := by
  intro name span loud
  have hanswers := Builtin.answers_type? name
  unfold Rule.resolveNamed
  split
  · next ty hbuiltin =>
      rw [hbuiltin] at hanswers
      obtain ⟨prim, rfl⟩ := hanswers ty rfl
      exact .pure rfl
  · exact .reportIfLoud _ span loud
  · refine .bindOption (.lookup name) ?_ fun id => .bind (.symbol id)
      fun symbol => ?_
    · exact .reportIfLoud _ span loud
    · refine .ite Iff.rfl (.unfoldAlias id name span loud)
        (.ite Iff.rfl (.pure rfl) ?_)
      exact .reportIfLoud _ span loud

mutual

theorem resolveTy : Equivariant f Rule.resolveTy := by
  intro span loud ty
  cases ty with
  | prim | errors | enum => exact .pure rfl
  | named name => exact .resolveNamed name span loud
  | paren inner => exact resolveTy span loud inner
  | pointer target mutable =>
    exact .bindOption (resolveTy span loud target) (.pure rfl)
      fun target => .pure rfl
  | optional inner =>
    exact .bindOption (resolveTy span loud inner) (.pure rfl)
      fun inner => .pure rfl
  | array element extent mutable =>
    refine .bindOption (resolveTy span loud element) (.pure rfl)
      fun element => ?_
    exact .bind (.resolveExtent extent) fun extent => .pure rfl
  | tuple fields =>
    refine .bindOption (resolveAll span loud fields) (.pure rfl)
      fun fields => ?_
    exact .pure (by simp [rename, Ty.rename])
  | union members =>
    refine .bindOption (resolveAll span loud members) (.pure rfl)
      fun members => ?_
    exact .pure (by simp [rename, Ty.rename])
  | function params result error =>
    refine .bindOption (resolveAll span loud params) (.pure rfl)
      fun params => ?_
    refine .bindOption (resolveTy span loud result) (.pure rfl) fun result => ?_
    refine .bindOption (resolveOpt span loud error) (.pure rfl) fun error => ?_
    exact .pure (by simp [rename, Ty.rename])
  | struct struct =>
    obtain ⟨name, members, scope⟩ := struct
    cases scope with
    | some scope => exact .pure rfl
    | none =>
      refine .bindOption (resolveMembers span loud members) (.pure rfl)
        fun members => ?_
      exact .pure (by simp [rename, Ty.rename, StructTy.rename])

theorem resolveAll (span : Span) (loud : Bool) (tys : List Ty) :
    Renamed f (Rule.resolveAll span loud tys)
      (Rule.resolveAll span loud (Ty.renameAll f tys)) := by
  cases tys with
  | nil => exact .pure rfl
  | cons ty rest =>
    refine .bindOption (resolveTy span loud ty) (.pure rfl) fun ty => ?_
    exact .bindOption (resolveAll span loud rest) (.pure rfl)
      fun rest => .pure rfl

theorem resolveOpt (span : Span) (loud : Bool) (ty : Option Ty) :
    Renamed f (Rule.resolveOpt span loud ty)
      (Rule.resolveOpt span loud (Ty.renameOpt f ty)) := by
  cases ty with
  | none => exact .pure rfl
  | some ty =>
    exact .bindOption (resolveTy span loud ty) (.pure rfl) fun ty => .pure rfl

theorem resolveMembers (span : Span) (loud : Bool) (members : List Member) :
    Renamed f (Rule.resolveMembers span loud members)
      (Rule.resolveMembers span loud (Member.renameAll f members)) := by
  cases members with
  | nil => exact .pure rfl
  | cons member rest =>
    obtain ⟨name, ty⟩ := member
    refine .bindOption (resolveTy span loud ty) (.pure rfl) fun ty => ?_
    exact .bindOption (resolveMembers span loud rest) (.pure rfl)
      fun rest => .pure rfl

end

theorem resolveType : Equivariant f Rule.resolveType := by
  intro ty span
  exact resolveTy span true ty

theorem tryResolve : Equivariant f Rule.tryResolve := by
  intro ty
  exact resolveTy .none false ty

theorem normalize : Equivariant f Rule.normalize := by
  intro ty
  exact .bindOption (.tryResolve ty) (.pure (Ty.stripParens_rename ty))
    fun _ => .pure rfl

theorem derefOnce : Equivariant f Rule.derefOnce := by
  intro ty
  refine .bind (.normalize ty) fun ty => ?_
  cases ty with
  | pointer target mutable => exact .normalize target
  | _ => exact .pure rfl

theorem inScope? {α : Type} [Renames α] {rule rule' : Rule α}
    (scope : Option ScopeId) (h : Renamed f rule rule') :
    Renamed f (Rule.inScope? scope rule) (Rule.inScope? scope rule') := by
  cases scope with
  | none => exact h
  | some scope => exact .withScope scope h

theorem resolveMember : Equivariant f Rule.resolveMember := by
  intro struct member
  simp only [rename, Rule.resolveMember, StructTy.rename_scope,
    Member.rename_ty]
  exact .inScope? struct.scope (.tryResolve member.ty)

theorem exprAsType : Equivariant f Rule.exprAsType := by
  intro expr
  simp only [rename, Rule.exprAsType, Expr.rename_unparen, Expr.rename_kind,
    Expr.rename_span]
  cases expr.unparen.kind with
  | type ty => exact .resolveType ty _
  | ident name =>
    have hnamed : ∀ denotesType : Bool, Renamed f
        (if denotesType =
          true then Rule.resolveType (.named name) expr.unparen.span
          else Pure.pure none)
        (if denotesType =
          true then Rule.resolveType (.named name) expr.unparen.span
          else Pure.pure none) :=
      fun _ => .ite Iff.rfl (.resolveType (.named name) _) (.pure rfl)
    refine .bindOption (.lookup name) ?_ fun id => .bind (.symbol id)
      fun symbol => ?_
    · dsimp only
      split <;> exact .bind (.pure rfl) fun denotesType => hnamed denotesType
    · exact .bind (.pure rfl) fun denotesType => hnamed denotesType
  | _ => exact .pure rfl

theorem layoutMember {opened opened' : Ty → Rule (Option Ty)}
    (struct : StructTy)
    (hopened : ∀ ty, Renamed f (opened ty) (opened' (ty.rename f)))
    (member : Member) :
    Renamed f (Rule.layoutMember opened struct member)
      (Rule.layoutMember opened' (struct.rename f) (member.rename f)) := by
  refine .bindOption (.resolveMember struct member) (.pure rfl) fun ty => ?_
  refine .bindOption (hopened ty) (.pure rfl) fun ty => .pure ?_
  rw [Member.rename_name]
  rfl

theorem layoutVariant {opened opened' : Ty → Rule (Option Ty)} (enum : EnumTy)
    (hopened : ∀ ty, Renamed f (opened ty) (opened' (ty.rename f)))
    (variant : Variant) :
    Renamed f (Rule.layoutVariant opened enum variant)
      (Rule.layoutVariant opened' (enum.rename f) (variant.rename f)) := by
  obtain ⟨name, payload⟩ := variant
  simp only [Rule.layoutVariant, EnumTy.rename_scope, Variant.rename,
    Ty.renameOpt_eq]
  cases payload with
  | none => exact .pure rfl
  | some payload =>
    refine .bindOption (.inScope? enum.scope (.tryResolve payload)) (.pure rfl)
      fun payload => ?_
    exact .bindOption (hopened payload) (.pure rfl) fun payload => .pure rfl

theorem layoutTy : Equivariant f Rule.layoutTy := by
  intro depth ty
  induction depth generalizing ty with
  | zero => exact .pure rfl
  | succ depth ih =>
    refine .bindOption (.tryResolve ty) (.pure rfl) fun resolved => ?_
    cases resolved with
    | struct struct =>
      refine .bindOption
        (.mapSome (.layoutMember struct ih) struct.rename_members) (.pure rfl)
        fun members => .pure ?_
      simp [rename, Ty.rename, StructTy.rename]
    | enum enum =>
      refine .bindOption
        (.mapSome (.layoutVariant enum ih) enum.rename_variants) (.pure rfl)
        fun variants => .pure ?_
      simp [rename, Ty.rename, EnumTy.rename]
    | array element extent mutable =>
      cases extent with
      | slice => exact .pure rfl
      | fixed | expr =>
        exact .bindOption (ih element) (.pure rfl) fun element => .pure rfl
    | tuple fields =>
      refine .bindOption (.mapSome ih (Ty.renameAll_eq fields)) (.pure rfl)
        fun fields => ?_
      exact .pure (by simp [rename, Ty.rename])
    | optional inner =>
      exact .bindOption (ih inner) (.pure rfl) fun inner => .pure rfl
    | union members =>
      refine .bindOption (.mapSome ih (Ty.renameAll_eq members)) (.pure rfl)
        fun members => ?_
      exact .pure (by simp [rename, Ty.rename])
    | prim | named | pointer | errors | function | paren => exact .pure rfl

theorem resolveLayout : Equivariant f Rule.resolveLayout := by
  intro ty
  exact .layoutTy Rule.layoutDepth ty

/-!
## Symbols
-/

theorem signatureType : Equivariant f Rule.signatureType := by
  intro info
  have hparams : (info.params.map (ParamInfo.rename f)).map (·.ty) =
      (info.params.map (·.ty)).map (rename f) := by
    simp only [rename, List.map_map]
    rfl
  have hresult :
      (info.result.map (Ty.rename f)).getD .void =
      (info.result.getD .void).rename f := by
    cases info.result <;> rfl
  refine .bindOption (.mapSome .tryResolve hparams) (.pure rfl) fun params => ?_
  simp only [rename, SymbolInfo.rename, hresult]
  refine .bindOption (.tryResolve _) (.pure rfl) fun result => ?_
  cases info.error with
  | none => exact .pure (by simp [rename, Ty.rename])
  | some error =>
    have htry := tryResolve (f := f) error.toTy
    simp only [rename, error.toTy_rename] at htry
    exact .bindOption htry (.pure rfl) fun error =>
      .pure (by simp [rename, Ty.rename])

theorem functionType : Equivariant f Rule.functionType := by
  intro id
  exact .typedOnce id fun symbol => .withScope symbol.innerScope
    (.signatureType symbol.info)

theorem declaredType : Equivariant f Rule.declaredType := by
  intro info
  simp only [rename, Rule.declaredType, SymbolInfo.rename]
  cases info.ascribed with
  | some ascribed => exact .tryResolve ascribed
  | none =>
    cases info.initializer with
    | some initializer => exact .inferExpecting initializer none
    | none => exact .pure rfl

theorem typeFromDeclaration : Equivariant f Rule.typeFromDeclaration := by
  intro symbol
  refine .bindOption (.withScope symbol.scope (.declaredType symbol.info))
    (.pure rfl) fun ty => ?_
  refine .pure (congrArg some ?_)
  show (if _ then (ty.rename f).concretize else ty.rename f) =
    Ty.rename f (if _ then _ else _)
  rw [Ty.concretize_rename, ← apply_ite (Ty.rename f)]
  rfl

theorem symbolType : Equivariant f Rule.symbolType := by
  intro id
  refine .bind (.symbol id) fun symbol => .ite Iff.rfl (.functionType id)
    (.ite Iff.rfl ?_ ?_)
  · refine .pure ?_
    obtain ⟨_, _, _, ty⟩ := symbol
    cases ty <;> rfl
  · refine .typedOnce id fun symbol => .bind (.isUnfolding id) fun busy => ?_
    exact .ite Iff.rfl (.pure rfl)
      (.withUnfolding id (.typeFromDeclaration symbol))

theorem valueOf : Equivariant f Rule.valueOf := by
  intro id symbol
  refine .ite Iff.rfl (.pure rfl) ?_
  obtain ⟨_, _, kind, _⟩ := symbol
  cases kind with
  | function => exact .functionType id
  | error | enumVariant => exact .pure rfl
  | _ => exact .symbolType id

theorem valueOfSymbol : Equivariant f Rule.valueOfSymbol := by
  intro id
  exact .bind (.markUsed id) fun _ => .bind (.symbol id) fun symbol =>
    .valueOf id symbol

theorem isInStatic : Renamed f Rule.isInStatic Rule.isInStatic := by
  refine .bind .frame? fun frame => .pure ?_
  cases frame <;> rfl

theorem isInstanceMember : Equivariant f Rule.isInstanceMember := by
  intro id
  refine .bindOption .frame? (.pure rfl) fun frame => ?_
  obtain ⟨_, _, _, _, _, _, _, _, owner⟩ := frame
  cases owner with
  | none => exact .pure rfl
  | some owner => exact .bind (.symbol id) fun symbol => .pure rfl

theorem misusesInstance : Equivariant f Rule.misusesInstance := by
  intro id
  exact .bind .isInStatic fun _ => .bind (.isInstanceMember id)
    fun _ => .pure rfl

theorem inferUndeclared : Equivariant f Rule.inferUndeclared := by
  intro _ span
  refine .bind .isInStatic fun isStatic => ?_
  refine .ite Iff.rfl (.andThen (.report span rfl) .noAnswer) ?_
  split
  · exact .pure rfl
  · exact .andThen (.report span rfl) .noAnswer
  · exact .andThen (.report span rfl) .noAnswer

theorem inferIdent : Equivariant f Rule.inferIdent := by
  intro name span
  refine .bindOption (.lookup name) (.inferUndeclared name span) fun id => ?_
  refine .bind (.misusesInstance id) fun misuse => .ite Iff.rfl ?_ ?_
  · exact .andThen (.report span rfl) .noAnswer
  · refine .bind (.symbol id) fun symbol => .ite Iff.rfl ?_ (.valueOfSymbol id)
    exact .andThen (.markUsed id) (.andThen (.report span rfl) .noAnswer)

/-!
## Compatibility
-/

theorem membersCompatible : Equivariant f Rule.membersCompatible := by
  intro target source members
  induction members with
  | nil => exact .pure rfl
  | cons member rest ih =>
    simp only [rename, List.map_cons, Rule.membersCompatible,
      Member.rename_name, StructTy.member?_rename]
    cases source.member? member.name with
    | none => exact .pure rfl
    | some provided =>
      refine .bind (.resolveMember target member) fun expected? => ?_
      refine .bind (.resolveMember source provided) fun received? => ?_
      cases expected? with
      | none => exact .pure rfl
      | some expected =>
        cases received? with
        | none => exact .pure rfl
        | some received =>
          refine .bind (.askCompatible expected received) fun agree => ?_
          exact .ite Iff.rfl ih (.pure rfl)

theorem structCompatible : Equivariant f Rule.structCompatible := by
  intro target source
  simp only [rename, Rule.structCompatible, StructTy.rename_scope,
    StructTy.isAnonymous_rename, StructTy.rename_name, StructTy.rename_members,
    List.length_map]
  refine .ite Iff.rfl (.pure rfl)
    (.ite Iff.rfl (.pure rfl) (.ite Iff.rfl (.pure rfl) ?_))
  exact .membersCompatible target source target.members

theorem pointeeCompatible : Equivariant f Rule.pointeeCompatible := by
  intro target source
  refine .bind (.normalize target) fun target => .bind (.normalize source)
    fun source => ?_
  simp only [rename, Ty.same_rename f.injective]
  refine .ite Iff.rfl (.pure rfl) ?_
  cases target with
  | optional inner => exact .pure (Ty.same_rename f.injective inner source)
  | _ => exact .pure rfl

theorem compatible : Equivariant f Rule.compatible := by
  intro target source
  unfold Rule.compatible
  simp only [rename, Ty.same_rename f.injective, Ty.isNoreturn_rename,
    Ty.isPrim_rename]
  refine .ite Iff.rfl (.pure rfl) (.ite Iff.rfl (.pure rfl) ?_)
  have hany : ∀ targets : List Ty, Renamed f
      (Rule.anyOf (fun target => Rule.askCompatible target source) targets)
      (Rule.anyOf (fun target => Rule.askCompatible target (source.rename f))
        (Ty.renameAll f targets)) :=
    fun targets => .anyOf (fun target => .askCompatible target source)
      (Ty.renameAll_eq targets)
  have hall : ∀ sources : List Ty, Renamed f
      (Rule.allOf (fun source => Rule.askCompatible target source) sources)
      (Rule.allOf (fun source => Rule.askCompatible (target.rename f) source)
        (Ty.renameAll f sources)) :=
    fun sources => .allOf (fun source => .askCompatible target source)
      (Ty.renameAll_eq sources)
  cases target with
  | prim prim =>
    cases prim with
    | any => exact .pure rfl
    | _ =>
      cases source with
      | union sources => exact hall sources
      | _ => exact .pure rfl
  | union targets =>
    cases source with
    | union sources =>
      refine .allOf (fun source => ?_) (Ty.renameAll_eq sources)
      exact .anyOf (fun target => .askCompatible target source)
        (Ty.renameAll_eq targets)
    | optional inner =>
      refine .ite ?_ (.anyOf (fun target => .askCompatible target inner)
        (Ty.renameAll_eq targets)) (.pure rfl)
      simp
    | _ => exact hany targets
  | optional inner =>
    cases source with
    | union sources => exact hall sources
    | prim prim =>
      cases prim with
      | null => exact .pure rfl
      | _ => exact .askCompatible inner _
    | optional => exact .pure rfl
    | _ => exact .askCompatible inner _
  | array element extent mutable =>
    cases source with
    | union sources => exact hall sources
    | array other otherExtent otherMutable =>
      refine .ite ?_ (.pure rfl)
        (.ite ?_ (.askCompatible element other) (.pure rfl))
      · rw [Ty.isAny_rename]
      · rw [Ty.lengthsAgree_rename]
    | _ => exact .pure rfl
  | pointer pointee mutable =>
    cases source with
    | union sources => exact hall sources
    | prim prim => cases prim <;> exact .pure rfl
    | pointer other otherMutable =>
      exact .ite Iff.rfl (.pure rfl) (.pointeeCompatible pointee other)
    | _ => exact .pure rfl
  | tuple targets =>
    cases source with
    | union sources => exact hall sources
    | tuple sources =>
      refine .ite ?_ (.allOf (fun pair => .askCompatible pair.1 pair.2) ?_)
        (.pure rfl)
      · simp
      · simp only [rename, Ty.renameAll_eq, List.zip_map]
        rfl
    | _ => exact .pure rfl
  | struct target =>
    cases source with
    | union sources => exact hall sources
    | struct source => exact .structCompatible target source
    | _ => exact .pure rfl
  | named | enum | errors | function | paren =>
    cases source with
    | union sources => exact hall sources
    | _ => exact .pure rfl

theorem isCompatible : Equivariant f Rule.isCompatible := by
  intro target source expr
  refine .bind (.normalize target) fun target => .bind (.normalize source)
    fun source => ?_
  refine .ite ?_ (.pure ?_) (.compatible target source)
  · cases expr <;> simp [rename]
  · simp [rename, Ty.same_rename f.injective]

theorem canCast : Equivariant f Rule.canCast := by
  intro target source
  refine .bind (.isCompatible target source none) fun agree =>
    .ite Iff.rfl (.pure rfl) ?_
  refine .bind (.normalize target) fun target => .bind (.normalize source)
    fun source => ?_
  simp only [rename, Ty.isAny_rename, Ty.isBool_rename, Ty.isInteger_rename,
    Ty.isNumeric_rename]
  refine .ite Iff.rfl (.pure rfl)
    (.ite Iff.rfl (.pure rfl) (.ite Iff.rfl (.pure rfl) ?_))
  cases target with
  | enum => exact .pure (Ty.isInteger_rename source)
  | pointer pointee mutable =>
    cases source with
    | enum | pointer => exact .pure rfl
    | _ => exact .pure (Ty.isInteger_rename _)
  | optional inner =>
    cases source with
    | enum | pointer => exact .pure rfl
    | _ => exact .askCastable inner _
  | _ =>
    cases source with
    | enum | pointer => exact .pure (Ty.isInteger_rename _)
    | _ => exact .pure rfl

/-!
## Flow
-/

theorem checkRange : Equivariant f Rule.checkRange := by
  intro target source span
  simp only [rename, Rule.checkRange, Ty.knownInt?_rename, Ty.text_rename]
  cases source.knownInt? with
  | none => exact .pure rfl
  | some value =>
    refine .bind (.normalize target) fun resolved => ?_
    cases resolved with
    | prim prim =>
      cases prim with
      | int signed bits => exact .ite Iff.rfl (.report span rfl) (.pure rfl)
      | _ => exact .pure rfl
    | _ => exact .pure rfl

theorem checkFlow : Equivariant f Rule.checkFlow := by
  intro target source value span
  simp only [rename, Rule.checkFlow, Ty.text_rename, Expr.rename_span]
  refine .bind (.isCompatible target source (some value)) fun agree =>
    .ite Iff.rfl ?_ ?_
  · exact .bind (.checkRange target source value.span) fun _ => .pure rfl
  · exact .bind (.reportMismatch span rfl rfl) fun _ => .pure rfl

theorem checkPassed : Equivariant f Rule.checkPassed := by
  intro target value
  refine .bindOption (.inferExpecting value (some target)) (.pure rfl)
    fun source => ?_
  simp only [rename, Expr.rename_span]
  exact .discard (.checkFlow target source value value.span)

theorem checkInitializer : Equivariant f Rule.checkInitializer := by
  intro target value
  refine .bind (.normalize target) fun resolved => ?_
  simp only [rename, Expr.rename_unparen, Expr.rename_kind, Expr.rename_span]
  have hpassed := checkPassed (f := f) target value
  cases value.unparen.kind with
  | literal literal =>
    cases literal with
    | array elements =>
      cases resolved with
      | array element extent mutable =>
        have hrest : Renamed f (Rule.forEach (Rule.askValue element) elements)
            (Rule.forEach (Rule.askValue (element.rename f))
              (Expr.renameAll f elements)) :=
          .forEach (fun other => .askValue element other)
            (Expr.renameAll_eq elements)
        cases extent with
        | fixed length =>
          have hlength : (Expr.renameAll f elements).length =
              elements.length := by simp
          refine .ite ?_ (.bind (.report _ ?_) fun _ => .pure rfl) hrest
          · rw [hlength]
          · rw [hlength]
        | slice | expr => exact hrest
      | _ => exact hpassed
    | char text =>
      cases resolved with
      | prim prim =>
        cases prim with
        | int signed bits =>
          cases signed with
          | true => exact hpassed
          | false =>
            simp only [ExprKind.rename, Literal.rename, Ty.rename]
            cases CharLiteral.code? text with
            | none => exact .pure rfl
            | some code => exact .ite Iff.rfl (.report _ rfl) (.pure rfl)
        | _ => exact hpassed
      | _ => exact hpassed
    | _ => exact hpassed
  | _ => exact hpassed

end Renamed
end StaticCheck
