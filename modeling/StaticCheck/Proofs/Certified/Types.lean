import StaticCheck.Proofs.Certificate

/-!
# Rules on types

The rules that resolve types, type symbols and compare types are composed of
certified steps.
-/

namespace StaticCheck

open Rule

theorem arity_of_signatureType {info : SymbolInfo} {judge : Judge}
    {s t : Session} {ty : Ty}
    (h : signatureType info judge s = (some ty, t)) :
    ty.arity? = some info.params.length := by
  obtain ⟨params, _, hparams, h⟩ := exists_of_bind (fun _ => rfl) h
  obtain ⟨result, _, -, h⟩ := exists_of_bind (fun _ => rfl) h
  have hlength : params.length = info.params.length := by
    rw [length_of_mapSome hparams, List.length_map]
  cases herror : info.error.map ErrorClause.toTy with
  | none =>
    rw [herror] at h
    cases h
    exact congrArg some hlength
  | some error =>
    rw [herror] at h
    obtain ⟨resolved, _, -, h⟩ := exists_of_bind (fun _ => rfl) h
    cases h
    exact congrArg some hlength

namespace Attested

variable {R : Standard} {place : R.Place} {α : Type} [Found α]
variable {id : SymbolId} {name : String} {span : Span} {loud : Bool}
    {ty target source : Ty}

/-!
## Resolution
-/

theorem constInt {expr : Expr} (hexpr : expr.Suits R place) :
    Attested R place (Rule.constInt expr) := by
  unfold Rule.constInt
  refine .bind .evaluator fun evaluator _ => ?_
  split
  · exact .answer _
  · refine .bind (.askType hexpr) fun ty _ => ?_
    split
    · exact .answer _
    · exact .answer none

theorem resolveExtent {extent : Extent} (hextent : Meets R extent) :
    Attested R place (Rule.resolveExtent extent) := by
  have hfits : Fits R extent := ⟨hextent, fun _ => trivial⟩
  cases extent with
  | slice | fixed => exact .pure hfits
  | expr length =>
    refine .bindOption (.constInt (hextent place)) (.pure hfits) fun n _ => ?_
    exact .ite (.pure (Extent.fits_fixed _)) (.pure hfits)

theorem unfoldAlias :
    Attested R place (Rule.unfoldAlias id name span loud) := by
  refine .typedOnce (fun symbol hsymbol => ?_) fun symbol pledge hpledge => ?_
  · cases haliased : symbol.info.aliased with
    | none => exact .noAnswer
    | some aliased =>
      refine .bind .isUnfolding fun busy _ => .ite ?_ ?_
      · exact .ite (.andThen (.report rfl) .noAnswer) .noAnswer
      · exact .withUnfolding
          (.withScope (.askResolved (hsymbol.1.aliased aliased haliased)))
  · rw [(Symbol.pledge?_cases hpledge).1]
    exact .none

theorem resolveNamed :
    Attested R place (Rule.resolveNamed name span loud) := by
  have hanswers := Builtin.answers_type? name
  unfold Rule.resolveNamed
  split
  · next ty hbuiltin =>
      rw [hbuiltin] at hanswers
      obtain ⟨prim, rfl⟩ := hanswers ty rfl
      exact .pure (by simp)
  · next problem hbuiltin =>
      rw [hbuiltin] at hanswers
      cases hanswers
      exact .ite (.andThen (.report rfl) .noAnswer) .noAnswer
  · refine .bindOption .lookup ?_ fun id _ =>
      .bind .symbol fun symbol hsymbol => ?_
    · exact .ite (.andThen (.report rfl) .noAnswer) .noAnswer
    · refine .ite .unfoldAlias (.ite (.pure (fits_symbol hsymbol)) ?_)
      exact .ite (.andThen (.report rfl) .noAnswer) .noAnswer

mutual

theorem resolveTy (ty : Ty) (hty : Meets R ty) :
    Attested R place (Rule.resolveTy span loud ty) := by
  cases ty with
  | prim | errors | enum => exact .pure (fits_some.mpr ⟨hty, fun _ => rfl⟩)
  | named name => exact .resolveNamed
  | paren inner =>
    rw [Ty.meets_paren] at hty
    exact resolveTy inner hty
  | pointer target mutable =>
    rw [Ty.meets_pointer] at hty
    refine .bindOption (resolveTy target hty) .noAnswer fun target htarget => ?_
    exact .pure (by simpa using htarget)
  | optional inner =>
    rw [Ty.meets_optional] at hty
    refine .bindOption (resolveTy inner hty) .noAnswer fun inner hinner => ?_
    exact .pure (by simpa using hinner)
  | array element extent mutable =>
    rw [Ty.meets_array] at hty
    refine .bindOption (resolveTy element hty.1) .noAnswer
      fun element helement => ?_
    refine .bind (.resolveExtent hty.2) fun extent hextent => ?_
    exact .pure (by simp [helement, hextent])
  | tuple fields =>
    rw [Ty.meets_tuple] at hty
    refine .bindOption (resolveAll fields hty) .noAnswer
      fun fields hfields => ?_
    exact .pure (by simpa using hfields)
  | union members =>
    rw [Ty.meets_union] at hty
    refine .bindOption (resolveAll members hty) .noAnswer
      fun members hmembers => ?_
    exact .pure (by simpa using hmembers)
  | function params result error =>
    rw [Ty.meets_function] at hty
    refine .bindOption (resolveAll params hty.1) .noAnswer
      fun params hparams => ?_
    refine .bindOption (resolveTy result hty.2.1) .noAnswer
      fun result hresult => ?_
    refine .bindOption (resolveOpt error hty.2.2) .noAnswer
      fun error herror => ?_
    exact .pure (by simp [hparams, hresult, herror])
  | struct struct =>
    obtain ⟨name, members, scope⟩ := struct
    cases scope with
    | some scope => exact .pure (fits_some.mpr ⟨hty, fun _ => rfl⟩)
    | none =>
      rw [Ty.meets_struct] at hty
      refine .bindOption (resolveMembers members hty) .noAnswer
        fun members hmembers => ?_
      exact .pure (fits_some.mpr (Ty.fits_struct hmembers))

theorem resolveAll (tys : List Ty) (htys : Meets R tys) :
    Attested R place (Rule.resolveAll span loud tys) := by
  cases tys with
  | nil => exact .pure (by simp)
  | cons ty rest =>
    rw [meets_cons] at htys
    refine .bindOption (resolveTy ty htys.1) .noAnswer fun ty hty => ?_
    refine .bindOption (resolveAll rest htys.2) .noAnswer fun rest hrest => ?_
    exact .pure (by simp [hty, hrest])

theorem resolveOpt (ty : Option Ty) (hty : Meets R ty) :
    Attested R place (Rule.resolveOpt span loud ty) := by
  cases ty with
  | none => exact .pure (by simp)
  | some ty =>
    rw [meets_some] at hty
    refine .bindOption (resolveTy ty hty) .noAnswer fun ty hty => ?_
    exact .pure (by simpa using hty)

theorem resolveMembers (members : List Member) (hmembers : Meets R members) :
    Attested R place (Rule.resolveMembers span loud members) := by
  cases members with
  | nil => exact .pure (by simp)
  | cons member rest =>
    rw [meets_cons] at hmembers
    obtain ⟨name, ty⟩ := member
    refine .bindOption (resolveTy ty hmembers.1) .noAnswer fun ty hty => ?_
    refine .bindOption (resolveMembers rest hmembers.2) .noAnswer
      fun rest hrest => ?_
    exact .pure (fits_some.mpr (fits_cons.mpr ⟨hty, hrest⟩))

end

theorem resolveType (hty : Meets R ty) :
    Attested R place (Rule.resolveType ty span) :=
  resolveTy ty hty

theorem tryResolve (hty : Meets R ty) :
    Attested R place (Rule.tryResolve ty) :=
  resolveTy ty hty

theorem normalize (hty : Fits R ty) :
    Attested R place (Rule.normalize ty) := by
  exact .bindOption (.tryResolve hty.1) (.pure (Ty.fits_stripParens hty))
    fun _ hresolved =>
    .pure hresolved

theorem derefOnce (hty : Fits R ty) :
    Attested R place (Rule.derefOnce ty) := by
  refine .bind (.normalize hty) fun ty hty => ?_
  split
  · exact .normalize (Ty.fits_pointer.mp hty)
  · exact .pure hty

theorem resolveMember {struct : StructTy} {member : Member}
    (hmember : Meets R member) :
    Attested R place (Rule.resolveMember struct member) := by
  exact .inScope? fun _ => .tryResolve hmember

theorem exprAsType {expr : Expr} (hexpr : expr.Suits R place) :
    Attested R place (Rule.exprAsType expr) := by
  unfold Rule.exprAsType
  dsimp only
  split
  · next ty hkind =>
      have hty := hexpr.unparen.kind
      rw [hkind] at hty
      exact .resolveType hty
  · next name _ =>
      have hnamed : ∀ denotesType : Bool, Attested R place
          (if denotesType =
            true then Rule.resolveType (.named name) expr.unparen.span
            else Pure.pure none) :=
        fun _ => .ite (.resolveType (Ty.meets_named name)) .noAnswer
      refine .bindOption .lookup ?_ fun id _ => ?_
      · dsimp only
        split <;> exact .bind (.answer _) fun denotesType _ =>
          hnamed denotesType
      · refine .bind .symbol fun symbol _ => ?_
        exact .bind (.answer _) fun denotesType _ => hnamed denotesType
  · exact .noAnswer

theorem layoutMember {opened : Ty → Rule (Option Ty)} {struct : StructTy}
    {member : Member}
    (hopened : ∀ ty, Meets R ty → Attested R place (opened ty))
    (hmember : Meets R member) :
    Attested R place (Rule.layoutMember opened struct member) := by
  refine .bindOption (.resolveMember hmember) .noAnswer fun ty hty => ?_
  exact .bindOption (hopened ty hty.1) .noAnswer fun ty hty =>
    .pure (fits_some.mpr hty)

theorem layoutVariant {opened : Ty → Rule (Option Ty)} {enum : EnumTy}
    {variant : Variant}
    (hopened : ∀ ty, Meets R ty → Attested R place (opened ty))
    (hvariant : Meets R variant) :
    Attested R place (Rule.layoutVariant opened enum variant) := by
  unfold Rule.layoutVariant
  split
  · next payload hpayload =>
      have hmeets : Meets R payload := hvariant payload hpayload
      refine .bindOption (.inScope? fun _ => .tryResolve hmeets) .noAnswer ?_
      intro payload hpayload
      refine .bindOption (hopened payload hpayload.1) .noAnswer
        fun payload hpayload => ?_
      exact .pure
        (fits_some.mpr ⟨fun _ h => Option.some.inj h ▸ hpayload.1,
          fun _ => trivial⟩)
  · exact .pure (fits_some.mpr ⟨hvariant, fun _ => trivial⟩)

theorem layoutTy (depth : Nat) (hty : Meets R ty) :
    Attested R place (Rule.layoutTy depth ty) := by
  induction depth generalizing ty with
  | zero => exact .noAnswer
  | succ depth ih =>
    refine .bindOption (.tryResolve hty) .noAnswer fun resolved hresolved => ?_
    dsimp only
    split
    · next struct =>
        have hwritten := (Ty.meets_struct _).mp hresolved.1
        have hmembers : Attested R place
            (Rule.mapSome (Rule.layoutMember (Rule.layoutTy depth) struct)
              struct.members) :=
          .mapSome fun member hmember => .layoutMember (fun _ => ih)
            (hwritten member hmember)
        refine .bindOption hmembers .noAnswer fun members hmembers => ?_
        exact .pure (fits_some.mpr (Ty.fits_struct hmembers))
    · next enum =>
        rw [Ty.fits_enum] at hresolved
        have hvariants : Attested R place
            (Rule.mapSome (Rule.layoutVariant (Rule.layoutTy depth) enum)
              enum.variants) :=
          .mapSome fun variant hvariant =>
            .layoutVariant (fun _ => ih) (hresolved variant hvariant)
        refine .bindOption hvariants .noAnswer fun variants hvariants => ?_
        exact .pure (fits_some.mpr (Ty.fits_enum.mpr hvariants.1))
    · exact .pure (fits_some.mpr hresolved)
    · rw [Ty.fits_array] at hresolved
      refine .bindOption (ih hresolved.1.1) .noAnswer fun element helement => ?_
      exact .pure (by simp [helement, hresolved.2])
    · rw [Ty.fits_tuple] at hresolved
      refine .bindOption (.mapSome fun ty hty => ih (hresolved.1 ty hty))
        .noAnswer ?_
      exact fun fields hfields => .pure (by simpa using hfields)
    · rw [Ty.fits_optional] at hresolved
      refine .bindOption (ih hresolved.1) .noAnswer fun inner hinner => ?_
      exact .pure (by simpa using hinner)
    · rw [Ty.fits_union] at hresolved
      refine .bindOption (.mapSome fun ty hty => ih (hresolved.1 ty hty))
        .noAnswer ?_
      exact fun members hmembers => .pure (by simpa using hmembers)
    · exact .pure (fits_some.mpr hresolved)

theorem resolveLayout (hty : Meets R ty) :
    Attested R place (Rule.resolveLayout ty) :=
  .layoutTy layoutDepth hty

/-!
## Symbols
-/

theorem signatureType {info : SymbolInfo} (hparams : Meets R info.params)
    (hresult : Meets R info.result) :
    Attested R place (Rule.signatureType info) := by
  have htypes :
      Attested R place
      (Rule.mapSome Rule.tryResolve (info.params.map (·.ty))) := by
    refine .mapSome fun ty hty => ?_
    obtain ⟨param, hparam, rfl⟩ := List.mem_map.mp hty
    exact .tryResolve (hparams param hparam)
  have hvoid : Meets R (info.result.getD .void) := by
    cases hknown : info.result with
    | none => exact Ty.meets_prim _
    | some ty => exact hresult ty hknown
  refine .bindOption htypes .noAnswer fun params hparams => ?_
  refine .bindOption (.tryResolve hvoid) .noAnswer fun result hresult => ?_
  dsimp only
  split
  · next error herror =>
      obtain ⟨clause, -, rfl⟩ := Option.map_eq_some_iff.mp herror
      refine .bindOption (.tryResolve clause.meets_toTy) .noAnswer
        fun error herror => ?_
      exact .pure (by simp [hparams, hresult, herror])
  · exact .pure (by simp [hparams, hresult])

theorem honours_signatureType {symbol : Symbol} {pledge : Pledge}
    (h : symbol.pledge? = some pledge) :
    Honours pledge (Rule.signatureType symbol.info) := by
  intro judge s ty hty
  have harity := arity_of_signatureType (Prod.ext hty rfl)
  rcases (Symbol.pledge?_cases h).2.2 with ⟨-, -, rfl⟩ | ⟨-, -, rfl⟩
  · obtain ⟨params, result, error, rfl, -⟩ := Ty.exists_function_of_arity harity
    exact Ty.sized_function params result error
  · exact harity

theorem functionType : Attested R place (Rule.functionType id) := by
  refine .typedOnce (fun symbol hsymbol => ?_) fun symbol pledge hpledge => ?_
  · exact .withScope (.signatureType hsymbol.1.params hsymbol.1.result)
  · exact .withScope (honours_signatureType hpledge)

theorem declaredType {symbol : Symbol} (hsymbol : Fits R symbol) :
    Attested R (R.enter symbol.scope place)
      (Rule.declaredType symbol.info) := by
  unfold Rule.declaredType
  split
  · next _ ascribed heq => exact .tryResolve (hsymbol.1.ascribed ascribed heq)
  · next initializer _ heq =>
      exact .inferExpecting (hsymbol.1.initializer initializer heq place)
        fits_none
  · exact .noAnswer

theorem typeFromDeclaration {symbol : Symbol} (hsymbol : Fits R symbol) :
    Attested R place (Rule.typeFromDeclaration symbol) := by
  refine .bindOption (.withScope (.declaredType hsymbol)) .noAnswer
    fun ty hty => ?_
  refine .pure (fits_some.mpr ?_)
  split
  · exact Ty.fits_concretize hty
  · exact hty

theorem honours_typeFromDeclaration {symbol : Symbol} {pledge : Pledge}
    (h : symbol.pledge? = some pledge) :
    Honours pledge (Rule.typeFromDeclaration symbol) := by
  obtain ⟨-, hplain, ⟨hkind, hmutable, rfl⟩ | ⟨-, hbare, rfl⟩⟩ :=
    Symbol.pledge?_cases h
  · refine .bind fun found => ?_
    cases found with
    | none => exact .none
    | some found =>
      rw [hkind, hmutable]
      exact .pure found.sized_concretize
  · -- nothing is written that could give the function another type
    have hnothing : Rule.declaredType symbol.info = Pure.pure none := by
      rw [Rule.declaredType, hplain, hbare]
    unfold Rule.typeFromDeclaration
    rw [hnothing]
    intro judge s ty hty
    cases hty

theorem symbolType : Attested R place (Rule.symbolType id) := by
  refine .bind .symbol fun symbol hsymbol => .ite .functionType ?_
  refine .ite (.pure (fits_some.mpr ?_))
    (.typedOnce (fun symbol hsymbol => ?_) fun symbol pledge hpledge =>
      .bind fun busy => ?_)
  · cases hty : symbol.ty with
    | none => exact Ty.fits_prim _
    | some ty => exact fits_option.mp (fits_symbol hsymbol) ty hty
  · refine .bind .isUnfolding fun busy _ => .ite .noAnswer ?_
    exact .withUnfolding (.typeFromDeclaration hsymbol)
  · split
    · exact .none
    · exact .withUnfolding (honours_typeFromDeclaration hpledge)

theorem valueOf {symbol : Symbol} (hsymbol : Fits R symbol) :
    Attested R place (Rule.valueOf id symbol) := by
  refine .ite (.pure (by simp)) ?_
  split
  · exact .functionType
  · exact .pure (fits_symbol hsymbol)
  · exact .pure (fits_symbol hsymbol)
  · exact .symbolType

theorem valueOfSymbol : Attested R place (Rule.valueOfSymbol id) := by
  exact .andThen .markUsed (.bind .symbol fun _ hsymbol => .valueOf hsymbol)

theorem inferUndeclared :
    Attested R place (Rule.inferUndeclared name span) := by
  have hanswers := Builtin.answers_type? name
  refine .bind .isInStatic fun isStatic _ =>
    .ite (.andThen (.report rfl) .noAnswer) ?_
  split
  · exact .pure (by simp)
  · exact .andThen (.report rfl) .noAnswer
  · next problem hbuiltin =>
      rw [hbuiltin] at hanswers
      cases hanswers
      exact .andThen (.report rfl) .noAnswer

theorem inferIdent :
    Attested R place (Rule.inferIdent name span) := by
  refine .bindOption .lookup .inferUndeclared fun id _ => ?_
  refine .bind .misusesInstance fun misuse _ =>
    .ite (.andThen (.report rfl) .noAnswer) ?_
  refine .bind .symbol fun symbol _ => .ite ?_ .valueOfSymbol
  exact .andThen .markUsed (.andThen (.report rfl) .noAnswer)

/-!
## Compatibility
-/

theorem membersCompatible {target source : StructTy} {members : List Member}
    (hmembers : Meets R members) (hsource : Meets R source) :
    Attested R place (Rule.membersCompatible target source members) := by
  induction members with
  | nil => exact .answer true
  | cons member rest ih =>
    rw [meets_cons] at hmembers
    unfold Rule.membersCompatible
    split
    · next provided hprovided =>
        have hmeets := source.meets_of_member? hsource hprovided
        refine .bind (.resolveMember hmembers.1) fun expected? hexpected => ?_
        refine .bind (.resolveMember hmeets) fun received? hreceived => ?_
        split
        · split
          · next expected received =>
              rw [fits_some] at hexpected hreceived
              refine .bind (.askCompatible hexpected hreceived)
                fun agree _ => ?_
              exact .ite (ih hmembers.2) (.answer false)
          · exact .answer false
        · exact .answer false
    · exact .answer false

theorem structCompatible {target source : StructTy} (htarget : Meets R target)
    (hsource : Meets R source) :
    Attested R place (Rule.structCompatible target source) := by
  refine .ite (.answer true) (.ite (.answer _) ?_)
  exact .ite (.answer false) (.membersCompatible htarget hsource)

theorem pointeeCompatible (htarget : Fits R target) (hsource : Fits R source) :
    Attested R place (Rule.pointeeCompatible target source) := by
  refine .bind (.normalize htarget) fun target _ => .bind (.normalize hsource)
    fun source _ => ?_
  refine .ite (.answer true) ?_
  split <;> exact .answer _

theorem compatible {target source : Ty} (htarget : Fits R target)
    (hsource : Fits R source) :
    Attested R place (Rule.compatible target source) := by
  refine .ite (.answer true) (.ite (.answer true) ?_)
  split
  -- What is left are the pairs of types whose parts are compared.
  all_goals try exact .answer _
  · rw [Ty.fits_union, fits_list] at htarget hsource
    refine .allOf fun source hmem => .anyOf fun target hmem' => ?_
    exact .askCompatible (htarget target hmem') (hsource source hmem)
  · rw [Ty.fits_union, fits_list] at htarget
    rw [Ty.fits_optional] at hsource
    refine .ite (.anyOf fun target hmem => ?_) (.answer false)
    exact .askCompatible (htarget target hmem) hsource
  · rw [Ty.fits_union, fits_list] at htarget
    exact .anyOf fun target hmem => .askCompatible (htarget target hmem) hsource
  · rw [Ty.fits_union, fits_list] at hsource
    exact .allOf fun source hmem => .askCompatible htarget (hsource source hmem)
  · rw [Ty.fits_optional] at htarget
    exact .askCompatible htarget hsource
  · rw [Ty.fits_array] at htarget hsource
    refine .ite (.answer true) (.ite ?_ (.answer false))
    exact .askCompatible htarget.1 hsource.1
  · rw [Ty.fits_pointer] at htarget hsource
    exact .ite (.answer false) (.pointeeCompatible htarget hsource)
  · rw [Ty.fits_tuple, fits_list] at htarget hsource
    refine .ite (.allOf fun pair hmem => ?_) (.answer false)
    have hpair := List.of_mem_zip hmem
    exact .askCompatible (htarget pair.1 hpair.1) (hsource pair.2 hpair.2)
  · exact .structCompatible ((Ty.meets_struct _).mp htarget.1)
      ((Ty.meets_struct _).mp hsource.1)

theorem isCompatible {expr : Option Expr} (htarget : Fits R target)
    (hsource : Fits R source) :
    Attested R place (Rule.isCompatible target source expr) := by
  refine .bind (.normalize htarget) fun target htarget => ?_
  refine .bind (.normalize hsource) fun source hsource => ?_
  exact .ite (.answer _) (.compatible htarget hsource)

theorem canCast (htarget : Fits R target) (hsource : Fits R source) :
    Attested R place (Rule.canCast target source) := by
  refine .bind (.isCompatible htarget hsource) fun agree _ =>
    .ite (.answer true) ?_
  refine .bind (.normalize htarget) fun target htarget => ?_
  refine .bind (.normalize hsource) fun source hsource => ?_
  refine .ite (.answer true) (.ite (.answer _) ?_)
  refine .ite (.answer true) ?_
  split
  all_goals try exact .answer _
  exact .askCastable (Ty.fits_optional.mp htarget) hsource

/-!
## Flow
-/

theorem checkRange (htarget : Fits R target) :
    Attested R place (Rule.checkRange target source span) := by
  unfold Rule.checkRange
  split
  · refine .bind (.normalize htarget) fun target _ => ?_
    split
    · exact .ite (.report rfl) (.answer ())
    · exact .answer ()
  · exact .answer ()

theorem checkFlow {value : Expr} (htarget : Fits R target)
    (hsource : Fits R source) :
    Attested R place (Rule.checkFlow target source value span) := by
  refine .bind (.isCompatible htarget hsource) fun agree _ => .ite ?_ ?_
  · exact .andThen (.checkRange htarget) (.answer true)
  · exact .andThen .reportMismatch (.answer false)

theorem checkPassed {value : Expr} (htarget : Fits R target)
    (hvalue : value.Suits R place) :
    Attested R place (Rule.checkPassed target value) := by
  refine .bindOption (.inferExpecting hvalue (fits_some.mpr htarget))
    (.answer ()) ?_
  exact fun source hsource => .discard (.checkFlow htarget hsource)

theorem checkInitializer {value : Expr} (htarget : Fits R target)
    (hvalue : value.Suits R place) :
    Attested R place (Rule.checkInitializer target value) := by
  refine .bind (.normalize htarget) fun resolved hresolved => ?_
  split
  · next elements element extent mutable hkind =>
      have helements := hvalue.unparen.kind
      rw [hkind, ExprKind.Suits, Literal.Suits,
        Expr.suitAll_iff_forall] at helements
      rw [Ty.fits_array] at hresolved
      have hrest :
          Attested R place (Rule.forEach (Rule.askValue element) elements) :=
        .forEach fun other hmem => .askValue hresolved.1 (helements other hmem)
      dsimp only
      split
      · exact .ite (.andThen (.report rfl) (.answer ())) hrest
      · exact hrest
  · split
    · exact .ite (.report rfl) (.answer ())
    · exact .answer ()
  · exact .checkPassed htarget hvalue

end Attested
end StaticCheck
