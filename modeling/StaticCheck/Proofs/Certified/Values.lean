import StaticCheck.Proofs.Certified.Types

/-!
# Rules on values

The rules that infer literals, operators, assignments, calls, members and object
literals are composed of certified steps.
-/

namespace StaticCheck
namespace Attested

open Rule

variable {R : Standard} {place : R.Place}
variable {span : Span} {ty : Ty} {expr operand base callee : Expr}
    {name : String} {args : List Expr}

/-!
## Literals and tuples
-/

theorem inferChar {text : String} : Attested R place (Rule.inferChar text) := by
  unfold Rule.inferChar
  split
  · refine .pure ?_
    split <;> exact Ty.fits_prim _
  · refine .bindOption .expected? (.pure (Ty.fits_prim _))
      fun expected hexpected => .pure ?_
    split
    · exact hexpected
    · exact Ty.fits_prim _

theorem fits_expectedElement? {expected : Option Ty}
    (hexpected : Fits R expected) : Fits R (expectedElement? expected) := by
  unfold expectedElement?
  split
  · simp only [fits_some, Ty.fits_array] at hexpected ⊢
    exact hexpected.1
  · exact fits_none

theorem checkElement {element : Ty} {expected : Option Ty} {other : Expr}
    (helement : Fits R element) (hexpected : Fits R expected)
    (hother : other.Suits R place) :
    Attested R place (Rule.checkElement element expected other) := by
  refine .bindOption (.inferExpecting hother hexpected) (.answer ())
    fun ty hty => ?_
  refine .bind (.isCompatible helement hty) fun agree _ => ?_
  exact .ite .reportMismatch (.answer ())

theorem inferArray {elements : List Expr}
    (helements : ∀ element ∈ elements, element.Suits R place) :
    Attested R place (Rule.inferArray elements) := by
  cases elements with
  | nil => exact .pure (by simp)
  | cons first rest =>
    rw [List.forall_mem_cons] at helements
    refine .bind .expected? fun expected hexpected => ?_
    have hexpected := fits_expectedElement? hexpected
    refine .bindOption (.inferExpecting helements.1 hexpected) .noAnswer ?_
    intro element helement
    refine .andThen (.forEach fun other hmem => ?_) (.pure ?_)
    · exact .checkElement helement hexpected (helements.2 other hmem)
    · split
      · simp
      · simpa using helement

theorem inferLiteral {literal : Literal} (hliteral : literal.Suits R place) :
    Attested R place (Rule.inferLiteral literal span) := by
  cases literal with
  | str | float | bool | null | undefined => exact .pure (by simp)
  | int text =>
    unfold Rule.inferLiteral
    dsimp only
    split
    · exact .pure (by simp)
    · exact .andThen (.report rfl) (.pure (by simp))
  | char text => exact .bind .inferChar fun ty hty => .pure (fits_some.mpr hty)
  | array elements =>
    rw [Literal.Suits, Expr.suitAll_iff_forall] at hliteral
    exact .inferArray hliteral

theorem fits_expectedFields {expected : Option Ty} {length : Nat}
    (hexpected : Fits R expected) :
    Fits R (expectedFields expected length) := by
  unfold expectedFields
  split
  · split
    · simpa using hexpected
    · exact fits_nil
  · exact fits_nil

theorem inferFields {expected : List Ty} {fields : List Expr}
    (hexpected : Fits R expected)
    (hfields : ∀ field ∈ fields, field.Suits R place) :
    Attested R place (Rule.inferFields expected fields) := by
  induction fields generalizing expected with
  | nil => exact .pure (by simp)
  | cons field rest ih =>
    rw [List.forall_mem_cons] at hfields
    have hhead : Fits R expected.head? :=
      fits_option.mpr fun ty hty => fits_list.mp hexpected ty
        (List.mem_of_mem_head? hty)
    have htail : Fits R expected.tail :=
      fits_list.mpr fun ty hty => fits_list.mp hexpected ty
        (List.mem_of_mem_tail hty)
    refine .bindOption (.inferExpecting hfields.1 hhead) .noAnswer
      fun ty hty => ?_
    refine .bindOption (ih htail hfields.2) .noAnswer fun types htypes => ?_
    exact .pure (by simp [hty, htypes])

theorem inferTuple {fields : List Expr}
    (hfields : ∀ field ∈ fields, field.Suits R place) :
    Attested R place (Rule.inferTuple fields) := by
  refine .bind .expected? fun expected hexpected => ?_
  refine .bindOption (.inferFields (fits_expectedFields hexpected) hfields)
    .noAnswer ?_
  exact fun types htypes => .pure (by simpa using htypes)

/-!
## Operators
-/

theorem require {expected : String} {holds : Ty → Bool} :
    Attested R place (Rule.require ty span expected holds) := by
  exact .ite (.answer true) (.andThen .reportMismatch (.answer false))

theorem inferConcat {leftExpr rightExpr : Expr} {left right : Ty} :
    Attested R place (Rule.inferConcat leftExpr rightExpr left right span) := by
  refine .ite (.andThen (.report rfl) .noAnswer) (.pure ?_)
  split <;> simp

theorem requireBoth {left right : Ty} {leftSpan rightSpan : Span}
    {expected : String} {holds : Ty → Bool} {answer : Option Ty}
    (hanswer : Fits R answer) :
    Attested R place (do
      if !(← Rule.require left leftSpan expected holds) then return none
      if !(← Rule.require right rightSpan expected holds) then return none
      return answer) := by
  refine .bind .require fun first _ => .ite .noAnswer ?_
  exact .bind .require fun second _ => .ite .noAnswer (.pure hanswer)

theorem inferOperation {op : BinaryOp} {leftExpr rightExpr : Expr}
    {left right : Ty} (hleft : Fits R left) (hright : Fits R right) :
    Attested R place
      (Rule.inferOperation op leftExpr rightExpr left right span) := by
  have hpromote := fits_promote hleft hright
  unfold Rule.inferOperation
  cases op.opClass with
  | additive | multiplicative | power =>
    refine .ite .inferConcat (.requireBoth ?_)
    exact fits_some.mpr (fits_foldTypes hpromote)
  | shift => exact .requireBoth (fits_some.mpr (fits_foldTypes hleft))
  | bitwise => exact .requireBoth (fits_some.mpr (fits_foldTypes hpromote))
  | equality | relational =>
    exact .ite (.andThen .reportMismatch (.pure (by simp))) (.pure (by simp))
  | logical =>
    exact .andThen (.discard .require)
      (.andThen (.discard .require) (.pure (by simp)))
  | assignment => exact .noAnswer

theorem inferBinary {op : BinaryOp} {left right : Expr}
    (hleft : left.Suits R place) (hright : right.Suits R place) :
    Attested R place (Rule.inferBinary op left right span) := by
  refine .bindOption (.inferExpecting hleft fits_none) .noAnswer
    fun left hleft => ?_
  refine .bindOption (.inferExpecting hright fits_none) .noAnswer
    fun right hright => ?_
  refine .bind (.normalize hleft) fun left hleft => ?_
  refine .bind (.normalize hright) fun right hright => ?_
  refine .ite (.andThen .reportMismatch .noAnswer) ?_
  exact .inferOperation hleft hright

theorem placeMutability (hexpr : expr.Suits R place) :
    Attested R place (Rule.placeMutability expr) := by
  fun_induction Rule.placeMutability expr with
  | case1 id span name =>
    refine .bindOption .lookup (.answer false) fun id _ => ?_
    exact .bind .symbol fun symbol _ => .answer _
  | case2 id span inner ih => exact ih hexpr.2
  | case3 id span base name ih => exact ih hexpr.2
  | case4 id span base index ih =>
    exact ih hexpr.2.1
  | case5 id span pointer =>
    refine .bindOption (.askType hexpr.2) (.answer false) fun ty hty => ?_
    refine .bind (.normalize hty) fun ty _ => ?_
    split <;> exact .answer _
  | case6 id span op operand ih => exact ih hexpr.2
  | case7 => exact .answer false

theorem inferReference (hoperand : operand.Suits R place) :
    Attested R place (Rule.inferReference operand span) := by
  refine .ite (.andThen (.report rfl) .noAnswer) ?_
  refine .bindOption (.askType hoperand) .noAnswer fun pointee hpointee => ?_
  exact .bind (.placeMutability hoperand) fun mutable _ =>
    .pure (by simpa using hpointee)

theorem requireOne {expected : String} {holds : Ty → Bool}
    {answer : Option Ty} (hanswer : Fits R answer) :
    Attested R place (do
      if !(← Rule.require ty span expected holds) then return none
      return answer) := by
  exact .bind .require fun _ _ => .ite .noAnswer (.pure hanswer)

theorem inferUnary {op : UnaryOp} (hoperand : operand.Suits R place) :
    Attested R place (Rule.inferUnary op operand span) := by
  refine .ite (.inferReference hoperand) ?_
  refine .bindOption (.askType hoperand) .noAnswer fun ty hty => ?_
  refine .bind (.normalize hty) fun ty hty => ?_
  cases op with
  | plus | increment | decrement | bitNot =>
    exact .requireOne (fits_some.mpr hty)
  | minus => exact .requireOne (fits_some.mpr (Ty.fits_negated hty))
  | not => exact .andThen (.discard .require) (.pure (by simp))
  | reference => exact .noAnswer

theorem inferStep (hoperand : operand.Suits R place) :
    Attested R place (Rule.inferStep operand) := by
  refine .bindOption (.askType hoperand) .noAnswer fun ty hty => ?_
  exact .bind (.normalize hty) fun ty hty => .requireOne (fits_some.mpr hty)

theorem inferDeref (hoperand : operand.Suits R place) :
    Attested R place (Rule.inferDeref operand) := by
  refine .bindOption (.askType hoperand) .noAnswer fun ty hty => ?_
  refine .bind (.normalize hty) fun ty hty => ?_
  split
  · exact .pure (by simpa using hty)
  · exact .andThen .reportMismatch .noAnswer

/-!
## Assignment
-/

theorem refuseWrite {detail : String} :
    Attested R place (Rule.refuseWrite name detail span) := by
  exact .andThen (.report rfl) (.answer false)

theorem bindingWritable :
    Attested R place (Rule.bindingWritable name span) := by
  refine .bindOption .lookup (.answer true) fun id _ =>
    .bind .symbol fun symbol _ => ?_
  split
  all_goals try exact .refuseWrite
  all_goals
    refine .ite .refuseWrite ?_
    exact .ite (.answer true) .refuseWrite

theorem namesModule : Attested R place (Rule.namesModule expr) := by
  unfold Rule.namesModule
  split
  · refine .bindOption .lookup (.answer false) fun id _ => ?_
    exact .bind .symbol fun symbol _ => .answer _
  · exact .answer false

theorem fieldObjection? {struct : StructTy} :
    Attested R place (Rule.fieldObjection? struct name) := by
  unfold Rule.fieldObjection?
  split
  · refine .bindOption .lookupLocal (.answer none) fun id _ =>
      .bind .symbol fun symbol _ => ?_
    refine .ite (.answer none) (.ite (.answer _) ?_)
    exact .ite (.answer _) (.answer none)
  · exact .answer none

theorem staticWritable {struct : StructTy} :
    Attested R place (Rule.staticWritable struct name span) := by
  unfold Rule.staticWritable
  split
  · refine .bindOption .lookupLocal (.answer true) fun id _ =>
      .bind .symbol fun symbol _ => ?_
    exact .ite .refuseWrite (.answer true)
  · exact .answer true

theorem containerWritable {baseWritable : Rule Bool}
    (hbase : base.Suits R place) (hwritable : Attested R place baseWritable) :
    Attested R place (Rule.containerWritable base baseWritable) := by
  refine .bindOption (.askType hbase) (.answer false) fun ty hty => ?_
  refine .bind (.normalize hty) fun ty _ => ?_
  split
  · exact .answer true
  · exact .refuseWrite
  · exact hwritable

theorem memberWritable {baseWritable : Rule Bool}
    (hbase : base.Suits R place) (hwritable : Attested R place baseWritable) :
    Attested R place (Rule.memberWritable base name span baseWritable) := by
  have hcontainer := containerWritable hbase hwritable
  refine .bind (.exprAsType hbase) fun named _ => ?_
  dsimp only
  split
  · exact .staticWritable
  · refine .bind .namesModule fun isModule _ => .ite (.answer true) ?_
    refine .bindOption (.askType hbase) (.answer false) fun ty hty => ?_
    refine .bind (.derefOnce hty) fun ty _ => ?_
    split
    · exact .bindOption .fieldObjection? hcontainer fun objection _ =>
        .refuseWrite
    · exact hcontainer

theorem placeWritable (hexpr : expr.Suits R place) :
    Attested R place (Rule.placeWritable expr) := by
  fun_induction Rule.placeWritable expr with
  | case1 id span inner ih => exact ih hexpr.2
  | case2 id span name => exact .bindingWritable
  | case3 id span pointer =>
    refine .bindOption (.askType hexpr.2) (.answer false) fun ty hty => ?_
    refine .bind (.normalize hty) fun ty _ => ?_
    split
    · exact .refuseWrite
    · exact .answer true
  | case4 id span base name ih => exact .memberWritable hexpr.2 (ih hexpr.2)
  | case5 id span base index ih =>
    exact .containerWritable hexpr.2.1 (ih hexpr.2.1)
  | case6 => exact .andThen .reportMismatch (.answer false)

theorem inferAssignment {op : BinaryOp} {left right : Expr}
    (hleft : left.Suits R place) (hright : right.Suits R place) :
    Attested R place (Rule.inferAssignment op left right span) := by
  refine .bind (.placeWritable hleft) fun writable _ => .ite .noAnswer ?_
  refine .bindOption (.askType hleft) .noAnswer fun target htarget => ?_
  have hexpected : Fits R (some target) := fits_some.mpr htarget
  refine .bindOption (.inferExpecting hright hexpected) .noAnswer
    fun value hvalue => ?_
  have hflow : Attested R place (do
      if ← Rule.checkFlow target value right span then return some target
        else return none) :=
    .bind (.checkFlow htarget hvalue) fun fits _ =>
      .ite (.pure hexpected) .noAnswer
  refine .ite (.bind (.normalize htarget) fun resolved _ => ?_) hflow
  refine .ite (.andThen .reportMismatch .noAnswer) ?_
  refine .bind (.normalize hvalue) fun resolved _ => ?_
  exact .ite (.andThen .reportMismatch .noAnswer) hflow

/-!
## Calls
-/

theorem notCallable :
    Attested R place (Rule.notCallable ty span) := by
  exact .andThen (.report rfl) .noAnswer

theorem checkArity {required : Nat} {most : Option Nat} {received : Nat} :
    Attested R place (Rule.checkArity required most received span) := by
  refine .ite (.report rfl) ?_
  split
  · exact .ite (.report rfl) (.answer ())
  · exact .answer ()

theorem inferEach (hargs : ∀ arg ∈ args, arg.Suits R place) :
    Attested R place
      (Rule.forEach (fun arg => Functor.discard (Rule.askType arg)) args) := by
  exact .forEach fun arg hmem => .discard (.askType (hargs arg hmem))

theorem checkArgs {params : List Ty} {required : Nat}
    (hparams : Fits R params) (hargs : ∀ arg ∈ args, arg.Suits R place) :
    Attested R place (Rule.checkArgs params required args span) := by
  refine .andThen .checkArity
    (.andThen (.forEach fun pair hmem => ?_) (.inferEach ?_))
  · have hpair := List.of_mem_zip hmem
    exact .checkPassed (fits_list.mp hparams pair.1 hpair.1)
      (hargs pair.2 hpair.2)
  · exact fun arg hmem => hargs arg (List.mem_of_mem_drop hmem)

theorem callFunction {id : SymbolId} (hargs : ∀ arg ∈ args, arg.Suits R place) :
    Attested R place (Rule.callFunction id args span) := by
  refine .andThen .markUsed (.bind .functionType fun ty hty => ?_)
  split
  · rw [fits_some, Ty.fits_function] at hty
    refine .bind .symbol fun symbol _ => ?_
    exact .andThen (.checkArgs hty.1 hargs) (.pure (fits_some.mpr hty.2.1))
  · exact .noAnswer

theorem callVariant {enum : EnumTy} {variant : Variant}
    (henum : Meets R enum) (hvariant : Meets R variant)
    (hargs : ∀ arg ∈ args, arg.Suits R place) :
    Attested R place (Rule.callVariant enum variant args span) := by
  have hanswer : Fits R (some (Ty.enum enum)) := by simpa using henum
  unfold Rule.callVariant
  split
  · exact .bind (.pure fits_nil) fun params hparams =>
      .andThen (.checkArgs hparams hargs) (.pure hanswer)
  · next payload hpayload =>
      have hmeets : Meets R payload := hvariant payload hpayload
      refine .bindOption (.inScope? fun _ => .resolveType hmeets) .noAnswer ?_
      intro payload hpayload
      refine .bind (.pure (fits_cons.mpr ⟨hpayload, fits_nil⟩))
        fun params hparams => ?_
      exact .andThen (.checkArgs hparams hargs) (.pure hanswer)

theorem checkBuiltinArg {kind : Builtin.Arg} {arg : Expr}
    (harg : arg.Suits R place) :
    Attested R place (Rule.checkBuiltinArg kind arg) := by
  refine .ite (.bind (.exprAsType harg) fun named hnamed => ?_) ?_
  · refine .ite (.bind (.askType harg) fun received _ => ?_) (.pure hnamed)
    exact .andThen .reportMismatch (.pure hnamed)
  · refine .bindOption (.askType harg) .noAnswer fun ty hty => ?_
    refine .bind (.normalize hty) fun ty _ => ?_
    exact .ite (.andThen .reportMismatch .noAnswer) .noAnswer

theorem checkBuiltinArgs {kinds : List Builtin.Arg}
    (hargs : ∀ arg ∈ args, arg.Suits R place) :
    Attested R place (Rule.checkBuiltinArgs kinds args) := by
  induction args generalizing kinds with
  | nil => exact .answer ()
  | cons arg rest ih =>
    rw [List.forall_mem_cons] at hargs
    exact .andThen (.discard (.checkBuiltinArg hargs.1)) (ih hargs.2)

theorem callBuiltin (hargs : ∀ arg ∈ args, arg.Suits R place) :
    Attested R place (Rule.callBuiltin name callee args span) := by
  unfold Rule.callBuiltin
  split
  · next builtin hbuiltin =>
      refine .andThen .checkArity ?_
      cases args with
      | nil =>
        exact .bind .noAnswer fun _ hfirst =>
          .pure (Builtin.fits_answer hbuiltin hfirst)
      | cons arg rest =>
        rw [List.forall_mem_cons] at hargs
        refine .bind (.checkBuiltinArg hargs.1) fun first hfirst => ?_
        refine .andThen (.checkBuiltinArgs hargs.2) ?_
        exact .bind (.pure hfirst) fun _ hfirst =>
          .pure (Builtin.fits_answer hbuiltin hfirst)
  · exact .andThen (.report rfl) (.andThen (.inferEach hargs) .noAnswer)

/-!
## Members
-/

theorem namedSymbol? : Attested R place (Rule.namedSymbol? expr) := by
  unfold Rule.namedSymbol?
  split
  · exact .lookup
  · exact .noAnswer

theorem moduleSymbol? : Attested R place (Rule.moduleSymbol? expr) := by
  exact .bindOption .namedSymbol? .noAnswer fun _ _ =>
    .bind .symbol fun _ _ => .answer _

theorem typeSymbol? : Attested R place (Rule.typeSymbol? expr) := by
  exact .bindOption .namedSymbol? .noAnswer fun _ _ =>
    .bind .symbol fun _ _ => .answer _

theorem staticMember {scope : ScopeId} {typeName : String} :
    Attested R place (Rule.staticMember scope typeName name span) := by
  refine .bindOption .lookupLocal (.andThen (.report rfl) .noAnswer)
    fun id _ => ?_
  refine .bind .symbol fun symbol _ => ?_
  exact .ite (.andThen (.report rfl) .noAnswer) (.answer _)

theorem instanceAccess {id : SymbolId} {scope : ScopeId} :
    Attested R place (Rule.instanceAccess id scope name span) := by
  refine .bind .symbol fun symbol _ => ?_
  split
  · exact .andThen (.report rfl) (.answer false)
  · refine .seeTree fun tree _ => ?_
    exact .ite (.answer true) (.andThen (.report rfl) (.answer false))
  · exact .answer true

theorem memberNotFound :
    Attested R place (Rule.memberNotFound ty name span) := by
  exact .andThen (.report rfl) .noAnswer

theorem errorNotFound {set : String} :
    Attested R place (Rule.errorNotFound set name span) := by
  exact .andThen (.report rfl) .noAnswer

theorem moduleMember {module : SymbolId} :
    Attested R place (Rule.moduleMember module name span) := by
  refine .bind .symbol fun symbol _ => ?_
  dsimp only
  split
  · refine .bindOption .lookupLocal (.andThen (.report rfl) .noAnswer)
      fun id _ => ?_
    refine .bind .symbol fun symbol _ => ?_
    exact .ite (.andThen (.report rfl) .noAnswer) .valueOfSymbol
  · exact .andThen (.report rfl) .noAnswer

theorem typeMember {type : SymbolId} :
    Attested R place (Rule.typeMember type base name span) := by
  refine .bind .symbol fun symbol _ => ?_
  refine .bindOption (.resolveType (Ty.meets_named _)) .noAnswer
    fun ty hty => ?_
  have hanswer : Fits R (some ty) := fits_some.mpr hty
  refine .ite (.pure hanswer) ?_
  split
  · exact .ite (.pure hanswer) .errorNotFound
  · split
    · exact .bindOption .staticMember .noAnswer fun id _ => .valueOfSymbol
    · exact .memberNotFound

theorem structMember {struct : StructTy} (hstruct : Meets R struct) :
    Attested R place (Rule.structMember struct name span) := by
  unfold Rule.structMember
  split
  · split
    · next member hmember =>
        exact .resolveMember (struct.meets_of_member? hstruct hmember)
    · exact .memberNotFound
  · refine .bindOption .lookupLocal .memberNotFound fun id _ => ?_
    exact .bind .instanceAccess fun _ _ => .ite .valueOfSymbol .noAnswer

theorem enumMember {enum : EnumTy} {scope : ScopeId} :
    Attested R place (Rule.enumMember enum scope name span) := by
  refine .bindOption .lookupLocal .memberNotFound fun id _ =>
    .bind .symbol fun symbol _ => ?_
  refine .ite .memberNotFound ?_
  exact .bind .instanceAccess fun _ _ => .ite .valueOfSymbol .noAnswer

theorem peelOptionals (hty : Fits R ty) :
    Attested R place (Rule.peelOptionals ty) := by
  refine .bind (.normalize hty) fun ty hty => ?_
  split
  · rw [Ty.fits_optional] at hty
    refine .bind (.askPeeled hty) fun peeled hpeeled => ?_
    exact .pure (fits_pair.mpr ⟨fits_typeless _, (fits_pair.mp hpeeled).2⟩)
  · exact .pure (fits_pair.mpr ⟨fits_typeless _, hty⟩)

theorem plainMember (hty : Fits R ty) :
    Attested R place (Rule.plainMember ty name span) := by
  unfold Rule.plainMember
  split
  · exact .ite (.pure (by simp)) .memberNotFound
  · exact .ite (.pure (by simp)) .memberNotFound
  · exact .structMember ((Ty.meets_struct _).mp hty.1)
  · split
    · exact .enumMember
    · exact .memberNotFound
  · exact .ite (.pure (by simp)) .errorNotFound
  · exact .memberNotFound

theorem valueMember {base : Ty} (hbase : Fits R base) :
    Attested R place (Rule.valueMember base name span) := by
  refine .bind (.peelOptionals hbase) fun peeled hpeeled => ?_
  refine .bind (.derefOnce (fits_pair.mp hpeeled).2) fun ty hty => ?_
  refine .bindOption (.plainMember hty) .noAnswer fun result hresult => .pure ?_
  split <;> simpa using hresult

theorem inferMember (hbase : base.Suits R place) :
    Attested R place (Rule.inferMember base name span) := by
  refine .bindOption .moduleSymbol? ?_ fun module _ => .moduleMember
  refine .bindOption .typeSymbol? ?_ fun type _ => .typeMember
  exact .bindOption (.askType hbase) .noAnswer fun ty hty => .valueMember hty

theorem callTypeMember {type : SymbolId}
    (hargs : ∀ arg ∈ args, arg.Suits R place) :
    Attested R place (Rule.callTypeMember type base name args span) := by
  refine .bind .symbol fun symbol _ => ?_
  refine .bindOption (.resolveType (Ty.meets_named _)) .noAnswer
    fun ty hty => ?_
  dsimp only
  split
  · next enum variant hvariant =>
      have hmeets := Ty.meets_of_variant? hty.1 hvariant
      exact .callVariant hmeets.1 hmeets.2 hargs
  · split
    · refine .bindOption .staticMember .noAnswer fun id _ =>
        .bind .symbol fun symbol _ => ?_
      refine .ite (.callFunction hargs) ?_
      exact .bindOption .symbolType .noAnswer fun ty _ => .notCallable
    · exact .notCallable

theorem method? (hty : Fits R ty) :
    Attested R place (Rule.method? ty name) := by
  refine .bind (.derefOnce hty) fun ty _ => ?_
  split
  · refine .bindOption .lookupLocal .noAnswer fun id _ => ?_
    exact .bind .symbol fun symbol _ => .answer _
  · exact .noAnswer

theorem callMember? (hbase : base.Suits R place)
    (hargs : ∀ arg ∈ args, arg.Suits R place) :
    Attested R place (Rule.callMember? base name args span) := by
  refine .bindOption .typeSymbol? ?_ fun type _ => ?_
  · refine .bind .moduleSymbol? fun module _ => .ite .noAnswer ?_
    refine .bindOption (.askType hbase) (.pure (by simp)) fun ty hty => ?_
    refine .bindOption (.method? hty) .noAnswer fun found _ => ?_
    refine .bind .instanceAccess fun access _ => .ite ?_ (.pure (by simp))
    exact .bind (.callFunction hargs) fun answer hanswer =>
      .pure (fits_some.mpr hanswer)
  · exact .bind (.callTypeMember hargs) fun answer hanswer =>
      .pure (fits_some.mpr hanswer)

theorem calleeSymbol? : Attested R place (Rule.calleeSymbol? callee) := by
  unfold Rule.calleeSymbol?
  split
  · exact .bindOption .lookup .noAnswer fun id _ =>
      .bind .symbol fun symbol _ => .answer _
  · refine .bindOption .moduleSymbol? .noAnswer fun module _ =>
      .bind .symbol fun symbol _ => ?_
    split
    · refine .bindOption .lookupLocal .noAnswer fun id _ => ?_
      exact .bind .symbol fun symbol _ => .answer _
    · exact .noAnswer
  · exact .noAnswer

theorem callValue {calleeSpan : Span} (hcallee : callee.Suits R place)
    (hargs : ∀ arg ∈ args, arg.Suits R place) :
    Attested R place (Rule.callValue callee args calleeSpan span) := by
  refine .bindOption (.askType hcallee) .noAnswer fun ty hty => ?_
  refine .bind (.derefOnce hty) fun ty hty => ?_
  split
  · next params result error =>
      rw [Ty.fits_function] at hty
      have hargs : ∀ required, Attested R place
          (do Rule.checkArgs params required args span; return some result) :=
        fun _ => .andThen (.checkArgs hty.1 hargs)
          (.pure (fits_some.mpr hty.2.1))
      refine .bindOption .calleeSymbol? ?_ fun id _ =>
        .bind .symbol fun symbol _ => ?_
      · exact .bind (.answer _) fun required _ => hargs required
      · exact .bind (.answer _) fun required _ => hargs required
  · exact .notCallable

theorem inferCall (hcallee : callee.Suits R place)
    (hargs : ∀ arg ∈ args, arg.Suits R place) :
    Attested R place (Rule.inferCall callee args span) := by
  have hcallee := hcallee.unparen
  have hvalue : Attested R place
      (Rule.callValue callee.unparen args callee.span span) :=
        .callValue hcallee hargs
  unfold Rule.inferCall
  dsimp only
  split
  · exact .ite (.callBuiltin hargs) hvalue
  · next base name hkind =>
      have hbase := hcallee.kind
      rw [hkind, ExprKind.Suits] at hbase
      exact .bindOption (.callMember? hbase hargs) hvalue fun answer hanswer =>
        .pure hanswer
  · exact hvalue

theorem tupleField {fields : List Ty} {known : Option Int} {index : Expr}
    (hfields : Fits R fields) (hindex : index.Suits R place) :
    Attested R place (Rule.tupleField fields known index) := by
  have hfield : ∀ position : Int, Attested R place (do
      let field := if 0 ≤ position ∧
        position < pow2 64 then fields[position.toNat]? else none
      if field.isNone then
        Rule.report (.indexOutOfBounds position fields.length) index.span
      return field) := by
    intro position
    have hmeets : Fits R
        (if 0 ≤ position ∧ position < pow2 64 then fields[position.toNat]?
          else none) := by
      split
      · exact fits_option.mpr fun ty hty =>
          fits_list.mp hfields ty (List.mem_of_getElem? hty)
      · exact fits_none
    exact .ite (.andThen (.report rfl) (.pure hmeets)) (.pure hmeets)
  cases known with
  | some position =>
    refine .bindOption (.answer (some position)) ?_ fun position _ =>
      hfield position
    exact .andThen (.report rfl) .noAnswer
  | none =>
    refine .bindOption (.constInt hindex) ?_ fun position _ => hfield position
    exact .andThen (.report rfl) .noAnswer

theorem checkBounds {array : Ty} {known : Option Int} :
    Attested R place (Rule.checkBounds array known span) := by
  unfold Rule.checkBounds
  split
  · split
    · exact .ite (.report rfl) (.answer ())
    · exact .answer ()
  · exact .answer ()

theorem inferIndex {index : Expr} (hbase : base.Suits R place)
    (hindex : index.Suits R place) :
    Attested R place (Rule.inferIndex base index) := by
  refine .bindOption (.askType hbase) .noAnswer fun baseTy hbaseTy => ?_
  refine .bind (.normalize hbaseTy) fun baseTy hbaseTy => .ite ?_ ?_
  · exact .andThen (.discard (.askType hindex)) (.pure (fits_some.mpr hbaseTy))
  · refine .bindOption (.inferExpecting hindex (by simp)) .noAnswer
      fun indexTy hindexTy => ?_
    refine .bind (.normalize hindexTy) fun indexTy _ => ?_
    refine .ite (.andThen .reportMismatch .noAnswer) ?_
    refine .bind (.derefOnce hbaseTy) fun ty hty => ?_
    split
    · exact .tupleField (Ty.fits_tuple.mp hty) hindex
    · rw [Ty.fits_array] at hty
      exact .andThen .checkBounds (.pure (fits_some.mpr hty.1))
    · exact .andThen .reportMismatch .noAnswer

end Attested
end StaticCheck
