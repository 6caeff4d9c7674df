import StaticCheck.Proofs.Renaming.Resolution

/-!
# Values under a renaming

The rules that infer literals, operators, assignments, calls and members lead
from renamed questions to renamed answers.
-/

namespace StaticCheck
namespace Renamed

variable {f : NodeId ↪ NodeId}

/-!
## Literals and tuples
-/

theorem inferChar : Equivariant f Rule.inferChar := by
  intro _
  unfold Rule.inferChar
  split
  · refine .pure ?_
    split <;> rfl
  · refine .bindOption .expected? (.pure rfl) fun expected => .pure ?_
    simp only [rename, Ty.isInteger_rename]
    split <;> rfl

theorem expectedElement?_rename (expected : Option Ty) :
    Rule.expectedElement? (expected.map (Ty.rename f)) =
      (Rule.expectedElement? expected).map (Ty.rename f) := by
  cases expected with
  | none => rfl
  | some ty => cases ty <;> rfl

theorem checkElement : Equivariant f Rule.checkElement := by
  intro element expected other
  refine .bindOption (.inferExpecting other expected) (.pure rfl) fun ty => ?_
  refine .bind (.isCompatible element ty (some other)) fun agree => ?_
  simp only [rename, Ty.text_rename, Expr.rename_span]
  exact .ite Iff.rfl (.reportMismatch _ rfl rfl) (.pure rfl)

theorem inferArray : Equivariant f Rule.inferArray := by
  intro elements
  cases elements with
  | nil => exact .pure rfl
  | cons first rest =>
    refine .bind .expected? fun expected => ?_
    have hexpected := expectedElement?_rename (f := f) expected
    simp only [rename, hexpected, List.length_map]
    refine .bindOption (.inferExpecting first _) .noAnswer fun element => ?_
    refine .andThen (.forEach (.checkElement element _) rfl) (.pure ?_)
    cases element with
    | prim prim => cases prim <;> rfl
    | _ => rfl

theorem inferLiteral : Equivariant f Rule.inferLiteral := by
  intro literal span
  cases literal with
  | str | float | bool | null | undefined => exact .pure rfl
  | int text =>
    simp only [rename, Literal.rename, Rule.inferLiteral]
    split
    · exact .pure rfl
    · exact .andThen (.report span rfl) (.pure rfl)
  | char text => exact .bind (.inferChar text) fun ty => .pure rfl
  | array elements =>
    simp only [rename, Literal.rename, Expr.renameAll_eq]
    exact .inferArray elements

theorem expectedFields_rename (expected : Option Ty) (length : Nat) :
    Rule.expectedFields (expected.map (Ty.rename f)) length =
      (Rule.expectedFields expected length).map (Ty.rename f) := by
  cases expected with
  | none => rfl
  | some ty =>
    cases ty with
    | tuple types =>
      simp only [Option.map_some, Ty.rename, Rule.expectedFields,
        Ty.renameAll_eq, List.length_map]
      split <;> rfl
    | _ => rfl

theorem inferFields : Equivariant f Rule.inferFields := by
  intro expected fields
  induction fields generalizing expected with
  | nil => exact .pure rfl
  | cons field rest ih =>
    simp only [rename, List.map_cons, Rule.inferFields,
      List.head?_map, ← List.map_tail]
    refine .bindOption (.inferExpecting field expected.head?) .noAnswer
      fun ty => ?_
    exact .bindOption (ih expected.tail) .noAnswer fun types => .pure rfl

theorem inferTuple : Equivariant f Rule.inferTuple := by
  intro fields
  refine .bind .expected? fun expected => ?_
  have hexpected := expectedFields_rename (f := f) expected fields.length
  simp only [rename, List.length_map, hexpected]
  refine .bindOption (.inferFields _ fields) .noAnswer fun types => .pure ?_
  simp [rename, Ty.rename]

/-!
## Operators
-/

theorem require {holds : Ty → Bool} (ty : Ty) (span : Span) (expected : String)
    (hholds : holds (ty.rename f) = holds ty) :
    Renamed f (Rule.require ty span expected holds)
      (Rule.require (ty.rename f) span expected holds) := by
  refine .ite (by rw [hholds]) (.pure rfl) ?_
  exact .andThen (.reportMismatch span rfl (Ty.text_rename ty)) (.pure rfl)

theorem inferConcat : Equivariant f Rule.inferConcat := by
  intro _ _ left right span
  simp only [rename, Rule.inferConcat, Expr.isLiteral_rename,
    Ty.isMutableArray_rename, Ty.length?_rename]
  refine .ite Iff.rfl (.andThen (.report span rfl) .noAnswer) (.pure ?_)
  cases left.length? <;> cases right.length? <;> rfl

theorem requireBoth {holds : Ty → Bool} {answer answer' : Option Ty}
    (left right : Ty) (leftSpan rightSpan : Span) (expected : String)
    (hholds : ∀ ty : Ty, holds (ty.rename f) = holds ty)
    (hanswer : answer' = answer.map (Ty.rename f)) :
    Renamed f (do
      if !(← Rule.require left leftSpan expected holds) then return none
      if !(← Rule.require right rightSpan expected holds) then return none
      return answer) (do
      if !(← Rule.require (left.rename f) leftSpan expected holds) then
        return none
      if !(← Rule.require (right.rename f) rightSpan expected holds) then
        return none
      return answer') := by
  refine .bind (.require left leftSpan expected (hholds left)) fun first => ?_
  refine .ite Iff.rfl .noAnswer ?_
  refine .bind (.require right rightSpan expected (hholds right))
    fun second => ?_
  exact .ite Iff.rfl .noAnswer (.pure hanswer)

theorem foldTypes_getD_rename (op : BinaryOp) (left right other : Ty) :
    some ((foldTypes op (left.rename f) (right.rename f)).getD
      (other.rename f)) = (some ((foldTypes op left right).getD other)).map
      (Ty.rename f) := by
  rw [foldTypes_rename]
  cases foldTypes op left right <;> rfl

theorem inferOperation : Equivariant f Rule.inferOperation := by
  intro op leftExpr rightExpr left right span
  have hfold := foldTypes_getD_rename (f := f) op left right
  have hpromote := hfold (promote left right)
  rw [← promote_rename] at hpromote
  simp only [rename, Rule.inferOperation, Expr.rename_span, Ty.isString_rename,
    Ty.nullAgainstValue_rename, Ty.text_rename]
  cases op.opClass with
  | additive | multiplicative | power =>
    refine .ite Iff.rfl (.inferConcat leftExpr rightExpr left right span) ?_
    exact .requireBoth left right _ _ _ Ty.isNumeric_rename hpromote
  | shift =>
    exact .requireBoth left right _ _ _ Ty.isInteger_rename (hfold left)
  | bitwise => exact .requireBoth left right _ _ _ Ty.isInteger_rename hpromote
  | equality | relational =>
    exact .ite Iff.rfl (.andThen (.reportMismatch span rfl rfl) (.pure rfl))
      (.pure rfl)
  | logical =>
    refine .andThen (.discard (.require left _ _ (Ty.isBool_rename left))) ?_
    exact .andThen (.discard (.require right _ _ (Ty.isBool_rename right)))
      (.pure rfl)
  | assignment => exact .noAnswer

theorem inferBinary : Equivariant f Rule.inferBinary := by
  intro op leftExpr rightExpr span
  refine .bindOption (.inferExpecting leftExpr none) .noAnswer fun left => ?_
  refine .bindOption (.inferExpecting rightExpr none) .noAnswer fun right => ?_
  refine .bind (.normalize left) fun left => .bind (.normalize right)
    fun right => ?_
  simp only [rename, Ty.isMeta_rename]
  refine .ite Iff.rfl (.andThen (.reportMismatch span rfl rfl) .noAnswer) ?_
  exact .inferOperation op leftExpr rightExpr left right span

theorem placeMutability : Equivariant f Rule.placeMutability := by
  intro expr
  obtain ⟨id, span, kind⟩ := expr
  cases kind with
  | ident name =>
    refine .bindOption (.lookup name) (.pure rfl) fun id => ?_
    exact .bind (.symbol id) fun symbol => .pure rfl
  | paren inner => exact placeMutability inner
  | member base name => exact placeMutability base
  | index base index => exact placeMutability base
  | deref pointer =>
    refine .bindOption (.askType pointer) (.pure rfl) fun ty =>
      .bind (.normalize ty) fun ty => ?_
    cases ty <;> exact .pure rfl
  | unary op operand => exact placeMutability operand
  | _ => exact .pure rfl

theorem inferReference : Equivariant f Rule.inferReference := by
  intro operand span
  simp only [rename, Rule.inferReference, Expr.isPlace_rename]
  refine .ite Iff.rfl (.andThen (.report span rfl) .noAnswer) ?_
  refine .bindOption (.askType operand) .noAnswer fun pointee => ?_
  exact .bind (.placeMutability operand) fun mutable => .pure rfl

theorem requireOne {holds : Ty → Bool} {answer answer' : Option Ty} (ty : Ty)
    (span : Span) (expected : String) (hholds : holds (ty.rename f) = holds ty)
    (hanswer : answer' = answer.map (Ty.rename f)) :
    Renamed f (do
      if !(← Rule.require ty span expected holds) then return none
      return answer) (do
      if !(← Rule.require (ty.rename f) span expected holds) then return none
      return answer') := by
  exact .bind (.require ty span expected hholds) fun _ =>
    .ite Iff.rfl .noAnswer (.pure hanswer)

theorem inferUnary : Equivariant f Rule.inferUnary := by
  intro op operand span
  refine .ite Iff.rfl (.inferReference operand span) ?_
  refine .bindOption (.askType operand) .noAnswer fun ty =>
    .bind (.normalize ty) fun ty => ?_
  simp only [rename, Expr.rename_span]
  cases op with
  | plus | increment | decrement =>
    exact .requireOne ty _ _ (Ty.isNumeric_rename ty) rfl
  | bitNot => exact .requireOne ty _ _ (Ty.isInteger_rename ty) rfl
  | minus =>
    exact .requireOne ty _ _ (Ty.isNumeric_rename ty)
      (congrArg some (Ty.negated_rename ty))
  | not =>
    exact .andThen (.discard (.require ty _ _ (Ty.isBool_rename ty)))
      (.pure rfl)
  | reference => exact .noAnswer

theorem inferStep : Equivariant f Rule.inferStep := by
  intro operand
  refine .bindOption (.askType operand) .noAnswer fun ty =>
    .bind (.normalize ty) fun ty => ?_
  simp only [rename, Expr.rename_span]
  exact .requireOne ty _ _ (Ty.isNumeric_rename ty) rfl

theorem inferDeref : Equivariant f Rule.inferDeref := by
  intro operand
  refine .bindOption (.askType operand) .noAnswer fun ty =>
    .bind (.normalize ty) fun ty => ?_
  simp only [rename, Expr.rename_span]
  cases ty with
  | pointer target mutable => exact .pure rfl
  | _ => exact .andThen (.reportMismatch _ rfl (Ty.text_rename _)) .noAnswer

/-!
## Assignment
-/

theorem refuseWrite : Equivariant f Rule.refuseWrite := by
  intro _ _ span
  exact .andThen (.report span rfl) (.pure rfl)

theorem bindingWritable : Equivariant f Rule.bindingWritable := by
  intro name span
  refine .bindOption (.lookup name) (.pure rfl) fun id => .bind (.symbol id)
    fun symbol => ?_
  obtain ⟨_, _, kind, _⟩ := symbol
  cases kind with
  | var | parameter | structField =>
    refine .ite Iff.rfl (.refuseWrite name _ span) ?_
    exact .ite Iff.rfl (.pure rfl) (.refuseWrite name _ span)
  | _ => exact .refuseWrite name _ span

theorem namesModule : Equivariant f Rule.namesModule := by
  intro expr
  simp only [rename, Rule.namesModule, Expr.identName?_rename]
  cases expr.identName? with
  | none => exact .pure rfl
  | some name =>
    refine .bindOption (.lookup name) (.pure rfl) fun id => ?_
    exact .bind (.symbol id) fun symbol => .pure rfl

theorem fieldObjection? : Equivariant f Rule.fieldObjection? := by
  intro struct name
  simp only [rename, Rule.fieldObjection?, StructTy.rename_scope]
  cases struct.scope with
  | none => exact .noAnswer
  | some scope =>
    refine .bindOption (.lookupLocal scope name) .noAnswer fun id => ?_
    refine .bind (.symbol id) fun symbol => ?_
    exact .ite Iff.rfl .noAnswer
      (.ite Iff.rfl (.pure rfl) (.ite Iff.rfl (.pure rfl) .noAnswer))

theorem staticWritable : Equivariant f Rule.staticWritable := by
  intro struct name span
  simp only [rename, Rule.staticWritable, StructTy.rename_scope]
  cases struct.scope with
  | none => exact .pure rfl
  | some scope =>
    refine .bindOption (.lookupLocal scope name) (.pure rfl) fun id => ?_
    exact .bind (.symbol id) fun symbol =>
      .ite Iff.rfl (.refuseWrite name _ span) (.pure rfl)

theorem containerWritable {baseWritable baseWritable' : Rule Bool} (base : Expr)
    (h : Renamed f baseWritable baseWritable') :
    Renamed f (Rule.containerWritable base baseWritable)
      (Rule.containerWritable (base.rename f) baseWritable') := by
  refine .bindOption (.askType base) (.pure rfl) fun ty => .bind (.normalize ty)
    fun ty => ?_
  simp only [rename, Expr.rename_span]
  cases ty with
  | pointer target mutable =>
    cases mutable with
    | true => exact .pure rfl
    | false => exact .refuseWrite _ _ _
  | _ => exact h

theorem memberWritable {baseWritable baseWritable' : Rule Bool} (base : Expr)
    (name : String) (span : Span) (h : Renamed f baseWritable baseWritable') :
    Renamed f (Rule.memberWritable base name span baseWritable)
      (Rule.memberWritable (base.rename f) name span baseWritable') := by
  have hcontainer := containerWritable base h
  refine .bind (.exprAsType base) fun named => ?_
  dsimp only
  split
  · next struct => exact .staticWritable struct name span
  · next hvalue =>
      split
      · next struct hnamed =>
          obtain ⟨ty, hty, hstruct⟩ := Option.map_eq_some_iff.mp hnamed
          obtain ⟨struct, rfl⟩ := Ty.struct_of_rename hstruct
          exact absurd hty (hvalue struct)
      · refine .bind (.namesModule base) fun isModule =>
          .ite Iff.rfl (.pure rfl) ?_
        refine .bindOption (.askType base) (.pure rfl) fun ty =>
          .bind (.derefOnce ty) fun ty => ?_
        cases ty with
        | struct struct =>
          refine .bindOption (.fieldObjection? struct name) hcontainer
            fun objection => ?_
          exact .refuseWrite name objection span
        | _ => exact hcontainer

theorem placeWritable : Equivariant f Rule.placeWritable := by
  intro expr
  obtain ⟨id, span, kind⟩ := expr
  cases kind with
  | paren inner => exact placeWritable inner
  | ident name => exact .bindingWritable name span
  | deref pointer =>
    refine .bindOption (.askType pointer) (.pure rfl) fun ty =>
      .bind (.normalize ty) fun ty => ?_
    cases ty with
    | pointer target mutable =>
      cases mutable with
      | true => exact .pure rfl
      | false => exact .refuseWrite _ _ span
    | _ => exact .pure rfl
  | member base name =>
    exact .memberWritable base name span (placeWritable base)
  | index base index => exact .containerWritable base (placeWritable base)
  | _ => exact .andThen (.reportMismatch span rfl rfl) (.pure rfl)

theorem inferAssignment : Equivariant f Rule.inferAssignment := by
  intro _ left right span
  refine .bind (.placeWritable left) fun writable => .ite Iff.rfl .noAnswer ?_
  refine .bindOption (.askType left) .noAnswer fun target => ?_
  refine .bindOption (.inferExpecting right (some target)) .noAnswer
    fun value => ?_
  have hflow : Renamed f (do
      if ← Rule.checkFlow target value right span then return some target
        else return none) (do
      if ← Rule.checkFlow (target.rename f) (value.rename f)
        (right.rename f) span then
        return some (target.rename f)
      else return none) :=
    .bind (.checkFlow target value right span) fun fits =>
      .ite Iff.rfl (.pure rfl) .noAnswer
  simp only [rename, Expr.rename_span]
  refine .ite Iff.rfl (.bind (.normalize target) fun resolved => ?_) hflow
  refine .ite (by simp [rename]) (.andThen (.reportMismatch _ rfl ?_) .noAnswer)
    ?_
  · exact Ty.text_rename resolved
  refine .bind (.normalize value) fun resolved => ?_
  refine .ite (by simp [rename]) (.andThen (.reportMismatch _ rfl ?_) .noAnswer)
    hflow
  exact Ty.text_rename resolved

/-!
## Calls
-/

theorem notCallable : Equivariant f Rule.notCallable := by
  intro ty span
  exact .andThen (.report span (congrArg _ (Ty.text_rename ty))) .noAnswer

theorem checkArity : Equivariant f Rule.checkArity := by
  intro _ most _ span
  refine .ite Iff.rfl (.report span rfl) ?_
  cases most with
  | none => exact .pure rfl
  | some most => exact .ite Iff.rfl (.report span rfl) (.pure rfl)

theorem inferEach (args : List Expr) :
    Renamed f
      (Rule.forEach (fun arg => Functor.discard (Rule.askType arg)) args)
      (Rule.forEach (fun arg => Functor.discard (Rule.askType arg))
        (args.map (Expr.rename f))) := by
  exact .forEach (fun arg => .discard (.askType arg)) rfl

theorem checkArgs : Equivariant f Rule.checkArgs := by
  intro _ required _ span
  simp only [rename, Rule.checkArgs, List.length_map, ← List.map_drop]
  refine .andThen (.checkArity required _ _ span) (.andThen ?_ (.inferEach _))
  exact .forEach (fun pair => .checkPassed pair.1 pair.2) (List.zip_map ..)

theorem callFunction : Equivariant f Rule.callFunction := by
  intro id args span
  refine .andThen (.markUsed id) (.bind (.functionType id) fun ty => ?_)
  cases ty with
  | none => exact .noAnswer
  | some ty =>
    cases ty with
    | function params result error =>
      refine .bind (.symbol id) fun symbol => .andThen ?_ (.pure rfl)
      have hrequired : (rename f symbol).info.requiredParams =
          symbol.info.requiredParams :=
        SymbolInfo.requiredParams_rename symbol.info
      rw [hrequired, Ty.renameAll_eq]
      exact .checkArgs params _ args span
    | _ => exact .noAnswer

theorem callVariant : Equivariant f Rule.callVariant := by
  intro enum variant args span
  simp only [rename, Rule.callVariant, Variant.rename_payload,
    EnumTy.rename_scope]
  have hargs : ∀ params : List Ty, Renamed f (do
      Rule.checkArgs params params.length args span
      return some (Ty.enum enum)) (do
      Rule.checkArgs (params.map (Ty.rename f))
        (params.map (Ty.rename f)).length (args.map (Expr.rename f)) span
      return some (Ty.enum (enum.rename f))) := by
    intro params
    rw [List.length_map]
    exact .andThen (.checkArgs params _ args span) (.pure rfl)
  cases variant.payload with
  | none => exact .bind (.pure rfl) hargs
  | some payload =>
    refine .bindOption (.inScope? enum.scope (.resolveType payload span))
      .noAnswer ?_
    exact fun payload => .bind (.pure rfl) hargs

theorem checkBuiltinArg : Equivariant f Rule.checkBuiltinArg := by
  intro kind arg
  simp only [rename, Rule.checkBuiltinArg, Expr.rename_span]
  refine .ite Iff.rfl (.bind (.exprAsType arg) fun named => ?_) ?_
  · refine .ite (by cases named <;> rfl) (.bind (.askType arg) fun received =>
      ?_) (.pure rfl)
    refine .andThen (.reportMismatch _ rfl ?_) (.pure rfl)
    cases received with
    | none => rfl
    | some ty => exact Ty.text_rename ty
  · refine .bindOption (.askType arg) .noAnswer fun ty => .bind (.normalize ty)
      fun ty => ?_
    have haccepts : kind.accepts (ty.rename f) = kind.accepts ty := by
      cases kind <;> simp [Builtin.Arg.accepts]
    simp only [rename, haccepts, Ty.text_rename]
    exact .ite Iff.rfl (.andThen (.reportMismatch _ rfl rfl) .noAnswer)
      .noAnswer

theorem checkBuiltinArgs : Equivariant f Rule.checkBuiltinArgs := by
  intro kinds args
  induction args generalizing kinds with
  | nil => exact .pure rfl
  | cons arg rest ih =>
    exact .andThen (.discard (.checkBuiltinArg _ arg)) (ih kinds.tail)

theorem callBuiltin : Equivariant f Rule.callBuiltin := by
  intro name _ args span
  simp only [rename, Rule.callBuiltin, Expr.rename_span, List.length_map]
  cases hbuiltin : Builtin.function? name with
  | none =>
    exact .andThen (.report _ rfl) (.andThen (.inferEach args) .noAnswer)
  | some builtin =>
    refine .andThen (.checkArity _ _ _ span) ?_
    cases args with
    | nil =>
      exact .bind .noAnswer
        fun first => .pure (Builtin.answer_rename hbuiltin first)
    | cons arg rest =>
      refine .bind (.checkBuiltinArg _ arg) fun first => ?_
      refine .andThen (.checkBuiltinArgs _ rest)
        (.bind (.pure rfl) fun first => ?_)
      exact .pure (Builtin.answer_rename hbuiltin first)

/-!
## Members
-/

theorem namedSymbol? : Equivariant f Rule.namedSymbol? := by
  intro expr
  simp only [rename, Rule.namedSymbol?, Expr.identName?_rename]
  cases expr.identName? with
  | none => exact .noAnswer
  | some name => exact .lookup name

theorem moduleSymbol? : Equivariant f Rule.moduleSymbol? := by
  intro expr
  refine .bindOption (.namedSymbol? expr) .noAnswer fun id => .bind (.symbol id)
    fun symbol => ?_
  exact .pure (rename_inert (fun _ => rfl) _).symm

theorem typeSymbol? : Equivariant f Rule.typeSymbol? := by
  intro expr
  refine .bindOption (.namedSymbol? expr) .noAnswer fun id => .bind (.symbol id)
    fun symbol => ?_
  exact .pure (rename_inert (fun _ => rfl) _).symm

theorem staticMember : Equivariant f Rule.staticMember := by
  intro scope _ name span
  refine .bindOption (.lookupLocal scope name)
    (.andThen (.report span rfl) .noAnswer) fun id => ?_
  refine .bind (.symbol id) fun symbol => ?_
  exact .ite Iff.rfl (.andThen (.report span rfl) .noAnswer) (.pure rfl)

theorem instanceAccess : Equivariant f Rule.instanceAccess := by
  intro id _ _ span
  refine .bind (.symbol id) fun symbol => ?_
  obtain ⟨_, _, _, _, visibility, _⟩ := symbol
  cases visibility with
  | static => exact .andThen (.report span rfl) (.pure rfl)
  | priv =>
    refine .bind .tree fun tree =>
      .ite ?_ (.pure rfl) (.andThen (.report span rfl) (.pure rfl))
    rw [show rename f tree = tree.rename f from rfl, ScopeTree.isWithin_rename]
    rfl
  | pub => exact .pure rfl

theorem memberNotFound : Equivariant f Rule.memberNotFound := by
  intro _ _ span
  exact .andThen (.report span (by simp only [rename, Ty.text_rename]))
    .noAnswer

theorem errorNotFound : Equivariant f Rule.errorNotFound := by
  intro _ _ span
  exact .andThen (.report span rfl) .noAnswer

theorem moduleMember : Equivariant f Rule.moduleMember := by
  intro module name span
  refine .bind (.symbol module) fun symbol => ?_
  obtain ⟨_, _, _, _, _, _, ⟨_, _, _, scope, _⟩, _⟩ := symbol
  cases scope with
  | none => exact .andThen (.report span rfl) .noAnswer
  | some scope =>
    refine .bindOption (.lookupLocal scope name)
      (.andThen (.report span rfl) .noAnswer) ?_
    refine fun id => .bind (.symbol id) fun symbol => ?_
    exact .ite Iff.rfl (.andThen (.report span rfl) .noAnswer)
      (.valueOfSymbol id)

theorem typeMember : Equivariant f Rule.typeMember := by
  intro type base name span
  simp only [rename, Rule.typeMember, Expr.rename_span]
  refine .bind (.symbol type) fun symbol => ?_
  refine .bindOption (.resolveType (.named symbol.name) base.span) .noAnswer
    fun ty => ?_
  simp only [rename, Ty.variant?_rename, Option.isSome_map,
    Ty.memberScope?_rename]
  refine .ite Iff.rfl (.pure rfl) ?_
  cases ty with
  | errors names => exact .ite Iff.rfl (.pure rfl) (.errorNotFound _ name span)
  | _ =>
    dsimp only [rename, Ty.rename]
    split
    · next scope _ =>
        refine .bindOption (.staticMember scope _ name span) .noAnswer
          fun id => ?_
        exact .valueOfSymbol id
    · exact .memberNotFound _ name span

theorem structMember : Equivariant f Rule.structMember := by
  intro struct name span
  have hmissing := memberNotFound (f := f) (.struct struct) name span
  simp only [rename, Rule.structMember, StructTy.rename_scope,
    StructTy.member?_rename]
  cases struct.scope with
  | none =>
    cases struct.member? name with
    | none => exact hmissing
    | some member => exact .resolveMember struct member
  | some scope =>
    refine .bindOption (.lookupLocal scope name) hmissing fun id => ?_
    refine .bind (.instanceAccess id scope name span) fun access => ?_
    exact .ite Iff.rfl (.valueOfSymbol id) .noAnswer

theorem enumMember : Equivariant f Rule.enumMember := by
  intro enum scope name span
  have hmissing := memberNotFound (f := f) (.enum enum) name span
  refine .bindOption (.lookupLocal scope name) hmissing fun id => ?_
  refine .bind (.symbol id) fun symbol => ?_
  refine .ite Iff.rfl hmissing
    (.bind (.instanceAccess id scope name span) fun access => ?_)
  exact .ite Iff.rfl (.valueOfSymbol id) .noAnswer

theorem peelOptionals : Equivariant f Rule.peelOptionals := by
  intro ty
  refine .bind (.normalize ty) fun ty => ?_
  cases ty with
  | optional inner => exact .bind (.askPeeled inner) fun peeled => .pure rfl
  | _ => exact .pure rfl

theorem plainMember : Equivariant f Rule.plainMember := by
  intro ty name span
  cases ty with
  | array | tuple =>
    exact .ite Iff.rfl (.pure rfl) (.memberNotFound _ name span)
  | struct struct => exact .structMember struct name span
  | enum enum =>
    have hmissing := memberNotFound (f := f) (.enum enum) name span
    simp only [rename, Rule.plainMember, Ty.rename, EnumTy.rename_scope]
    cases enum.scope with
    | none => exact hmissing
    | some scope => exact .enumMember enum scope name span
  | errors names => exact .ite Iff.rfl (.pure rfl) (.errorNotFound _ name span)
  | _ => exact .memberNotFound _ name span

theorem valueMember : Equivariant f Rule.valueMember := by
  intro base name span
  refine .bind (.peelOptionals base) fun peeled => .bind (.derefOnce peeled.2)
    fun ty => ?_
  refine .bindOption (.plainMember ty name span) .noAnswer
    fun result => .pure ?_
  obtain ⟨depth, _⟩ := peeled
  cases depth <;> rfl

theorem inferMember : Equivariant f Rule.inferMember := by
  intro base name span
  refine .bindOption (.moduleSymbol? base) ?_ fun module =>
    .moduleMember module name span
  refine .bindOption (.typeSymbol? base) ?_ fun type =>
    .typeMember type base name span
  exact .bindOption (.askType base) .noAnswer fun ty =>
    .valueMember ty name span

theorem callTypeMember : Equivariant f Rule.callTypeMember := by
  intro type base name args span
  simp only [rename, Rule.callTypeMember, Expr.rename_span]
  refine .bind (.symbol type) fun symbol => ?_
  refine .bindOption (.resolveType (.named symbol.name) base.span) .noAnswer
    fun ty => ?_
  simp only [rename, Ty.variant?_rename, Ty.memberScope?_rename]
  cases ty.variant? name with
  | some found => exact .callVariant found.1 found.2 args span
  | none =>
    cases ty.memberScope? with
    | none => exact .notCallable ty span
    | some scope =>
      refine .bindOption (.staticMember scope _ name span) .noAnswer
        fun id => ?_
      refine .bind (.symbol id) fun symbol =>
        .ite Iff.rfl (.callFunction id args span) ?_
      exact .bindOption (.symbolType id) .noAnswer fun ty =>
        .notCallable ty span

theorem method? : Equivariant f Rule.method? := by
  intro ty name
  refine .bind (.derefOnce ty) fun ty => ?_
  simp only [rename, Ty.memberScope?_rename]
  cases ty.memberScope? with
  | none => exact .noAnswer
  | some scope =>
    refine .bindOption (.lookupLocal scope name) .noAnswer fun id => ?_
    exact .bind (.symbol id) fun symbol =>
      .pure (rename_inert (fun _ => rfl) _).symm

theorem callMember? : Equivariant f Rule.callMember? := by
  intro base name args span
  refine .bindOption (.typeSymbol? base) ?_ fun type => ?_
  · refine .bind (.moduleSymbol? base) fun module => ?_
    refine .ite (by cases module <;> rfl) .noAnswer ?_
    refine .bindOption (.askType base) (.pure rfl) fun ty => ?_
    refine .bindOption (.method? ty name) .noAnswer fun found => ?_
    refine .bind (.instanceAccess found.1 found.2 name span) fun access => ?_
    exact .ite Iff.rfl (.bind (.callFunction found.1 args span) fun _ =>
      .pure rfl) (.pure rfl)
  · exact .bind (.callTypeMember type base name args span)
      fun answer => .pure rfl

theorem calleeSymbol? : Equivariant f Rule.calleeSymbol? := by
  intro callee
  have hfound : Equivariant f fun id : SymbolId =>
      (do
        return if (← Rule.symbol id).kind == .function then some id else none :
        Rule (Option SymbolId)) :=
    fun id => .bind (.symbol id) fun symbol =>
      .pure (rename_inert (fun _ => rfl) _).symm
  simp only [rename, Rule.calleeSymbol?, Expr.rename_kind]
  cases callee.kind with
  | ident name => exact .bindOption (.lookup name) .noAnswer hfound
  | member base name =>
    refine .bindOption (.moduleSymbol? base) .noAnswer fun module => ?_
    refine .bind (.symbol module) fun symbol => ?_
    obtain ⟨_, _, _, _, _, _, ⟨_, _, _, scope, _⟩, _⟩ := symbol
    cases scope with
    | none => exact .noAnswer
    | some scope => exact .bindOption (.lookupLocal scope name) .noAnswer hfound
  | _ => exact .noAnswer

theorem callValue : Equivariant f Rule.callValue := by
  intro callee args calleeSpan span
  refine .bindOption (.askType callee) .noAnswer fun ty => .bind (.derefOnce ty)
    fun ty => ?_
  cases ty with
  | function params result error =>
    have hargs : ∀ required, Renamed f
        (do Rule.checkArgs params required args span; return some result)
        (do
          Rule.checkArgs (Ty.renameAll f params) required
            (args.map (Expr.rename f)) span
          return some (result.rename f)) := by
      intro required
      rw [Ty.renameAll_eq]
      exact .andThen (.checkArgs params required args span) (.pure rfl)
    refine .bindOption (.calleeSymbol? callee) ?_ fun id => .bind (.symbol id)
      fun symbol => ?_
    · refine .bind (.pure ?_) hargs
      rw [Ty.renameAll_eq, List.length_map]
      rfl
    · exact .bind (.pure (SymbolInfo.requiredParams_rename _)) hargs
  | _ => exact .notCallable _ calleeSpan

theorem inferCall : Equivariant f Rule.inferCall := by
  intro callee args span
  have hvalue := callValue (f := f) callee.unparen args callee.span span
  simp only [rename, Rule.inferCall, Expr.rename_unparen, Expr.rename_kind,
    Expr.rename_span]
  cases callee.unparen.kind with
  | ident name => exact .ite Iff.rfl (.callBuiltin name callee args span) hvalue
  | member base name =>
    exact .bindOption (.callMember? base name args span) hvalue
      fun answer => .pure rfl
  | _ => exact hvalue

/-!
## Indexing
-/

theorem tupleField : Equivariant f Rule.tupleField := by
  intro fields known index
  have hfield : ∀ position : Int, Renamed f (do
      let field := if 0 ≤ position ∧
        position < pow2 64 then fields[position.toNat]? else none
      if field.isNone then
        Rule.report (.indexOutOfBounds position fields.length) index.span
      return field) (do
      let field := if 0 ≤ position ∧ position < pow2 64 then
        (fields.map (Ty.rename f))[position.toNat]? else none
      if field.isNone then
        Rule.report (.indexOutOfBounds position fields.length) index.span
      return field) := by
    intro position
    have hsame : (if 0 ≤ position ∧ position < pow2 64 then
        (fields.map (Ty.rename f))[position.toNat]? else none) =
        (if 0 ≤ position ∧ position < pow2 64 then fields[position.toNat]?
          else none).map (Ty.rename f) := by
      rw [List.getElem?_map]
      split <;> rfl
    simp only [hsame]
    refine .ite (by simp) (.andThen (.report _ rfl) (.pure rfl)) (.pure rfl)
  simp only [rename, Rule.tupleField, List.length_map, Expr.rename_span]
  cases known with
  | some position =>
    refine .bindOption (.pure rfl) ?_ fun position => hfield position
    exact .andThen (.report _ rfl) .noAnswer
  | none =>
    refine .bindOption (.constInt index) ?_ fun position => hfield position
    exact .andThen (.report _ rfl) .noAnswer

theorem checkBounds : Equivariant f Rule.checkBounds := by
  intro array known span
  simp only [rename, Rule.checkBounds, Ty.length?_rename]
  cases known with
  | none => exact .pure rfl
  | some position =>
    cases array.length? with
    | none => exact .pure rfl
    | some length => exact .ite Iff.rfl (.report span rfl) (.pure rfl)

theorem inferIndex : Equivariant f Rule.inferIndex := by
  intro base index
  simp only [rename, Rule.inferIndex, Expr.isRange_rename, Expr.rename_span]
  refine .bindOption (.askType base) .noAnswer fun baseTy =>
    .bind (.normalize baseTy) ?_
  refine fun baseTy =>
    .ite Iff.rfl (.andThen (.discard (.askType index)) (.pure rfl)) ?_
  refine .bindOption (.inferExpecting index (some .usize)) .noAnswer
    fun indexTy => ?_
  refine .bind (.normalize indexTy) fun indexTy => ?_
  simp only [rename, Ty.isInteger_rename, Ty.text_rename, Ty.knownInt?_rename]
  refine .ite Iff.rfl (.andThen (.reportMismatch _ rfl rfl) .noAnswer) ?_
  refine .bind (.derefOnce baseTy) fun ty => ?_
  cases ty with
  | tuple fields =>
    have hfield := tupleField (f := f) fields indexTy.knownInt? index
    simp only [rename, ← Ty.renameAll_eq] at hfield
    exact hfield
  | array element extent mutable =>
    exact .andThen (.checkBounds (.array element extent mutable) _ _)
      (.pure rfl)
  | _ => exact .andThen (.reportMismatch _ rfl (Ty.text_rename _)) .noAnswer

end Renamed
end StaticCheck
