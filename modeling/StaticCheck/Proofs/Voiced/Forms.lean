import StaticCheck.Proofs.Voiced.Resolution

/-!
# Forms of expressions that answer or report

Most forms of expressions have a type if their parts have one, or else report an
error.
-/

namespace StaticCheck

open Rule

variable {program : Program} {n : Nat} {view : View program} {span : Span}
variable {operand callee : Expr} {fields : List ObjectField} {name : String}
    {s : Session} {args : List Expr}

theorem Asked.ofExpr {expr : Expr} (hexpr : expr.Legal program)
    (h : Voiced n view (inferExpr expr)) :
    Asked (n + 1) view (askType expr) where
  answers := h.answers
  lawful := .askType hexpr

theorem require_passed {ty : Ty} {expected : String} {holds : Ty → Bool}
    {judge : Judge} (s : Session)
    (hclean : (require ty span expected holds judge s).2.Clean) :
    (require ty span expected holds judge s).1 = true := by
  unfold require at hclean ⊢
  by_cases h : holds ty = true
  · rw [if_pos h]
    rfl
  · rw [if_neg h] at hclean
    exact ((Session.Leads.refl _ : Session.Leads .free _ _).not_clean (a := s)
      hclean).elim

theorem voiced_requireOne {ty answer : Ty} {expected : String}
    {holds : Ty → Bool} : Voiced n view (do
      if !(← require ty span expected holds) then return none
      return some answer) := by
  exact .guarded .require require_passed (.answer answer)

theorem voiced_requireBoth {left right answer : Ty} {leftSpan rightSpan : Span}
    {expected : String} {holds : Ty → Bool} :
    Voiced n view (do
      if !(← require left leftSpan expected holds) then return none
      if !(← require right rightSpan expected holds) then return none
      return some answer) := by
  exact .guarded .require require_passed voiced_requireOne

theorem voiced_inferArray {first : Expr} {rest : List Expr}
    (hfirst : Asked n view (askType first))
    (hrest : ∀ other ∈ rest, other.Legal program) :
    Voiced n view (inferArray (first :: rest)) := by
  refine .after .expected? fun expected hexpected => ?_
  have helement := Attested.fits_expectedElement? hexpected
  refine (hfirst.withExpected helement).bind .noAnswer fun element hfound => ?_
  refine .after (.forEach fun other hother => ?_) fun _ _ => .answer _
  exact .checkElement hfound helement (hrest other hother)

theorem asked_inferFields {fields : List Expr}
    (hfields : ∀ field ∈ fields, field.Legal program ∧
      Asked n view (askType field))
    {expected : List Ty} (hexpected : Fits program.standard expected) :
    Asked n view (inferFields expected fields) := by
  refine ⟨?_, .inferFields hexpected fun field hfield =>
    (hfields field hfield).1⟩
  induction fields generalizing expected with
  | nil => exact .answer []
  | cons field rest ih =>
    rw [List.forall_mem_cons] at hfields
    have hhead : Fits program.standard expected.head? :=
      fits_option.mpr fun ty hty => fits_list.mp hexpected ty
        (List.mem_of_mem_head? hty)
    have htail : Fits program.standard expected.tail :=
      fits_list.mpr fun ty hty => fits_list.mp hexpected ty
        (List.mem_of_mem_tail hty)
    have hrest : Asked n view (inferFields expected.tail rest) :=
      ⟨ih hfields.2 htail, .inferFields htail fun field hfield =>
        (hfields.2 field hfield).1⟩
    refine (hfields.1.2.withExpected hhead).bind .noAnswer fun ty _ => ?_
    exact hrest.bind .noAnswer fun types _ => .answer _

theorem voiced_inferTuple {fields : List Expr}
    (hfields : ∀ field ∈ fields, field.Legal program ∧
      Asked n view (askType field)) :
    Voiced n view (inferTuple fields) := by
  exact .after .expected? fun _ hexpected =>
    (asked_inferFields hfields (Attested.fits_expectedFields hexpected)).map _

theorem voiced_inferConcat {leftExpr rightExpr : Expr} {left right : Ty} :
    Voiced n view (inferConcat leftExpr rightExpr left right span) := by
  exact .ite (fun _ => .reported) fun _ => .answer _

theorem voiced_inferOperation {op : BinaryOp} {leftExpr rightExpr : Expr}
    {left right : Ty} (hop : op.opClass ≠ .assignment) :
    Voiced n view (inferOperation op leftExpr rightExpr left right span) := by
  unfold inferOperation
  cases hclass : op.opClass with
  | additive | multiplicative | power =>
    exact .ite (fun _ => voiced_inferConcat) fun _ => voiced_requireBoth
  | shift | bitwise => exact voiced_requireBoth
  | equality | relational =>
    exact .ite (fun _ => .after .reportMismatch fun _ _ => .answer _)
      fun _ => .answer _
  | logical =>
    refine .after (.discard .require) fun _ _ => ?_
    exact .after (.discard .require) fun _ _ => .answer _
  | assignment => exact absurd hclass hop

theorem voiced_inferBinary {op : BinaryOp} {left right : Expr}
    (hop : op.opClass ≠ .assignment) (hleft : Asked n view (askType left))
    (hright : Asked n view (askType right)) :
    Voiced n view (inferBinary op left right span) := by
  refine (hleft.withExpected fits_none).bind .noAnswer fun leftTy hleftTy => ?_
  refine (hright.withExpected fits_none).bind .noAnswer
    fun rightTy hrightTy => ?_
  refine .after (.normalize hleftTy) fun leftTy _ => ?_
  refine .after (.normalize hrightTy) fun rightTy _ => ?_
  exact .ite (fun _ => .reported) fun _ => voiced_inferOperation hop

theorem voiced_inferUnary {op : UnaryOp} (hlegal : operand.Legal program)
    (hoperand : Asked n view (askType operand)) :
    Voiced n view (inferUnary op operand span) := by
  by_cases hop : (op == .reference) = true
  · unfold inferUnary
    rw [if_pos hop]
    refine .ite (fun _ => .reported) fun _ => hoperand.bind .noAnswer
      fun pointee _ => ?_
    exact .after (.placeMutability hlegal) fun _ _ => .answer _
  · unfold inferUnary
    rw [if_neg hop]
    refine hoperand.bind .noAnswer fun ty hty => .after (.normalize hty)
      fun ty _ => ?_
    cases op with
    | plus | increment | decrement | bitNot | minus => exact voiced_requireOne
    | not => exact .after (.discard .require) fun _ _ => .answer _
    | reference => exact absurd rfl hop

theorem voiced_inferStep (hoperand : Asked n view (askType operand)) :
    Voiced n view (inferStep operand) := by
  exact hoperand.bind .noAnswer fun _ hty => .after (.normalize hty) fun _ _ =>
    voiced_requireOne

theorem voiced_inferDeref (hoperand : Asked n view (askType operand)) :
    Voiced n view (inferDeref operand) := by
  refine hoperand.bind .noAnswer fun ty hty => .after (.normalize hty)
    fun ty _ => ?_
  split
  · exact .answer _
  · exact .reported

theorem voiced_inferCast {target : Ty} (hdepth : view.room < n)
    (htarget : Meets program.standard target)
    (hoperand : Asked n view (askType operand)) :
    Voiced n view (inferCast operand target span) := by
  refine (hoperand.withExpected fits_none).bind .noAnswer
    fun source hsource => ?_
  refine (asked_resolveTy hdepth target htarget).bind .noAnswer
    fun target htarget => ?_
  refine .after (Attested.canCast htarget hsource) fun castable _ => ?_
  exact .ite (fun _ => .after (.reportCast rfl) fun _ _ => .answer _)
    fun _ => .answer _

theorem voiced_inferOrElse {left right : Expr}
    (hleft : Asked n view (askType left))
    (hright : Asked n view (askType right)) :
    Voiced n view (inferOrElse left right) := by
  refine hleft.bind .noAnswer fun leftTy hleftTy => .after (.normalize hleftTy)
    fun ty hty => ?_
  split
  · rw [Ty.fits_optional] at hty
    refine (hright.withExpected (fits_some.mpr hty)).bind .noAnswer
      fun rightTy hrightTy => ?_
    refine .after (.normalize hrightTy) fun resolved hresolved => ?_
    refine .ite (fun _ => .answer _) fun _ => ?_
    split
    · refine .after (.isCompatible hty (Ty.fits_optional.mp hresolved))
        fun agree _ => ?_
      exact .ite (fun _ => .after .reportMismatch fun _ _ => .answer _)
        fun _ => .answer _
    · refine .after (.isCompatible hty hresolved) fun agree _ => ?_
      exact .ite (fun _ => .after .reportMismatch fun _ _ => .answer _)
        fun _ => .answer _
  · exact .after (.discard hright.lawful) fun _ _ => .answer _

theorem voiced_inferCatch {id : NodeId} {handler : Stmt}
    (hoperand : Asked n view (askType operand))
    (hhandler : Lawful program (checkHandler id handler span)) :
    Voiced n view (inferCatch id operand handler span) := by
  exact hoperand.bind (.andThen hhandler .noAnswer) fun ty _ => .after hhandler
    fun _ _ => .answer ty

theorem voiced_tupleField {fields : List Ty} {known : Option Int} {index : Expr}
    (hindex : index.Legal program) :
    Voiced n view (tupleField fields known index) := by
  have hfield : ∀ position : Int, Voiced n view (do
      let field := if 0 ≤ position ∧
        position < pow2 64 then fields[position.toNat]? else none
      if field.isNone then
        report (.indexOutOfBounds position fields.length) index.span
      return field) := by
    intro position
    dsimp only
    generalize (if 0 ≤ position ∧
      position < pow2 64 then fields[position.toNat]? else none) = field
    cases field with
    | none => exact .reported
    | some ty => exact .answer ty
  have hmissing : Voiced n view (do
      report (.cannotInferType "tuple element at a runtime index") index.span
      return none : Rule (Option Ty)) := .reported
  cases known with
  | some position => exact hfield position
  | none =>
    refine .after (.constInt hindex) fun position _ => ?_
    cases position with
    | none => exact hmissing
    | some position => exact hfield position

theorem voiced_inferIndex {base index : Expr} (hlegal : index.Legal program)
    (hbase : Asked n view (askType base))
    (hindex : Asked n view (askType index)) :
    Voiced n view (inferIndex base index) := by
  refine hbase.bind .noAnswer fun baseTy hbaseTy => ?_
  refine .after (.normalize hbaseTy) fun baseTy hbaseTy => ?_
  refine .ite (fun _ => .after (.discard hindex.lawful) fun _ _ => .answer _)
    fun _ => ?_
  refine (hindex.withExpected (fits_some.mpr (Ty.fits_prim _))).bind
    .noAnswer ?_
  intro indexTy hindexTy
  refine .after (.normalize hindexTy) fun indexTy _ =>
    .ite (fun _ => .reported) fun _ => ?_
  refine .after (.derefOnce hbaseTy) fun ty _ => ?_
  split
  · exact voiced_tupleField hlegal
  · exact .after .checkBounds fun _ _ => .answer _
  · exact .reported

theorem checkUnique_passed {seen : List String} (s : Session)
    (hclean : (checkUnique seen fields (Judge.limited n) s).2.Clean) :
    (checkUnique seen fields (Judge.limited n) s).1 = true := by
  induction fields generalizing seen s with
  | nil => rfl
  | cons field rest ih =>
    unfold checkUnique at hclean ⊢
    by_cases hseen : seen.contains field.name = true
    · rw [if_pos hseen] at hclean
      have hrest : Composed .free .outside
          (do discard (checkUnique seen rest); return false) :=
        .andThen (.discard .checkUnique) (.answer false)
      exact ((hrest.leads n _).not_clean hclean).elim
    · rw [if_neg hseen] at hclean ⊢
      exact ih s hclean

theorem voiced_constructNamed (hdepth : view.room < n)
    (hfields : ∀ field ∈ fields, field.value.Legal program) :
    Voiced n view (constructNamed name fields span) := by
  refine (asked_resolveTy hdepth _ (Ty.meets_named name)).bind .noAnswer
    fun ty hty => ?_
  dsimp only
  split
  · next struct =>
      have hstruct := (Ty.meets_struct _).mp hty.1
      have hconstruct : Voiced n view (do
          discard (checkConstruction struct fields span)
          return some (Ty.struct struct)) :=
        .after (.discard (.checkConstruction hstruct hfields))
          fun _ _ => .answer _
      refine .after .expected? fun expected hexpected => ?_
      cases expected with
      | none => exact hconstruct
      | some expected =>
        refine .after (.normalize (fits_some.mp hexpected)) fun expected _ => ?_
        split
        · exact .ite (fun _ => .reported) fun _ => hconstruct
        · exact hconstruct
  · exact .reported

theorem voiced_synthesize
    (hfields : ∀ field ∈ fields, Asked n view (askType field.value)) :
    Voiced n view (synthesize fields) := by
  refine (Asked.mapSome fun field hfield => ?_).bind .noAnswer
    fun members _ => .answer _
  have hvalue := (hfields field hfield).withExpected fits_none
  refine ⟨hvalue.bind .noAnswer fun ty _ => .answer _, ?_⟩
  exact .bindOption hvalue.lawful .noAnswer fun ty hty =>
    .pure (fits_some.mpr hty)

theorem voiced_inferObject {name : Option String} (hdepth : view.room < n)
    (hlegal : ∀ field ∈ fields, field.value.Legal program)
    (hfields : name = none →
      ∀ field ∈ fields, Asked n view (askType field.value)) :
    Voiced n view (inferObject name fields span) := by
  refine .guarded .checkUnique checkUnique_passed ?_
  cases name with
  | some name => exact voiced_constructNamed hdepth hlegal
  | none =>
    refine .after (.adoptExpected hlegal) fun adopted _ => ?_
    cases adopted with
    | none => exact voiced_synthesize (hfields rfl)
    | some ty => exact .answer ty

theorem voiced_inferLiteral {literal : Literal}
    (harray : ∀ first rest, literal = .array (first :: rest) →
      Asked n view (askType first) ∧ ∀ other ∈ rest, other.Legal program) :
    Voiced n view (inferLiteral literal span) := by
  cases literal with
  | str | float | bool | null | undefined => exact .answer _
  | int text =>
    unfold inferLiteral
    dsimp only
    split
    · exact .answer _
    · exact .after .report fun _ _ => .answer _
  | char text => exact .after .inferChar fun _ _ => .answer _
  | array elements =>
    cases elements with
    | nil => exact .answer _
    | cons first rest =>
      obtain ⟨hfirst, hrest⟩ := harray first rest rfl
      exact voiced_inferArray hfirst hrest

/-!
## Members of modules and types
-/

theorem Voiced.readLookupLocal {α : Type} {scope : ScopeId}
    {next : Option SymbolId → Rule (Option α)}
    (hnone : Voiced n view (next none))
    (hsome : ∀ id, program.collect.tree.lookupLocal scope name = some id →
      Voiced n view (next (some id))) :
      Voiced n view (lookupLocal scope name >>= next) where
  answers s hs hclean := by
    rw [bind_lookupLocal, hs.tree.lookupLocal_eq] at hclean ⊢
    cases hfound : program.collect.tree.lookupLocal scope name with
    | none =>
      rw [hfound] at hclean
      exact hnone.answers s hs hclean
    | some id =>
      rw [hfound] at hclean
      exact (hsome id hfound).answers s hs hclean

section Members

variable {base : Expr} {owner name : String}

theorem namedSymbol?_run (hbase : base.identName? = some owner) (judge : Judge)
    (s : Session) : namedSymbol? base judge s = (s.tree.lookup owner, s) := by
  unfold namedSymbol?
  rw [hbase]
  rfl

theorem moduleSymbol?_run (hbase : base.identName? = some owner) {id : SymbolId}
    (hfound : s.tree.lookup owner = some id) (judge : Judge) :
    moduleSymbol? base judge s =
      (if (s.tree.symbol id).kind == .use then some id else none, s) := by
  unfold moduleSymbol?
  rw [bind_run, namedSymbol?_run hbase, hfound]
  rfl

theorem typeSymbol?_run (hbase : base.identName? = some owner) {id : SymbolId}
    (hfound : s.tree.lookup owner = some id) (judge : Judge) :
    typeSymbol? base judge s = (if (s.tree.symbol id).isTypeName then some id
      else none, s) := by
  unfold typeSymbol?
  rw [bind_run, namedSymbol?_run hbase, hfound]
  rfl

theorem voiced_moduleMember {module : SymbolId}
    (hmember : ∀ scope id, program.collect.tree.lookupLocal scope name =
      some id → Voiced n view (valueOfSymbol id)) :
      Voiced n view (moduleMember module name span) := by
  refine .after .symbol fun symbol _ => ?_
  dsimp only
  split
  · next scope _ =>
      refine .readLookupLocal .reported fun id hid =>
        .after .symbol fun _ _ => ?_
      exact .ite (fun _ => .reported) fun _ => hmember scope id hid
  · exact .reported

theorem lookupLocal_of_staticMember {scope : ScopeId} {typeName : String}
    {judge : Judge} {id : SymbolId}
    (h : id ∈ (staticMember scope typeName name span judge s).1) :
    s.tree.lookupLocal scope name = some id := by
  unfold staticMember at h
  rw [bind_lookupLocal] at h
  cases hfound : s.tree.lookupLocal scope name with
  | none =>
    rw [hfound] at h
    cases h
  | some found =>
    rw [hfound] at h
    dsimp only at h
    rw [bind_symbol] at h
    split at h
    · cases h
    · exact h

theorem asked_staticMember {scope : ScopeId} {typeName : String} :
    Asked n view (staticMember scope typeName name span) := by
  refine ⟨.readLookupLocal .reported fun id _ => ?_, .staticMember⟩
  exact .after .symbol fun _ _ => .ite (fun _ => .reported) fun _ => .answer id

theorem voiced_typeMember {type : SymbolId} (hdepth : view.room < n)
    (hmember : ∀ scope id, program.collect.tree.lookupLocal scope name =
      some id → Voiced n view (valueOfSymbol id)) :
      Voiced n view (typeMember type base name span) := by
  refine .after .symbol fun symbol _ => ?_
  refine (asked_resolveTy hdepth _ (Ty.meets_named _)).bind .noAnswer
    fun ty _ => ?_
  refine .ite (fun _ => .answer ty) fun _ => ?_
  split
  · exact .ite (fun _ => .answer _) fun _ => .reported
  · split
    · next scope _ =>
        refine asked_staticMember.bindFound (P := fun id =>
          program.collect.tree.lookupLocal scope name = some id) ?_ .noAnswer
            fun id hid _ => ?_
        · intro s hs id hid
          rw [← hs.tree.lookupLocal_eq]
          exact lookupLocal_of_staticMember hid
        · exact hmember scope id hid
    · exact .reported

/-- Whether a name always stands for a module or a type, which has its members
without being asked for a type of its own. -/
def ScopeTree.namesOwner (tree : ScopeTree) (scope : ScopeId) (name : String) :
    Bool :=
  tree.alwaysNames scope name fun id => (tree.symbol id).kind == .use ||
    (tree.symbol id).isTypeName

def ScopeTree.namesModule (tree : ScopeTree) (scope : ScopeId) (name : String) :
    Bool :=
  tree.alwaysNames scope name fun id => (tree.symbol id).kind == .use

theorem voiced_inferMember (hbase : base.identName? = some owner)
    (howner : program.collect.tree.namesOwner view.scope owner = true)
    (hdepth : view.room < n)
    (hmember : ∀ scope id, program.collect.tree.lookupLocal scope name =
      some id → Voiced n view (valueOfSymbol id)) :
      Voiced n view (inferMember base name span) where
  answers s hs hclean := by
    obtain ⟨id, hfound, hid⟩ := hs.lookup_of_alwaysNames howner
    rw [← (hs.symbol id).kind_eq, ← hs.tree.isTypeName_eq,
      Bool.or_eq_true] at hid
    unfold inferMember at hclean ⊢
    rw [bind_run, moduleSymbol?_run hbase hfound] at hclean ⊢
    by_cases hmodule : ((s.tree.symbol id).kind == .use) = true
    · rw [if_pos hmodule] at hclean ⊢
      exact (voiced_moduleMember hmember).answers s hs hclean
    · rw [if_neg hmodule] at hclean ⊢
      dsimp only at hclean ⊢
      rw [bind_run, typeSymbol?_run hbase hfound,
        if_pos (hid.resolve_left hmodule)] at hclean ⊢
      exact (voiced_typeMember hdepth hmember).answers s hs hclean

end Members

/-!
## Calls
-/

theorem voiced_callValue {calleeSpan : Span}
    (hargs : ∀ arg ∈ args, arg.Legal program)
    (hcallee : Asked n view (askType callee)) :
    Voiced n view (callValue callee args calleeSpan span) := by
  refine hcallee.bind .noAnswer fun ty hty => .after (.derefOnce hty)
    fun ty hty => ?_
  split
  · next params result error =>
      have hcheck (required : Nat) : Voiced n view (do
          checkArgs params required args span
          return some result) :=
        .after (.checkArgs (Ty.fits_function.mp hty).1 hargs)
          fun _ _ => .answer _
      refine .after .calleeSymbol? fun symbol _ => ?_
      cases symbol with
      | none => exact .after (.answer _) fun required _ => hcheck required
      | some id =>
        refine .after .symbol fun _ _ => ?_
        exact .after (.answer _) fun required _ => hcheck required
  · exact .reported

theorem Builtin.params_of_firstArg {builtin : Builtin.Function}
    (h : Builtin.function? name = some builtin)
    (hresult : builtin.result = .firstArg) :
    ∃ rest, builtin.params = .type :: rest := by
  have hmem := List.mem_of_find?_eq_some h
  simp only [Builtin.functions, List.mem_cons, List.not_mem_nil,
    or_false] at hmem
  rcases hmem with rfl | rfl | rfl | rfl | rfl | rfl
  all_goals cases hresult
  all_goals exact ⟨_, rfl⟩

theorem asked_typeArg {arg : Expr} (harg : arg.Legal program) :
    Asked n view (checkBuiltinArg .type arg) := by
  refine ⟨.after (.exprAsType harg) fun named _ => ?_, .checkBuiltinArg harg⟩
  cases named with
  | none => exact .after (.askType harg) fun _ _ => .reporting .noAnswer
  | some ty => exact .answer ty

theorem voiced_callBuiltin (hargs : ∀ arg ∈ args, arg.Legal program) :
    Voiced n view (callBuiltin name callee args span) := by
  unfold callBuiltin
  split
  · next builtin hbuiltin =>
      cases hresult : builtin.result with
      | fixed ty =>
        refine .after .checkArity fun _ _ => ?_
        cases args with
        | nil => exact .answer _
        | cons arg rest =>
          rw [List.forall_mem_cons] at hargs
          refine .after (.checkBuiltinArg hargs.1) fun first _ => ?_
          exact .after (.checkBuiltinArgs hargs.2) fun _ _ => .answer _
      | firstArg =>
        obtain ⟨kinds, hparams⟩ := Builtin.params_of_firstArg hbuiltin hresult
        rw [hparams]
        cases args with
        | nil => exact .reporting .noAnswer
        | cons arg rest =>
          rw [List.forall_mem_cons] at hargs
          refine .after .checkArity fun _ _ => (asked_typeArg hargs.1).bind ?_
            fun ty _ => ?_
          · exact .andThen (.checkBuiltinArgs hargs.2) .noAnswer
          · exact .after (.checkBuiltinArgs hargs.2) fun _ _ => .answer ty
  · exact .reporting (.andThen (.inferEach hargs) .noAnswer)

def Expr.namesBuiltin (callee : Expr) : Bool :=
  match callee.unparen.kind with
  | .ident name => Builtin.isName name
  | _ => false

theorem voiced_inferCall_of_builtin (hargs : ∀ arg ∈ args, arg.Legal program)
    (hbuiltin : callee.namesBuiltin = true) :
    Voiced n view (inferCall callee args span) := by
  unfold Expr.namesBuiltin at hbuiltin
  unfold inferCall
  dsimp only
  split
  · next name hkind =>
      rw [hkind] at hbuiltin
      rw [if_pos hbuiltin]
      exact voiced_callBuiltin hargs
  · next hkind =>
      rw [hkind] at hbuiltin
      cases hbuiltin
  · next hident _ =>
      split at hbuiltin
      · next name hkind => exact absurd hkind (hident name)
      · cases hbuiltin

theorem callMember?_of_module {base : Expr} {owner : String}
    (hs : s.Sees view) (hbase : base.identName? = some owner)
    (howner : program.collect.tree.namesModule view.scope owner = true)
    (judge : Judge) :
    callMember? base name args span judge s = (none, s) := by
  obtain ⟨id, hfound, hid⟩ := hs.lookup_of_alwaysNames howner
  rw [← (hs.symbol id).kind_eq] at hid
  have htype : ¬(s.tree.symbol id).isTypeName = true := by
    simp [Symbol.isTypeName, beq_iff_eq.mp hid]
  unfold callMember?
  rw [bind_run, typeSymbol?_run hbase hfound, if_neg htype]
  dsimp only
  rw [bind_run, moduleSymbol?_run hbase hfound, if_pos hid]
  rfl

theorem voiced_inferCall
    (hmember : ∀ base name, callee.unparen.kind = .member base name →
      ∃ owner, base.identName? = some owner ∧
      program.collect.tree.namesModule view.scope owner = true)
    (hargs : ∀ arg ∈ args, arg.Legal program)
    (hcallee : Asked n view (askType callee.unparen)) :
    Voiced n view (inferCall callee args span) := by
  have hvalue :
      Voiced n view (callValue callee.unparen args callee.span span) :=
    voiced_callValue hargs hcallee
  unfold inferCall
  dsimp only
  split
  · exact .ite (fun _ => voiced_callBuiltin hargs) fun _ => hvalue
  · next base name hkind =>
      obtain ⟨owner, hbase, howner⟩ := hmember base name hkind
      -- The question for a method is left without an answer, in the same
      -- session.
      constructor
      intro s hs hclean
      rw [bind_run, callMember?_of_module hs hbase howner] at hclean ⊢
      exact hvalue.answers s hs hclean
  · exact hvalue

end StaticCheck
