import StaticCheck.Proofs.Voiced.Symbols

/-!
# Declarations of accepted programs

In a program that a first pass accepts, a declaration outside of expressions has
a type once it has been checked, if what it says is enough to tell the type
aloud.  An annotation always is.  Without one the type comes from the
initializer, and an initializer that asks for a symbol that is still being typed
has none; nobody is told.
-/

namespace StaticCheck

open Rule

variable {α : Type} {program : Program} {n : Nat} {view : View program}
    {s : Session} {id : SymbolId} {scope : ScopeId} {span : Span}
variable {name : String} {decl : DefDecl} {ty : Ty}
    {loops : List (String × NodeId)}

/-- The symbol has been checked and has a type. -/
def Symbol.Complete (symbol : Symbol) : Prop :=
  symbol.checked = true ∧ symbol.ty.isSome = true

instance (symbol : Symbol) : Decidable symbol.Complete :=
  inferInstanceAs (Decidable (_ ∧ _))

theorem Session.Leads.complete {a b : Session} (h : a.Leads (.listed loops) b)
    (hloop : a.tree.NoLoopBinds loops id) (hid : (a.tree.symbol id).Complete) :
    (b.tree.symbol id).Complete := by
  constructor
  · exact (h.tree.symbols id).checked hid.1
  · exact h.keeps.typed loops rfl id hloop hid.2

/-!
## Rules that complete a symbol
-/

def GivesType (n : Nat) (rule : Rule α) (id : SymbolId) (s : Session) : Prop :=
  (rule (Judge.limited n) s).2.Clean →
    ((rule (Judge.limited n) s).2.tree.symbol id).ty.isSome = true

/-- If the rule ends without an error, the symbol is complete, unless a loop
binds it. -/
def Completes (loops : List (String × NodeId)) (n : Nat) (rule : Rule α)
    (id : SymbolId) (s : Session) : Prop :=
  (rule (Judge.limited n) s).2.tree.NoLoopBinds loops id →
    (rule (Judge.limited n) s).2.Clean →
    ((rule (Judge.limited n) s).2.tree.symbol id).Complete

theorem Session.Sees.index_lt (h : s.Sees view)
    (hid : id.index < program.collect.tree.symbols.size) :
    id.index < s.tree.symbols.size := by
  rw [h.tree.size]
  exact hid

theorem Session.Sees.lookupLocal (h : s.Sees view)
    (hname : program.collect.tree.lookupLocal view.scope name = some id) :
    s.tree.lookupLocal s.tree.current name = some id := by
  rw [h.current, h.tree.lookupLocal_eq]
  exact hname

theorem asked_annotatedType {written : Ty} {value : Option Expr}
    (hdepth : view.room < n) (hwritten : Meets program.standard written)
    (hvalue : ∀ expr ∈ value, expr.Legal program) :
    Asked n view (annotatedType written value span) := by
  refine ⟨?_, .annotatedType hwritten hvalue⟩
  refine (asked_resolveTy hdepth written hwritten).bind .noAnswer
    fun target htarget => ?_
  exact .after (.checkGivenValue htarget hvalue) fun _ _ => .answer target

theorem asked_bindingType {decl : LetDecl} (hdepth : view.room < n)
    (hty : Meets program.standard decl.ty)
    (hlegal : ∀ value ∈ decl.value, value.Legal program)
    (hvalue : decl.ty = none → ∀ value ∈ decl.value,
      Asked n view (askType value)) :
    Asked n view (bindingType decl span) := by
  refine ⟨?_, .bindingType hty hlegal⟩
  unfold bindingType
  split
  · next _ written hwritten =>
      exact (asked_annotatedType hdepth (hty written hwritten) hlegal).toVoiced
  · next value hnone hsome =>
      refine ((hvalue hnone value hsome).withExpected fits_none).bind ?_
        fun ty _ => ?_
      · cases decl.mutable
        · exact .noAnswer
        · exact .noAnswer
      · cases decl.mutable
        · exact .answer ty
        · exact .answer ty.concretize
  · exact .reported

theorem ScopeTree.lookup_of_lookupLocal {tree : ScopeTree}
    (hname : tree.lookupLocal tree.current name = some id)
    (hkind : (tree.symbol id).kind ≠ .var) :
    tree.lookup name = some id := by
  have hchain : ∃ rest, tree.chain tree.current = tree.current :: rest := by
    unfold chain climb
    cases tree.parent? tree.current with
    | none => exact ⟨_, rfl⟩
    | some parent => exact ⟨_, rfl⟩
  obtain ⟨rest, hchain⟩ := hchain
  have hpending : tree.isPending (tree.scope tree.current) id = false := by
    simp [isPending, hkind]
  have hown : tree.ownOffer? (tree.scope tree.current) name = some id := by
    unfold ownOffer?
    rw [show (tree.scope tree.current).get? name = some id from hname]
    simp [hpending]
  unfold lookup lookupFrom
  rw [hchain]
  simp [offer?, hown]

theorem resolveNamed_of_alias (span : Span) (loud : Bool) (judge : Judge)
    (hbuiltin : Builtin.type? name = .ok none)
    (hfound : s.tree.lookup name = some id)
    (htype : (s.tree.symbol id).isTypeName = true) :
    resolveNamed name span loud judge s =
      unfoldAlias id name span loud judge s := by
  unfold resolveNamed
  rw [hbuiltin]
  dsimp only
  rw [bind_lookup, hfound]
  dsimp only
  rw [bind_symbol, if_pos htype]

section Seen

variable (hs : s.Sees view) (hid : id.index < program.collect.tree.symbols.size)

include hs hid

theorem complete_of_checkLet {decl : LetDecl}
    (hname : s.tree.lookupLocal s.tree.current decl.name = some id)
    (hlegal : ∀ value ∈ decl.value, value.Legal program)
    (hbinding : Asked n view (bindingType decl span)) :
    Completes loops n (checkLet decl span) id s := by
  intro _ hclean
  have hbare : Lawful program (forEach checkBareVariant decl.value.toList) :=
    .forEach fun value hvalue =>
      .checkBareVariant (hlegal value (Option.mem_toList.mp hvalue))
  have hvoiced :=
    (Voiced.after hbare fun _ _ => hbinding.toVoiced).withDeclaration decl.name
  have hlawful : Lawful program (withDeclaration decl.name (do
      forEach checkBareVariant decl.value.toList
      bindingType decl span)) :=
    .withDeclaration (.andThen hbare hbinding.lawful)
  have hlater := hs.run hlawful n
  have hanswer := hvoiced.answers s hs
  unfold checkLet at hclean ⊢
  rw [bind_run, declaredSymbol_run span _ hname] at hclean ⊢
  dsimp only at hclean ⊢
  rw [bind_run] at hclean ⊢
  generalize withDeclaration decl.name _ (Judge.limited n) s =
    run at hlater hanswer hclean ⊢
  obtain ⟨ty, t⟩ := run
  show ((t.tree.updateSymbol id _).symbol id).Complete
  rw [ScopeTree.symbol_updateSymbol_of_lt _ _ (hlater.index_lt hid)]
  exact ⟨rfl, by simp [Option.isSome_or, hanswer hclean]⟩

theorem givesType_setTypeIfNone {rule : Rule (Option Ty)}
    (hrule : Asked n view rule) :
    GivesType n (rule >>= setTypeIfNone id) id s := by
  intro hclean
  have hlater := hs.run hrule.lawful n
  have hanswer := hrule.answers s hs
  rw [bind_run] at hclean ⊢
  generalize rule (Judge.limited n) s = run at hlater hanswer hclean ⊢
  obtain ⟨ty, t⟩ := run
  show ((t.tree.updateSymbol id _).symbol id).ty.isSome = true
  rw [ScopeTree.symbol_updateSymbol_of_lt _ _ (hlater.index_lt hid)]
  simp [Option.isSome_or, hanswer hclean]

theorem givesType_checkConstant (hdepth : view.room < n)
    (hty : Meets program.standard decl.ty) (hlegal : decl.value.Legal program)
    (hvalue : decl.ty = none → Asked n view (askType decl.value)) :
    GivesType n (checkConstant id decl span) id s := by
  intro hclean
  have hbare : Lawful program (checkBareVariant decl.value) :=
    .checkBareVariant hlegal
  have hlater := hs.run hbare n
  unfold checkConstant at hclean ⊢
  rw [bind_run] at hclean ⊢
  cases hwritten : decl.ty with
  | some written =>
    rw [hwritten] at hclean
    refine givesType_setTypeIfNone hlater hid
      (asked_annotatedType hdepth ?_ ?_) hclean
    · exact hty written hwritten
    · rintro value ⟨⟩
      exact hlegal
  | none =>
    rw [hwritten] at hclean
    exact givesType_setTypeIfNone hlater hid
      ((hvalue hwritten).withExpected fits_none) hclean

theorem complete_of_checkDef
    (hname : s.tree.lookupLocal s.tree.current decl.name = some id)
    (hty : Meets program.standard decl.ty) (hlegal : decl.value.Legal program)
    (hdefined : ∀ t : Session, t.Sees view → t.tree = s.tree →
      GivesType n (checkDefined id decl span) id t) :
    Completes loops n (checkDef decl span) id s := by
  intro _ hclean
  have hlawful :
      Lawful program (withDeclaration decl.name (checkDefined id decl span)) :=
    .withDeclaration (.checkDefined (fun _ h => h.elim) hty hlegal)
  have hlater := hs.run hlawful n
  have htyped :
      GivesType n (withDeclaration decl.name (checkDefined id decl span)) id
      s :=
    hdefined { s with context := s.context.pushDeclaration decl.name }
      (hs.setContext hs.within.expectations) rfl
  unfold checkDef at hclean ⊢
  rw [bind_run, declaredSymbol_run span _ hname] at hclean ⊢
  dsimp only at hclean ⊢
  rw [bind_run] at hclean ⊢
  unfold GivesType at htyped
  generalize withDeclaration decl.name _ (Judge.limited n) s =
    run at hlater htyped hclean ⊢
  obtain ⟨_, t⟩ := run
  show ((t.tree.updateSymbol id _).symbol id).Complete
  rw [ScopeTree.symbol_updateSymbol_of_lt _ _ (hlater.index_lt hid)]
  exact ⟨rfl, htyped hclean⟩

theorem typed_of_typedOnce {typing : Symbol → Rule (Option Ty)}
    (hlawful : Lawful program (typedOnce id typing))
    (hanswer : (typedOnce id typing (Judge.limited n) s).1.isSome = true) :
    ((typedOnce id typing (Judge.limited n) s).2.tree.symbol id).ty.isSome =
      true := by
  have hsize := (hs.run hlawful n).index_lt hid
  cases hty : (s.tree.symbol id).ty with
  | some ty =>
    rw [typedOnce_of_some hty]
    simp [hty]
  | none =>
    rw [typedOnce_of_none hty] at hsize hanswer ⊢
    generalize typing (s.tree.symbol id) (Judge.limited n) s =
      run at hsize hanswer ⊢
    obtain ⟨answer, t⟩ := run
    cases answer with
    | none => cases hanswer
    | some ty =>
      have hlt : id.index < t.tree.symbols.size := by
        simpa [ScopeTree.updateSymbol] using hsize
      show ((t.tree.updateSymbol id _).symbol id).ty.isSome = true
      rw [ScopeTree.symbol_updateSymbol_of_lt _ _ hlt]
      rfl

theorem givesType_checkAlias (hdepth : view.room < n)
    (hbuiltin : Builtin.type? name = .ok none)
    (hname : s.tree.lookupLocal s.tree.current name = some id)
    (htype : (s.tree.symbol id).isTypeName = true) :
    GivesType n (checkAlias id name ty span) id s := by
  intro hclean
  have hkind : (s.tree.symbol id).kind ≠ .var := by
    intro hvar
    simp [Symbol.isTypeName, hvar] at htype
  have hfound := ScopeTree.lookup_of_lookupLocal hname hkind
  have hresolved :=
    resolveNamed_of_alias span true (Judge.limited n) hbuiltin hfound htype
  have hanswer : (resolveNamed name span true (Judge.limited n) s).2.Clean →
      (resolveNamed name span true (Judge.limited n) s).1.isSome = true :=
    (asked_resolveTy hdepth (.named name) (Ty.meets_named name)).answers s hs
  have hrun : checkAlias id name ty span (Judge.limited n) s =
      (if s.tree.contains id s.unfolding s.tree.current ty = true
        then report (.circularTypeDependency name) span
        else discard (resolveNamed name span true)) (Judge.limited n) s := rfl
  rw [hrun] at hclean ⊢
  by_cases hcycle : s.tree.contains id s.unfolding s.tree.current ty = true
  · rw [if_pos hcycle] at hclean
    exact absurd hclean
      ((Session.Leads.refl _ : Session.Leads .free _ _).not_clean (a := s))
  · rw [if_neg hcycle] at hclean ⊢
    have hsome := hanswer hclean
    show ((resolveNamed name span true (Judge.limited n) s).2.tree.symbol
      id).ty.isSome = true
    rw [hresolved] at hsome ⊢
    exact typed_of_typedOnce hs hid .unfoldAlias hsome

theorem complete_of_declareFunction
    (hname : s.tree.lookupLocal s.tree.current name = some id)
    (hsignature : Asked n view (functionType id)) :
    Completes loops n (declareFunction name) id s := by
  intro _ hclean
  have hlater := hs.run hsignature.lawful n
  have hanswer := hsignature.answers s hs
  unfold declareFunction at hclean ⊢
  rw [bind_tree, bind_lookupLocal, hname] at hclean ⊢
  dsimp only at hclean ⊢
  show (((functionType id (Judge.limited n) s).2.tree.updateSymbol id _).symbol
    id).Complete
  rw [ScopeTree.symbol_updateSymbol_of_lt _ _ (hlater.index_lt hid)]
  exact ⟨rfl, typed_of_typedOnce hs hid hsignature.lawful (hanswer hclean)⟩

theorem complete_of_recordField {members : ScopeId} {field : Slot}
    (hname : s.tree.lookupLocal members field.name = some id) :
    Completes loops n (recordField members field ty) id s := by
  intro _ _
  have hrun : recordField members field ty (Judge.limited n) s = ((),
      { s with
        tree := (s.tree.updateSymbol id fun symbol =>
          { symbol with ty := symbol.ty.or (some ty) }).updateSymbol id
            fun symbol =>
            { symbol with checked := true } }) := by
    unfold recordField
    rw [bind_lookupLocal, hname]
    rfl
  have hlt := hs.index_lt hid
  have hset : id.index < (s.tree.updateSymbol id fun symbol =>
      { symbol with ty := symbol.ty.or (some ty) }).symbols.size := by
    simpa [ScopeTree.updateSymbol] using hlt
  rw [hrun]
  dsimp only
  rw [ScopeTree.symbol_updateSymbol_of_lt _ _ hset,
    ScopeTree.symbol_updateSymbol_of_lt _ _ hlt]
  exact ⟨rfl, by simp⟩

end Seen

/-!
## Statements that complete a symbol
-/

variable {policy : Policy} {place : Place}

theorem Passes.completes {β : Type} {rule : Rule α} {part : Rule β}
    {there : Session → Prop} (h : Passes (.listed loops) n rule s part there)
    (hpart : ∀ t, s.Leads (.listed loops) t → there t →
      Completes loops n part id t) :
    Completes loops n rule id s := by
  intro hloop hclean
  obtain ⟨t, hthere, hbefore, hafter⟩ := h
  have hinner := hafter.noLoopBinds_iff.mp hloop
  exact hafter.complete hinner
    (hpart t hbefore hthere hinner (hafter.clean hclean))

theorem passes_declareFunction {func : FuncDecl} {owner : Option ScopeId}
    (hs : s.Within policy place) (hfunc : func.Suits policy.regime place)
    {body : ScopeId} (hnode : s.tree.nodeScope? func.id = some body) :
    Passes policy n (checkFunction func owner) s (declareFunction func.name)
      (· = s) := by
  have hdeclare : Composed policy place (declareFunction func.name) :=
    .declareFunction
  obtain ⟨hparams, hresult, hstmts, hnames⟩ :=
    func.suits_iff_opens.mp hfunc body
  refine .bind_tree ?_
  rw [hnode]
  refine .bind_left (.self rfl) (hdeclare.step n hs) fun _ _ => ?_
  exact .checkBody hparams hresult hstmts hnames

theorem not_clean_of_reportCycle {declared : Option SymbolId} {judge : Judge}
    (hcycle : (reportCycle declared ty name span judge s).1 = true) :
    ¬(reportCycle declared ty name span judge s).2.Clean := by
  cases declared with
  | none => cases hcycle
  | some id =>
    have hrun : reportCycle (some id) ty name span judge s =
        (if s.tree.contains id s.unfolding s.tree.current ty = true
          then (do report (.circularTypeDependency name) span; return true)
          else return false : Rule Bool) judge s := rfl
    rw [hrun] at hcycle ⊢
    by_cases hfound : s.tree.contains id s.unfolding s.tree.current ty = true
    · rw [if_pos hfound]
      exact (Session.Leads.refl _ : Session.Leads .free _ _).not_clean (a := s)
    · rw [if_neg hfound] at hcycle
      cases hcycle

section Fields

variable {members : ScopeId} {field : Slot} {declared : Option SymbolId}
    {owner : String}

theorem passes_recordField (hs : s.Within (.listed program.loops) place)
    (hsees : s.Sees view)
    (hdepth : view.room < n) (hty : Obeys (.listed program.loops) field.ty)
    (hdefault : ∀ value ∈ field.default,
      value.Suits program.standard.toRegime place)
    (hclean : (checkFieldType members field (Judge.limited n) s).2.Clean) :
    ∃ ty, Passes (.listed program.loops) n (checkFieldType members field) s
      (recordField members field ty) (·.Sees view) := by
  have hresolve : Composed (.listed program.loops) place
      (resolveType field.ty field.span) :=
    .resolveType hty
  have hasked : Asked n view (resolveType field.ty field.span) :=
    asked_resolveTy hdepth field.ty hty
  have hstep := hresolve.step n hs
  have hlater := hsees.anywhere hstep
  have hanswer := hasked.answers s hsees
  unfold checkFieldType at hclean ⊢
  rw [bind_run] at hclean
  suffices hrecord : ∃ ty,
      Passes (.listed program.loops) n _ _ (recordField members field ty)
      (·.Sees view) from
    hrecord.imp fun ty hpasses => .bind_right hstep.leads hpasses
  generalize resolveType field.ty field.span (Judge.limited n) s = run
    at hstep hlater hanswer hclean ⊢
  obtain ⟨answer, t⟩ := run
  cases answer with
  | none => exact absurd (hanswer hclean) (by simp)
  | some ty =>
    have hfits := fits_of_obeys (meets_some.mp hstep.answer)
    have hrecord : Composed (.listed program.loops) place
        (recordField members field ty) :=
      Composed.recordField hfits
    refine ⟨ty, .bind_left (.self hlater) (hrecord.step n hstep.within)
      fun _ _ => ?_⟩
    exact .checkGivenValue hfits hdefault

theorem passes_afterCycle (hs : s.Within (.listed program.loops) place)
    (hsees : s.Sees view)
    (hclean : ((do
      if ← reportCycle declared field.ty owner field.span then return ()
      checkFieldType members field : Rule Unit) (Judge.limited n) s).2.Clean) :
    Passes (.listed program.loops) n (do
      if ← reportCycle declared field.ty owner field.span then return ()
      checkFieldType members field) s (checkFieldType members field)
        fun t => t.Within (.listed program.loops) place ∧ t.Sees view := by
  have hcycle : Composed (.listed program.loops) place
      (reportCycle declared field.ty owner field.span) :=
    .reportCycle
  have hstep := hcycle.step n hs
  have hlater := hsees.anywhere hstep
  have hnoisy :
      (reportCycle declared field.ty owner field.span (Judge.limited n) s).1 =
      true →
      ¬(reportCycle declared field.ty owner field.span (Judge.limited n)
        s).2.Clean :=
    not_clean_of_reportCycle
  refine .bind_right hstep.leads ?_
  rw [bind_run] at hclean
  generalize reportCycle declared field.ty owner field.span
    (Judge.limited n) s = run at hstep hlater hnoisy hclean ⊢
  obtain ⟨cyclic, t⟩ := run
  cases cyclic with
  | true => exact absurd hclean (hnoisy rfl)
  | false => exact .self ⟨hstep.within, hlater⟩

theorem passes_checkFieldType (hs : s.Within (.listed program.loops) place)
    (hsees : s.Sees view)
    (hclean : (checkStructField members declared owner field (Judge.limited n)
      s).2.Clean) :
    Passes (.listed program.loops) n
      (checkStructField members declared owner field) s
      (checkFieldType members field) fun t =>
      t.Within (.listed program.loops) place ∧ t.Sees view := by
  have hwarn : Composed (.listed program.loops) place
      (report (.mutabilityMismatch field.name "static fields cannot be mutable")
        field.span) :=
    .report
  have hstep := hwarn.step n hs
  unfold checkStructField at hclean ⊢
  by_cases hstatic : (field.visibility == .static && field.mutable) = true
  · rw [if_pos hstatic] at hclean ⊢
    exact .bind_right hstep.leads
      (passes_afterCycle hstep.within (hsees.anywhere hstep) hclean)
  · rw [if_neg hstatic] at hclean ⊢
    exact passes_afterCycle hs hsees hclean

end Fields

/-!
## Declarations that tell a type
-/

def Stmt.methods? (stmt : Stmt) : Option (NodeId × List FuncDecl) :=
  match stmt.kind with
  | .struct decl => some (decl.id, decl.methods)
  | .enum decl => some (decl.id, decl.methods)
  | _ => none

/-- The types in the signature of the function resolve, where the function is
declared. -/
def ScopeTree.SignatureResolves (tree : ScopeTree) (fuel : Nat)
    (id : SymbolId) : Prop :=
  (tree.symbol id).info.signature.all (tree.resolves fuel []
    (tree.symbol id).innerScope) = true

/-- The statement, which stands in `scope`, declares the symbol and says enough
for its type to be told or its absence to be reported. -/
inductive ScopeTree.TellsType (tree : ScopeTree) (fuel : Nat) (scope : ScopeId)
    (id : SymbolId) : Stmt → Prop
  | binding {stmt : Stmt} {decl : LetDecl} (hkind : stmt.kind = .letDecl decl)
      (hname : tree.lookupLocal scope decl.name = some id)
      (hvalue : decl.ty = none → ∀ value ∈ decl.value,
        value.answerable (tree.tells fuel scope) [] = true) :
      TellsType tree fuel scope id stmt
  | constant {stmt : Stmt} {decl : DefDecl} (hkind : stmt.kind = .defDecl decl)
      (hname : tree.lookupLocal scope decl.name = some id)
      (hconstant : ∀ ty, decl.value.kind ≠ .type ty)
      (hvalue : decl.ty = none →
        decl.value.answerable (tree.tells fuel scope) [] = true) :
      TellsType tree fuel scope id stmt
  | errorSet {stmt : Stmt} {decl : DefDecl} {names : List String}
      (hkind : stmt.kind = .defDecl decl)
      (hvalue : decl.value.kind = .type (.errors names))
      (hname : tree.lookupLocal scope decl.name = some id)
      (htype : (tree.symbol id).isTypeName = true)
      (htyped : (tree.symbol id).ty.isSome = true) :
      TellsType tree fuel scope id stmt
  | typeAlias {stmt : Stmt} {decl : DefDecl} {ty : Ty}
      (hkind : stmt.kind = .defDecl decl)
      (hvalue : decl.value.kind = .type ty) (hset : ∀ names, ty ≠ .errors names)
      (hname : tree.lookupLocal scope decl.name = some id)
      (htype : (tree.symbol id).isTypeName = true)
      (hbuiltin : Builtin.type? decl.name = .ok none) :
      TellsType tree fuel scope id stmt
  | field {stmt : Stmt} {decl : StructDecl} {members : ScopeId} {field : Slot}
      (hkind : stmt.kind = .struct decl)
      (hnode : tree.nodeScope? decl.id = some members)
      (hfield : field ∈ decl.fields)
      (hname : tree.lookupLocal members field.name = some id) :
      TellsType tree fuel scope id stmt
  | function {stmt : Stmt} {decl : FuncDecl} {body : ScopeId}
      (hkind : stmt.kind = .func decl)
      (hnode : tree.nodeScope? decl.id = some body)
      (hname : tree.lookupLocal scope decl.name = some id)
      (hsignature : tree.SignatureResolves fuel id) :
      TellsType tree fuel scope id stmt
  | method {stmt : Stmt} {node : NodeId} {methods : List FuncDecl}
      {method : FuncDecl}
      {members body : ScopeId} (hmethods : stmt.methods? = some (node, methods))
      (hnode : tree.nodeScope? node = some members) (hmethod : method ∈ methods)
      (hbody : tree.nodeScope? method.id = some body)
      (hname : tree.lookupLocal members method.name = some id)
      (hsignature : tree.SignatureResolves fuel id) :
      TellsType tree fuel scope id stmt

section Visits

variable {options : Options} {evaluator : Evaluator} {stmt : Stmt} {t : Session}
    {fuel : Nat}

theorem Session.Leads.sees
    (h : ((Session.new program options).withEvaluator evaluator).Leads
      (.listed program.loops) t)
    (hloops : program.LoopsBindVariables)
    (ht : t.At (.listed program.loops) place scope) :
    t.Sees (View.ofScope program scope) where
  loops := hloops
  within := { ht.within with frame := fun _ => ht.within.frame nofun }
  keeps id hkind := h.keepsType fun loop hloop hbound =>
    hkind (hloops loop hloop id hbound)
  tree := h.tree
  current := ht.current
  unfolding := h.unfolding
  inFlight := by
    rw [h.inFlight]
    exact fun _ hmem => (List.not_mem_nil hmem).elim

theorem View.room_ofScope_lt {size : Nat}
    (hsize : (View.ofScope program scope).depth + (size + 1) ≤ n) :
    (View.ofScope program scope).room < n := by
  have hle := (View.ofScope program scope).room_le_depth
  omega

section Seen

variable (ht : t.Sees (View.ofScope program scope))

include ht

theorem complete_of_let {decl : LetDecl}
    (hname : program.collect.tree.lookupLocal scope decl.name = some id)
    (hvalue : decl.ty = none → ∀ value ∈ decl.value,
      value.answerable (program.collect.tree.tells fuel scope) [] = true)
    (hty : Meets program.standard decl.ty)
    (hlegal : ∀ value ∈ decl.value, value.Legal program)
    (hsize : (View.ofScope program scope).depth +
      ((StmtKind.letDecl decl).size + 1) ≤ n) :
    Completes loops n (checkLet decl span) id t := by
  apply complete_of_checkLet ht (program.collect_wellFormed.index_lt hname)
  · exact ht.lookupLocal hname
  · exact hlegal
  · apply asked_bindingType (View.room_ofScope_lt hsize) hty hlegal
    intro hty value hmem
    have hle : value.size ≤ (StmtKind.letDecl decl).size := by
      obtain ⟨name, visibility, mutable, ty, initial⟩ := decl
      cases hmem
      exact Nat.le_add_left _ _
    exact asked_askType (View.settles_tells fuel scope) (hlegal value hmem)
      (hvalue hty value hmem) (by omega)

theorem complete_of_constant
    (hname : program.collect.tree.lookupLocal scope decl.name = some id)
    (hconstant : ∀ ty, decl.value.kind ≠ .type ty)
    (hvalue : decl.ty = none →
      decl.value.answerable (program.collect.tree.tells fuel scope) [] = true)
    (hty : Meets program.standard decl.ty) (hlegal : decl.value.Legal program)
    (hsize : (View.ofScope program scope).depth +
      ((StmtKind.defDecl decl).size + 1) ≤ n) :
    Completes loops n (checkDef decl span) id t := by
  have hid := program.collect_wellFormed.index_lt hname
  have hdefined : checkDefined id decl span = checkConstant id decl span := by
    unfold checkDefined
    split
    · next names hkind => exact absurd hkind (hconstant _)
    · next ty _ hkind => exact absurd hkind (hconstant ty)
    · rfl
  apply complete_of_checkDef ht hid (ht.lookupLocal hname) hty hlegal
  · intro u hu _
    rw [hdefined]
    apply givesType_checkConstant hu hid (View.room_ofScope_lt hsize) hty hlegal
    intro hty
    have hle : decl.value.size ≤ (StmtKind.defDecl decl).size := by
      cases decl
      exact Nat.le_add_left _ _
    exact asked_askType (View.settles_tells fuel scope) hlegal
      (hvalue hty) (by omega)

theorem complete_of_errorSet {names : List String}
    (hvalue : decl.value.kind = .type (.errors names))
    (hname : program.collect.tree.lookupLocal scope decl.name = some id)
    (htype : (program.collect.tree.symbol id).isTypeName = true)
    (htyped : (program.collect.tree.symbol id).ty.isSome = true)
    (hty : Meets program.standard decl.ty) (hlegal : decl.value.Legal program) :
    Completes loops n (checkDef decl span) id t := by
  have hvar : (program.collect.tree.symbol id).kind ≠ .var := by
    intro hkind
    simp [Symbol.isTypeName, hkind] at htype
  apply complete_of_checkDef ht (program.collect_wellFormed.index_lt hname)
    (ht.lookupLocal hname) hty hlegal
  intro u hu _ _
  unfold checkDefined
  rw [hvalue]
  exact hu.typed hvar htyped

theorem complete_of_alias (hvalue : decl.value.kind = .type ty)
    (hset : ∀ names, ty ≠ .errors names)
    (hname : program.collect.tree.lookupLocal scope decl.name = some id)
    (htype : (program.collect.tree.symbol id).isTypeName = true)
    (hbuiltin : Builtin.type? decl.name = .ok none)
    (hty : Meets program.standard decl.ty) (hlegal : decl.value.Legal program)
    (hroom : (View.ofScope program scope).room < n) :
    Completes loops n (checkDef decl span) id t := by
  have hid := program.collect_wellFormed.index_lt hname
  have hdefined : checkDefined id decl span =
      checkAlias id decl.name ty span := by
    unfold checkDefined
    rw [hvalue]
    cases ty with
    | errors names => exact absurd rfl (hset names)
    | _ => rfl
  have hlocal := ht.lookupLocal hname
  apply complete_of_checkDef ht hid hlocal hty hlegal
  intro u hu htree
  rw [hdefined]
  apply givesType_checkAlias hu hid hroom hbuiltin
  · rw [htree]
    exact hlocal
  · rw [hu.tree.isTypeName_eq]
    exact htype

end Seen

section Led

variable (hstart : ((Session.new program options).withEvaluator evaluator).Leads
  (.listed program.loops) t) (hloops : program.LoopsBindVariables)

include hstart hloops

theorem completes_field {decl : StructDecl} {members : ScopeId} {field : Slot}
    (hnode : program.collect.tree.nodeScope? decl.id = some members)
    (hfield : field ∈ decl.fields)
    (hname : program.collect.tree.lookupLocal members field.name = some id)
    (ht : t.Within (.listed program.loops) place)
    (hfields : Slot.SuitAll program.standard.toRegime place decl.fields)
    (hmethods : ∀ method ∈ decl.methods,
      method.Suits program.standard.toRegime place)
    (hroom : (View.ofScope program members).room < n) :
    Completes program.loops n (checkStruct decl) id t := by
  have hslots := (Slot.suitAll_iff_forall decl.fields).mp hfields
  have hbodies : Composed (.listed program.loops) place
      (forEach (checkMethod members) decl.methods) :=
    .forEach fun method hmethod => composed_checkMethod members
      (hmethods method hmethod)
  have hmembers : Passes (.listed program.loops) n (checkStruct decl) t _
      (·.At (.listed program.loops) place members) :=
    passes_checkMembers ht (composed_fields hfields) hmethods
      ((hstart.tree.nodeScope?_eq _).trans hnode)
  refine hmembers.completes fun u hu hthere => ?_
  generalize (typeOfMembers? members decl.name (Judge.limited n) t).1 = declared
  have hwalk : Passes (.listed program.loops) n
      (forEach (checkStructField members declared decl.name) decl.fields) u
      (checkStructField members declared decl.name field)
      fun v => u.Advances v ∧ v.Within (.listed program.loops) place :=
    .forEach hthere.within (fun field hfield =>
      Composed.checkStructField (hslots field hfield).1 (hslots field hfield).2)
        hfield
  have hstep := (composed_fields hfields members declared).step n hthere.within
  refine (hwalk.bind_left hstep fun _ _ => hbodies).completes
    fun v hv hin hloop hclean => ?_
  have hsees := (hstart.trans (hu.trans hv)).sees hloops
    ⟨hin.1.tree.current.trans hthere.current, hin.2⟩
  refine (passes_checkFieldType hin.2 hsees hclean).completes ?_ hloop hclean
  -- The type of the field resolves, aloud, and is recorded before the default
  -- is checked.
  intro w _ hw hloop hclean
  obtain ⟨ty, hrecord⟩ :=
    passes_recordField hw.1 hw.2 hroom (hslots field hfield).1
    (hslots field hfield).2 hclean
  refine hrecord.completes ?_ hloop hclean
  intro x _ hx
  apply complete_of_recordField hx (program.collect_wellFormed.index_lt hname)
  rw [hx.tree.lookupLocal_eq]
  exact hname

theorem completes_function {func : FuncDecl} {owner : Option ScopeId}
    {body : ScopeId}
    (hnode : program.collect.tree.nodeScope? func.id = some body)
    (hname : program.collect.tree.lookupLocal scope func.name = some id)
    (hsignature : program.collect.tree.SignatureResolves fuel id)
    (ht : t.At (.listed program.loops) place scope)
    (hfunc : func.Suits program.standard.toRegime place)
    (hroom : (View.ofScope program scope).room < n) :
    Completes program.loops n (checkFunction func owner) id t := by
  have hsees := hstart.sees hloops ht
  have hinner := (hstart.tree.nodeScope?_eq _).trans hnode
  refine (passes_declareFunction ht.within hfunc hinner).completes ?_
  rintro u _ rfl
  apply complete_of_declareFunction hsees
    (program.collect_wellFormed.index_lt hname)
  · exact hsees.lookupLocal hname
  · exact asked_functionType hsignature hroom

theorem completes_method {node : NodeId} {methods : List FuncDecl}
    {rule : ScopeId → Option SymbolId → Rule Unit} {method : FuncDecl}
    {members body : ScopeId}
    (hnode : program.collect.tree.nodeScope? node = some members)
    (hmethod : method ∈ methods)
    (hbody : program.collect.tree.nodeScope? method.id = some body)
    (hname : program.collect.tree.lookupLocal members method.name = some id)
    (hsignature : program.collect.tree.SignatureResolves fuel id)
    (ht : t.Within (.listed program.loops) place)
    (hrule : ∀ scope declared, Composed (.listed program.loops) place
      (rule scope declared))
    (hmethods : ∀ method ∈ methods,
      method.Suits program.standard.toRegime place)
    (hroom : (View.ofScope program members).room < n) :
    Completes program.loops n (checkMembers node name span methods rule) id
      t := by
  have hinner := (hstart.tree.nodeScope?_eq _).trans hnode
  refine (passes_method ht hrule hmethods hinner hmethod).completes
    fun u hu hthere => ?_
  exact completes_function (hstart.trans hu) hloops hbody hname
    hsignature hthere (hmethods method hmethod) hroom

theorem completes_of_tellsType
    (htells : program.collect.tree.TellsType fuel scope id stmt)
    (ht : t.At (.listed program.loops) place scope)
    (hstmt : stmt.Suits program.standard.toRegime place)
    (hsize : (View.ofScope program scope).depth + stmt.size ≤ n) :
    Completes program.loops n (validateStmt stmt) id t := by
  obtain ⟨stmtId, span, kind⟩ := stmt
  rw [Stmt.size] at hsize
  -- The statement is checked with its own place on the stack of places.
  have hsees : { t with context := t.context.pushSpan span }.Sees
    (View.ofScope program scope) :=
    (hstart.sees hloops ht).setContext ht.within.expectations
  have hleads : ((Session.new program options).withEvaluator evaluator).Leads
      (.listed program.loops) { t with context := t.context.pushSpan span } :=
        { hstart with }
  have hspan : { t with context := t.context.pushSpan span }.At
    (.listed program.loops) place scope :=
    ⟨ht.current, ht.within.setContext ht.within.expectations⟩
  cases htells with
  | binding hkind hname hvalue =>
    cases hkind
    obtain ⟨hty, hlegal⟩ := LetDecl.suits_iff.mp hstmt
    exact complete_of_let hsees hname hvalue hty
      (fun value hmem => Expr.legal_of_suits (hlegal value hmem)) hsize
  | constant hkind hname hconstant hvalue =>
    cases hkind
    obtain ⟨hty, hlegal⟩ := DefDecl.suits_iff.mp hstmt
    exact complete_of_constant hsees hname hconstant hvalue hty
      (Expr.legal_of_suits hlegal) hsize
  | errorSet hkind hvalue hname htype htyped =>
    cases hkind
    obtain ⟨hty, hlegal⟩ := DefDecl.suits_iff.mp hstmt
    exact complete_of_errorSet hsees hvalue hname htype htyped hty
      (Expr.legal_of_suits hlegal)
  | typeAlias hkind hvalue hset hname htype hbuiltin =>
    cases hkind
    obtain ⟨hty, hlegal⟩ := DefDecl.suits_iff.mp hstmt
    exact complete_of_alias hsees hvalue hset hname htype hbuiltin hty
      (Expr.legal_of_suits hlegal) (View.room_ofScope_lt hsize)
  | field hkind hnode hfield hname =>
    cases hkind
    obtain ⟨hfields, hmethods⟩ := StructDecl.suits_iff.mp hstmt
    exact completes_field hleads hloops hnode hfield hname hspan.within
      hfields hmethods (View.room_ofScope_lt hsize)
  | function hkind hnode hname hsignature =>
    cases hkind
    exact completes_function hleads hloops hnode hname hsignature hspan hstmt
      (View.room_ofScope_lt hsize)
  | method hmethods hnode hmethod hbody hname hsignature =>
    cases kind with
    | struct decl =>
      cases hmethods
      obtain ⟨hfields, hmethods⟩ := StructDecl.suits_iff.mp hstmt
      exact completes_method hleads hloops hnode hmethod hbody hname hsignature
        hspan.within
        (composed_fields hfields) hmethods (View.room_ofScope_lt hsize)
    | enum decl =>
      cases hmethods
      obtain ⟨hvariants, hmethods⟩ := EnumDecl.suits_iff.mp hstmt
      exact completes_method hleads hloops hnode hmethod hbody hname hsignature
        hspan.within
        (fun _ => composed_payloads hvariants) hmethods
        (View.room_ofScope_lt hsize)
    | _ => cases hmethods

end Led
end Visits

/-- The program has a declaration outside of expressions that tells the type of
the symbol. -/
def Program.TellsType (program : Program) (id : SymbolId) : Prop :=
  ∃ fuel scope stmt, program.Stands program.collect.tree scope stmt ∧
    program.collect.tree.TellsType fuel scope id stmt

def declareInferred (node : Nat) (name : String) (kind : ExprKind) : Stmt :=
  ⟨⟨node⟩, .none,
    .letDecl ⟨name, .priv, false, none, some ⟨⟨node + 1⟩, .none, kind⟩⟩⟩

def forwardCall : Program :=
  soleModule [
    declareInferred 1 "y"
    (.call ⟨⟨3⟩, .none, .ident "f"⟩ [⟨⟨4⟩, .none, .ident "x"⟩]),
    declareInferred 5 "x" (.binary .add ⟨⟨7⟩, .none, .literal (.int "1")⟩
      ⟨⟨8⟩, .none, .literal (.int "2")⟩),
    ⟨⟨9⟩, .none,
      .func
      ⟨⟨10⟩, "f", .priv, [⟨"a", .named "Number", .priv, false, none, .none⟩],
        some (.named "Number"), none,
      ⟨⟨11⟩, [⟨⟨12⟩, .none, .returnStmt (some ⟨⟨13⟩, .none, .ident "a"⟩)⟩],
        .none⟩, .none⟩⟩,
    ⟨⟨14⟩, .none,
      .defDecl ⟨"Number", .priv, none, ⟨⟨15⟩, .none, .type (.named "i32")⟩⟩⟩]

def selfInitialized : Program := soleModule [declareInferred 1 "x" (.ident "x")]

end StaticCheck
