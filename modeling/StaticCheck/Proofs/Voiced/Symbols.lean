import StaticCheck.Proofs.Voiced.Expressions

/-!
# Symbols whose type can be told

The type of a symbol comes from its annotation, its signature or its
initializer.  It is told before a program is checked whether it can be found:
names in the types have to resolve, and names in an initializer have to stand
for symbols of which the same holds, without a way back to a symbol that is
still being typed.
-/

namespace StaticCheck

open Rule

variable {program : Program} {n fuel : Nat} {view : View program}
    {id : SymbolId}

def SymbolInfo.signature (info : SymbolInfo) : List Ty :=
  info.params.map (·.ty) ++ info.result.getD .void ::
    (info.error.map ErrorClause.toTy).toList

def SymbolInfo.tells (info : SymbolInfo) (resolves : Ty → Bool)
    (answers : Expr → Bool) : Bool :=
  match info.ascribed, info.initializer with
  | some ty, _ => resolves ty
  | none, some value => answers value
  | none, none => false

namespace ScopeTree

/-- Whether a name has a type if the symbols do that it can stand for.  The name
of a module is reported where a value is needed. -/
def knows (tree : ScopeTree) (hasType : SymbolId → Bool) (scope : ScopeId)
    (name : String) : Bool :=
  (tree.meanings scope name).all fun id => (tree.symbol id).kind ==
    .use || hasType id

/-- Whether a member has a type if the symbols do that have its name in some
scope. -/
def knowsMember (tree : ScopeTree) (hasType : SymbolId → Bool) (name : String) :
    Bool :=
  tree.scopes.all fun scope => (scope.get? name).all hasType

/-- What is known of the names in a scope if it is known which symbols have a
type. -/
def knowledge (tree : ScopeTree)
    (hasType : List (NodeId × Form) → SymbolId → Bool) (scope : ScopeId) :
    Knowledge where
  name above name := tree.knows (hasType above) scope name
  member above owner name :=
    tree.namesOwner scope owner && tree.knowsMember (hasType above) name
  module := tree.namesModule scope

/-- Whether a symbol has a type when it is asked for inside of the expressions
`above`, while the symbols `unfolding` are being typed.  Initializers are
followed for as long as the fuel lasts. -/
def hasType (tree : ScopeTree) :
    Nat → List SymbolId → List (NodeId × Form) → SymbolId → Bool
  | 0, _, _, _ => false
  | fuel + 1, unfolding, above, id =>
    let symbol := tree.symbol id
    let kept := symbol.kind != .var && symbol.ty.isSome
    let told := !unfolding.contains id && symbol.info.tells
      (tree.resolves fuel (id :: unfolding) symbol.scope)
      fun value => value.answerable (tree.knowledge (fun above other =>
        tree.hasType fuel (id :: unfolding) above other) symbol.scope) above
    if symbol.isTypeName then true
    else if symbol.kind == .error || symbol.kind == .enumVariant then true
    else if symbol.kind == .function then
      symbol.info.signature.all (tree.resolves fuel unfolding symbol.innerScope)
    else kept || told

end ScopeTree

theorem Symbol.Suits.signature {R : Regime} {symbol : Symbol}
    (h : symbol.Suits R) : ∀ ty ∈ symbol.info.signature, Meets R ty := by
  simp only [SymbolInfo.signature, List.forall_mem_append, List.forall_mem_cons]
  refine ⟨?_, ?_, ?_⟩
  · intro ty hty
    obtain ⟨param, hparam, rfl⟩ := List.mem_map.mp hty
    exact h.params param hparam
  · cases hknown : symbol.info.result with
    | none => exact Ty.meets_prim _
    | some ty => exact h.result ty hknown
  · intro ty hty
    obtain ⟨clause, -, rfl⟩ :=
      Option.map_eq_some_iff.mp (Option.mem_toList.mp hty)
    exact clause.meets_toTy

theorem voiced_signatureType {info : SymbolInfo}
    (hmeets : ∀ ty ∈ info.signature, Meets program.standard ty)
    (hsignature : ∀ ty ∈ info.signature,
      program.collect.tree.resolves fuel view.unfolding view.scope ty = true)
    (hdepth : view.room < n) : Voiced n view (signatureType info) := by
  have hasked (ty : Ty) (hty : ty ∈ info.signature) :
      Asked n view (tryResolve ty) :=
    asked_tryResolve (hmeets ty hty) (hsignature ty hty) hdepth
  simp only [SymbolInfo.signature, List.forall_mem_append,
    List.forall_mem_cons] at hasked
  obtain ⟨hparams, hresult, herror⟩ := hasked
  refine (Asked.mapSome hparams).bind .noAnswer fun params _ => ?_
  refine hresult.bind .noAnswer fun result _ => ?_
  dsimp only
  cases hclause : info.error.map ErrorClause.toTy with
  | none => exact .answer _
  | some error =>
    exact (herror error (by simp [hclause])).bind .noAnswer fun _ _ => .answer _

theorem asked_functionType
    (hsignature : (program.collect.tree.symbol id).info.signature.all
      (program.collect.tree.resolves fuel view.unfolding
        (program.collect.tree.symbol id).innerScope) = true)
    (hdepth : view.room < n) : Asked n view (functionType id) where
  lawful := .functionType
  answers s hs hclean := by
    apply answers_typedOnce hclean
    intro _ hinner
    rw [hs.tree.innerScope_eq, (hs.symbol id).info_eq] at hinner ⊢
    have hvoiced :
        Voiced n view (withScope (program.collect.tree.symbol id).innerScope
        (signatureType (program.collect.tree.symbol id).info)) :=
      .withScope
        (voiced_signatureType (Symbol.suits_of_tree program id).signature
        (List.all_eq_true.mp hsignature) hdepth)
    exact hvoiced.answers s hs hinner

variable {known : Knowledge}

theorem asked_declaredType (hknown : view.Settles known)
    (htells : (program.collect.tree.symbol id).info.tells
      (program.collect.tree.resolves fuel view.unfolding view.scope)
      (fun value => value.answerable known view.above) = true)
    (hroom : view.room < n)
    (hsize : ∀ value ∈ (program.collect.tree.symbol id).info.initializer,
      view.depth + (value.size + 1) ≤ n) :
    Asked n view (declaredType (program.collect.tree.symbol id).info) := by
  have hsuits := Symbol.suits_of_tree program id
  refine ⟨?_, .declaredType (fits_loose.mpr hsuits)⟩
  unfold SymbolInfo.tells at htells
  unfold declaredType
  cases hascribed : (program.collect.tree.symbol id).info.ascribed with
  | some ty =>
    rw [hascribed] at htells
    exact (asked_tryResolve (hsuits.ascribed ty hascribed) htells
      hroom).toVoiced
  | none =>
    rw [hascribed] at htells
    cases hvalue : (program.collect.tree.symbol id).info.initializer with
    | none =>
      rw [hvalue] at htells
      cases htells
    | some value =>
      rw [hvalue] at htells
      have hlegal := hsuits.initializer value hvalue Place.outside
      have hasked := asked_askType hknown hlegal htells (hsize value hvalue)
      exact (hasked.withExpected fits_none).toVoiced

theorem voiced_symbolType
    (hfunction : (program.collect.tree.symbol id).kind ≠ .function)
    (hname : (program.collect.tree.symbol id).isTypeName = false)
    (htyped : ((program.collect.tree.symbol id).kind ≠ .var ∧
        (program.collect.tree.symbol id).ty.isSome = true) ∨
      ∃ (hid : id.index < program.collect.tree.symbols.size)
      (hnew : id ∉ view.unfolding), Asked n
      ((view.unfold id hid hnew).enter (program.collect.tree.symbol id).scope)
      (declaredType (program.collect.tree.symbol id).info)) :
    Voiced n view (symbolType id) where
  answers s hs hclean := by
    have hsymbol := hs.symbol id
    have hkind : ¬((s.tree.symbol id).kind == .function) = true := by
      rw [hsymbol.kind_eq, beq_iff_eq]
      exact hfunction
    have hplain : ¬(s.tree.symbol id).isTypeName = true := by
      rw [hs.tree.isTypeName_eq, hname]
      exact Bool.false_ne_true
    unfold symbolType at hclean ⊢
    rw [bind_symbol, if_neg hkind, if_neg hplain] at hclean ⊢
    apply answers_typedOnce hclean
    intro hnone hinner
    rcases htyped with ⟨hvar, htyped⟩ | ⟨hid, hnew, hdeclared⟩
    · have hkept := hs.typed hvar htyped
      rw [hnone] at hkept
      cases hkept
    · rw [bind_run, isUnfolding_run] at hinner ⊢
      have hfree : s.unfolding.contains id = false := by
        rw [hs.unfolding, Bool.eq_false_iff]
        exact mt List.contains_iff_mem.mp hnew
      rw [hfree] at hinner ⊢
      rw [← hsymbol.scope_eq, ← hsymbol.info_eq] at hdeclared
      have hscoped : Asked n (view.unfold id hid hnew)
          (withScope (s.tree.symbol id).scope
            (declaredType (s.tree.symbol id).info)) :=
        ⟨.withScope hdeclared.toVoiced, .withScope hdeclared.lawful⟩
      have hvoiced :
          Voiced n view
          (withUnfolding id (typeFromDeclaration (s.tree.symbol id))) :=
        .withUnfolding (hscoped.bind .noAnswer fun _ _ => .answer _)
      exact hvoiced.answers s hs hinner

theorem voiced_valueOf {symbol : Symbol}
    (hsymbol : (program.collect.tree.symbol id).Advances symbol)
    (hkeeps : (program.collect.tree.symbol id).kind ≠ .var →
      ∀ ty, (program.collect.tree.symbol id).ty = some ty → symbol.ty = some ty)
    (hfunction : (program.collect.tree.symbol id).kind = .function →
      Voiced n view (functionType id))
    (hother : (program.collect.tree.symbol id).isTypeName = false →
      (program.collect.tree.symbol id).kind ≠ .error →
      (program.collect.tree.symbol id).kind ≠ .enumVariant →
      (program.collect.tree.symbol id).kind ≠ .function → Voiced n view
      (symbolType id)) :
    Voiced n view (valueOf id symbol) := by
  have hname : symbol.isTypeName =
      (program.collect.tree.symbol id).isTypeName := by
    simp only [Symbol.isTypeName, hsymbol.kind_eq, hsymbol.info_eq]
  have hmember (hkind : (program.collect.tree.symbol id).kind = .error ∨
      (program.collect.tree.symbol id).kind = .enumVariant) :
      Voiced n view (pure symbol.ty : Rule (Option Ty)) := by
    obtain ⟨ty, hty⟩ :=
      Option.isSome_iff_exists.mp (Symbol.TypedMember.of_tree program id hkind)
    have hvar : (program.collect.tree.symbol id).kind ≠ .var := by
      rcases hkind with hkind | hkind
      all_goals simp [hkind]
    rw [hkeeps hvar ty hty]
    exact .answer ty
  unfold valueOf
  refine .ite (fun _ => .answer _) fun hplain => ?_
  rw [hname, Bool.not_eq_true] at hplain
  rw [hsymbol.kind_eq]
  split
  · next hkind => exact hfunction hkind
  · next hkind => exact hmember (.inl hkind)
  · next hkind => exact hmember (.inr hkind)
  · next hfunction herror hvariant =>
      exact hother hplain herror hvariant hfunction

theorem voiced_inferUndeclared {name : String} {span : Span} :
    Voiced n view (inferUndeclared name span) := by
  refine .after .isInStatic fun isStatic _ =>
    .ite (fun _ => .reported) fun _ => ?_
  split
  · exact .answer _
  · exact .reported
  · exact .reported

theorem voiced_inferIdent {name : String} {span : Span}
    {hasType : SymbolId → Bool}
    (hname : program.collect.tree.knows hasType view.scope name = true)
    (hvalue : ∀ id, id.index < program.collect.tree.symbols.size →
      hasType id = true → Voiced n view (valueOfSymbol id)) :
      Voiced n view (inferIdent name span) := by
  refine .readLookup voiced_inferUndeclared fun id hid => ?_
  refine .after .misusesInstance fun _ _ =>
    .ite (fun _ => .reported) fun _ => ?_
  refine .readSymbol fun symbol hsymbol _ => ?_
  refine .ite (fun _ => .after .markUsed fun _ _ => .reported) fun hkind => ?_
  have hknown := List.all_eq_true.mp hname id hid
  rw [hsymbol.kind_eq] at hkind
  rw [Bool.or_eq_true] at hknown
  exact hvalue id (program.collect_wellFormed.index_lt_of_mem_meanings hid)
    (hknown.resolve_left hkind)

theorem ScopeTree.hasType_of_knowsMember {tree : ScopeTree}
    {hasType : SymbolId → Bool} {scope : ScopeId} {name : String}
    (h : tree.knowsMember hasType name = true)
    (hid : tree.lookupLocal scope name = some id) : hasType id = true := by
  unfold lookupLocal ScopeTree.scope at hid
  cases hscope : tree.scopes[scope.index]? with
  | none =>
    rw [hscope] at hid
    cases hid
  | some found =>
    rw [hscope] at hid
    have hmember := Array.all_eq_true'.mp h found (Array.mem_of_getElem? hscope)
    have hget : found.get? name = some id := hid
    rw [hget] at hmember
    exact hmember

theorem View.settles_knowledge
    {hasType : List (NodeId × Form) → SymbolId → Bool}
    (hvalue : ∀ (n : Nat) (above : List (NodeId × Form)) (id : SymbolId),
      view.depth < n → id.index < program.collect.tree.symbols.size →
      hasType above id = true → Voiced n { view with above }
      (valueOfSymbol id)) :
    view.Settles (program.collect.tree.knowledge hasType view.scope) where
  name n above name span hdepth hname := by
    apply voiced_inferIdent
    · exact hname
    · intro id hid htype
      exact hvalue n above id hdepth hid htype
  member n above base owner name span hdepth hbase hmember := by
    obtain ⟨howner, hmembers⟩ := (Bool.and_eq_true _ _).mp hmember
    apply voiced_inferMember hbase
    · exact howner
    · exact Nat.lt_of_le_of_lt view.room_le_depth hdepth
    · intro scope id hid
      apply hvalue n above id hdepth (program.collect_wellFormed.index_lt hid)
      exact ScopeTree.hasType_of_knowsMember hmembers hid
  module _ hmodule := hmodule

theorem Symbol.initializer_size_le {value : Expr}
    (hvalue : value ∈ (program.collect.tree.symbol id).info.initializer) :
    value.size ≤ program.size := by
  exact (Symbol.Fits.of_tree program id).size_le value hvalue

/-- A symbol that has a type gives it as a value, unless an error is reported,
if the judge is deeper than the initializers that are left. -/
theorem voiced_valueOfSymbol
    (hid : id.index < program.collect.tree.symbols.size)
    (htype : program.collect.tree.hasType fuel view.unfolding view.above id =
      true)
    (hdepth : view.depth < n) : Voiced n view (valueOfSymbol id) := by
  induction fuel generalizing n view id with
  | zero => cases htype
  | succ fuel ih =>
    refine .after .markUsed fun _ _ => .readSymbol fun symbol hsymbol hkeeps =>
      ?_
    have hle := view.room_le_depth
    rw [ScopeTree.hasType] at htype
    apply voiced_valueOf hsymbol hkeeps
    · intro hkind
      rw [if_neg (by simp [Symbol.isTypeName, hkind]), if_neg (by simp [hkind]),
        if_pos (by simp [hkind])] at htype
      exact (asked_functionType htype (by omega)).toVoiced
    · intro hname herror hvariant hfunction
      rw [if_neg (by simp [hname]), if_neg (by simp [herror, hvariant]),
        if_neg (by simp [hfunction]), Bool.or_eq_true] at htype
      apply voiced_symbolType hfunction hname
      rcases htype with hkept | htold
      · left
        simpa using hkept
      · right
        rw [Bool.and_eq_true, Bool.not_eq_true', Bool.eq_false_iff] at htold
        have hnew : id ∉ view.unfolding := mt List.contains_iff_mem.mpr htold.1
        have hless := View.depth_unfold hid hnew
        refine ⟨hid, hnew, asked_declaredType ?_ htold.2 ?_ ?_⟩
        -- The names in the initializer are known with the fuel that is left.
        · exact View.settles_knowledge fun m above other hm hother htype =>
            ih hother htype hm
        · have hroom := (view.unfold id hid hnew).room_le_depth
          show (view.unfold id hid hnew).room < n
          omega
        · intro value hvalue
          have hsize := Symbol.initializer_size_le hvalue
          show (view.unfold id hid hnew).depth + (value.size + 1) ≤ n
          omega

/-- The names that can be told in a scope: those that stand for symbols that
have a type. -/
def ScopeTree.tells (tree : ScopeTree) (fuel : Nat) (scope : ScopeId) :
    Knowledge :=
  tree.knowledge (tree.hasType fuel []) scope

theorem View.settles_tells (fuel : Nat) (scope : ScopeId) :
    (View.ofScope program scope).Settles
      (program.collect.tree.tells fuel scope) := by
  exact View.settles_knowledge fun _ _ _ hdepth hid htype =>
    voiced_valueOfSymbol hid htype hdepth

end StaticCheck
