import StaticCheck.Proofs.Charted
import StaticCheck.Proofs.Construction
import StaticCheck.Proofs.Recall
import StaticCheck.Proofs.References

/-!
# Arguments of calls

A call of a declared function is checked against the parameters of the function,
in which way ever the callee leads to it: as a name, through a module, as a
method or as a static method.  A call that gets a type and meets no objection to
the number of its arguments gives all parameters before the first one with a
default.
-/

namespace StaticCheck

open Rule

/-!
## Types of functions
-/

/-- The type recorded for a function, if there is one, has the parameters of its
declaration. -/
def Symbol.Signed (symbol : Symbol) : Prop :=
  ∀ ty, symbol.ty = some ty → ty.arity? = some symbol.info.params.length

theorem Program.pledge?_of_function (program : Program) (id : SymbolId)
    (hkind : (program.collect.tree.symbol id).kind = .function) :
    (program.collect.tree.symbol id).pledge? =
      some (.signed (program.collect.tree.symbol id).info.params.length) := by
  have hP : Declarable program.limits fun symbol => symbol.kind = .function →
      symbol.pledge? = some (.signed symbol.info.params.length) := by
    constructor
    all_goals
      intros
      first | rfl | contradiction
  exact Collected.symbol hP (fun _ _ _ h => h) (fun _ h => by cases h) id hkind

/-- Wherever the check of a program comes in which no name is declared twice,
the functions are signed. -/
theorem Session.LiesAt.signed {program : Program} {twin : Twin}
    {scope : ScopeId} {s : Session}
    (hs : s.LiesAt (program.chart true true) twin scope) {id : SymbolId}
    (hkind : (program.collect.tree.symbol id).kind = .function) :
    (s.tree.symbol id).Signed := by
  obtain ⟨hpledge, hkeeps⟩ :=
    hs.tree.pledged id _ ⟨rfl, rfl, program.pledge?_of_function id hkind⟩
  rcases (Symbol.pledge?_cases hpledge).2.2 with ⟨-, -, h⟩ | ⟨-, -, h⟩
  · cases h
  · rw [h] at hkeeps
    exact hkeeps

section Answers

variable {α β : Type} {judge : Judge} {s t : Session} {id : SymbolId}
    {ty : Ty} {k : Nat}

theorem resolveAll_eq_mapSome (span : Span) (loud : Bool) (tys : List Ty) :
    resolveAll span loud tys = mapSome (resolveTy span loud) tys := by
  induction tys with
  | nil => rfl
  | cons ty rest ih =>
    unfold resolveAll mapSome
    rw [ih]
    refine congrArg (resolveTy span loud ty >>= ·) (funext fun answer => ?_)
    cases answer with
    | none => rfl
    | some resolved =>
      refine congrArg (mapSome (resolveTy span loud) rest >>= ·)
        (funext fun others => ?_)
      cases others with
      | none => rfl
      | some others => rfl

theorem typedOnce_answer {typing : Symbol → Rule (Option Ty)}
    (h : (s.tree.symbol id).ty = none) :
    (typedOnce id typing judge s).1 =
      (typing (s.tree.symbol id) judge s).1 := by
  rw [typedOnce_of_none h]
  generalize typing (s.tree.symbol id) judge s = run
  obtain ⟨_ | ty, t⟩ := run
  · rfl
  · rfl

theorem arity_of_functionType (hsigned : (s.tree.symbol id).Signed)
    (h : (functionType id judge s).1 = some ty) :
    ty.arity? = some (s.tree.symbol id).info.params.length := by
  unfold functionType at h
  cases hty : (s.tree.symbol id).ty with
  | some known =>
    -- A recorded type is taken as it is, whoever recorded it.
    rw [typedOnce_of_some hty] at h
    exact hsigned ty (hty.trans h)
  | none =>
    rw [typedOnce_answer hty] at h
    exact arity_of_signatureType (Prod.ext h rfl)

theorem arity_of_normalize (h : ty.arity? = some k) :
    (Rule.normalize ty judge s).1.arity? = some k := by
  obtain ⟨params, result, error, rfl, rfl⟩ := Ty.exists_function_of_arity h
  show ((tryResolve (.function params result error) judge s).1.getD _).arity? =
    _
  cases hresolved : (tryResolve (.function params result error) judge s).1 with
  | none => rfl
  | some resolved =>
    have hrun : resolveTy .none false (.function params result error) judge s =
        (some resolved, _) := Prod.ext hresolved rfl
    rw [resolveTy, resolveAll_eq_mapSome] at hrun
    obtain ⟨params', _, hparams, hrun⟩ := exists_of_bind (fun _ => rfl) hrun
    obtain ⟨result', _, -, hrun⟩ := exists_of_bind (fun _ => rfl) hrun
    obtain ⟨error', _, -, hrun⟩ := exists_of_bind (fun _ => rfl) hrun
    cases hrun
    exact congrArg some (length_of_mapSome hparams)

theorem arity_of_derefOnce (h : ty.arity? = some k) :
    (derefOnce ty judge s).1.arity? = some k := by
  have hnormal : (Rule.normalize ty judge s).1.arity? = some k :=
    arity_of_normalize h
  unfold derefOnce
  rw [bind_run]
  generalize Rule.normalize ty judge s = run at hnormal ⊢
  obtain ⟨normal, t⟩ := run
  obtain ⟨params, result, error, rfl, -⟩ := Ty.exists_function_of_arity hnormal
  exact hnormal

theorem exists_symbol_markUsed (id : SymbolId) (judge : Judge) (s : Session) :
    ∃ used, (markUsed id judge s).2.tree.symbol id =
      { s.tree.symbol id with used := used } := by
  rcases s.tree.symbol_updateSymbol_self id fun symbol =>
    { symbol with used := true } with h | h
  · exact ⟨true, h⟩
  · exact ⟨(s.tree.symbol id).used, h⟩

theorem arity_of_functionType_used (hsigned : (s.tree.symbol id).Signed)
    (h : (functionType id judge (markUsed id judge s).2).1 = some ty) :
    ty.arity? = some (s.tree.symbol id).info.params.length := by
  obtain ⟨used, hsymbol⟩ := exists_symbol_markUsed id judge s
  have harity := arity_of_functionType (by rw [hsymbol]; exact hsigned) h
  rwa [hsymbol] at harity

theorem arity_of_valueOfSymbol (hkind : (s.tree.symbol id).kind = .function)
    (hsigned : (s.tree.symbol id).Signed)
    (h : (valueOfSymbol id judge s).1 = some ty) :
    ty.arity? = some (s.tree.symbol id).info.params.length := by
  obtain ⟨used, hsymbol⟩ := exists_symbol_markUsed id judge s
  have hvalue : valueOfSymbol id judge s =
      functionType id judge (markUsed id judge s).2 := by
    show valueOf id ((markUsed id judge s).2.tree.symbol id) judge
      (markUsed id judge s).2 = _
    rw [hsymbol]
    simp [valueOf, Symbol.isTypeName, hkind]
  rw [hvalue] at h
  exact arity_of_functionType_used hsigned h

def Session.inferring (s : Session) (expr : Expr) : Session :=
  { s with
    inFlight := s.key expr :: s.inFlight
    context := s.context.pushSpan expr.span }

theorem answer_of_inferExpr {expr : Expr}
    (h : (inferExpr expr judge s).1 = some ty) :
    s.remembered? expr = some ty ∨ (inferKind expr judge (s.inferring expr)).1 =
      some ty := by
  unfold inferExpr at h
  rw [bind_run, exprKey_run] at h
  dsimp only at h
  rw [bind_run, remembered?_run] at h
  cases hmemory : s.remembered? expr with
  | some known =>
    unfold Session.remembered? Session.key at hmemory
    rw [hmemory] at h
    exact .inl h
  | none =>
    unfold Session.remembered? Session.key at hmemory
    rw [hmemory] at h
    dsimp only at h
    rw [bind_run, isInFlight_run] at h
    cases hflight : s.inFlight.contains (s.key expr) with
    | true =>
      unfold Session.key at hflight
      rw [hflight] at h
      cases h
    | false =>
      unfold Session.key at hflight
      rw [hflight] at h
      rw [if_neg Bool.false_ne_true, bind_run] at h
      generalize hrun : withInFlight _ _ judge s = run at h
      obtain ⟨_ | found, t⟩ := run
      · cases h
      · cases h
        exact .inr (congrArg Prod.fst hrun)

end Answers

/-!
## Arguments
-/

def Problem.isArity : Problem → Bool
  | .tooFewArguments .. | .tooManyArguments .. => true
  | _ => false

def Session.TakesArity (s t : Session) : Prop :=
  ∀ report ∈ t.diagnostics.items.drop s.diagnostics.size,
    report.problem.isArity = false

/-- The end of a call of a function: its arguments are checked against as many
parameters as are declared, of which at least the required ones have to be
given. -/
def ChecksArgs (n : Nat) (info : SymbolInfo) (args : List Expr) (span : Span)
    (s last : Session) : Prop :=
  ∃ params required t, params.length = info.params.length ∧
    info.requiredParams ≤ required ∧
    s.Advances t ∧
    last = (checkArgs params required args span (Judge.limited n) t).2

theorem SymbolInfo.requiredParams_le (info : SymbolInfo) :
    info.requiredParams ≤ info.params.length := by
  unfold requiredParams
  cases hfirst : info.params.findIdx? (·.hasDefault) with
  | none => exact Nat.le_refl _
  | some first =>
    exact Nat.le_of_lt (List.findIdx?_eq_some_iff_getElem.mp hfirst).1

theorem SymbolInfo.any_hasDefault {info : SymbolInfo} {i : Nat}
    (hi : i < info.params.length) (h : info.requiredParams ≤ i) :
    (info.params.take (i + 1)).any (·.hasDefault) = true := by
  unfold requiredParams at h
  cases hfirst : info.params.findIdx? (·.hasDefault) with
  | none =>
    rw [hfirst] at h
    exact absurd hi (Nat.not_lt.mpr h)
  | some first =>
    rw [hfirst] at h
    obtain ⟨hlt, hdefault, -⟩ := List.findIdx?_eq_some_iff_getElem.mp hfirst
    refine List.any_eq_true.mpr ⟨info.params[first], ?_, hdefault⟩
    exact List.mem_take_iff_getElem.mpr ⟨first, by simp at h ⊢; omega, rfl⟩

theorem SymbolInfo.hasDefault_of_pairwise {info : SymbolInfo} {i : Nat}
    (hlast : info.params.Pairwise fun p q => p.hasDefault = true →
      q.hasDefault = true)
    (hi : i < info.params.length) (h : info.requiredParams ≤ i) :
    (info.params[i]).hasDefault = true := by
  obtain ⟨param, hparam, hdefault⟩ := List.any_eq_true.mp (any_hasDefault hi h)
  obtain ⟨j, hj, rfl⟩ := List.mem_take_iff_getElem.mp hparam
  rcases Nat.lt_or_ge j i with hlt | hge
  · exact List.pairwise_iff_getElem.mp hlast j i (by omega) hi hlt hdefault
  · obtain rfl : j = i := by omega
    exact hdefault

section Checks

variable {n : Nat} {info : SymbolInfo} {args : List Expr} {span : Span}
    {s t last : Session}

theorem mem_reports_of_error {problem : Problem}
    (hbefore : s.diagnostics.items <+: t.diagnostics.items)
    (hafter : (t.diagnostics.error problem span).items <+:
      last.diagnostics.items) :
    ⟨⟨problem, span⟩, .error⟩ ∈
      last.diagnostics.items.drop s.diagnostics.size := by
  obtain ⟨late, hlate⟩ := hafter
  obtain ⟨early, hearly⟩ := hbefore
  rw [← hlate, Diagnostics.error, Diagnostics.push, ← hearly]
  simp [Diagnostics.size]

theorem supplied_of_checkArity {required most : Nat} {judge : Judge}
    (hbefore : s.diagnostics.items <+: t.diagnostics.items)
    (hafter :
      (checkArity required (some most) args.length span judge
        t).2.diagnostics.items <+: last.diagnostics.items)
    (htakes : s.TakesArity last) :
    required ≤ args.length ∧ args.length ≤ most := by
  have hfew : required ≤ args.length := by
    by_contra hfew
    unfold checkArity at hafter
    rw [if_pos (by omega)] at hafter
    have hreport := htakes _ (mem_reports_of_error hbefore hafter)
    cases hreport
  refine ⟨hfew, ?_⟩
  by_contra hmany
  unfold checkArity at hafter
  rw [if_neg (by omega)] at hafter
  dsimp only at hafter
  rw [if_pos (by omega)] at hafter
  have hreport := htakes _ (mem_reports_of_error hbefore hafter)
  cases hreport

theorem ChecksArgs.supplied (h : ChecksArgs n info args span s last)
    (htakes : s.TakesArity last) :
    args.length ≤ info.params.length ∧ info.requiredParams ≤ args.length := by
  obtain ⟨params, required, t, hlength, hrequired, hadvances, rfl⟩ := h
  have hrest : Composed .free .outside (do
      forEach (fun (pair : Ty × Expr) => checkPassed pair.1 pair.2)
        (params.zip args)
      forEach (fun arg => discard (askType arg)) (args.drop params.length)) :=
    .andThen
      (.forEach fun pair _ => .checkPassed (fits_free _) pair.2.suits_free)
      (.inferEach fun arg _ => arg.suits_free)
  have hlater := hrest.advances n
    (checkArity required (some params.length) args.length span
      (Judge.limited n) t).2
  obtain ⟨hfew, hmany⟩ :=
    supplied_of_checkArity hadvances.diagnostics hlater.diagnostics htakes
  exact ⟨hlength ▸ hmany, hrequired.trans hfew⟩

theorem Composed.advances_of_run {α : Type} [Found α] {rule : Rule α} {a : α}
    (h : Composed .free .outside rule)
    (hrun : rule (Judge.limited n) s = (a, t)) :
    s.Advances t := by
  have hadvances := h.advances n s
  rwa [hrun] at hadvances

theorem checksArgs_of_callFunction {id : SymbolId} {result : Ty}
    (hsigned : (s.tree.symbol id).Signed)
    (h : callFunction id args span (Judge.limited n) s = (some result, last)) :
    ChecksArgs n (s.tree.symbol id).info args span s last := by
  have hused : s.Advances (markUsed id (Judge.limited n) s).2 :=
    Composed.advances_of_run (n := n) .markUsed rfl
  rw [callFunction, bind_run] at h
  obtain ⟨ty, t, hty, h⟩ := exists_of_bind (fun _ => rfl) h
  obtain ⟨params, answer, error, rfl, hlength⟩ := Ty.exists_function_of_arity
    (arity_of_functionType_used hsigned (congrArg Prod.fst hty))
  have hadvances := hused.trans (Composed.advances_of_run .functionType hty)
  have hinfo := (hadvances.tree.symbols id).info_eq
  refine ⟨params, (t.tree.symbol id).info.requiredParams, t, hlength, ?_,
    hadvances, ?_⟩
  · rw [hinfo]
  · exact (congrArg Prod.snd h).symm

theorem checksArgs_of_callValue {callee : Expr} {calleeSpan : Span}
    {id : SymbolId} {result : Ty}
    (harity : ∀ ty u, askType callee (Judge.limited n) s = (some ty, u) →
      ty.arity? = some (s.tree.symbol id).info.params.length)
    (hcallee : ∀ u, s.Advances u → ∀ found,
      (calleeSymbol? callee (Judge.limited n) u).1 = some found → found = id)
    (h : callValue callee args calleeSpan span (Judge.limited n) s =
      (some result, last)) :
    ChecksArgs n (s.tree.symbol id).info args span s last := by
  obtain ⟨ty, t, hty, h⟩ := exists_of_bind (fun _ => rfl) h
  have hasked : s.Advances t :=
    Composed.advances_of_run (.askType callee.suits_free) hty
  dsimp only at h
  rw [bind_run] at h
  have hvalue : (derefOnce ty (Judge.limited n) t).1.arity? =
      some (s.tree.symbol id).info.params.length :=
        arity_of_derefOnce (harity ty t hty)
  generalize hderef : derefOnce ty (Judge.limited n) t = run at h hvalue
  obtain ⟨value, u⟩ := run
  have hread :=
    hasked.trans (Composed.advances_of_run (.derefOnce (fits_free _)) hderef)
  obtain ⟨params, answer, error, rfl, hlength⟩ :=
    Ty.exists_function_of_arity hvalue
  dsimp only at h
  rw [bind_run] at h
  -- Only now the callee is looked up for its defaults, in a session that has
  -- moved on.
  generalize hfound : calleeSymbol? callee (Judge.limited n) u = run at h
  obtain ⟨found, v⟩ := run
  have hlooked := hread.trans (Composed.advances_of_run .calleeSymbol? hfound)
  cases found with
  | none =>
    refine ⟨params, params.length, v, hlength, ?_, hlooked,
      (congrArg Prod.snd h).symm⟩
    rw [hlength]
    exact SymbolInfo.requiredParams_le _
  | some found =>
    have hsame := hcallee u hread found (congrArg Prod.fst hfound)
    subst hsame
    refine ⟨params, (v.tree.symbol found).info.requiredParams, v, hlength,
      ?_, hlooked, (congrArg Prod.snd h).symm⟩
    rw [(hlooked.tree.symbols found).info_eq]

end Checks

/-!
## Callees
-/

/-- The type remembered for an expression, if there is one, has the parameters
that a function declares. -/
def Session.RemembersSignature (s : Session) (expr : Expr) (id : SymbolId) :
    Prop :=
  ∀ ty, s.remembered? expr = some ty →
    ty.arity? = some (s.tree.symbol id).info.params.length

/-- A callee leads to a function, which is found in a later session: by its
name, through a module, as a method of a value or as a static method of a
type. -/
inductive Calls (judge : Judge) (s : Session) (callee : Expr) (id : SymbolId) :
    Session → Prop
  | named {name : String} (hcallee : callee.unparen.kind = .ident name)
      (hbuiltin : Builtin.isName name = false)
      (hfound : s.tree.lookup name = some id)
      (hmemory : s.RemembersSignature callee.unparen id) :
      Calls judge s callee id s
  | imported {base : Expr} {owner name : String} {module : SymbolId}
      {scope : ScopeId}
      (hcallee : callee.unparen.kind = .member base name)
      (hbase : base.identName? = some owner)
      (howner : s.tree.lookup owner = some module)
      (huse : (s.tree.symbol module).kind = .use)
      (hscope : (s.tree.symbol module).info.scope = some scope)
      (hfound : s.tree.lookupLocal scope name = some id)
      (hmemory : s.RemembersSignature callee.unparen id) :
      Calls judge s callee id s
  | method {base : Expr} {name : String} {ty : Ty} {scope : ScopeId}
      {asked t : Session} (hcallee : callee.unparen.kind = .member base name)
      (htype : typeSymbol? base judge s = (none, s))
      (hmodule : moduleSymbol? base judge s = (none, s))
      (hbase : askType base judge s = (some ty, asked))
      (hfound : method? ty name judge asked = (some (id, scope), t)) :
      Calls judge s callee id t
  | static {base : Expr} {name : String} {type : SymbolId} {ty : Ty}
      {scope : ScopeId} {t : Session}
      (hcallee : callee.unparen.kind = .member base name)
      (htype : typeSymbol? base judge s = (some type, s))
      (hresolved : resolveType (.named (s.tree.symbol type).name) base.span
        judge s = (some ty, t))
      (hvariant : ty.variant? name = none)
      (hscope : ty.memberScope? = some scope)
      (hfound : t.tree.lookupLocal scope name = some id) :
      Calls judge s callee id t

section Callees

variable {judge : Judge} {n : Nat} {s t u : Session} {callee base : Expr}
    {args : List Expr}
  {span : Span} {id found module : SymbolId} {name owner : String}
  {scope : ScopeId} {ty : Ty}

theorem lookup_of_advances (h : s.Advances u)
    (hkind : (u.tree.symbol found).kind ≠ .var)
    (hfound : u.tree.lookup name = some found) :
    s.tree.lookup name = some found := by
  unfold ScopeTree.lookup at hfound ⊢
  rw [h.tree.current] at hfound
  exact h.tree.grows.lookupFrom_eq_some hkind hfound

theorem arity_of_inferIdent (hfound : s.tree.lookup name = some id)
    (hkind : (s.tree.symbol id).kind = .function)
    (hsigned : (s.tree.symbol id).Signed)
    (h : (inferIdent name span judge s).1 = some ty) :
    ty.arity? = some (s.tree.symbol id).info.params.length := by
  unfold inferIdent at h
  rw [bind_lookup, hfound] at h
  dsimp only at h
  rw [bind_run, misusesInstance_run] at h
  cases hmisused : (staticOwner? s.frame).join.any
    (isMemberOf (s.tree.symbol id)) with
  | true =>
    rw [hmisused] at h
    cases h
  | false =>
    rw [hmisused, if_neg Bool.false_ne_true, bind_symbol, hkind] at h
    exact arity_of_valueOfSymbol hkind hsigned h

theorem arity_of_inferMember (hbase : base.identName? = some owner)
    (howner : s.tree.lookup owner = some module)
    (huse : (s.tree.symbol module).kind = .use)
    (hscope : (s.tree.symbol module).info.scope = some scope)
    (hfound : s.tree.lookupLocal scope name = some id)
    (hkind : (s.tree.symbol id).kind = .function)
    (hsigned : (s.tree.symbol id).Signed)
    (h : (inferMember base name span judge s).1 = some ty) :
    ty.arity? = some (s.tree.symbol id).info.params.length := by
  unfold inferMember at h
  rw [bind_run, moduleSymbol?_run hbase howner, huse] at h
  change (moduleMember module name span judge s).1 = some ty at h
  unfold moduleMember at h
  rw [bind_symbol, hscope] at h
  dsimp only at h
  rw [bind_lookupLocal, hfound] at h
  dsimp only at h
  rw [bind_symbol] at h
  cases hpublic : (s.tree.symbol id).isPublic with
  | false =>
    rw [hpublic] at h
    cases h
  | true =>
    rw [hpublic] at h
    exact arity_of_valueOfSymbol hkind hsigned h

theorem arity_of_askType {k : Nat}
    (hmemory : ∀ ty, s.remembered? callee = some ty → ty.arity? = some k)
    (hform : ∀ judge ty, (inferKind callee judge (s.inferring callee)).1 =
      some ty → ty.arity? = some k)
    (h : askType callee (Judge.limited n) s = (some ty, t)) :
    ty.arity? = some k := by
  cases n with
  | zero => cases h
  | succ n =>
    have hanswer : (inferExpr callee (Judge.limited n) s).1 = some ty :=
      congrArg Prod.fst h
    exact (answer_of_inferExpr hanswer).elim (hmemory ty) (hform _ ty)

theorem eq_of_calleeSymbol_ident (hcallee : callee.kind = .ident name)
    (hlookup : s.tree.lookup name = some id) (h : s.Advances u)
    (hfound : (calleeSymbol? callee judge u).1 = some found) : found = id := by
  unfold calleeSymbol? at hfound
  rw [hcallee] at hfound
  dsimp only at hfound
  rw [bind_lookup] at hfound
  cases hlater : u.tree.lookup name with
  | none =>
    rw [hlater] at hfound
    cases hfound
  | some other =>
    rw [hlater] at hfound
    obtain ⟨hkind, hother⟩ := Option.ite_none_right_eq_some.mp hfound
    cases hother
    have hdefinition : (u.tree.symbol found).kind ≠ .var := by
      rw [eq_of_beq hkind]
      decide
    exact Option.some.inj
      ((lookup_of_advances h hdefinition hlater).symm.trans hlookup)

theorem eq_of_calleeSymbol_member (hcallee : callee.kind = .member base name)
    (hbase : base.identName? = some owner)
    (howner : s.tree.lookup owner = some module)
    (hscope : (s.tree.symbol module).info.scope = some scope)
    (hlocal : s.tree.lookupLocal scope name = some id) (h : s.Advances u)
    (hfound : (calleeSymbol? callee judge u).1 = some found) : found = id := by
  unfold calleeSymbol? at hfound
  rw [hcallee] at hfound
  dsimp only at hfound
  obtain ⟨other, v, hmodule, hfound⟩ :=
    exists_of_bind (fun _ => rfl) (Prod.ext hfound rfl)
  obtain ⟨named, w, hnamed, hmodule⟩ := exists_of_bind (fun _ => rfl) hmodule
  rw [namedSymbol?_run hbase] at hnamed
  obtain ⟨hlater, rfl⟩ := Prod.mk.inj hnamed
  obtain ⟨hother, rfl⟩ := Prod.mk.inj hmodule
  obtain ⟨hkind, hother⟩ := Option.ite_none_right_eq_some.mp hother
  cases hother
  have hdefinition : (u.tree.symbol other).kind ≠ .var := by
    rw [eq_of_beq hkind]
    decide
  cases (lookup_of_advances h hdefinition hlater).symm.trans howner
  dsimp only at hfound
  rw [bind_symbol, (h.tree.symbols module).info_eq, hscope] at hfound
  dsimp only at hfound
  rw [bind_lookupLocal, h.tree.grows.lookupLocal_eq, hlocal] at hfound
  obtain ⟨-, hsame⟩ :=
    Option.ite_none_right_eq_some.mp (congrArg Prod.fst hfound)
  exact (Option.some.inj hsame).symm

theorem ChecksArgs.of_advances {info : SymbolInfo} {last : Session}
    (h : s.Advances t) (hchecks : ChecksArgs n info args span t last) :
    ChecksArgs n info args span s last := by
  obtain ⟨params, required, u, hlength, hrequired, hadvances, hlast⟩ := hchecks
  exact ⟨params, required, u, hlength, hrequired, h.trans hadvances, hlast⟩

theorem session_of_instanceAccess
    (h : instanceAccess id scope name span judge s = (true, t)) : t = s := by
  unfold instanceAccess at h
  rw [bind_symbol] at h
  cases hvisibility : (s.tree.symbol id).visibility with
  | static =>
    rw [hvisibility] at h
    cases h
  | pub =>
    rw [hvisibility] at h
    cases h
    rfl
  | priv =>
    rw [hvisibility] at h
    dsimp only at h
    rw [bind_tree] at h
    cases hwithin : s.tree.isWithin s.tree.current scope with
    | false =>
      rw [hwithin] at h
      cases h
    | true =>
      rw [hwithin] at h
      cases h
      rfl

theorem eq_of_staticMember {typeName : String}
    (hlocal : s.tree.lookupLocal scope name = some id)
    (h : staticMember scope typeName name span judge s = (some found, t)) :
    found = id ∧ t = s := by
  unfold staticMember at h
  rw [bind_lookupLocal, hlocal] at h
  dsimp only at h
  rw [bind_symbol] at h
  cases hstatic : (s.tree.symbol id).isStatic with
  | false =>
    rw [hstatic] at h
    cases h
  | true =>
    rw [hstatic] at h
    cases h
    exact ⟨rfl, rfl⟩

variable {result : Ty} {last : Session}

theorem checksArgs_of_named (hcallee : callee.unparen.kind = .ident name)
    (hbuiltin : Builtin.isName name = false)
    (hfound : s.tree.lookup name = some id)
    (hmemory : s.RemembersSignature callee.unparen id)
    (hkind : (s.tree.symbol id).kind = .function)
    (hsigned : (s.tree.symbol id).Signed)
    (h : inferCall callee args span (Judge.limited n) s = (some result, last)) :
    ChecksArgs n (s.tree.symbol id).info args span s last := by
  unfold inferCall at h
  rw [hcallee] at h
  dsimp only at h
  rw [hbuiltin] at h
  refine checksArgs_of_callValue (fun ty u hty => ?_)
    (fun u hu found => eq_of_calleeSymbol_ident hcallee hfound hu) h
  refine arity_of_askType hmemory (fun judge ty hform => ?_) hty
  unfold inferKind at hform
  rw [hcallee] at hform
  exact arity_of_inferIdent (s := s.inferring callee.unparen) hfound hkind
    hsigned hform

theorem checksArgs_of_imported
    (hcallee : callee.unparen.kind = .member base name)
    (hbase : base.identName? = some owner)
    (howner : s.tree.lookup owner = some module)
    (huse : (s.tree.symbol module).kind = .use)
    (hscope : (s.tree.symbol module).info.scope = some scope)
    (hfound : s.tree.lookupLocal scope name = some id)
    (hmemory : s.RemembersSignature callee.unparen id)
    (hkind : (s.tree.symbol id).kind = .function)
    (hsigned : (s.tree.symbol id).Signed)
    (h : inferCall callee args span (Judge.limited n) s = (some result, last)) :
    ChecksArgs n (s.tree.symbol id).info args span s last := by
  have hmember : callMember? base name args span (Judge.limited n) s =
      (none, s) := by
    unfold callMember?
    rw [bind_run, typeSymbol?_run hbase howner]
    simp only [Symbol.isTypeName, huse]
    change ((moduleSymbol? base >>= _) _ s) = _
    rw [bind_run, moduleSymbol?_run hbase howner, huse]
    rfl
  unfold inferCall at h
  rw [hcallee] at h
  dsimp only at h
  rw [bind_of_run hmember] at h
  refine checksArgs_of_callValue (fun ty u hty => ?_)
    (fun u hu found => eq_of_calleeSymbol_member hcallee hbase howner hscope
      hfound hu) h
  refine arity_of_askType hmemory (fun judge ty hform => ?_) hty
  unfold inferKind at hform
  rw [hcallee] at hform
  exact arity_of_inferMember (s := s.inferring callee.unparen) hbase howner huse
    hscope hfound hkind hsigned hform

theorem checksArgs_of_method {asked : Session}
    (hcallee : callee.unparen.kind = .member base name)
    (htype : typeSymbol? base (Judge.limited n) s = (none, s))
    (hmodule : moduleSymbol? base (Judge.limited n) s = (none, s))
    (hbase : askType base (Judge.limited n) s = (some ty, asked))
    (hfound : method? ty name (Judge.limited n) asked = (some (id, scope), t))
    (hsigned : (t.tree.symbol id).Signed)
    (h : inferCall callee args span (Judge.limited n) s = (some result, last)) :
    s.Advances t ∧ ChecksArgs n (t.tree.symbol id).info args span t last := by
  have hasked : s.Advances asked :=
    Composed.advances_of_run (.askType base.suits_free) hbase
  have hthere : s.Advances t := hasked.trans
    (Composed.advances_of_run (.method? (fits_free ty)) hfound)
  have hmember : callMember? base name args span (Judge.limited n) s =
      (do if ← instanceAccess id scope name span then
            return some (← callFunction id args span)
          else return some none) (Judge.limited n) t := by
    refine (bind_of_run htype).trans ((bind_of_run hmodule).trans ?_)
    exact (bind_of_run hbase).trans (bind_of_run hfound)
  unfold inferCall at h
  rw [hcallee] at h
  dsimp only at h
  rw [bind_run, hmember, bind_run] at h
  generalize haccess : instanceAccess id scope name span (Judge.limited n) t =
    run at h
  obtain ⟨access, u⟩ := run
  cases access with
  | false => cases h
  | true =>
    cases session_of_instanceAccess haccess
    exact ⟨hthere, checksArgs_of_callFunction hsigned h⟩

theorem checksArgs_of_static {type : SymbolId}
    (hcallee : callee.unparen.kind = .member base name)
    (htype : typeSymbol? base (Judge.limited n) s = (some type, s))
    (hresolved : resolveType (.named (s.tree.symbol type).name) base.span
      (Judge.limited n) s = (some ty, t))
    (hvariant : ty.variant? name = none) (hscope : ty.memberScope? = some scope)
    (hfound : t.tree.lookupLocal scope name = some id)
    (hkind : (t.tree.symbol id).kind = .function)
    (hsigned : (t.tree.symbol id).Signed)
    (h : inferCall callee args span (Judge.limited n) s = (some result, last)) :
    s.Advances t ∧ ChecksArgs n (t.tree.symbol id).info args span t last := by
  have hthere : s.Advances t :=
    Composed.advances_of_run (.resolveType (Answer.free _)) hresolved
  refine ⟨hthere, ?_⟩
  have hmember : callMember? base name args span (Judge.limited n) s =
      (do return some (← callTypeMember type base name args span))
        (Judge.limited n) s :=
    bind_of_run htype
  unfold inferCall at h
  rw [hcallee] at h
  dsimp only at h
  rw [bind_run, hmember] at h
  change callTypeMember type base name args span (Judge.limited n) s =
    (some result, last) at h
  unfold callTypeMember at h
  rw [bind_symbol, bind_of_run hresolved] at h
  dsimp only at h
  rw [hvariant] at h
  dsimp only at h
  rw [hscope] at h
  dsimp only at h
  obtain ⟨found, u, hstatic, hcall⟩ := exists_of_bind (fun _ => rfl) h
  obtain ⟨rfl, rfl⟩ := eq_of_staticMember hfound hstatic
  dsimp only at hcall
  rw [bind_symbol, hkind] at hcall
  exact checksArgs_of_callFunction hsigned hcall

/-- In which way ever a callee leads to a function, a call that gets a type
checks its arguments against the declaration. -/
theorem checksArgs_of_calls (hcalls : Calls (Judge.limited n) s callee id t)
    (hkind : (t.tree.symbol id).kind = .function)
    (hsigned : (t.tree.symbol id).Signed)
    (h : inferCall callee args span (Judge.limited n) s = (some result, last)) :
    ChecksArgs n (s.tree.symbol id).info args span s last := by
  cases hcalls with
  | named hcallee hbuiltin hfound hmemory =>
    exact checksArgs_of_named hcallee hbuiltin hfound hmemory hkind hsigned h
  | imported hcallee hbase howner huse hscope hfound hmemory =>
    exact checksArgs_of_imported hcallee hbase howner huse hscope hfound hmemory
      hkind hsigned h
  | method hcallee htype hmodule hbase hfound =>
    obtain ⟨hthere, hchecks⟩ :=
      checksArgs_of_method hcallee htype hmodule hbase hfound hsigned h
    rw [(hthere.tree.symbols id).info_eq] at hchecks
    exact hchecks.of_advances hthere
  | static hcallee htype hresolved hvariant hscope hfound =>
    obtain ⟨hthere, hchecks⟩ :=
      checksArgs_of_static hcallee htype hresolved hvariant hscope hfound
        hkind hsigned h
    rw [(hthere.tree.symbols id).info_eq] at hchecks
    exact hchecks.of_advances hthere

end Callees

/-- A call of a declared function that gets a type and meets no objection to a
number of arguments gives at most as many arguments as there are parameters, and
leaves out only parameters that have a default or come after one that has.  So
it leaves out only parameters with a default if none without one comes after one
with. -/
theorem accepted_calls_supply_required_params
    {n : Nat}
    {s t : Session}
    {callee : Expr}
    {args : List Expr}
    {span : Span}
    {id : SymbolId}
    (hcalls : Calls (Judge.limited n) s callee id t)
    (hkind : (t.tree.symbol id).kind = .function)
    (hsigned : (t.tree.symbol id).Signed)
    (htyped : (inferCall callee args span (Judge.limited n) s).1.isSome = true)
    (htakes : s.TakesArity (inferCall callee args span (Judge.limited n) s).2) :
    args.length ≤ (s.tree.symbol id).info.params.length ∧
    (∀ i, args.length ≤ i → i < (s.tree.symbol id).info.params.length →
      ((s.tree.symbol id).info.params.take (i + 1)).any (·.hasDefault) = true) ∧
    ((s.tree.symbol id).info.params.Pairwise
        (fun p q => p.hasDefault = true → q.hasDefault = true) →
      ∀ param ∈ (s.tree.symbol id).info.params.drop args.length,
      param.hasDefault = true) := by
  obtain ⟨result, hresult⟩ := Option.isSome_iff_exists.mp htyped
  have hchecks :=
    checksArgs_of_calls hcalls hkind hsigned (Prod.ext hresult rfl)
  obtain ⟨hmany, hfew⟩ := hchecks.supplied htakes
  refine ⟨hmany, fun i hleft hi =>
    SymbolInfo.any_hasDefault hi (hfew.trans hleft), ?_⟩
  intro hlast param hparam
  obtain ⟨i, hi, rfl⟩ := List.mem_drop_iff_getElem.mp hparam
  exact SymbolInfo.hasDefault_of_pairwise (i := args.length + i) hlast
    (by omega) (by omega)

def intParam (name : String) (default : Option Expr) : Slot :=
  ⟨name, .int true 32, .priv, false, default, .none⟩

def methodWithDefault : Program := soleModule [
  ⟨⟨1⟩, .none, .struct ⟨⟨2⟩, "S", .priv, [], [
    ⟨⟨3⟩, "m", .pub,
      [intParam "a" none,
        intParam "b" (some ⟨⟨4⟩, .none, .literal (.int "2")⟩)], some .void,
        none, ⟨⟨5⟩, [], .none⟩, .none⟩], .none⟩⟩,
  ⟨⟨6⟩, .none, .letDecl ⟨"o", .priv, false, some (.named "S"),
    some ⟨⟨7⟩, .none, .literal .undefined⟩⟩⟩]

def inMethodWithDefault : Session :=
  { Session.new methodWithDefault {} with
    tree := (Session.new methodWithDefault {}).tree.enter ⟨1⟩ }

def boundReceiver : Expr := ⟨⟨8⟩, .none, .ident "o"⟩

def askedReceiver : Option Ty × Session :=
  askType boundReceiver (Judge.limited 3) inMethodWithDefault

def foundMethod : Option (SymbolId × ScopeId) × Session :=
  method? (askedReceiver.1.getD .void) "m" (Judge.limited 3) askedReceiver.2

theorem calls_foundMethod :
    Calls (Judge.limited 3) inMethodWithDefault
      ⟨⟨9⟩, .none, .member boundReceiver "m"⟩ ⟨1⟩ foundMethod.2 := by
  have hasked : askedReceiver.1 ≠ none := by decide +kernel
  have hfound : foundMethod.1 = some (⟨1⟩, ⟨2⟩) := by decide +kernel
  exact .method rfl rfl rfl
    (Prod.ext (Option.getD_of_ne_none hasked _).symm rfl) (Prod.ext hfound rfl)

/-- One argument is enough for the method. -/
theorem accepted_calls_supply_required_params_of_method :
    1 ≤ (inMethodWithDefault.tree.symbol ⟨1⟩).info.params.length ∧
      ∀ param ∈ (inMethodWithDefault.tree.symbol ⟨1⟩).info.params.drop 1,
        param.hasDefault = true := by
  have hkind : (foundMethod.2.tree.symbol ⟨1⟩).kind = .function := by
    decide +kernel
  have hsigned : (foundMethod.2.tree.symbol ⟨1⟩).Signed := by
    have hnone : (foundMethod.2.tree.symbol ⟨1⟩).ty.isNone = true := by
      decide +kernel
    intro ty hty
    rw [hty] at hnone
    cases hnone
  have htyped : (inferCall ⟨⟨9⟩, .none, .member boundReceiver "m"⟩
      [⟨⟨10⟩, .none, .literal (.int "1")⟩] .none (Judge.limited 3)
      inMethodWithDefault).1.isSome = true := by
    decide +kernel
  have htakes : inMethodWithDefault.TakesArity
      (inferCall ⟨⟨9⟩, .none, .member boundReceiver "m"⟩
      [⟨⟨10⟩, .none, .literal (.int "1")⟩] .none (Judge.limited 3)
      inMethodWithDefault).2 := by
    unfold Session.TakesArity
    decide +kernel
  have hlast : (inMethodWithDefault.tree.symbol ⟨1⟩).info.params.Pairwise
      (fun p q => p.hasDefault = true → q.hasDefault = true) := by
        decide +kernel
  obtain ⟨hmany, -, hleft⟩ :=
    accepted_calls_supply_required_params calls_foundMethod hkind hsigned
    htyped htakes
  exact ⟨hmany, hleft hlast⟩

def functionCalled (params : List Slot) (between : List Stmt)
    (args : List Expr) : Program :=
  soleModule (⟨⟨1⟩, .none, .func ⟨⟨2⟩, "f", .priv, params, some .void, none,
      ⟨⟨3⟩, [], .none⟩, .none⟩⟩ ::
    between ++
      [⟨⟨4⟩, .none, .expr ⟨⟨5⟩, .none, .call ⟨⟨6⟩, .none, .ident "f"⟩ args⟩⟩])

/-- No number of arguments is objected to where a parameter without a default
after one that has one is left out, where the function has no type because the
type of its parameter is unknown, and where the function has the type of another
declaration of its name. -/
theorem parameters_after_a_default_are_left_out :
    [functionCalled
        [intParam "a" (some ⟨⟨7⟩, .none, .literal (.int "1")⟩),
          intParam "b" none] [] [],
      functionCalled [⟨"a", .named "Nope", .priv, false, none, .none⟩] [] [],
      functionCalled [⟨"a", .named "Nope", .priv, false, none, .none⟩]
        [⟨⟨7⟩, .none, .letDecl ⟨"f", .priv, false,
          some (.function [.int true 32, .int true 32] .void none),
          some ⟨⟨8⟩, .none, .literal .undefined⟩⟩⟩]
        [⟨⟨9⟩, .none, .literal (.int "1")⟩,
          ⟨⟨10⟩, .none, .literal (.int "2")⟩]].map
      (fun program =>
        (Check.handle (Session.new program {})).2.diagnostics.codes) =
    [[], ["UnknownType"], ["DuplicateSymbol", "UnknownType"]] := by
  decide +kernel

end StaticCheck
