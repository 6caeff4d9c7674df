import StaticCheck.Proofs.Bounds

/-!
# What may be thrown

In a function that names its errors, a throw has to stay among them.  The error
set of a value is narrowed to one error if the value is written as a member
access under the name of that error.  The access need not be one to an error
set: every member that is declared under such a name passes.
-/

namespace StaticCheck

open Rule

/-!
## The check of a throw
-/

def Session.throwing (s : Session) : Session :=
  { s with frame := s.frame.map fun frame => { frame with hasThrow := true } }

/-- A value is thrown whose type is an error set, in a function that names its
errors. -/
inductive Throws (judge : Judge) (s : Session) (value : Expr)
    (allowed thrown : List String) (t : Session) : Prop
  | intro {frame : Frame} {declared written : Ty} {asked normal : Session}
      (hframe : s.frame = some frame)
      (hmode : frame.errorMode = some .namedSet ∨ frame.errorMode = some .group)
      (hdeclared : frame.errorType = some declared)
      (hasked : askType value judge s.throwing = (some written, asked))
      (hthrown : Rule.normalize written judge asked = (.errors thrown, normal))
      (hallowed : Rule.normalize declared judge normal = (.errors allowed, t))

/-- The value stays among the allowed errors: all that its type names are
allowed, or it is written as a member access under the name of an allowed
one. -/
def Admits (allowed thrown : List String) (value : Expr) : Prop :=
  thrown ≠ [] ∧ ((∀ name ∈ thrown, name ∈ allowed) ∨
    ∃ base name, value.unparen.kind = .member base name ∧ name ∈ thrown ∧
    name ∈ allowed)

section Throws

variable {judge : Judge} {s t : Session} {value : Expr}
    {allowed thrown : List String}

theorem thrownErrors_of_member {base : Expr} {name : String}
    (hvalue : value.unparen.kind = .member base name) :
    thrownErrors value (.errors thrown) = if name ∈ thrown then [name]
      else thrown := by
  simp [thrownErrors, hvalue]

theorem thrownErrors_of_other
    (hvalue : ∀ base name, value.unparen.kind ≠ .member base name) :
    thrownErrors value (.errors thrown) = thrown := by
  unfold thrownErrors
  split
  · next names hnames =>
      split
      · next base name hkind => exact absurd hkind (hvalue base name)
      · cases hnames
        rfl
  · next hnames => exact absurd rfl (hnames thrown)

theorem admits_iff :
    Admits allowed thrown value ↔ thrownErrors value (.errors thrown) ≠ [] ∧
      ∀ name ∈ thrownErrors value (.errors thrown), name ∈ allowed := by
  unfold Admits
  by_cases hvalue : ∃ base name, value.unparen.kind = .member base name
  · obtain ⟨base, name, hvalue⟩ := hvalue
    rw [thrownErrors_of_member hvalue]
    by_cases hname : name ∈ thrown
    · rw [if_pos hname]
      constructor
      · rintro ⟨-, hall | ⟨_, other, hkind, -, hother⟩⟩
        · simpa using hall name hname
        · rw [hvalue] at hkind
          cases hkind
          simpa using hother
      · rintro ⟨-, hallowed⟩
        exact ⟨List.ne_nil_of_mem hname,
          .inr ⟨base, name, hvalue, hname, hallowed name (by simp)⟩⟩
    · simp [hvalue, hname]
  · simp only [not_exists] at hvalue
    rw [thrownErrors_of_other hvalue]
    simp [hvalue]

instance (allowed thrown : List String) (value : Expr) :
    Decidable (Admits allowed thrown value) :=
  decidable_of_iff _ admits_iff.symm

theorem checkRaised_run {frame : Frame} {declared : Ty}
    (hdeclared : frame.errorType = some declared)
    (hallowed : Rule.normalize declared judge s = (.errors allowed, t)) :
    checkRaised frame (.errors thrown) value judge s =
      ((), t.reportIf (¬Admits allowed thrown value)
        (.throwTypeMismatch (Ty.errors allowed).text (Ty.errors thrown).text)
        value.span) := by
  have hrefused : ((thrownErrors value (.errors thrown)).isEmpty ||
      (thrownErrors value (.errors thrown)).any fun name =>
        !allowed.contains name) = true ↔ ¬Admits allowed thrown value := by
    rw [admits_iff]
    simp only [Bool.or_eq_true, List.isEmpty_iff, List.any_eq_true,
      Bool.not_eq_true', List.contains_eq_mem, decide_eq_false_iff_not,
      not_and_or, not_not, not_forall, exists_prop,
      ne_eq]
  unfold checkRaised
  rw [hdeclared]
  dsimp only
  rw [bind_of_run hallowed, ← Session.reportIf_congr hrefused]
  unfold Session.reportIf
  dsimp only
  split <;> rfl

theorem Throws.checkThrow_run (h : Throws judge s value allowed thrown t)
    (span : Span) : checkThrow value span judge s =
      ((), t.reportIf (¬Admits allowed thrown value)
        (.throwTypeMismatch (Ty.errors allowed).text (Ty.errors thrown).text)
        value.span) := by
  obtain ⟨hframe, hmode, hdeclared, hasked, hthrown, hallowed⟩ := h
  unfold checkThrow
  rw [bind_frame?, hframe]
  have hmark :
      updateFrame (fun frame => { frame with hasThrow := true }) judge s =
      ((), s.throwing) := rfl
  rcases hmode with hmode | hmode
  all_goals
    simp only [Option.bind_some, hmode]
    rw [bind_of_run hmark, bind_of_run hasked]
    dsimp only
    rw [bind_of_run hthrown]
    exact checkRaised_run hdeclared hallowed

end Throws

/-!
## Where an access comes from
-/

/-- The normal form of the type is an error set, in some session. -/
def Ty.MayBeErrors (ty : Ty) : Prop :=
  ∃ judge s names, (Rule.normalize ty judge s).1 = .errors names

theorem Ty.not_mayBeErrors_prim (p : Prim) : ¬(Ty.prim p).MayBeErrors := by
  rintro ⟨judge, s, names, h⟩
  cases h

theorem Ty.not_mayBeErrors_enum (enum : EnumTy) :
    ¬(Ty.enum enum).MayBeErrors := by
  rintro ⟨judge, s, names, h⟩
  cases h

theorem resolveTy_optional {judge : Judge} {s t : Session} {span : Span}
    {loud : Bool} {inner : Ty} {answer : Option Ty}
    (h : resolveTy span loud inner judge s = (answer, t)) :
    resolveTy span loud (.optional inner) judge s =
      (answer.map Ty.optional, t) := by
  rw [resolveTy, bind_of_run h]
  cases answer <;> rfl

theorem Ty.not_mayBeErrors_optional (inner : Ty) :
    ¬(Ty.optional inner).MayBeErrors := by
  rintro ⟨judge, s, names, h⟩
  rcases hinner : resolveTy .none false inner judge s with ⟨answer, t⟩
  unfold Rule.normalize tryResolve at h
  rw [bind_of_run (resolveTy_optional hinner)] at h
  cases answer <;> cases h

/-- What stands before the name in a member access. -/
inductive Holder
  | module (id : SymbolId)
  | type (ty : Ty)
  | value (ty : Ty)

namespace Holder

def scope? (tree : ScopeTree) : Holder → Option ScopeId
  | .module id => (tree.symbol id).info.scope
  | .type ty | .value ty => ty.memberScope?

def HasError (name : String) : Holder → Prop
  | .module _ => False
  | .type ty | .value ty => ∃ names, ty = .errors names ∧ name ∈ names

inductive Declares (tree : ScopeTree) (name : String) : Holder → Prop
  | member {holder : Holder} {scope : ScopeId} {id : SymbolId}
      (hscope : holder.scope? tree = some scope)
      (hmember : tree.lookupLocal scope name = some id) :
      Declares tree name holder
  | field {struct : StructTy} {member : Member} (hscope : struct.scope = none)
      (hmember : struct.member? name = some member) :
      Declares tree name (.value (.struct struct))

end Holder

/-- What the base of a member access is found to be, and the session
afterwards. -/
inductive HeldBy (judge : Judge) (s : Session) (base : Expr) :
    Holder → Session → Prop
  | module {name : String} {id : SymbolId} (hbase : base.identName? = some name)
      (hfound : s.tree.lookup name = some id)
      (hkind : (s.tree.symbol id).kind = .use) :
      HeldBy judge s base (.module id) s
  | type {name : String} {id : SymbolId} {ty : Ty} {t : Session}
      (hbase : base.identName? = some name)
      (hfound : s.tree.lookup name = some id)
      (htype : (s.tree.symbol id).isTypeName = true)
      (hty : resolveType (.named (s.tree.symbol id).name) base.span judge s =
        (some ty, t)) :
      HeldBy judge s base (.type ty) t
  | value {written plain ty : Ty} {asked peeled t : Session}
      (hbase : askType base judge s = (some written, asked))
      (hpeeled : peelOptionals written judge asked = ((0, plain), peeled))
      (hderef : derefOnce plain judge peeled = (ty, t)) : HeldBy judge s base
      (.value ty) t

section Sources

variable {judge : Judge} {s t : Session} {base : Expr} {name : String}
    {span : Span} {ty : Ty}

theorem namedSymbol?_cases (base : Expr) (judge : Judge) (s : Session) :
    namedSymbol? base judge s = (none, s) ∨
      ∃ owner id, base.identName? = some owner ∧ s.tree.lookup owner =
      some id := by
  cases howner : base.identName? with
  | none =>
    left
    unfold namedSymbol?
    rw [howner]
    rfl
  | some owner =>
    cases hfound : s.tree.lookup owner with
    | none =>
      left
      rw [namedSymbol?_run howner, hfound]
    | some id => exact .inr ⟨owner, id, rfl, hfound⟩

theorem moduleSymbol?_cases (base : Expr) (judge : Judge) (s : Session) :
    moduleSymbol? base judge s = (none, s) ∨
      ∃ id, moduleSymbol? base judge s = (some id, s) ∧
      HeldBy judge s base (.module id) s := by
  rcases namedSymbol?_cases base judge s with hnone
    | ⟨owner, id, howner, hfound⟩
  · left
    exact bind_of_run hnone
  · rw [moduleSymbol?_run howner hfound]
    by_cases hkind : (s.tree.symbol id).kind = .use
    · exact .inr ⟨id, by simp [hkind], .module howner hfound hkind⟩
    · exact .inl (by simp [hkind])

theorem typeSymbol?_cases (base : Expr) (judge : Judge) (s : Session) :
    typeSymbol? base judge s = (none, s) ∨
      ∃ id, typeSymbol? base judge s = (some id, s) ∧
        ∀ ty t, resolveType (.named (s.tree.symbol id).name) base.span judge s =
        (some ty, t) → HeldBy judge s base (.type ty) t := by
  rcases namedSymbol?_cases base judge s with hnone
    | ⟨owner, id, howner, hfound⟩
  · left
    exact bind_of_run hnone
  · rw [typeSymbol?_run howner hfound]
    by_cases htype : (s.tree.symbol id).isTypeName = true
    · exact .inr ⟨id, by simp [htype], fun _ _ => .type howner hfound htype⟩
    · exact .inl (by simp [htype])

theorem exists_of_lookupLocal {α : Type} {scope : ScopeId}
    {next : Option SymbolId → Rule (Option α)} {a : α}
    (hnone : ∀ s, (next none judge s).1 = none)
    (h : (lookupLocal scope name >>= next) judge s = (some a, t)) :
    ∃ id, s.tree.lookupLocal scope name = some id := by
  rw [bind_lookupLocal] at h
  cases hmember : s.tree.lookupLocal scope name with
  | none =>
    rw [hmember] at h
    have hanswer := hnone s
    rw [h] at hanswer
    cases hanswer
  | some id => exact ⟨id, rfl⟩

theorem declares_of_moduleMember {id : SymbolId}
    (h : moduleMember id name span judge s = (some ty, t)) :
    (Holder.module id).Declares s.tree name := by
  unfold moduleMember at h
  rw [bind_symbol] at h
  cases hscope : (s.tree.symbol id).info.scope with
  | none =>
    rw [hscope] at h
    cases h
  | some scope =>
    rw [hscope] at h
    obtain ⟨member, hmember⟩ := exists_of_lookupLocal (fun _ => rfl) h
    exact .member hscope hmember

theorem source_of_typeMember {id : SymbolId}
    (h : typeMember id base name span judge s = (some ty, t))
    (hty : ty.MayBeErrors) :
    ∃ found u, resolveType (.named (s.tree.symbol id).name) base.span judge s =
      (some found, u) ∧
      ((Holder.type found).HasError name ∨
        (Holder.type found).Declares u.tree name) := by
  unfold typeMember at h
  rw [bind_symbol] at h
  obtain ⟨found, u, hfound, hrest⟩ := exists_of_bind (fun _ => rfl) h
  refine ⟨found, u, hfound, ?_⟩
  dsimp only at hrest
  split at hrest
  · next hvariant =>
      cases hrest
      cases ty with
      | enum enum => exact absurd hty (Ty.not_mayBeErrors_enum enum)
      | _ => cases hvariant
  · split at hrest
    · next names _ =>
        by_cases hname : name ∈ names
        · exact .inl ⟨names, rfl, hname⟩
        · simp only [List.contains_eq_mem, hname, decide_false,
            Bool.false_eq_true, if_false] at hrest
          cases hrest
    · cases hscope : found.memberScope? with
      | none =>
        rw [hscope] at hrest
        cases hrest
      | some scope =>
        rw [hscope] at hrest
        obtain ⟨_, _, hstatic, -⟩ := exists_of_bind (fun _ => rfl) hrest
        obtain ⟨member, hmember⟩ := exists_of_lookupLocal (fun _ => rfl) hstatic
        exact .inr (.member hscope hmember)

theorem declares_of_structMember {struct : StructTy}
    (h : structMember struct name span judge s = (some ty, t)) :
    (Holder.value (.struct struct)).Declares s.tree name := by
  unfold structMember at h
  cases hscope : struct.scope with
  | none =>
    rw [hscope] at h
    cases hmember : struct.member? name with
    | none =>
      rw [hmember] at h
      cases h
    | some member => exact .field hscope hmember
  | some scope =>
    rw [hscope] at h
    obtain ⟨member, hmember⟩ := exists_of_lookupLocal (fun _ => rfl) h
    exact .member hscope hmember

theorem declares_of_enumMember {enum : EnumTy} {scope : ScopeId}
    (hscope : enum.scope = some scope)
    (h : enumMember enum scope name span judge s = (some ty, t)) :
    (Holder.value (.enum enum)).Declares s.tree name := by
  obtain ⟨member, hmember⟩ := exists_of_lookupLocal (fun _ => rfl) h
  exact .member hscope hmember

theorem source_of_plainMember {found : Ty}
    (h : plainMember found name span judge s = (some ty, t))
    (hty : ty.MayBeErrors) :
    (Holder.value found).HasError name ∨
      (Holder.value found).Declares s.tree name := by
  unfold plainMember at h
  cases found with
  | array | tuple =>
    dsimp only at h
    split at h
    · cases h
      exact absurd hty (Ty.not_mayBeErrors_prim _)
    · cases h
  | struct struct => exact .inr (declares_of_structMember h)
  | enum enum =>
    dsimp only at h
    cases hscope : enum.scope with
    | none =>
      rw [hscope] at h
      cases h
    | some scope =>
      rw [hscope] at h
      exact .inr (declares_of_enumMember hscope h)
  | errors names =>
    dsimp only at h
    by_cases hname : name ∈ names
    · exact .inl ⟨names, rfl, hname⟩
    · simp only [List.contains_eq_mem, hname, decide_false, Bool.false_eq_true,
        if_false] at h
      cases h
  | _ => cases h

theorem source_of_valueMember {written : Ty}
    (h : valueMember written name span judge s = (some ty, t))
    (hty : ty.MayBeErrors) :
    ∃ plain found peeled u, peelOptionals written judge s =
      ((0, plain), peeled) ∧ derefOnce plain judge peeled = (found, u) ∧
      ((Holder.value found).HasError name ∨
        (Holder.value found).Declares u.tree name) := by
  unfold valueMember at h
  rcases hpeeled : peelOptionals written judge s with ⟨⟨depth, plain⟩, peeled⟩
  rcases hderef : derefOnce plain judge peeled with ⟨found, u⟩
  rw [bind_of_run hpeeled] at h
  dsimp only at h
  rw [bind_of_run hderef] at h
  obtain ⟨result, v, hplain, hrest⟩ := exists_of_bind (fun _ => rfl) h
  by_cases hdepth : 0 < depth
  · simp only [hdepth, if_true] at hrest
    cases hrest
    exact absurd hty (Ty.not_mayBeErrors_optional result)
  · obtain rfl : depth = 0 := by omega
    cases hrest
    exact ⟨plain, found, peeled, u, rfl, hderef,
      source_of_plainMember hplain hty⟩

/-- A member access with an error set for its type: its base is an error set or
an error with that name, or it has a member that is declared under the name. -/
theorem source_of_inferMember
    (h : inferMember base name span judge s = (some ty, t))
    (hty : ty.MayBeErrors) :
    ∃ holder u, HeldBy judge s base holder u ∧
      (holder.HasError name ∨ holder.Declares u.tree name) := by
  unfold inferMember at h
  rcases moduleSymbol?_cases base judge s with hmodule | ⟨id, hmodule, hheld⟩
  · rw [bind_of_run hmodule] at h
    dsimp only at h
    rcases typeSymbol?_cases base judge s with htype | ⟨id, htype, hheld⟩
    · rw [bind_of_run htype] at h
      obtain ⟨written, asked, hasked, hrest⟩ := exists_of_bind (fun _ => rfl) h
      obtain ⟨plain, found, peeled, u, hpeeled, hderef, hsource⟩ :=
        source_of_valueMember hrest hty
      exact ⟨.value found, u, .value hasked hpeeled hderef, hsource⟩
    · rw [bind_of_run htype] at h
      obtain ⟨found, u, hfound, hsource⟩ := source_of_typeMember h hty
      exact ⟨.type found, u, hheld found u hfound, hsource⟩
  · rw [bind_of_run hmodule] at h
    exact ⟨.module id, s, hheld, .inr (declares_of_moduleMember h)⟩

end Sources

/-!
## The inference behind an answer
-/

/-- The expression and what is left of it without its outer parentheses, one
after the other. -/
def Expr.layers : Expr → List Expr
  | ⟨id, span, .paren inner⟩ => ⟨id, span, .paren inner⟩ :: inner.layers
  | expr => [expr]

theorem Expr.self_mem_layers (expr : Expr) : expr ∈ expr.layers := by
  obtain ⟨id, span, kind⟩ := expr
  cases kind <;> simp [layers]

section Inferred

variable {start : Session} {log : Inference → Prop}

theorem Session.Traced.of_askType
    (hstart : ∀ key ty, ¬start.cache.Records key ty) {s : Session}
    (hs : start.Traced log s) {expr : Expr}
    (hown : ∀ i, log i → i.expr.id = expr.id → i.expr = expr)
    {n : Nat} {ty : Ty} (h : (askType expr (Judge.limited n) s).1 = some ty) :
    ∃ i, (log i ∨ Carries n (askType expr) s i) ∧
      start.TracedWithin log i.session ∧ i.expr = expr ∧
      i.result.1 = some ty := by
  cases n with
  | zero => cases h
  | succ n =>
    change (inferExpr expr (Judge.limited n) s).1 = some ty at h
    rcases inferExpr_cases s expr
      (Judge.limited n) with ⟨known, hremembered, hrun⟩ | hrun | hnew
    · rw [hrun] at h
      cases h
      obtain ⟨i, hi, hfinds⟩ :=
        hs.finds hstart (TypeCache.records_of_get? hremembered)
      have hexpr := hown i hi (congrArg ExprKey.node hfinds.key_eq)
      exact ⟨i, .inl hi, hs.within hi, hexpr, hfinds.answer⟩
    · rw [hrun] at h
      cases h
    · rcases hkind : inferKind expr (Judge.limited n)
        (s.opened expr) with ⟨answer, t⟩
      rw [inferExpr_of_new hnew hkind] at h
      exact ⟨⟨n, expr, s⟩, .inr (.askType (.here hnew)),
        ⟨log, fun _ => id, hs⟩, rfl, (congrArg Prod.fst hkind).trans h⟩

theorem Session.Traced.exists_inference
    (hstart : ∀ key ty, ¬start.cache.Records key ty) (expr : Expr)
    {log : Inference → Prop} {s : Session} (hs : start.Traced log s)
    (hown : ∀ i, log i → ∀ layer ∈ expr.layers, i.expr.id = layer.id →
      i.expr = layer) {n : Nat}
    {ty : Ty} (h : (askType expr (Judge.limited n) s).1 = some ty) :
    ∃ i, (log i ∨ Carries n (askType expr) s i) ∧ i.expr = expr.unparen ∧
      i.result.1 = some ty := by
  obtain ⟨i, hi, hwithin, hexpr, hresult⟩ :=
    hs.of_askType hstart (fun i hi => hown i hi expr expr.self_mem_layers) h
  obtain ⟨id, span, kind⟩ := expr
  cases kind with
  | paren inner =>
    obtain ⟨part, hpart, htraced⟩ := hwithin
    have hform : inferKind i.expr = askType inner := by
      rw [hexpr]
      rfl
    have hinner :
        (askType inner (Judge.limited i.depth) (i.session.opened i.expr)).1 =
        some ty := by
      rw [← hresult, Inference.result, hform]
    have hturned : start.Traced part (i.session.opened i.expr) :=
      htraced.turn fun _ _ h => h
    obtain ⟨j, hj, hunparen, hfound⟩ := hturned.exists_inference hstart inner
      (fun k hk layer hlayer => hown k (hpart k hk) layer
        (List.mem_cons_of_mem _ hlayer)) hinner
    refine ⟨j, ?_, hunparen, hfound⟩
    rcases hj with hj | hj
    · exact .inl (hpart j hj)
    · rw [← hform] at hj
      exact hi.imp (fun hi => hs.nested hi hj) fun hi => hi.nested hj
  | _ => exact ⟨i, hi, hexpr, hresult⟩

end Inferred

theorem Session.not_records_new (program : Program) (options : Options)
    (evaluator : Evaluator) (key : ExprKey) (ty : Ty) :
    ¬((Session.new program options).withEvaluator evaluator).cache.Records
      key ty := by
  rintro (hentry | ⟨journal, hjournal, -⟩)
  · cases hentry
  · cases hjournal

theorem inferKind_of_member {expr base : Expr} {name : String}
    (h : expr.kind = .member base name) :
    inferKind expr = inferMember base name expr.span := by
  unfold inferKind
  rw [h]

/-- A throw is accepted exactly if the type of its value names allowed errors
only, or if the value is a member access under the name of an error of its type
that is allowed.  Of such an access no more is known than its inference, which
was carried out for the throw or is in the log of the session: the base is an
error set or an error with that name, or any other module, type or value with a
member that is declared under it. -/
theorem throws_are_narrowed_by_name
    {judge : Judge}
    {s t : Session}
    {value : Expr}
    {allowed thrown : List String}
    (h : Throws judge s value allowed thrown t)
    (span : Span) :
    checkThrow value span judge s =
      ((), t.reportIf (¬Admits allowed thrown value)
        (.throwTypeMismatch (Ty.errors allowed).text (Ty.errors thrown).text)
        value.span) ∧
    ∀ program options evaluator log n base name, judge = Judge.limited n →
      ((Session.new program options).withEvaluator evaluator).Traced log s →
      (∀ i, log i → ∀ layer ∈ value.layers, i.expr.id = layer.id →
        i.expr = layer) →
      value.unparen.kind = .member base name →
      ∃ i : Inference, (log i ∨ Carries n (askType value) s.throwing i) ∧
        i.expr = value.unparen ∧
        ∃ holder u, HeldBy (Judge.limited i.depth)
        (i.session.opened i.expr) base holder u ∧
        (holder.HasError name ∨ holder.Declares u.tree name) := by
  refine ⟨h.checkThrow_run span, ?_⟩
  rintro program options evaluator log n base name rfl hs hown hvalue
  obtain ⟨_, _, _, hasked, hthrown, _⟩ := h
  have hthrowing :
      ((Session.new program options).withEvaluator evaluator).Traced log
      s.throwing :=
    hs.turn fun _ _ h => h
  obtain ⟨i, hi, hexpr, hresult⟩ := hthrowing.exists_inference
    (Session.not_records_new program options evaluator) value hown
    (congrArg Prod.fst hasked)
  refine ⟨i, hi, hexpr, ?_⟩
  rw [← hexpr] at hvalue
  rw [Inference.result, inferKind_of_member hvalue] at hresult
  exact source_of_inferMember (Prod.ext hresult rfl)
    ⟨_, _, thrown, congrArg Prod.fst hthrown⟩

theorem Ty.eq_errors_of_thrownErrors {value : Expr} {ty : Ty}
    {names : List String}
    (hvalue : ∀ base name, value.unparen.kind ≠ .member base name)
    (h : thrownErrors value ty = names) (hnames : names ≠ []) :
    ty = .errors names := by
  cases ty with
  | errors other => rw [← h, thrownErrors_of_other hvalue]
  | _ => exact absurd h.symm hnames

def errorFields : List Stmt := [
  ⟨⟨1⟩, .none,
    .defDecl ⟨"E", .priv, none, ⟨⟨2⟩, .none, .type (.errors ["Io", "Net"])⟩⟩⟩,
  ⟨⟨3⟩, .none,
    .struct
    ⟨⟨4⟩, "S", .priv,
      [⟨"Io", .named "E", .pub, false, none, .none⟩,
        ⟨"e", .named "E", .pub, false, none, .none⟩], [], .none⟩⟩,
  ⟨⟨5⟩, .none, .letDecl ⟨"x", .priv, false, some (.named "S"),
    some ⟨⟨6⟩, .none, .literal .undefined⟩⟩⟩]

def inThrower : Session :=
  { Session.new (soleModule errorFields) {} with
    tree := (Session.new (soleModule errorFields) {}).tree.enter ⟨1⟩
    frame :=
      some ⟨"f", some .void, some (.errors ["Io"]), some .group, [], false,
        false, false, none⟩ }

def holdingErrors : Expr := ⟨⟨7⟩, .none, .ident "x"⟩

def errorField : Expr :=
  ⟨⟨8⟩, .none, .paren ⟨⟨9⟩, .none, .member holdingErrors "Io"⟩⟩

def askedField : Option Ty × Session :=
  askType errorField (Judge.limited 6) inThrower.throwing

def normalField : Ty × Session :=
  Rule.normalize (askedField.1.getD .void) (Judge.limited 6) askedField.2

theorem throws_errorField :
    Throws (Judge.limited 6) inThrower errorField ["Io"] ["Io", "Net"]
      normalField.2 := by
  have hasked : askedField.1 ≠ none := by decide +kernel
  have hnames : thrownErrors holdingErrors normalField.1 = ["Io", "Net"] := by
    decide +kernel
  have hthrown : normalField.1 = .errors ["Io", "Net"] := by
    apply Ty.eq_errors_of_thrownErrors _ hnames (by decide)
    intro base name h
    cases h
  exact .intro rfl (.inr rfl) rfl
    (Prod.ext (Option.getD_of_ne_none hasked _).symm rfl)
    (Prod.ext hthrown rfl) rfl

/-- The field of an error set passes for its error, although it can hold the
other one. -/
theorem throws_are_narrowed_by_name_of_field :
    checkThrow errorField .none (Judge.limited 6) inThrower =
      ((), normalField.2) ∧ ∃ i : Inference, i.expr = errorField.unparen ∧
        ∃ holder u,
          HeldBy (Judge.limited i.depth)
          (i.session.opened i.expr) holdingErrors holder u ∧
          (holder.HasError "Io" ∨ holder.Declares u.tree "Io") := by
  obtain ⟨hrun, hsource⟩ := throws_are_narrowed_by_name throws_errorField .none
  constructor
  · have hadmits : Admits ["Io"] ["Io", "Net"] errorField := by decide +kernel
    rw [hrun]
    simp [Session.reportIf, hadmits]
  · obtain ⟨i, -, hexpr, hheld⟩ :=
      hsource (soleModule errorFields) {} .literal _ 6 holdingErrors
      "Io" rfl (.turn .start fun _ _ h => h) (fun _ hi => hi.elim) rfl
    exact ⟨i, hexpr, hheld⟩

def throwingFunction (ty : Ty) (value : ExprKind) : Program :=
  soleModule (errorFields ++ [
  ⟨⟨10⟩, .none,
    .func ⟨⟨11⟩, "f", .priv, [⟨"s", ty, .priv, false, none, .none⟩], some .void,
      some (.group ["Io"]),
      ⟨⟨12⟩, [⟨⟨13⟩, .none, .throwStmt ⟨⟨14⟩, .none, value⟩⟩], .none⟩, .none⟩⟩])

/-- An error that is not allowed is refused, as is a field that may hold it, but
not the field that is called like the allowed one, nor the same access to a
pointer to an error. -/
theorem fields_and_pointers_pass_for_errors :
    [throwingFunction (.named "S") (.member ⟨⟨15⟩, .none, .ident "E"⟩ "Net"),
      throwingFunction (.named "S") (.member ⟨⟨15⟩, .none, .ident "s"⟩ "e"),
      throwingFunction (.named "S") (.member ⟨⟨15⟩, .none, .ident "s"⟩ "Io"),
      throwingFunction (.pointer (.named "E") false)
      (.member ⟨⟨15⟩, .none, .ident "s"⟩ "Io")].map
      (fun program =>
        (Check.handle (Session.new program {})).2.diagnostics.codes) =
    [["ThrowTypeMismatch"], ["ThrowTypeMismatch"], [], []] := by
  decide +kernel

end StaticCheck
