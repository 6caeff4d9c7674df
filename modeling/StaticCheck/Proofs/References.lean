import StaticCheck.Proofs.Canonical
import StaticCheck.Proofs.RecordedTypes
import StaticCheck.Proofs.Voiced.Expressions

/-!
# References and assignments

Whether a place may be written is judged twice: when a reference to it is taken,
and when it is assigned.  The reference looks only at where the place begins, a
name or a pointer that is followed; the assignment looks at every step on the
way.  Where it finds a field that may not be assigned or a pointer to const, the
reference allows more than the assignment.  Here it is shown that this is the
only difference.
-/

namespace StaticCheck

open Rule

/-!
## What is declared mutable
-/

/-- Only storage is declared mutable: a variable, a parameter or a field. -/
structure Symbol.MutableStorage (symbol : Symbol) : Prop where
  kind : symbol.mutable = true →
    symbol.kind = .var ∨ symbol.kind = .parameter ∨ symbol.kind = .structField
  value : symbol.mutable = true → symbol.info.denotesType = false

namespace Symbol.MutableStorage

theorem placeless : Placeless Symbol.MutableStorage := by
  intro _ _ _ h
  exact ⟨h.kind, h.value⟩

theorem of_immutable {symbol : Symbol} (h : symbol.mutable = false) :
    symbol.MutableStorage where
  kind hmutable := by
    rw [h] at hmutable
    cases hmutable
  value hmutable := by
    rw [h] at hmutable
    cases hmutable

theorem declarable {limits : Limits} :
    Declarable limits Symbol.MutableStorage where
  binding _ _ _ := ⟨fun _ => .inl rfl, fun _ => rfl⟩
  constant _ _ _ := of_immutable rfl
  typeAlias _ _ _ _ _ := of_immutable rfl
  errorSet _ _ _ _ _ := of_immutable rfl
  errorMember _ _ _ := of_immutable rfl
  use _ _ _ := of_immutable rfl
  function _ _ _ _ := of_immutable rfl
  receiver _ _ _ := ⟨fun _ => .inr (.inl rfl), fun _ => rfl⟩
  selfErr _ _ := of_immutable rfl
  param _ _ _ _ := ⟨fun _ => .inr (.inl rfl), fun _ => rfl⟩
  type _ _ _ _ _ _ _ := of_immutable rfl
  field _ _ := ⟨fun _ => .inr (.inr rfl), fun _ => rfl⟩
  variant _ _ _ _ := of_immutable rfl
  forBinding _ _ := of_immutable rfl
  catchBinding _ _ := of_immutable rfl

theorem of_tree (program : Program) (id : SymbolId) :
    (program.collect.tree.symbol id).MutableStorage := by
  exact Collected.symbol declarable placeless (fun _ => of_immutable rfl) id

theorem of_advances {a b : Symbol} (h : a.MutableStorage)
    (hadvances : a.Advances b) : b.MutableStorage := by
  rw [hadvances.fixed]
  exact ⟨h.kind, h.value⟩

theorem kind_ne_use {symbol : Symbol} (h : symbol.MutableStorage)
    (hmutable : symbol.mutable = true) : symbol.kind ≠ .use := by
  intro huse
  rcases h.kind hmutable with hkind | hkind | hkind
  · cases huse.symm.trans hkind
  · cases huse.symm.trans hkind
  · cases huse.symm.trans hkind

end Symbol.MutableStorage

/-!
## Known types
-/

namespace Session

def key (s : Session) (expr : Expr) : ExprKey :=
  ⟨s.module, expr.id, expr.kind.form⟩

def remembered? (s : Session) (expr : Expr) : Option Ty :=
  s.cache.get? (s.key expr)

def known? (s : Session) (expr : Expr) : Option Ty :=
  (s.remembered? expr).filter Ty.isCanonical

end Session

def Ty.pointee : Ty → Ty
  | .pointer target _ => target
  | ty => ty

section Runs

variable {s : Session} {expr : Expr} {ty : Ty} {judge : Judge}

theorem askType_of_remembered (h : s.remembered? expr = some ty) (n : Nat) :
    askType expr (Judge.limited (n + 1)) s = (some ty, s) := by
  show inferExpr expr (Judge.limited n) s = (some ty, s)
  unfold inferExpr
  rw [bind_run, exprKey_run]
  dsimp only
  rw [bind_run, remembered?_run]
  unfold Session.remembered? Session.key at h
  rw [h]
  rfl

theorem inferExpr_of_inFlight (hnew : s.remembered? expr = none)
    (hflight : s.inFlight.contains (s.key expr) = true) :
    inferExpr expr judge s = (none, s) := by
  unfold Session.remembered? Session.key at hnew
  unfold Session.key at hflight
  unfold inferExpr
  rw [bind_run, exprKey_run]
  dsimp only
  rw [bind_run, remembered?_run, hnew]
  dsimp only
  rw [bind_run, isInFlight_run, hflight]
  rfl

theorem withSpan_of_still {α : Type} {span : Span} {rule : Rule α} {a : α}
    (h : rule judge { s with context := s.context.pushSpan span } =
      (a, { s with context := s.context.pushSpan span })) :
    withSpan span rule judge s = (a, s) := by
  have hend := congrArg (fun result : α × Session =>
    (result.1,
      ({ result.2 with context := result.2.context.popSpan } : Session))) h
  exact hend

theorem withInFlight_of_still {α : Type} {key : ExprKey} {rule : Rule α} {a : α}
    (h : rule judge { s with inFlight := key :: s.inFlight } =
      (a, { s with inFlight := key :: s.inFlight })) :
    withInFlight key rule judge s = (a, s) := by
  have hend := congrArg (fun result : α × Session =>
    (result.1,
      ({ result.2 with inFlight := result.2.inFlight.erase key } : Session))) h
  dsimp only at hend
  rw [List.erase_cons_head] at hend
  exact hend

theorem inferExpr_of_still (hnew : s.remembered? expr = none)
    (hflight : s.inFlight.contains (s.key expr) = false)
    (hkind : inferKind expr judge { s with
        inFlight := s.key expr :: s.inFlight
        context := s.context.pushSpan expr.span } =
      (some ty, { s with
        inFlight := s.key expr :: s.inFlight
        context := s.context.pushSpan expr.span })) :
    inferExpr expr judge s =
    (some ty, { s with cache := s.cache.insert (s.key expr) ty }) := by
  have hrun :
      withInFlight (s.key expr) (withSpan expr.span (inferKind expr)) judge s =
      (some ty, s) :=
    withInFlight_of_still (withSpan_of_still hkind)
  unfold Session.remembered? Session.key at hnew
  unfold Session.key at hflight
  unfold inferExpr
  rw [bind_run, exprKey_run]
  dsimp only
  rw [bind_run, remembered?_run, hnew]
  dsimp only
  rw [bind_run, isInFlight_run, hflight]
  exact bind_of_run hrun

theorem normalize_of_canonical (h : ty.isCanonical = true) :
    normalize ty judge s = (ty, s) := by
  exact bind_of_run (resolveTy_of_canonical judge s ty h)

theorem derefOnce_of_canonical (h : ty.isCanonical = true) :
    derefOnce ty judge s = (ty.pointee, s) := by
  unfold derefOnce
  rw [bind_of_run (normalize_of_canonical h)]
  cases ty with
  | pointer target mutable => exact normalize_of_canonical h
  | _ => rfl

theorem canonical_of_known (h : s.known? expr = some ty) :
    s.remembered? expr = some ty ∧ ty.isCanonical = true := by
  exact Option.filter_eq_some_iff.mp h

end Runs

/-!
## The two walks
-/

/-- Whether the types are known that decide if a place may be written: those of
the bases of members and elements, up to the name or the pointer where the place
begins. -/
def Expr.isKnown (known : Expr → Option Ty) : Expr → Bool
  | ⟨_, _, .ident _⟩ => true
  | ⟨_, _, .paren inner⟩ => inner.isKnown known
  | ⟨_, _, .member base _⟩ => (known base).isSome && base.isKnown known
  | ⟨_, _, .index base _⟩ => (known base).isSome && base.isKnown known
  | ⟨_, _, .deref pointer⟩ => (known pointer).isSome
  | _ => false

/-- Whether a reference to a place may write: the name or the pointer where it
begins allows it. -/
def Expr.grantsWrite (tree : ScopeTree) (known : Expr → Option Ty) : Expr → Bool
  | ⟨_, _, .ident name⟩ =>
    (tree.lookup name).any fun id => (tree.symbol id).mutable
  | ⟨_, _, .paren inner⟩ => inner.grantsWrite tree known
  | ⟨_, _, .member base _⟩ => base.grantsWrite tree known
  | ⟨_, _, .index base _⟩ => base.grantsWrite tree known
  | ⟨_, _, .deref pointer⟩ =>
    match known pointer with
    | some (.pointer _ mutable) => mutable
    | _ => false
  | _ => false

/-- Whether a place inside a value of the type is barred, given whether the
value itself is: behind a pointer the pointer alone decides. -/
def Ty.barsInside (ty : Ty) (barred : Bool) : Bool :=
  match ty with
  | .pointer _ mutable => !mutable
  | _ => barred

/-- Whether a type has a field of that name that may not be assigned. -/
def ScopeTree.barsField (tree : ScopeTree) (ty : Ty) (name : String) : Bool :=
  match ty with
  | .struct struct =>
    (struct.scope.bind fun scope => tree.lookupLocal scope name).any fun id =>
      (tree.symbol id).kind == .structField &&
        ((tree.symbol id).isStatic || !(tree.symbol id).mutable)
  | _ => false

/-- Whether something on the way to a place forbids to assign it: a field that
is static or immutable, or a pointer to const. -/
def Expr.isBarred (tree : ScopeTree) (known : Expr → Option Ty) : Expr → Bool
  | ⟨_, _, .ident name⟩ =>
    (tree.lookup name).any fun id =>
      (tree.symbol id).kind == .structField && (tree.symbol id).isStatic
  | ⟨_, _, .paren inner⟩ => inner.isBarred tree known
  | ⟨_, _, .member base name⟩ =>
    (known base).any fun ty =>
      tree.barsField ty.pointee name || ty.barsInside (base.isBarred tree known)
  | ⟨_, _, .index base _⟩ =>
    (known base).any fun ty => ty.barsInside (base.isBarred tree known)
  | _ => false

variable {s : Session}

theorem placeMutability_of_known (n : Nat) (place : Expr)
    (h : place.isKnown s.known? = true) :
    placeMutability place (Judge.limited (n + 1)) s =
      (place.grantsWrite s.tree s.known?, s) := by
  obtain ⟨id, span, kind⟩ := place
  cases kind with
  | ident name =>
    unfold placeMutability Expr.grantsWrite
    rw [bind_lookup]
    cases s.tree.lookup name with
    | none => rfl
    | some id => rfl
  | paren inner => exact placeMutability_of_known n inner h
  | member base name =>
    exact placeMutability_of_known n base (Bool.and_eq_true_iff.mp h).2
  | index base index =>
    exact placeMutability_of_known n base (Bool.and_eq_true_iff.mp h).2
  | deref pointer =>
    obtain ⟨ty, hty⟩ := Option.isSome_iff_exists.mp h
    obtain ⟨hremembered, hcanonical⟩ := canonical_of_known hty
    unfold placeMutability Expr.grantsWrite
    rw [bind_of_run (askType_of_remembered hremembered n), hty]
    dsimp only
    rw [bind_of_run (normalize_of_canonical hcanonical)]
    cases ty with
    | pointer target mutable => rfl
    | _ => rfl
  | _ => cases h

/-!
## The walk of an assignment
-/

/-- How the walk of an assignment ends: with nothing reported or with one
objection to the write. -/
inductive Session.Decides (s : Session) :
    (barred : Bool) → Bool × Session → Prop
  | writable : s.Decides false (true, s)
  | objection (name detail : String) (span : Span) :
      s.Decides true (false, { s with
        diagnostics :=
          s.diagnostics.error (.mutabilityMismatch name detail) span })

theorem Session.Decides.verdict {barred : Bool} {result : Bool × Session}
    (h : s.Decides barred result) :
    (barred = false → result = (true, s)) ∧
      (barred = true → ∃ name detail span, result = (false, { s with
        diagnostics := s.diagnostics.error
          (.mutabilityMismatch name detail) span })) := by
  cases h with
  | writable =>
    refine ⟨fun _ => rfl, ?_⟩
    intro hbarred
    cases hbarred
  | objection name detail span =>
    refine ⟨?_, fun _ => ⟨name, detail, span, rfl⟩⟩
    intro hwritable
    cases hwritable

section Assignment

variable {base : Expr} {name : String} {span : Span} {ty : Ty}
    {barred : Bool} {n : Nat}

theorem bindingWritable_of_mutable {judge : Judge} {id : SymbolId}
    (hlookup : s.tree.lookup name = some id)
    (hmutable : (s.tree.symbol id).mutable = true)
    (hstorage : (s.tree.symbol id).MutableStorage) :
    s.Decides
      ((s.tree.symbol id).kind == .structField && (s.tree.symbol id).isStatic)
      (bindingWritable name span judge s) := by
  unfold bindingWritable
  rw [bind_lookup, hlookup]
  dsimp only
  rw [bind_symbol]
  rcases hstorage.kind hmutable with hkind | hkind | hkind
  · rw [hkind, hmutable]
    exact .writable
  · rw [hkind, hmutable]
    exact .writable
  · rw [hkind, hmutable]
    cases (s.tree.symbol id).isStatic with
    | false => exact .writable
    | true => exact .objection ..

theorem containerWritable_of_known {rest : Rule Bool}
    (hbase : s.known? base = some ty)
    (hrest : s.Decides barred (rest (Judge.limited (n + 1)) s)) :
    s.Decides (ty.barsInside barred)
      (containerWritable base rest (Judge.limited (n + 1)) s) := by
  obtain ⟨hremembered, hcanonical⟩ := canonical_of_known hbase
  unfold containerWritable
  rw [bind_of_run (askType_of_remembered hremembered n)]
  dsimp only
  rw [bind_of_run (normalize_of_canonical hcanonical)]
  cases ty with
  | pointer target mutable =>
    cases mutable with
    | true => exact .writable
    | false => exact .objection ..
  | _ => exact hrest

theorem fieldObjection?_run (struct : StructTy) (name : String)
    (judge : Judge) :
    ∃ objection, fieldObjection? struct name judge s = (objection, s) ∧
      objection.isSome = s.tree.barsField (.struct struct) name := by
  unfold fieldObjection?
  simp only [ScopeTree.barsField]
  cases struct.scope with
  | none => exact ⟨none, rfl, rfl⟩
  | some scope =>
    dsimp only [Option.bind_some]
    rw [bind_lookupLocal]
    cases s.tree.lookupLocal scope name with
    | none => exact ⟨none, rfl, rfl⟩
    | some id =>
      dsimp only [Option.any_some]
      rw [bind_symbol]
      by_cases hkind : (s.tree.symbol id).kind = .structField
      · rw [hkind]
        cases (s.tree.symbol id).isStatic with
        | true => exact ⟨_, rfl, rfl⟩
        | false =>
          cases (s.tree.symbol id).mutable with
          | true => exact ⟨_, rfl, rfl⟩
          | false => exact ⟨_, rfl, rfl⟩
      · have hother : ((s.tree.symbol id).kind != .structField) = true :=
          bne_iff_ne.mpr hkind
        refine ⟨none, ?_, ?_⟩
        · rw [if_pos hother]
          rfl
        · rw [beq_eq_false_iff_ne.mpr hkind]
          rfl

theorem names_storage (judge : Judge)
    (hstorage : ∀ id, (s.tree.symbol id).MutableStorage) (place : Expr)
    (hknown : place.isKnown s.known? = true)
    (hgranted : place.grantsWrite s.tree s.known? = true) :
    exprAsType place judge s = (none, s) ∧ namesModule place judge s =
      (false, s) := by
  obtain ⟨id, span, kind⟩ := place
  cases kind with
  | ident name =>
    obtain ⟨id, hlookup, hmutable⟩ := (Option.any_eq_true _ _).mp hgranted
    have hvalue := (hstorage id).value hmutable
    constructor
    · show (lookup name >>= _) judge s = (none, s)
      rw [bind_lookup, hlookup]
      dsimp only
      rw [bind_symbol, hvalue]
      rfl
    · show (lookup name >>= _) judge s = (false, s)
      rw [bind_lookup, hlookup]
      dsimp only
      have huse := (hstorage id).kind_ne_use hmutable
      rw [bind_symbol, beq_eq_false_iff_ne.mpr huse]
      rfl
  | paren inner => exact names_storage judge hstorage inner hknown hgranted
  | member base name => exact ⟨rfl, rfl⟩
  | index base index => exact ⟨rfl, rfl⟩
  | deref pointer => exact ⟨rfl, rfl⟩
  | _ => cases hknown

theorem memberWritable_of_known {rest : Rule Bool}
    (hstorage : ∀ id, (s.tree.symbol id).MutableStorage)
    (hknown : base.isKnown s.known? = true)
    (hgranted : base.grantsWrite s.tree s.known? = true)
    (hbase : s.known? base = some ty)
    (hrest : s.Decides barred (rest (Judge.limited (n + 1)) s)) :
    s.Decides (s.tree.barsField ty.pointee name || ty.barsInside barred)
      (memberWritable base name span rest (Judge.limited (n + 1)) s) := by
  obtain ⟨hnoType, hnoModule⟩ :=
    names_storage (Judge.limited (n + 1)) hstorage base hknown hgranted
  obtain ⟨hremembered, hcanonical⟩ := canonical_of_known hbase
  unfold memberWritable
  rw [bind_of_run hnoType]
  dsimp only
  rw [bind_of_run hnoModule, if_neg Bool.false_ne_true]
  rw [bind_of_run (askType_of_remembered hremembered n)]
  dsimp only
  rw [bind_of_run (derefOnce_of_canonical hcanonical)]
  have hcontainer := containerWritable_of_known hbase hrest
  cases hpointee : ty.pointee with
  | struct struct =>
    obtain ⟨objection, hrun, hbars⟩ := fieldObjection?_run (s := s) struct name
      (Judge.limited (n + 1))
    rw [← hbars]
    dsimp only
    rw [bind_of_run hrun]
    cases objection with
    | some detail => exact .objection ..
    | none => exact hcontainer
  | _ => exact hcontainer

end Assignment

theorem placeWritable_of_granted (n : Nat)
    (hstorage : ∀ id, (s.tree.symbol id).MutableStorage) (place : Expr)
    (hknown : place.isKnown s.known? = true)
    (hgranted : place.grantsWrite s.tree s.known? = true) :
    s.Decides (place.isBarred s.tree s.known?)
      (placeWritable place (Judge.limited (n + 1)) s) := by
  obtain ⟨id, span, kind⟩ := place
  cases kind with
  | ident name =>
    obtain ⟨id, hlookup, hmutable⟩ := (Option.any_eq_true _ _).mp hgranted
    unfold placeWritable Expr.isBarred
    rw [hlookup]
    exact bindingWritable_of_mutable hlookup hmutable (hstorage id)
  | paren inner =>
    exact placeWritable_of_granted n hstorage inner hknown hgranted
  -- The reference looks only at where the place begins, so the base is granted
  -- as the whole is.
  | member base name =>
    obtain ⟨hsome, hinner⟩ := Bool.and_eq_true_iff.mp hknown
    obtain ⟨ty, hty⟩ := Option.isSome_iff_exists.mp hsome
    have hrest := placeWritable_of_granted n hstorage base hinner hgranted
    unfold placeWritable Expr.isBarred
    rw [hty]
    exact memberWritable_of_known hstorage hinner hgranted hty hrest
  | index base index =>
    obtain ⟨hsome, hinner⟩ := Bool.and_eq_true_iff.mp hknown
    obtain ⟨ty, hty⟩ := Option.isSome_iff_exists.mp hsome
    have hrest := placeWritable_of_granted n hstorage base hinner hgranted
    unfold placeWritable Expr.isBarred
    rw [hty]
    exact containerWritable_of_known hty hrest
  | deref pointer =>
    obtain ⟨ty, hty⟩ := Option.isSome_iff_exists.mp hknown
    obtain ⟨hremembered, hcanonical⟩ := canonical_of_known hty
    unfold Expr.grantsWrite at hgranted
    rw [hty] at hgranted
    unfold placeWritable
    rw [bind_of_run (askType_of_remembered hremembered n)]
    dsimp only
    rw [bind_of_run (normalize_of_canonical hcanonical)]
    cases ty with
    | pointer target mutable =>
      cases mutable with
      | true => exact .writable
      | false => cases hgranted
    | _ => cases hgranted
  | _ => cases hknown

/-!
## The reference
-/

theorem isPlace_of_known {known : Expr → Option Ty} (place : Expr)
    (h : place.isKnown known = true) : place.isPlace = true := by
  obtain ⟨id, span, kind⟩ := place
  cases kind with
  | ident name => rfl
  | paren inner => exact isPlace_of_known inner h
  | member base name => rfl
  | index base index => rfl
  | deref pointer => rfl
  | _ => cases h

section Reference

variable {place : Expr} {ty : Ty}

theorem inferReference_of_known {span : Span} {n : Nat}
    (hplace : s.remembered? place = some ty)
    (hknown : place.isKnown s.known? = true) :
    inferReference place span (Judge.limited (n + 1)) s =
      (some (.pointer ty (place.grantsWrite s.tree s.known?)), s) := by
  unfold inferReference
  rw [isPlace_of_known place hknown, Bool.not_true, if_neg Bool.false_ne_true,
    bind_of_run (askType_of_remembered hplace n)]
  dsimp only
  rw [bind_of_run (placeMutability_of_known n place hknown)]
  rfl

theorem Session.depth_pos (s : Session) (size : Nat) :
    ∃ n, s.depth size = n + 1 := by
  refine Nat.exists_eq_succ_of_ne_zero ?_
  unfold Session.depth
  simp

def Expr.reference (id : NodeId) (span : Span) (place : Expr) : Expr :=
  ⟨id, span, .unary .reference place⟩

theorem infer_reference {id : NodeId} {span : Span}
    (hplace : s.remembered? place = some ty)
    (hknown : place.isKnown s.known? = true)
    (hnew : s.remembered? (.reference id span place) = none) :
    Check.infer (.reference id span place) s = (none, s) ∨
      Check.infer (.reference id span place) s =
        (some (.pointer ty (place.grantsWrite s.tree s.known?)),
          { s with cache := s.cache.insert (s.key (.reference id span place))
                    (.pointer ty (place.grantsWrite s.tree s.known?)) }) := by
  obtain ⟨n, hdepth⟩ := s.depth_pos (Expr.reference id span place).size
  unfold Check.infer Check.ask
  rw [hdepth]
  cases hflight : s.inFlight.contains (s.key (.reference id span place)) with
  | true => exact .inl (inferExpr_of_inFlight hnew hflight)
  | false =>
    refine .inr (inferExpr_of_still hnew hflight ?_)
    exact inferReference_of_known hplace hknown

theorem granted_of_infer {id : NodeId} {span : Span} {target : Ty}
    (hplace : s.remembered? place = some ty)
    (hknown : place.isKnown s.known? = true)
    (hnew : s.remembered? (.reference id span place) = none)
    (hanswer : (Check.infer (.reference id span place) s).1 =
      some (.pointer target true)) :
    place.grantsWrite s.tree s.known? = true ∧
      ∃ answer, (Check.infer (.reference id span place) s).2 =
        { s with
          cache := s.cache.insert
            (s.key (.reference id span place)) answer } := by
  rcases infer_reference hplace hknown hnew with hnone | hrun
  · rw [hnone] at hanswer
    cases hanswer
  · rw [hrun] at hanswer ⊢
    obtain ⟨-, hgranted⟩ := Ty.pointer.inj (Option.some.inj hanswer)
    exact ⟨hgranted, _, rfl⟩

theorem known?_unique {reference expr : Expr} {answer a b : Ty}
    (hnew : s.remembered? reference = none) (hs : s.known? expr = some a)
    (ht : { s with cache := s.cache.insert (s.key reference) answer }.known?
      expr = some b) :
    a = b := by
  obtain ⟨hbefore, -⟩ := canonical_of_known hs
  obtain ⟨hafter, -⟩ := canonical_of_known ht
  have hne : s.key expr ≠ s.key reference := by
    intro heq
    unfold Session.remembered? at hbefore hnew
    rw [heq, hnew] at hbefore
    cases hbefore
  have hkept : s.remembered? expr = some b :=
    TypeCache.get?_of_insert hne hafter
  exact Option.some.inj (hbefore.symm.trans hkept)

end Reference

theorem grantsWrite_congr (tree : ScopeTree) {known known' : Expr → Option Ty}
    (hunique : ∀ expr a b, known expr = some a → known' expr = some b → a = b)
    (place : Expr)
    (h : place.isKnown known = true) (h' : place.isKnown known' = true) :
    place.grantsWrite tree known = place.grantsWrite tree known' := by
  obtain ⟨id, span, kind⟩ := place
  cases kind with
  | ident name => rfl
  | paren inner => exact grantsWrite_congr tree hunique inner h h'
  | member base name =>
    exact grantsWrite_congr tree hunique base (Bool.and_eq_true_iff.mp h).2
      (Bool.and_eq_true_iff.mp h').2
  | index base index =>
    exact grantsWrite_congr tree hunique base (Bool.and_eq_true_iff.mp h).2
      (Bool.and_eq_true_iff.mp h').2
  | deref pointer =>
    obtain ⟨a, ha⟩ := Option.isSome_iff_exists.mp h
    obtain ⟨b, hb⟩ := Option.isSome_iff_exists.mp h'
    unfold Expr.grantsWrite
    rw [ha, hb, hunique pointer a b ha hb]
  | _ => cases h

section Reached

variable {program : Program} {options : Options} {evaluator : Evaluator}
  {loops : List (String × NodeId)}

theorem Session.Reached.mutableStorage
    (hs : ((Session.new program options).withEvaluator evaluator).Reached loops
      s)
    (id : SymbolId) : (s.tree.symbol id).MutableStorage := by
  exact (Symbol.MutableStorage.of_tree program id).of_advances
    (hs.guards.tree.symbols id)

end Reached

/-- A struct with an immutable field, a mutable one and a static one that is
declared mutable, and mutable variables: a value of it, a pointer to const and a
pointer that may write. -/
def guardedPlaces : Program :=
  soleModule [
    ⟨⟨1⟩, .none, .struct ⟨⟨2⟩, "S", .priv, [
      ⟨"b", .int true 32, .pub, false, none, .none⟩,
      ⟨"c", .array (.int true 32) (.fixed 2) false, .pub, true, none, .none⟩,
      ⟨"d", .int true 32, .static, true, none, .none⟩], [], .none⟩⟩,
    ⟨⟨3⟩, .none, .letDecl ⟨"s", .priv, true, some (.named "S"),
      some ⟨⟨4⟩, .none, .literal .undefined⟩⟩⟩,
    ⟨⟨5⟩, .none, .letDecl ⟨"p", .priv, true, some (.pointer (.named "S") false),
      some ⟨⟨6⟩, .none, .literal .undefined⟩⟩⟩,
    ⟨⟨7⟩, .none, .letDecl ⟨"q", .priv, true, some (.pointer (.named "S") true),
      some ⟨⟨8⟩, .none, .literal .undefined⟩⟩⟩]

def passedPlaces (scope : ScopeId) : Session :=
  let start := (Session.new guardedPlaces {}).withEvaluator .literal
  let passed := (Operation.handle.run start).2
  { passed with tree := passed.tree.enter scope }

def firstElement (pointer : String) : Expr :=
  ⟨⟨11⟩, .none, .index ⟨⟨12⟩, .none, .member ⟨⟨13⟩, .none, .ident pointer⟩ "c"⟩
    ⟨⟨14⟩, .none, .literal (.int "0")⟩⟩

def typedElement : Session :=
  ((Operation.ask (.infer (firstElement "q"))).run (passedPlaces ⟨1⟩)).2

theorem typedElement_reached :
    ((Session.new guardedPlaces {}).withEvaluator .literal).Reached []
      typedElement := by
  exact .run (.enter ⟨1⟩ (.run .start (List.nil_subset _))) (List.nil_subset _)

def Session.objections (s : Session) (place : Expr) : List Problem :=
  let t := (Check.ask place.size (placeWritable place) s).2
  (t.diagnostics.items.drop s.diagnostics.items.length).map (·.problem)

end StaticCheck
