import StaticCheck.Proofs.Regime

/-!
# Answers under a regime

What a session holds or a rule answers meets a regime if the types, initializers
and lengths inside it suit the regime.  It obeys a policy if it meets the regime
of the policy.
-/

namespace StaticCheck

/-- Data that may hold types or expressions, and what it means that they suit a
regime. -/
class Answer (α : Type) where
  Meets : Regime → α → Prop
  free : ∀ a, Meets Policy.free.regime a

export Answer (Meets)

abbrev Obeys {α : Type} [Answer α] (policy : Policy) (a : α) : Prop :=
  Meets policy.regime a

/-- Data without types in it. -/
class Inert (α : Type) : Prop

instance : Inert Unit := ⟨⟩
instance : Inert Bool := ⟨⟩
instance : Inert Nat := ⟨⟩
instance : Inert Int := ⟨⟩
instance : Inert String := ⟨⟩
instance : Inert ScopeId := ⟨⟩
instance : Inert SymbolId := ⟨⟩
instance : Inert ExprKey := ⟨⟩
instance : Inert Evaluator := ⟨⟩

instance (priority := low) {α : Type} [Inert α] : Answer α :=
  ⟨fun _ _ => True, fun _ => trivial⟩

@[simp] theorem meets_inert {α : Type} [Inert α] {R : Regime} (a : α) :
    Meets R a := trivial

/-- A failure of the checker. -/
instance {α : Type} [Inert α] : Answer (Except Finding α) :=
  ⟨fun R result => result.isOk = false → R.tolerant, fun _ _ => trivial⟩

theorem Ty.suits_free (ty : Ty) : ty.Suits Policy.free.regime := by
  have hfree : ty.exits.Allowed .free .outside := trivial
  exact ty.suits_iff.mpr hfree

theorem Extent.suits_free (extent : Extent) :
    extent.Suits Policy.free.regime := by
  have hfree : extent.exits.Allowed .free .outside := trivial
  exact extent.suits_iff.mpr hfree

instance : Answer Ty := ⟨fun R ty => ty.Suits R, Ty.suits_free⟩

instance : Answer Extent := ⟨fun R extent => extent.Suits R, Extent.suits_free⟩

section Containers

variable {α β : Type} [Answer α] [Answer β]

instance : Answer (Option α) :=
  ⟨fun R answer => ∀ a, answer = some a → Meets R a, fun _ a _ => Answer.free a⟩

instance : Answer (List α) :=
  ⟨fun R answers => ∀ a ∈ answers, Meets R a, fun _ a _ => Answer.free a⟩

instance : Answer (α × β) :=
  ⟨fun R pair => Meets R pair.1 ∧ Meets R pair.2, fun _ =>
    ⟨Answer.free _, Answer.free _⟩⟩

variable {R : Regime} {a : α} {answer : Option α} {answers : List α}

@[simp] theorem meets_none : Meets R (none : Option α) := by
  intro a h
  cases h

@[simp] theorem meets_some : Meets R (some a) ↔ Meets R a := by
  constructor
  · intro h
    exact h a rfl
  · intro h a' ha
    cases ha
    exact h

theorem meets_map {f : α → β} (h : Meets R answer)
    (hf : ∀ a, Meets R a → Meets R (f a)) : Meets R (answer.map f) := by
  cases answer with
  | none => exact meets_none
  | some a => exact meets_some.mpr (hf a (meets_some.mp h))

@[simp] theorem meets_nil : Meets R ([] : List α) := by
  intro a h
  cases h

@[simp] theorem meets_cons :
    Meets R (a :: answers) ↔ Meets R a ∧ Meets R answers :=
  List.forall_mem_cons

end Containers

instance : Answer Member :=
  ⟨fun R member => Meets R member.ty, fun _ => Answer.free _⟩

instance : Answer Variant :=
  ⟨fun R variant => Meets R variant.payload, fun _ => Answer.free _⟩

instance : Answer StructTy :=
  ⟨fun R struct => Meets R struct.members, fun _ => Answer.free _⟩

instance : Answer EnumTy :=
  ⟨fun R enum => Meets R enum.variants, fun _ => Answer.free _⟩

instance : Answer ParamInfo :=
  ⟨fun R param => Meets R param.ty, fun _ => Answer.free _⟩

instance : Answer Rule.ShapeField :=
  ⟨fun R field => Meets R field.ty, fun _ => Answer.free _⟩

instance : Answer Frame :=
  ⟨fun R frame => Meets R frame.result ∧ Meets R frame.errorType,
    fun _ => ⟨Answer.free _, Answer.free _⟩⟩

theorem Expr.suits_free {place : Place} (expr : Expr) :
    expr.Suits Policy.free.regime place := by
  exact expr.suits_iff.mpr Exits.allowed_free

theorem Stmt.suits_free {place : Place} (stmt : Stmt) :
    stmt.Suits Policy.free.regime place := by
  exact stmt.suits_iff.mpr Exits.allowed_free

/-- What is known about a symbol.  Its initializer is inferred in the scope that
declares it, wherever the symbol is used. -/
structure Symbol.Suits (R : Regime) (symbol : Symbol) : Prop where
  ty : Meets R symbol.ty
  params : Meets R symbol.info.params
  result : Meets R symbol.info.result
  ascribed : Meets R symbol.info.ascribed
  aliased : Meets R symbol.info.aliased
  initializer : ∀ value ∈ symbol.info.initializer, ∀ place,
    value.Suits R (R.enter symbol.scope place)

instance : Answer Symbol where
  Meets := Symbol.Suits
  free _ :=
    ⟨Answer.free _, Answer.free _, Answer.free _, Answer.free _, Answer.free _,
      fun value _ _ => value.suits_free⟩

instance : Answer ScopeTree :=
  ⟨fun R tree => ∀ id, Meets R (tree.symbol id), fun _ _ => Answer.free _⟩

variable {R : Regime}

@[simp] theorem meets_ok {α : Type} [Inert α] (a : α) :
    Meets R (Except.ok a : Except Finding α) :=
  nofun

/-!
## Types
-/

namespace Ty

variable {ty : Ty}

@[simp] theorem meets_prim (prim : Prim) : Meets R (Ty.prim prim) := trivial

@[simp] theorem meets_named (name : String) : Meets R (Ty.named name) := trivial

@[simp] theorem meets_errors (names : List String) :
    Meets R (Ty.errors names) := trivial

@[simp] theorem meets_paren : Meets R (Ty.paren ty) ↔ Meets R ty := Iff.rfl

@[simp] theorem meets_pointer (mutable : Bool) :
    Meets R (Ty.pointer ty mutable) ↔ Meets R ty := Iff.rfl

@[simp] theorem meets_optional : Meets R (Ty.optional ty) ↔ Meets R ty :=
  Iff.rfl

@[simp] theorem meets_array (extent : Extent) (mutable : Bool) :
    Meets R (Ty.array ty extent mutable) ↔ Meets R ty ∧ Meets R extent :=
  Iff.rfl

theorem suitAll_iff_meets (tys : List Ty) : Ty.SuitAll R tys ↔ Meets R tys := by
  induction tys with
  | nil => exact iff_of_true trivial meets_nil
  | cons ty rest ih =>
    rw [meets_cons, ← ih]
    rfl

theorem suitsOpt_iff_meets (ty : Option Ty) :
    Ty.SuitsOpt R ty ↔ Meets R ty := by
  cases ty with
  | none => exact iff_of_true trivial meets_none
  | some ty =>
    rw [meets_some]
    rfl

@[simp] theorem meets_tuple (fields : List Ty) :
    Meets R (Ty.tuple fields) ↔ Meets R fields := suitAll_iff_meets fields

@[simp] theorem meets_union (members : List Ty) :
    Meets R (Ty.union members) ↔ Meets R members := suitAll_iff_meets members

@[simp] theorem meets_function (params : List Ty) (result : Ty)
    (error : Option Ty) : Meets R (Ty.function params result error) ↔
      Meets R params ∧ Meets R result ∧ Meets R error := by
  exact and_congr (suitAll_iff_meets params)
    (and_congr_right' (suitsOpt_iff_meets error))

end Ty

theorem Member.suitAll_iff_meets (members : List Member) :
    Member.SuitAll R members ↔ Meets R members := by
  induction members with
  | nil => exact iff_of_true trivial meets_nil
  | cons member rest ih =>
    obtain ⟨name, ty⟩ := member
    rw [meets_cons, ← ih]
    rfl

theorem Variant.suitAll_iff_meets (variants : List Variant) :
    Variant.SuitAll R variants ↔ Meets R variants := by
  induction variants with
  | nil => exact iff_of_true trivial meets_nil
  | cons variant rest ih =>
    obtain ⟨name, payload⟩ := variant
    rw [meets_cons, ← ih]
    exact and_congr_left' (Ty.suitsOpt_iff_meets payload)

@[simp] theorem Ty.meets_struct (struct : StructTy) :
    Meets R (Ty.struct struct) ↔ Meets R struct := by
  obtain ⟨name, members, scope⟩ := struct
  exact Member.suitAll_iff_meets members

@[simp] theorem Ty.meets_enum (enum : EnumTy) :
    Meets R (Ty.enum enum) ↔ Meets R enum := by
  obtain ⟨name, variants, scope⟩ := enum
  exact Variant.suitAll_iff_meets variants

/-!
## Operations on types
-/

namespace Ty

theorem meets_unparen {ty : Ty} (h : Meets R ty) : Meets R ty.unparen := by
  fun_induction unparen ty with
  | case1 inner ih => exact ih h
  | case2 ty => exact h

mutual

theorem meets_stripParens (ty : Ty) (h : Meets R ty) :
    Meets R ty.stripParens := by
  cases ty with
  | prim | named | errors => trivial
  | struct | enum | function => exact h
  | paren inner => exact meets_stripParens inner h
  | pointer target mutable => exact meets_stripParens target h
  | optional inner => exact meets_stripParens inner h
  | array element extent mutable => exact ⟨meets_stripParens element h.1, h.2⟩
  | tuple fields => exact suitAll_stripParensAll fields h
  | union members => exact suitAll_stripParensAll members h

theorem suitAll_stripParensAll (tys : List Ty) (h : Ty.SuitAll R tys) :
    Ty.SuitAll R (stripParensAll tys) := by
  cases tys with
  | nil => trivial
  | cons ty rest =>
    exact ⟨meets_stripParens ty h.1, suitAll_stripParensAll rest h.2⟩

end

mutual

theorem meets_concretize (ty : Ty) (h : Meets R ty) :
    Meets R ty.concretize := by
  cases ty with
  | prim prim => cases prim <;> trivial
  | named | errors => trivial
  | struct | enum | function | paren | pointer | optional | union => exact h
  | array element extent mutable => exact ⟨meets_concretize element h.1, h.2⟩
  | tuple fields => exact suitAll_concretizeAll fields h

theorem suitAll_concretizeAll (tys : List Ty) (h : Ty.SuitAll R tys) :
    Ty.SuitAll R (concretizeAll tys) := by
  cases tys with
  | nil => trivial
  | cons ty rest =>
    exact ⟨meets_concretize ty h.1, suitAll_concretizeAll rest h.2⟩

end

theorem meets_negated {ty : Ty} (h : Meets R ty) : Meets R ty.negated := by
  fun_cases negated ty <;> first | exact meets_prim _ | exact h

end Ty

theorem meets_promote {left right : Ty} (hleft : Meets R left)
    (hright : Meets R right) : Meets R (promote left right) := by
  have hleft := Ty.meets_unparen hleft
  have hright := Ty.meets_unparen hright
  fun_cases promote left right <;>
    first | exact Ty.meets_prim _ | exact hleft | exact hright

@[simp] theorem ErrorClause.meets_toTy (clause : ErrorClause) :
    Meets R clause.toTy := by
  cases clause <;> simp [toTy]

theorem StructTy.meets_of_member? {struct : StructTy} {name : String}
    {member : Member} (h : Meets R struct)
    (hmember : struct.member? name = some member) :
    Meets R member := by
  exact h member (List.mem_of_find?_eq_some hmember)

theorem EnumTy.meets_of_variant? {enum : EnumTy} {name : String}
    {variant : Variant} (h : Meets R enum)
    (hvariant : enum.variant? name = some variant) :
    Meets R variant := by
  exact h variant (List.mem_of_find?_eq_some hvariant)

theorem Ty.meets_of_variant? {ty : Ty} {name : String} {enum : EnumTy}
    {variant : Variant} (h : Meets R ty)
    (hvariant : ty.variant? name = some (enum, variant)) :
    Meets R enum ∧ Meets R variant := by
  cases ty with
  | enum e =>
    rw [Ty.meets_enum] at h
    simp only [Ty.variant?, Option.map_eq_some_iff, Prod.mk.injEq] at hvariant
    obtain ⟨found, hfound, rfl, rfl⟩ := hvariant
    exact ⟨h, e.meets_of_variant? h hfound⟩
  | _ => cases hvariant

namespace Builtin

def Answers (name : String) : Except Problem (Option Ty) → Prop
  | .ok answer => ∀ ty ∈ answer, ∃ prim, ty = .prim prim
  | .error problem => problem = .invalidTypeWidth name

theorem answers_type? (name : String) : Answers name (type? name) := by
  have hint : ∀ signed digits, ∀ ty ∈ sizedInt? signed digits, ∃ prim, ty =
      .prim prim := by
    intro signed digits
    fun_cases sizedInt? signed digits <;> simp
  have hfloat : ∀ digits, ∀ ty ∈ sizedFloat? digits, ∃ prim, ty =
      .prim prim := by
    intro digits
    fun_cases sizedFloat? digits <;> simp
  have hnone : Answers name (.ok none) :=
    fun _ h => absurd h (Option.not_mem_none _)
  have hsome : ∀ {ty : Ty}, (∃ prim, ty = .prim prim) →
      Answers name (.ok (some ty)) := by
    intro ty hprim other hother
    cases hother
    exact hprim
  unfold type?
  split
  · next ty hnamed =>
      obtain ⟨before, after, hsplit, -⟩ := List.lookup_eq_some_iff.mp hnamed
      have hmem : (name, ty) ∈ namedTypes := by simp [hsplit]
      simp only [namedTypes, List.mem_cons, Prod.mk.injEq, List.not_mem_nil,
        or_false] at hmem
      apply hsome
      rcases hmem with h | h | h | h | h | h | h | h | h | h <;> exact ⟨_, h.2⟩
  · dsimp only
    -- A sized number of either kind, or a name that is no builtin one.
    split <;> try split
    · split
      · next ty hty => exact hsome (hint _ _ ty hty)
      · rfl
    · exact hnone
    · split
      · next ty hty => exact hsome (hint _ _ ty hty)
      · rfl
    · exact hnone
    · split
      · next ty hty => exact hsome (hfloat _ ty hty)
      · rfl
    · exact hnone
    · exact hnone

end Builtin

/-!
## Lists of parts
-/

section Parts

variable {place : R.Place}

theorem Expr.Suits.part {expr : Expr} (h : expr.Suits R place) :
    R.part expr.id expr.kind.form := by
  cases expr
  exact h.1

theorem Expr.Suits.kind {expr : Expr} (h : expr.Suits R place) :
    expr.kind.Suits R place expr.id := by
  cases expr
  exact h.2

theorem Expr.Suits.unparen {expr : Expr} (h : expr.Suits R place) :
    expr.unparen.Suits R place := by
  fun_induction Expr.unparen expr with
  | case1 id span inner ih => exact ih h.2
  | case2 expr => exact h

@[simp] theorem Expr.suitAll_iff_forall (exprs : List Expr) :
    Expr.SuitAll R place exprs ↔ ∀ expr ∈ exprs, expr.Suits R place := by
  induction exprs with
  | nil => simp [Expr.SuitAll]
  | cons expr rest ih => simp [Expr.SuitAll, ih]

@[simp] theorem Expr.suitsOpt_iff_forall (expr : Option Expr) :
    Expr.SuitsOpt R place expr ↔ ∀ value ∈ expr, value.Suits R place := by
  cases expr <;> simp [Expr.SuitsOpt]

@[simp] theorem Stmt.suitAll_iff_forall (stmts : List Stmt) :
    Stmt.SuitAll R place stmts ↔ ∀ stmt ∈ stmts, stmt.Suits R place := by
  induction stmts with
  | nil => simp [Stmt.SuitAll]
  | cons stmt rest ih => simp [Stmt.SuitAll, ih]

@[simp] theorem Stmt.suitsOpt_iff_forall (stmt : Option Stmt) :
    Stmt.SuitsOpt R place stmt ↔ ∀ body ∈ stmt, body.Suits R place := by
  cases stmt <;> simp [Stmt.SuitsOpt]

@[simp] theorem ObjectField.suitAll_iff_forall (fields : List ObjectField) :
    ObjectField.SuitAll R place fields ↔
      ∀ field ∈ fields, field.value.Suits R place := by
  induction fields with
  | nil => simp [ObjectField.SuitAll]
  | cons field rest ih => cases field; simp [ObjectField.SuitAll, ih]

@[simp] theorem MatchCase.suitAll_iff_forall (cases : List MatchCase) :
    MatchCase.SuitAll R place cases ↔
      ∀ case ∈ cases, (∀ pattern ∈ case.patterns, pattern.Suits R place) ∧
        case.body.Suits R place := by
  induction cases with
  | nil => simp [MatchCase.SuitAll]
  | cons case rest ih => cases case; simp [MatchCase.SuitAll, ih]

@[simp] theorem Slot.suitAll_iff_forall (slots : List Slot) :
    Slot.SuitAll R place slots ↔
      ∀ slot ∈ slots, Meets R slot.ty ∧
        ∀ value ∈ slot.default, value.Suits R place := by
  induction slots with
  | nil => simp [Slot.SuitAll]
  | cons slot rest ih =>
    cases slot
    simp only [Slot.SuitAll, Expr.suitsOpt_iff_forall, ih, List.forall_mem_cons]
    rfl

@[simp] theorem VariantDecl.suitAll_iff_meets (variants : List VariantDecl) :
    VariantDecl.SuitAll R variants ↔ ∀ variant ∈ variants,
      Meets R variant.payload := by
  induction variants with
  | nil => simp [VariantDecl.SuitAll]
  | cons variant rest ih =>
    cases variant; simp [VariantDecl.SuitAll, Ty.suitsOpt_iff_meets, ih]

@[simp] theorem FuncDecl.suitAll_iff_forall (funcs : List FuncDecl) :
    FuncDecl.SuitAll R place funcs ↔ ∀ func ∈ funcs, func.Suits R place := by
  induction funcs with
  | nil => simp [FuncDecl.SuitAll]
  | cons func rest ih => simp [FuncDecl.SuitAll, ih]

theorem FuncDecl.suits_iff_opens (func : FuncDecl) :
    func.Suits R place ↔ R.opens func.id fun scope =>
      (∀ param ∈ func.params, Meets R param.ty ∧
        ∀ value ∈ param.default, value.Suits R (R.enter scope place)) ∧
      Meets R func.result ∧
      (∀ stmt ∈ func.body.body,
        stmt.Suits R (R.enter scope (R.inFunction place))) ∧
      ∀ param ∈ func.params,
      R.assigns (R.enter scope place) param.name none := by
  obtain ⟨_, _, _, params, result, _, ⟨_, body, _⟩, _⟩ := func
  simp only [FuncDecl.Suits, Slot.suitAll_iff_forall, Ty.suitsOpt_iff_meets,
    Stmt.suitAll_iff_forall]

end Parts
end StaticCheck
