import StaticCheck.Proofs.Answer

/-!
# Types that were found

A written type may hold names and parentheses.  A type that a rule finds for a
value holds none, but for what a declared type keeps as written.  A standard
asks of what rules answer that it meets a regime and, if it is strict, that the
types in it are of this kind.
-/

namespace StaticCheck

/-!
## Types and the types inside them
-/

def Extent.isFolded : Extent → Bool
  | .expr _ => false
  | .slice | .fixed _ => true

def Ty.isFolded : Ty → Bool
  | .array _ extent _ => extent.isFolded
  | _ => true

def Ty.isSettled : Ty → Bool
  | .named _ | .paren _ => false
  | ty => ty.isFolded

mutual

/-- Whether a test holds of a type and of all types inside it that its
resolution comes to.  It does not come to the payloads of an enum nor to the
members of a declared struct. -/
def Ty.every (p : Ty → Bool) : Ty → Bool
  | .struct ⟨name, members, none⟩ =>
    p (.struct ⟨name, members, none⟩) && Member.every p members
  | .paren inner => p (.paren inner) && inner.every p
  | .pointer target mutable => p (.pointer target mutable) && target.every p
  | .optional inner => p (.optional inner) && inner.every p
  | .array element extent mutable =>
    p (.array element extent mutable) && element.every p
  | .tuple fields => p (.tuple fields) && Ty.everyAll p fields
  | .union members => p (.union members) && Ty.everyAll p members
  | .function params result error =>
    p (.function params result error) &&
      (Ty.everyAll p params && (result.every p && Ty.everyOpt p error))
  | ty => p ty

def Ty.everyAll (p : Ty → Bool) : List Ty → Bool
  | [] => true
  | ty :: rest => ty.every p && Ty.everyAll p rest

def Ty.everyOpt (p : Ty → Bool) : Option Ty → Bool
  | none => true
  | some ty => ty.every p

def Member.every (p : Ty → Bool) : List Member → Bool
  | [] => true
  | ⟨_, ty⟩ :: rest => ty.every p && Member.every p rest

end

def Ty.isLengthFree (ty : Ty) : Bool := ty.every Ty.isFolded

/-- Whether resolution has nothing to do: there are no parentheses, no names and
no lengths to fold, outside of what declared types keep as written. -/
def Ty.isCanonical (ty : Ty) : Bool := ty.every Ty.isSettled

def Ty.isUnfolded : Ty → Bool
  | .named _ | .paren _ => false
  | _ => true

/-- There is no name and no parenthesis in the type, outside of what declared
types keep as written.
-/
def Ty.Nameless (ty : Ty) : Prop := ty.every Ty.isUnfolded = true

theorem Member.every_iff {p : Ty → Bool} (members : List Member) :
    Member.every p members = true ↔
      ∀ member ∈ members, member.ty.every p = true := by
  induction members with
  | nil => exact iff_of_true rfl fun _ h => absurd h List.not_mem_nil
  | cons member rest ih =>
    obtain ⟨name, ty⟩ := member
    rw [List.forall_mem_cons, ← ih, ← Bool.and_eq_true]
    rfl

namespace Ty

theorem everyAll_iff {p : Ty → Bool} (tys : List Ty) :
    everyAll p tys = true ↔ ∀ ty ∈ tys, ty.every p = true := by
  induction tys with
  | nil => exact iff_of_true rfl fun _ h => absurd h List.not_mem_nil
  | cons ty rest ih =>
    rw [List.forall_mem_cons, ← ih, ← Bool.and_eq_true]
    rfl

theorem everyOpt_iff {p : Ty → Bool} (ty : Option Ty) :
    everyOpt p ty = true ↔ ∀ inner ∈ ty, inner.every p = true := by
  cases ty with
  | none => exact iff_of_true rfl fun _ h => absurd h (Option.not_mem_none _)
  | some ty =>
    exact ⟨fun h _ hinner => Option.some.inj hinner ▸ h, fun h => h ty rfl⟩

variable {ty target inner element result : Ty} {extent : Extent}
    {mutable : Bool} {fields members params : List Ty} {error : Option Ty}

@[simp] theorem nameless_tuple :
    (Ty.tuple fields).Nameless ↔ ∀ ty ∈ fields, ty.Nameless :=
  everyAll_iff fields

@[simp] theorem nameless_union :
    (Ty.union members).Nameless ↔ ∀ ty ∈ members, ty.Nameless :=
  everyAll_iff members

@[simp] theorem nameless_function : (Ty.function params result error).Nameless ↔
    (∀ ty ∈ params, ty.Nameless) ∧ result.Nameless ∧
      ∀ ty ∈ error, ty.Nameless := by
  have hparts : (Ty.function params result error).Nameless ↔
      (everyAll isUnfolded params &&
        (result.every isUnfolded && everyOpt isUnfolded error)) =
        true := Iff.rfl
  rw [hparts, Bool.and_eq_true, Bool.and_eq_true, everyAll_iff, everyOpt_iff]
  rfl

theorem nameless_declared (name : String) (members : List Member)
    (scope : ScopeId) : (Ty.struct ⟨name, members, some scope⟩).Nameless := rfl

theorem nameless_inPlace {name : String} {members : List Member} :
    (Ty.struct ⟨name, members, none⟩).Nameless ↔
      ∀ member ∈ members, member.ty.Nameless :=
  Member.every_iff members

theorem not_nameless_paren (inner : Ty) : ¬(Ty.paren inner).Nameless :=
  Bool.false_ne_true

theorem Nameless.unparen (h : ty.Nameless) : ty.unparen.Nameless := by
  cases ty with
  | paren inner => exact absurd h (not_nameless_paren inner)
  | _ => exact h

mutual

theorem Nameless.stripParens (ty : Ty) (h : ty.Nameless) :
    ty.stripParens.Nameless := by
  cases ty with
  | paren inner => exact absurd h (not_nameless_paren inner)
  | pointer target mutable => exact Nameless.stripParens target h
  | optional inner => exact Nameless.stripParens inner h
  | array element extent mutable => exact Nameless.stripParens element h
  | tuple fields => exact everyAll_stripParensAll fields h
  | union members => exact everyAll_stripParensAll members h
  | _ => exact h

theorem everyAll_stripParensAll (tys : List Ty)
    (h : everyAll isUnfolded tys = true) :
    everyAll isUnfolded (stripParensAll tys) = true := by
  cases tys with
  | nil => rfl
  | cons ty rest =>
    obtain ⟨hty, hrest⟩ := Bool.and_eq_true_iff.mp h
    exact Bool.and_eq_true_iff.mpr
      ⟨Nameless.stripParens ty hty, everyAll_stripParensAll rest hrest⟩

end

mutual

theorem Nameless.concretize (ty : Ty) (h : ty.Nameless) :
    ty.concretize.Nameless := by
  cases ty with
  | prim prim =>
    cases prim with
    | _ => rfl
  | array element extent mutable => exact Nameless.concretize element h
  | tuple fields => exact everyAll_concretizeAll fields h
  | _ => exact h

theorem everyAll_concretizeAll (tys : List Ty)
    (h : everyAll isUnfolded tys = true) :
    everyAll isUnfolded (concretizeAll tys) = true := by
  cases tys with
  | nil => rfl
  | cons ty rest =>
    obtain ⟨hty, hrest⟩ := Bool.and_eq_true_iff.mp h
    exact Bool.and_eq_true_iff.mpr
      ⟨Nameless.concretize ty hty, everyAll_concretizeAll rest hrest⟩

end

theorem Nameless.negated (h : ty.Nameless) : ty.negated.Nameless := by
  fun_cases Ty.negated ty with
  | case1 | case2 => rfl
  | case3 => exact h

end Ty

theorem nameless_promote {left right : Ty} (hleft : left.Nameless)
    (hright : right.Nameless) : (promote left right).Nameless := by
  fun_cases promote left right with
  | case3 => exact hright.unparen
  | case4 => exact hleft.unparen
  | _ => rfl

/-!
## Answers
-/

/-- Data that rules answer with, and what it means that the types found in it
are nameless. -/
class Found (α : Type) extends Answer α where
  Settled : α → Prop

export Found (Settled)

instance (priority := low) {α : Type} [Inert α] : Found α where
  Settled _ := True

instance {α : Type} [Inert α] : Found (Except Finding α) where
  Settled _ := True

instance : Found Ty where
  Settled := Ty.Nameless

instance : Found Extent where
  Settled _ := True

section Containers

variable {α β : Type} [Found α] [Found β]

instance : Found (Option α) where
  Settled answer := ∀ a, answer = some a → Settled a

instance : Found (List α) where
  Settled answers := ∀ a ∈ answers, Settled a

instance : Found (α × β) where
  Settled pair := Settled pair.1 ∧ Settled pair.2

end Containers

instance : Found Member where
  Settled member := Settled member.ty

instance : Found Variant where
  Settled _ := True

instance : Found Rule.ShapeField where
  Settled field := Settled field.ty

instance : Found Frame where
  Settled frame := Settled frame.result ∧ Settled frame.errorType

instance : Found Symbol where
  Settled symbol := Settled symbol.ty

/-- A regime, and whether what rules find has to be settled. -/
structure Standard extends Regime where
  strict : Prop

instance : Coe Standard Regime := ⟨Standard.toRegime⟩

def Regime.loose (R : Regime) : Standard := ⟨R, False⟩

def Fits {α : Type} [Found α] (R : Standard) (a : α) : Prop :=
  Meets R a ∧ (R.strict → Settled a)

section Fits

variable {α β : Type} [Found α] [Found β] {R : Standard} {a : α} {b : β}
    {answer : Option α} {answers : List α}

@[simp] theorem fits_loose {R : Regime} : Fits R.loose a ↔ Meets R a :=
  and_iff_left False.elim

theorem fits_congr (hmeets : Meets R a ↔ Meets R b)
    (hsettled : Settled a ↔ Settled b) : Fits R a ↔ Fits R b := by
  exact and_congr hmeets (imp_congr_right fun _ => hsettled)

@[simp] theorem fits_none : Fits R (none : Option α) := by
  exact ⟨meets_none, fun _ _ h => absurd h.symm (Option.some_ne_none _)⟩

theorem fits_option : Fits R answer ↔ ∀ a ∈ answer, Fits R a := by
  exact ⟨fun h a ha => ⟨h.1 a ha, fun hstrict => h.2 hstrict a ha⟩,
    fun h => ⟨fun a ha => (h a ha).1, fun hstrict a ha => (h a ha).2 hstrict⟩⟩

@[simp] theorem fits_some : Fits R (some a) ↔ Fits R a := by
  rw [fits_option]
  exact ⟨fun h => h a rfl, fun h _ ha => Option.some.inj ha ▸ h⟩

theorem fits_or {other : Option α} (h : Fits R answer) (hother : Fits R other) :
    Fits R (answer.or other) := by
  cases answer with
  | none => exact hother
  | some a => exact h

theorem fits_map {f : α → β} (h : Fits R answer)
    (hf : ∀ a, Fits R a → Fits R (f a)) : Fits R (answer.map f) := by
  cases answer with
  | none => exact fits_none
  | some a => exact fits_some.mpr (hf a (fits_some.mp h))

theorem fits_list : Fits R answers ↔ ∀ a ∈ answers, Fits R a := by
  exact ⟨fun h a ha => ⟨h.1 a ha, fun hstrict => h.2 hstrict a ha⟩,
    fun h => ⟨fun a ha => (h a ha).1, fun hstrict a ha => (h a ha).2 hstrict⟩⟩

@[simp] theorem fits_nil : Fits R ([] : List α) := by
  exact fits_list.mpr fun _ h => absurd h List.not_mem_nil

@[simp] theorem fits_cons :
    Fits R (a :: answers) ↔ Fits R a ∧ Fits R answers := by
  rw [fits_list, fits_list, List.forall_mem_cons]

theorem fits_pair : Fits R (a, b) ↔ Fits R a ∧ Fits R b := by
  exact ⟨fun h =>
    ⟨⟨h.1.1, fun hstrict => (h.2 hstrict).1⟩, h.1.2, fun hstrict =>
    (h.2 hstrict).2⟩, fun h =>
      ⟨⟨h.1.1, h.2.1⟩, fun hstrict => ⟨h.1.2 hstrict, h.2.2 hstrict⟩⟩⟩

class Typeless (α : Type) [Found α] : Prop where
  fits : ∀ (R : Standard) (a : α), Fits R a

@[simp] theorem fits_typeless [Typeless α] (a : α) : Fits R a :=
  Typeless.fits R a

instance (priority := low) {α : Type} [Inert α] : Typeless α :=
  ⟨fun _ _ => ⟨trivial, fun _ => trivial⟩⟩

instance [Typeless α] : Typeless (Option α) :=
  ⟨fun _ _ => fits_option.mpr fun _ _ => fits_typeless _⟩
instance [Typeless α] : Typeless (List α) :=
  ⟨fun _ _ => fits_list.mpr fun _ _ => fits_typeless _⟩
instance [Typeless α] [Typeless β] : Typeless (α × β) :=
  ⟨fun _ _ => fits_pair.mpr ⟨fits_typeless _, fits_typeless _⟩⟩

theorem fits_frame {frame : Frame} :
    Fits R frame ↔ Fits R frame.result ∧ Fits R frame.errorType := by
  exact (fits_congr (b := (frame.result, frame.errorType)) Iff.rfl
    Iff.rfl).trans fits_pair

theorem fits_symbol {symbol : Symbol} (h : Fits R symbol) : Fits R symbol.ty :=
  ⟨h.1.ty, h.2⟩

end Fits

@[simp] theorem fits_ok {R : Standard} {α : Type} [Inert α] (a : α) :
    Fits R (Except.ok a : Except Finding α) := by
  exact ⟨meets_ok a, fun _ => trivial⟩

/-!
## Types
-/

@[simp] theorem Extent.fits_slice {R : Standard} : Fits R Extent.slice :=
  ⟨trivial, fun _ => trivial⟩

@[simp] theorem Extent.fits_fixed {R : Standard} (length : Nat) :
    Fits R (Extent.fixed length) :=
  ⟨trivial, fun _ => trivial⟩

namespace Ty

variable {R : Standard} {ty : Ty}

@[simp] theorem fits_prim (prim : Prim) : Fits R (Ty.prim prim) :=
  ⟨trivial, fun _ => rfl⟩

@[simp] theorem fits_errors (names : List String) : Fits R (Ty.errors names) :=
  ⟨trivial, fun _ => rfl⟩

@[simp] theorem fits_enum {enum : EnumTy} :
    Fits R (Ty.enum enum) ↔ Meets R enum := by
  exact (and_iff_left fun _ => rfl).trans (Ty.meets_enum enum)

@[simp] theorem fits_pointer {mutable : Bool} :
    Fits R (Ty.pointer ty mutable) ↔ Fits R ty :=
  fits_congr Iff.rfl Iff.rfl

@[simp] theorem fits_optional : Fits R (Ty.optional ty) ↔ Fits R ty :=
  fits_congr Iff.rfl Iff.rfl

@[simp] theorem fits_array {extent : Extent} {mutable : Bool} :
    Fits R (Ty.array ty extent mutable) ↔ Fits R ty ∧ Fits R extent := by
  exact (fits_congr (a := Ty.array ty extent mutable)
    (b := (ty, extent)) Iff.rfl
    ⟨fun h => ⟨h, trivial⟩, And.left⟩).trans fits_pair

@[simp] theorem fits_tuple {fields : List Ty} :
    Fits R (Ty.tuple fields) ↔ Fits R fields := by
  exact fits_congr (Ty.meets_tuple fields) nameless_tuple

@[simp] theorem fits_union {members : List Ty} :
    Fits R (Ty.union members) ↔ Fits R members := by
  exact fits_congr (Ty.meets_union members) nameless_union

@[simp] theorem fits_function {params : List Ty} {result : Ty}
    {error : Option Ty} :
    Fits R (Ty.function params result error) ↔ Fits R params ∧ Fits R result ∧
      Fits R error := by
  exact (fits_congr (b := (params, result, error))
    (Ty.meets_function params result error)
    nameless_function).trans (fits_pair.trans (and_congr_right' fits_pair))

theorem fits_struct {name : String} {members : List Member}
    {scope : Option ScopeId} (h : Fits R members) :
    Fits R (Ty.struct ⟨name, members, scope⟩) := by
  refine ⟨(Ty.meets_struct _).mpr h.1, fun hstrict => ?_⟩
  cases scope with
  | some scope => exact nameless_declared name members scope
  | none => exact nameless_inPlace.mpr (h.2 hstrict)

theorem fits_stripParens (h : Fits R ty) : Fits R ty.stripParens := by
  exact ⟨ty.meets_stripParens h.1, fun hstrict =>
    Nameless.stripParens ty (h.2 hstrict)⟩

theorem fits_concretize (h : Fits R ty) : Fits R ty.concretize := by
  exact ⟨ty.meets_concretize h.1, fun hstrict =>
    Nameless.concretize ty (h.2 hstrict)⟩

theorem fits_negated (h : Fits R ty) : Fits R ty.negated := by
  exact ⟨meets_negated h.1, fun hstrict => (h.2 hstrict).negated⟩

end Ty

section

variable {R : Standard} {left right other : Ty}

theorem fits_promote (hleft : Fits R left) (hright : Fits R right) :
    Fits R (promote left right) := by
  exact ⟨meets_promote hleft.1 hright.1, fun h =>
    nameless_promote (hleft.2 h) (hright.2 h)⟩

theorem fits_foldTypes {op : BinaryOp} (h : Fits R other) :
    Fits R ((foldTypes op left right).getD other) := by
  fun_cases foldTypes op left right with
  | case1 => exact Ty.fits_prim _
  | case2 => exact h

theorem Builtin.fits_answer {name : String} {builtin : Function}
    {first : Option Ty} (h : function? name = some builtin)
    (hfirst : Fits R first) :
    Fits R (builtin.result.answer first) := by
  have hmem : builtin ∈ functions := List.mem_of_find?_eq_some h
  simp only [functions, List.mem_cons, List.not_mem_nil, or_false] at hmem
  rcases hmem with rfl | rfl | rfl | rfl | rfl | rfl
  iterate 4 exact fits_some.mpr (Ty.fits_prim _)
  iterate 2 exact hfirst

end

end StaticCheck
