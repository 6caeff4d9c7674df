import StaticCheck.Proofs.Advance
import Mathlib.Logic.Relation

/-!
# What declarations pledge

A comptime number has no size of its own.  A type is sized if no such number
is left where arrays and tuples lay out their parts, and making a type
concrete makes it sized.  A mutable variable without annotation pledges that
its type is sized, and a function that its type has its parameters.
-/

namespace StaticCheck

namespace Ty

/-- The elements of an array and the fields of a tuple. -/
inductive Lays : Ty → Ty → Prop
  | element {element : Ty} {extent : Extent} {mutable : Bool} :
      Lays (.array element extent mutable) element
  | field {fields : List Ty} {field : Ty} (hmem : field ∈ fields) :
      Lays (.tuple fields) field

/-- No comptime number is left where arrays and tuples lay out their parts. -/
def Sized (ty : Ty) : Prop :=
  ∀ prim : Prim, prim.isComptime = true →
    ¬Relation.ReflTransGen Lays ty (.prim prim)

variable {ty part : Ty}

theorem concretizeAll_eq_map (tys : List Ty) :
    concretizeAll tys = tys.map concretize := by
  induction tys with
  | nil => rfl
  | cons ty rest ih => rw [concretizeAll, ih, List.map_cons]

theorem concretize_ne_comptime (ty : Ty) {prim : Prim}
    (h : prim.isComptime = true) :
    ty.concretize ≠ .prim prim := by
  intro heq
  cases ty with
  | prim known => cases known <;> cases heq <;> cases h
  | _ => cases heq

theorem lays_concretize (h : ty.concretize.Lays part) :
    ∃ inner, ty.Lays inner ∧ part = inner.concretize := by
  cases ty with
  | array element extent mutable =>
    cases h
    exact ⟨element, .element, rfl⟩
  | tuple fields =>
    rw [concretize, concretizeAll_eq_map] at h
    cases h with
    | field hmem =>
      obtain ⟨inner, hinner, rfl⟩ := List.mem_map.mp hmem
      exact ⟨inner, .field hinner, rfl⟩
  | prim prim => cases prim <;> cases h
  | _ => cases h

theorem sized_concretize (ty : Ty) : ty.concretize.Sized := by
  intro prim hprim hway
  -- what the concrete type lays out is concrete at every depth
  have hlaid : ∃ inner : Ty, Ty.prim prim = inner.concretize := by
    generalize Ty.prim prim = part at hway
    induction hway with
    | refl => exact ⟨ty, rfl⟩
    | tail _ hstep ih =>
      obtain ⟨inner, rfl⟩ := ih
      obtain ⟨next, -, rfl⟩ := lays_concretize hstep
      exact ⟨next, rfl⟩
  obtain ⟨inner, heq⟩ := hlaid
  exact inner.concretize_ne_comptime hprim heq.symm

theorem sized_function (params : List Ty) (result : Ty) (error : Option Ty) :
    (Ty.function params result error).Sized := by
  intro prim _ hway
  cases hway.cases_head with
  | inl heq => cases heq
  | inr hstep =>
    obtain ⟨part, hlays, -⟩ := hstep
    cases hlays

def arity? : Ty → Option Nat
  | .function params _ _ => some params.length
  | _ => none

theorem exists_function_of_arity {k : Nat} (h : ty.arity? = some k) :
    ∃ params result error, ty = .function params result error ∧
      params.length = k := by
  cases ty with
  | function params result error =>
    exact ⟨params, result, error, rfl, Option.some.inj h⟩
  | _ => cases h

end Ty

inductive Pledge
  | sized
  | signed (arity : Nat)

def Pledge.Allows : Pledge → Ty → Prop
  | .sized, ty => ty.Sized
  | .signed arity, ty => ty.arity? = some arity

namespace Symbol

variable {symbol : Symbol} {pledge : Pledge}

def pledge? (symbol : Symbol) : Option Pledge :=
  match symbol.kind with
  | .var =>
    if symbol.info.aliased.isNone && symbol.mutable &&
      symbol.info.ascribed.isNone then some .sized
    else none
  | .function =>
    if symbol.info.aliased.isNone && symbol.info.initializer.isNone &&
      symbol.info.ascribed.isNone then some (.signed symbol.info.params.length)
    else none
  | _ => none

theorem pledge?_cases (h : symbol.pledge? = some pledge) :
    symbol.info.aliased = none ∧ symbol.info.ascribed = none ∧
      (symbol.kind = .var ∧ symbol.mutable = true ∧ pledge = .sized ∨
        symbol.kind = .function ∧ symbol.info.initializer = none ∧
          pledge = .signed symbol.info.params.length) := by
  unfold pledge? at h
  split at h <;> simp_all

def Keeps (symbol : Symbol) (pledge : Pledge) : Prop :=
  ∀ ty, symbol.ty = some ty → pledge.Allows ty

theorem Keeps.of_none (h : symbol.ty = none) : symbol.Keeps pledge := by
  intro ty hty
  rw [h] at hty
  cases hty

theorem Advances.pledge?_eq {a b : Symbol} (h : a.Advances b) :
    b.pledge? = a.pledge? := by
  rw [h.fixed]
  rfl

end Symbol
end StaticCheck
