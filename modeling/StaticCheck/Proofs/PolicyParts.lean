import StaticCheck.Proofs.Answer

/-!
# Policies on the parts of a program

What a policy says about a part of a program in terms of the pieces of that
part.
-/

namespace StaticCheck

variable {policy : Policy} {place : Place}

@[simp] theorem Ty.allowed_iff (ty : Ty) :
    ty.exits.Allowed policy place ↔ Obeys policy ty :=
  ty.suits_iff.symm

@[simp] theorem Ty.allowed_opt_iff (ty : Option Ty) :
    (Ty.exitsOpt ty).Allowed policy place ↔ Obeys policy ty := by
  exact (Ty.suitsOpt_iff ty).symm.trans (Ty.suitsOpt_iff_meets ty)

/-!
## Lists of parts
-/

@[simp] theorem Expr.exitsOpt_allowed_iff (expr : Option Expr) :
    (Expr.exitsOpt expr).Allowed policy place ↔
      ∀ value ∈ expr, value.exits.Allowed policy place := by
  cases expr <;> simp [Expr.exitsOpt]

@[simp] theorem Slot.exitsAll_allowed_iff (slots : List Slot) :
    (Slot.exitsAll slots).Allowed policy place ↔
      ∀ slot ∈ slots, Obeys policy slot.ty ∧
        ∀ value ∈ slot.default, value.exits.Allowed policy place := by
  induction slots with
  | nil => simp [Slot.exitsAll]
  | cons slot rest ih => cases slot; simp [Slot.exitsAll, ih]

@[simp] theorem VariantDecl.exitsAll_allowed_iff (variants : List VariantDecl) :
    (VariantDecl.exitsAll variants).Allowed policy place ↔
      ∀ variant ∈ variants, Obeys policy variant.payload := by
  induction variants with
  | nil => simp [VariantDecl.exitsAll]
  | cons variant rest ih => cases variant; simp [VariantDecl.exitsAll, ih]

/-!
## Deciding a policy
-/

section Decidable

instance (exits : Exits) : Decidable (exits.Allowed policy place) :=
  match policy with
  | .free => isTrue trivial
  | .closed => inferInstanceAs (Decidable (_ ∧ _ ∧ _))
  | .listed loops =>
    inferInstanceAs (Decidable (∀ loop ∈ exits.loops, loop ∈ loops))

instance (ty : Ty) : Decidable (Obeys policy ty) :=
  decidable_of_iff (ty.exits.Allowed policy .outside) ty.allowed_iff

instance (ty : Option Ty) : Decidable (Obeys policy ty) :=
  decidable_of_iff ((Ty.exitsOpt ty).Allowed policy .outside)
    (Ty.allowed_opt_iff ty)

instance (params : List ParamInfo) : Decidable (Obeys policy params) :=
  inferInstanceAs (Decidable (∀ param ∈ params, Obeys policy param.ty))

theorem Symbol.obeys_iff (symbol : Symbol) :
    Obeys policy symbol ↔
      Obeys policy symbol.ty ∧ Obeys policy symbol.info.params ∧
        Obeys policy symbol.info.result ∧ Obeys policy symbol.info.ascribed ∧
        Obeys policy symbol.info.aliased ∧
        (Expr.exitsOpt symbol.info.initializer).Allowed policy .outside := by
  rw [Expr.exitsOpt_allowed_iff]
  constructor
  · intro h
    exact ⟨h.ty, h.params, h.result, h.ascribed, h.aliased, fun value hvalue =>
      value.suits_iff.mp (h.initializer value hvalue Place.outside)⟩
  · rintro ⟨hty, hparams, hresult, hascribed, haliased, hinitializer⟩
    exact ⟨hty, hparams, hresult, hascribed, haliased, fun value hvalue _ =>
      value.suits_iff.mpr (hinitializer value hvalue).anywhere⟩

instance (symbol : Symbol) : Decidable (Obeys policy symbol) :=
  decidable_of_iff _ symbol.obeys_iff.symm

end Decidable

theorem ScopeTree.obeys_of_symbols {tree : ScopeTree}
    (h : ∀ symbol ∈ tree.symbols.toList, Obeys policy symbol) :
    Obeys policy tree := by
  intro id
  show Obeys policy (tree.symbols[id.index]?.getD _)
  cases hfound : tree.symbols[id.index]? with
  | some symbol =>
    exact h symbol (Array.mem_toList_iff.mpr (Array.mem_of_getElem? hfound))
  | none =>
    refine ⟨meets_none, meets_nil, meets_none, meets_none, meets_none,
      fun value hvalue => ?_⟩
    cases hvalue

end StaticCheck
