import StaticCheck.Proofs.References
import StaticCheck.Proofs.Unions

/-!
# The identity of types

To be the same type is reflexive, symmetric if no error set names an error
twice, and transitive if all structs and enums are declared.  A type has the
same normal form as long as nothing but types of aliases is recorded, and so is
compatible with itself.
-/

namespace StaticCheck

open Rule

/-!
## What is the same as a type of a given form
-/

theorem Ty.same_unparen_left (a b : Ty) : a.unparen.same b = a.same b := by
  cases a with
  | paren inner => exact inner.same_unparen_left b
  | _ => rfl
termination_by structural a

theorem Ty.same_paren_right (a b : Ty) : a.same (.paren b) = a.same b := by
  cases a with
  | paren inner => exact inner.same_paren_right b
  | struct a => cases a; rfl
  | _ => rfl
termination_by structural a

section

variable {b : Ty}

theorem Ty.same_prim_iff {a : Prim} :
    (Ty.prim a).same b = true ↔ ∃ b', b.unparen = .prim b' ∧
      a.same b' = true := by
  rw [Ty.same]
  cases b.unparen <;> simp

theorem Ty.same_named_iff {a : String} :
    (Ty.named a).same b = true ↔ b.unparen = .named a := by
  rw [Ty.same]
  cases b.unparen <;> simp [@eq_comm _ a]

theorem Ty.same_pointer_iff {a : Ty} {mutable : Bool} :
    (Ty.pointer a mutable).same b = true ↔
      ∃ b', b.unparen = .pointer b' mutable ∧ a.same b' = true := by
  rw [Ty.same]
  cases b.unparen <;> simp [@eq_comm _ mutable]

theorem Ty.same_optional_iff {a : Ty} :
    (Ty.optional a).same b = true ↔ ∃ b', b.unparen = .optional b' ∧
      a.same b' = true := by
  rw [Ty.same]
  cases b.unparen <;> simp

theorem Ty.same_array_iff {a : Ty} {extent : Extent} {mutable : Bool} :
    (Ty.array a extent mutable).same b = true ↔
      ∃ b' extent' mutable', b.unparen = .array b' extent' mutable' ∧
        extent.same extent' = true ∧ a.same b' = true := by
  rw [Ty.same]
  cases b.unparen <;> simp

theorem Ty.same_tuple_iff {as : List Ty} :
    (Ty.tuple as).same b = true ↔ ∃ bs, b.unparen = .tuple bs ∧
      Ty.sameAll as bs = true := by
  rw [Ty.same]
  cases b.unparen <;> simp

theorem Ty.same_union_iff {as : List Ty} :
    (Ty.union as).same b = true ↔ ∃ bs, b.unparen = .union bs ∧
      Ty.sameAll as bs = true := by
  rw [Ty.same]
  cases b.unparen <;> simp

theorem Ty.same_struct_iff {a : StructTy} :
    (Ty.struct a).same b = true ↔ ∃ b', b.unparen = .struct b' ∧
      (a.sameName? b').getD (Member.sameAll a.members b'.members) = true := by
  obtain ⟨name, members, scope⟩ := a
  rw [Ty.same]
  cases b.unparen with
  | struct b =>
    cases hname : StructTy.sameName? ⟨name, members, scope⟩ b <;> simp [hname]
  | _ => simp

theorem Ty.same_enum_iff {a : EnumTy} :
    (Ty.enum a).same b = true ↔ ∃ b', b.unparen = .enum b' ∧
      a.same b' = true := by
  rw [Ty.same]
  cases b.unparen <;> simp

theorem Ty.same_errors_iff {as : List String} :
    (Ty.errors as).same b = true ↔
      ∃ bs, b.unparen = .errors bs ∧ as.length = bs.length ∧ as ⊆ bs := by
  rw [Ty.same]
  cases b.unparen <;> simp [List.subset_def]

theorem Ty.same_function_iff {params : List Ty} {result : Ty}
    {error : Option Ty} : (Ty.function params result error).same b = true ↔
      ∃ params' result' error', b.unparen = .function params' result' error' ∧
        Ty.sameAll params params' = true ∧ result.same result' = true ∧
          Ty.sameOpt error error' = true := by
  rw [Ty.same]
  cases b.unparen <;> simp [and_assoc]

end

/-!
## Symmetry
-/

theorem Prim.same_iff {a b : Prim} :
    a.same b = true ↔ a = b ∨ ∃ m n, a = .comptimeInt m ∧
      b = .comptimeInt n := by
  cases a <;> cases b <;> simp [Prim.same]

theorem Prim.same_symm {a b : Prim} (h : a.same b = true) :
    b.same a = true := by
  rcases Prim.same_iff.mp h with rfl | ⟨m, n, rfl, rfl⟩
  · exact h
  · rfl

theorem Extent.same_comm (a b : Extent) : a.same b = b.same a := by
  cases a <;> cases b <;> simp [Extent.same, Bool.beq_comm]

theorem EnumTy.same_comm (a b : EnumTy) : a.same b = b.same a := by
  unfold EnumTy.same
  cases a.scope <;> cases b.scope <;> simp [Bool.beq_comm]

theorem StructTy.sameName?_comm (a b : StructTy) :
    a.sameName? b = b.sameName? a := by
  unfold StructTy.sameName?
  cases a.scope <;> cases b.scope <;> simp [Bool.beq_comm, or_comm]

mutual

def Ty.hasDistinctErrors : Ty → Bool
  | .errors names => names.Nodup
  | .pointer target _ => target.hasDistinctErrors
  | .optional inner => inner.hasDistinctErrors
  | .array element _ _ => element.hasDistinctErrors
  | .paren inner => inner.hasDistinctErrors
  | .tuple fields => Ty.haveDistinctErrors fields
  | .union members => Ty.haveDistinctErrors members
  | .struct ⟨_, members, _⟩ => Member.haveDistinctErrors members
  | .function params result error =>
    Ty.haveDistinctErrors params &&
      (result.hasDistinctErrors && Ty.hasDistinctErrors? error)
  | .prim _ | .named _ | .enum _ => true
termination_by structural ty => ty

def Ty.haveDistinctErrors : List Ty → Bool
  | [] => true
  | ty :: rest => ty.hasDistinctErrors && Ty.haveDistinctErrors rest
termination_by structural tys => tys

def Ty.hasDistinctErrors? : Option Ty → Bool
  | none => true
  | some ty => ty.hasDistinctErrors
termination_by structural ty => ty

def Member.haveDistinctErrors : List Member → Bool
  | [] => true
  | ⟨_, ty⟩ :: rest => ty.hasDistinctErrors && Member.haveDistinctErrors rest
termination_by structural members => members

end

theorem subset_of_nodup_of_length_eq {names others : List String}
    (hnodup : names.Nodup) (hlength : names.length = others.length)
    (hsubset : names ⊆ others) : others ⊆ names := by
  exact ((List.subperm_of_subset hnodup hsubset).perm_of_length_le
    hlength.ge).symm.subset

mutual

theorem Ty.same_symm (a : Ty) {b : Ty} (ha : a.hasDistinctErrors = true)
    (h : a.same b = true) : b.same a = true := by
  rw [← Ty.same_unparen_left]
  cases a with
  | paren a =>
    rw [Ty.same_unparen_left, Ty.same_paren_right]
    exact a.same_symm ha h
  | prim a =>
    obtain ⟨b, hb, hsame⟩ := Ty.same_prim_iff.mp h
    rw [hb, Ty.same_prim_iff]
    exact ⟨a, rfl, Prim.same_symm hsame⟩
  | named a =>
    rw [Ty.same_named_iff.mp h]
    exact Ty.same_self _
  | pointer a mutable =>
    obtain ⟨b, hb, hsame⟩ := Ty.same_pointer_iff.mp h
    rw [hb, Ty.same_pointer_iff]
    exact ⟨a, rfl, a.same_symm ha hsame⟩
  | optional a =>
    obtain ⟨b, hb, hsame⟩ := Ty.same_optional_iff.mp h
    rw [hb, Ty.same_optional_iff]
    exact ⟨a, rfl, a.same_symm ha hsame⟩
  | array a extent mutable =>
    obtain ⟨b, extent', mutable', hb, hextent, hsame⟩ := Ty.same_array_iff.mp h
    rw [hb, Ty.same_array_iff]
    exact ⟨a, extent, mutable, rfl, Extent.same_comm extent extent' ▸ hextent,
      a.same_symm ha hsame⟩
  | tuple as =>
    obtain ⟨bs, hb, hsame⟩ := Ty.same_tuple_iff.mp h
    rw [hb, Ty.same_tuple_iff]
    exact ⟨as, rfl, Ty.sameAll_symm as ha hsame⟩
  | union as =>
    obtain ⟨bs, hb, hsame⟩ := Ty.same_union_iff.mp h
    rw [hb, Ty.same_union_iff]
    exact ⟨as, rfl, Ty.sameAll_symm as ha hsame⟩
  | enum a =>
    obtain ⟨b, hb, hsame⟩ := Ty.same_enum_iff.mp h
    rw [hb, Ty.same_enum_iff]
    exact ⟨a, rfl, EnumTy.same_comm a b ▸ hsame⟩
  | errors as =>
    obtain ⟨bs, hb, hlength, hsubset⟩ := Ty.same_errors_iff.mp h
    rw [hb, Ty.same_errors_iff]
    have hnodup : as.Nodup := of_decide_eq_true ha
    exact ⟨as, rfl, hlength.symm,
      subset_of_nodup_of_length_eq hnodup hlength hsubset⟩
  | function params result error =>
    obtain ⟨params', result', error', hb, hparams, hresult, herror⟩ :=
      Ty.same_function_iff.mp h
    obtain ⟨ha₁, ha₂⟩ := Bool.and_eq_true_iff.mp ha
    obtain ⟨ha₂, ha₃⟩ := Bool.and_eq_true_iff.mp ha₂
    rw [hb, Ty.same_function_iff]
    exact ⟨params, result, error, rfl, Ty.sameAll_symm params ha₁ hparams,
      result.same_symm ha₂ hresult, Ty.sameOpt_symm error ha₃ herror⟩
  | struct a =>
    obtain ⟨name, members, scope⟩ := a
    obtain ⟨b, hb, hsame⟩ := Ty.same_struct_iff.mp h
    rw [hb, Ty.same_struct_iff]
    refine ⟨_, rfl, ?_⟩
    rw [StructTy.sameName?_comm]
    cases hname : StructTy.sameName? ⟨name, members, scope⟩ b with
    | some answer =>
      rw [hname] at hsame
      exact hsame
    | none =>
      rw [hname] at hsame
      exact Member.sameAll_symm members ha hsame
termination_by structural a

theorem Ty.sameAll_symm (as : List Ty) {bs : List Ty}
    (has : Ty.haveDistinctErrors as = true) (h : Ty.sameAll as bs = true) :
    Ty.sameAll bs as = true := by
  cases as with
  | nil => cases bs <;> trivial
  | cons a as =>
    cases bs with
    | nil => cases h
    | cons b bs =>
      obtain ⟨hfirst, hrest⟩ := Bool.and_eq_true_iff.mp h
      obtain ⟨ha, has⟩ := Bool.and_eq_true_iff.mp has
      exact Bool.and_eq_true_iff.mpr
        ⟨a.same_symm ha hfirst, Ty.sameAll_symm as has hrest⟩
termination_by structural as

theorem Ty.sameOpt_symm (a : Option Ty) {b : Option Ty}
    (ha : Ty.hasDistinctErrors? a = true) (h : Ty.sameOpt a b = true) :
    Ty.sameOpt b a = true := by
  cases a with
  | none => cases b <;> trivial
  | some a =>
    cases b with
    | none => cases h
    | some b => exact a.same_symm ha h
termination_by structural a

theorem Member.sameAll_symm (as : List Member) {bs : List Member}
    (has : Member.haveDistinctErrors as = true)
    (h : Member.sameAll as bs = true) :
    Member.sameAll bs as = true := by
  cases as with
  | nil => cases bs <;> trivial
  | cons a as =>
    obtain ⟨name, a⟩ := a
    cases bs with
    | nil => cases h
    | cons b bs =>
      obtain ⟨name', b⟩ := b
      simp only [Member.sameAll, Bool.and_eq_true, beq_iff_eq] at h ⊢
      obtain ⟨ha, has⟩ := Bool.and_eq_true_iff.mp has
      exact ⟨⟨h.1.1.symm, a.same_symm ha h.1.2⟩, Member.sameAll_symm as has h.2⟩
termination_by structural as

end

/-!
## Transitivity
-/

def Ty.isDeclared : Ty → Bool
  | .struct decl => decl.scope.isSome
  | .enum decl => decl.scope.isSome
  | _ => true

theorem Prim.same_trans {a b c : Prim} (h : a.same b = true)
    (h' : b.same c = true) : a.same c = true := by
  rcases Prim.same_iff.mp h with rfl | ⟨m, n, rfl, rfl⟩
  · exact h'
  · rcases Prim.same_iff.mp h' with rfl | ⟨_, k, _, rfl⟩ <;> rfl

theorem Extent.same_trans {a b c : Extent} (h : a.same b = true)
    (h' : b.same c = true) : a.same c = true := by
  cases a <;> cases b <;> cases c <;> simp_all [Extent.same]

theorem EnumTy.same_trans {a b c : EnumTy} (h : a.same b = true)
    (h' : b.same c = true) (ha : a.scope.isSome = true)
    (hb : b.scope.isSome = true) (hc : c.scope.isSome = true) :
    a.same c = true := by
  obtain ⟨i, hi⟩ := Option.isSome_iff_exists.mp ha
  obtain ⟨j, hj⟩ := Option.isSome_iff_exists.mp hb
  obtain ⟨k, hk⟩ := Option.isSome_iff_exists.mp hc
  simp_all [EnumTy.same]

theorem StructTy.sameName?_of_scopes {a b : StructTy}
    (ha : a.scope.isSome = true) (hb : b.scope.isSome = true) :
    a.sameName? b = some (a.scope == b.scope) := by
  obtain ⟨i, hi⟩ := Option.isSome_iff_exists.mp ha
  obtain ⟨j, hj⟩ := Option.isSome_iff_exists.mp hb
  simp [StructTy.sameName?, hi, hj]

theorem Ty.of_every {p : Ty → Bool} {ty : Ty} (h : ty.every p = true) :
    p ty = true := by
  cases ty with
  | prim | named | enum | errors => exact h
  | struct decl =>
    obtain ⟨name, members, scope⟩ := decl
    cases scope with
    | some scope => exact h
    | none => exact (Bool.and_eq_true_iff.mp h).1
  | _ => exact (Bool.and_eq_true_iff.mp h).1

theorem Ty.every_unparen {p : Ty → Bool} (ty : Ty) (h : ty.every p = true) :
    ty.unparen.every p = true := by
  cases ty with
  | paren inner => exact inner.every_unparen (Bool.and_eq_true_iff.mp h).2
  | _ => exact h
termination_by structural ty

theorem Ty.every_function_iff {p : Ty → Bool} (hp : ∀ params result error,
    p (.function params result error) = true) {params : List Ty} {result :
    Ty} {error : Option Ty} :
    (Ty.function params result error).every p = true ↔
      Ty.everyAll p params = true ∧ result.every p = true ∧
      Ty.everyOpt p error = true := by
  simp [Ty.every, hp]

mutual

theorem Ty.same_trans (a : Ty) {b c : Ty} (hab : a.same b = true)
    (hbc : b.same c = true) (ha : a.every Ty.isDeclared = true)
    (hb : b.every Ty.isDeclared = true)
    (hc : c.every Ty.isDeclared = true) : a.same c = true := by
  have hb' := b.every_unparen hb
  have hc' := c.every_unparen hc
  have hbc' := (b.same_unparen_left c).trans hbc
  cases a with
  | paren a => exact a.same_trans hab hbc ha hb hc
  | prim a =>
    obtain ⟨b, hb, hab⟩ := Ty.same_prim_iff.mp hab
    rw [hb] at hbc'
    obtain ⟨c, hc, hbc⟩ := Ty.same_prim_iff.mp hbc'
    exact Ty.same_prim_iff.mpr ⟨c, hc, Prim.same_trans hab hbc⟩
  | named a =>
    rw [Ty.same_named_iff.mp hab] at hbc'
    exact hbc'
  | pointer a mutable =>
    obtain ⟨b, hb, hab⟩ := Ty.same_pointer_iff.mp hab
    rw [hb] at hb' hbc'
    obtain ⟨c, hc, hbc⟩ := Ty.same_pointer_iff.mp hbc'
    rw [hc] at hc'
    exact Ty.same_pointer_iff.mpr ⟨c, hc, a.same_trans hab hbc ha hb' hc'⟩
  | optional a =>
    obtain ⟨b, hb, hab⟩ := Ty.same_optional_iff.mp hab
    rw [hb] at hb' hbc'
    obtain ⟨c, hc, hbc⟩ := Ty.same_optional_iff.mp hbc'
    rw [hc] at hc'
    exact Ty.same_optional_iff.mpr ⟨c, hc, a.same_trans hab hbc ha hb' hc'⟩
  | array a extent mutable =>
    obtain ⟨b, extent', mutable', hb, hextent, hab⟩ := Ty.same_array_iff.mp hab
    rw [hb] at hb' hbc'
    obtain ⟨c, extent'', mutable'', hc, hextent', hbc⟩ :=
      Ty.same_array_iff.mp hbc'
    rw [hc] at hc'
    exact Ty.same_array_iff.mpr
      ⟨c, extent'', mutable'', hc, Extent.same_trans hextent hextent',
        a.same_trans hab hbc ha hb' hc'⟩
  | tuple as =>
    obtain ⟨bs, hb, hab⟩ := Ty.same_tuple_iff.mp hab
    rw [hb] at hb' hbc'
    obtain ⟨cs, hc, hbc⟩ := Ty.same_tuple_iff.mp hbc'
    rw [hc] at hc'
    exact Ty.same_tuple_iff.mpr ⟨cs, hc, Ty.sameAll_trans as hab hbc ha hb' hc'⟩
  | union as =>
    obtain ⟨bs, hb, hab⟩ := Ty.same_union_iff.mp hab
    rw [hb] at hb' hbc'
    obtain ⟨cs, hc, hbc⟩ := Ty.same_union_iff.mp hbc'
    rw [hc] at hc'
    exact Ty.same_union_iff.mpr ⟨cs, hc, Ty.sameAll_trans as hab hbc ha hb' hc'⟩
  | struct a =>
    obtain ⟨b, hb, hab⟩ := Ty.same_struct_iff.mp hab
    rw [hb] at hb' hbc'
    obtain ⟨c, hc, hbc⟩ := Ty.same_struct_iff.mp hbc'
    rw [hc] at hc'
    -- with a scope in each of them, the members are not compared
    rw [StructTy.sameName?_of_scopes (Ty.of_every ha) (Ty.of_every hb')] at hab
    rw [StructTy.sameName?_of_scopes (Ty.of_every hb') (Ty.of_every hc')] at hbc
    refine Ty.same_struct_iff.mpr ⟨c, hc, ?_⟩
    rw [StructTy.sameName?_of_scopes (Ty.of_every ha) (Ty.of_every hc')]
    exact beq_iff_eq.mpr ((beq_iff_eq.mp hab).trans (beq_iff_eq.mp hbc))
  | enum a =>
    obtain ⟨b, hb, hab⟩ := Ty.same_enum_iff.mp hab
    rw [hb] at hb' hbc'
    obtain ⟨c, hc, hbc⟩ := Ty.same_enum_iff.mp hbc'
    rw [hc] at hc'
    exact Ty.same_enum_iff.mpr ⟨c, hc, EnumTy.same_trans hab hbc ha hb' hc'⟩
  | errors as =>
    obtain ⟨bs, hb, hlength, hsubset⟩ := Ty.same_errors_iff.mp hab
    rw [hb] at hbc'
    obtain ⟨cs, hc, hlength', hsubset'⟩ := Ty.same_errors_iff.mp hbc'
    exact Ty.same_errors_iff.mpr ⟨cs, hc, hlength.trans hlength', fun _ h =>
      hsubset' (hsubset h)⟩
  | function params result error =>
    obtain ⟨params', result', error', hb, hparams, hresult, herror⟩ :=
      Ty.same_function_iff.mp hab
    rw [hb] at hb' hbc'
    obtain ⟨params'', result'', error'', hc, hparams', hresult', herror'⟩ :=
      Ty.same_function_iff.mp hbc'
    rw [hc] at hc'
    obtain ⟨ha₁, ha₂, ha₃⟩ := (Ty.every_function_iff fun _ _ _ => rfl).mp ha
    obtain ⟨hb₁, hb₂, hb₃⟩ := (Ty.every_function_iff fun _ _ _ => rfl).mp hb'
    obtain ⟨hc₁, hc₂, hc₃⟩ := (Ty.every_function_iff fun _ _ _ => rfl).mp hc'
    exact Ty.same_function_iff.mpr ⟨params'', result'', error'', hc,
      Ty.sameAll_trans params hparams hparams' ha₁ hb₁ hc₁,
      result.same_trans hresult hresult' ha₂ hb₂ hc₂,
      Ty.sameOpt_trans error herror herror' ha₃ hb₃ hc₃⟩
termination_by structural a

theorem Ty.sameAll_trans (as : List Ty) {bs cs : List Ty}
    (hab : Ty.sameAll as bs = true) (hbc : Ty.sameAll bs cs = true)
    (has : Ty.everyAll Ty.isDeclared as = true)
    (hbs : Ty.everyAll Ty.isDeclared bs = true)
    (hcs : Ty.everyAll Ty.isDeclared cs = true) :
    Ty.sameAll as cs = true := by
  cases as with
  | nil =>
    cases bs with
    | nil => exact hbc
    | cons b bs => cases hab
  | cons a as =>
    cases bs with
    | nil => cases hab
    | cons b bs =>
      cases cs with
      | nil => cases hbc
      | cons c cs =>
        simp only [Ty.everyAll, Ty.sameAll,
          Bool.and_eq_true] at has hbs hcs hab hbc ⊢
        exact ⟨a.same_trans hab.1 hbc.1 has.1 hbs.1 hcs.1,
          Ty.sameAll_trans as hab.2 hbc.2 has.2 hbs.2 hcs.2⟩
termination_by structural as

theorem Ty.sameOpt_trans (a : Option Ty) {b c : Option Ty}
    (hab : Ty.sameOpt a b = true) (hbc : Ty.sameOpt b c = true)
    (ha : Ty.everyOpt Ty.isDeclared a = true)
    (hb : Ty.everyOpt Ty.isDeclared b = true)
    (hc : Ty.everyOpt Ty.isDeclared c = true) :
    Ty.sameOpt a c = true := by
  cases a with
  | none =>
    cases b with
    | none => exact hbc
    | some b => cases hab
  | some a =>
    cases b with
    | none => cases hab
    | some b =>
      cases c with
      | none => cases hbc
      | some c => exact a.same_trans hab hbc ha hb hc
termination_by structural a

end

/-!
## A type is compatible with itself
-/

theorem exists_normal_form {n : Nat} {ty : Ty} {s : Session}
    (h : ty.isCanonical = true ∨ ty.isLengthFree = true ∧
      s.tree.isLengthFree = true) :
    ∃ form t, Rule.normalize ty (Judge.limited n) s = (form, t) ∧
      Rule.normalize ty (Judge.limited n) t = (form, t) := by
  rcases h with hcanonical | ⟨hty, htree⟩
  · exact ⟨ty, s, normalize_of_canonical hcanonical,
      normalize_of_canonical hcanonical⟩
  · have haliases := ScopeTree.aliased_isLengthFree htree
    obtain ⟨answer, t, hattempt⟩ := persists_isLengthFree n hty s haliases
    cases answer with
    | none =>
      exact ⟨ty.stripParens, t, bind_of_run hattempt.run,
        bind_of_run (hattempt.again rfl)⟩
    | some answer =>
      obtain ⟨-, hagain⟩ :=
        recalls_isLengthFree n hty s answer t haliases hattempt.run trivial
      exact ⟨answer, t, bind_of_run hattempt.run,
        bind_of_run (hagain _ t (.refl t))⟩

/-- To be the same type is reflexive; symmetric for types whose error sets name
no error twice; and transitive for types whose structs and enums are declared.
A type is compatible with itself, whatever expression the value comes from, if
there is nothing in it to resolve, or if neither in it nor in an alias an array
length has to be folded.  It need not be resolved for that. -/
theorem identity_is_an_equivalence
    (a b c : Ty)
    (n : Nat)
    (s : Session)
    (expr : Option Expr) : a.same a = true ∧
    (a.hasDistinctErrors = true → b.hasDistinctErrors = true →
      a.same b = b.same a) ∧
    (a.every Ty.isDeclared = true → b.every Ty.isDeclared = true →
      c.every Ty.isDeclared = true → a.same b = true → b.same c = true →
      a.same c = true) ∧
    (a.isCanonical = true ∨ a.isLengthFree = true ∧ s.tree.isLengthFree = true →
      (isCompatible a a expr (Judge.limited n) s).1 = true) := by
  refine ⟨a.same_self, fun ha hb => ?_, fun ha hb hc hab hbc => ?_, fun h => ?_⟩
  · exact Bool.eq_iff_iff.mpr ⟨a.same_symm ha, b.same_symm hb⟩
  · exact a.same_trans hab hbc ha hb hc
  · obtain ⟨form, t, hfirst, hsecond⟩ := exists_normal_form h
    unfold isCompatible
    rw [bind_of_run hfirst, bind_of_run hsecond]
    by_cases hderef : expr.any Expr.isDeref = true
    · rw [if_pos hderef]
      exact Bool.or_eq_true_iff.mpr (.inr form.same_self)
    · rw [if_neg hderef]
      exact accepts_self form t

def inTangledAliases : Session :=
  { Session.new tangledAliases {} with
    tree := (Session.new tangledAliases {}).tree.enter ⟨1⟩ }

def tangledTuple (names : List String) : Ty :=
  .tuple [.named "D", .named "A", .errors names]

/-- The tuple is not resolved, as `A` leads back to itself, but it is compatible
with itself, and the same as the tuple with the errors in another order. -/
theorem identity_is_an_equivalence_of_cycle :
    (tryResolve (tangledTuple ["E", "F"]) (Judge.limited 9)
      inTangledAliases).1.isNone = true ∧
    (isCompatible (tangledTuple ["E", "F"]) (tangledTuple ["E", "F"]) none
      (Judge.limited 9) inTangledAliases).1 = true ∧
    (tangledTuple ["E", "F"]).same (.paren (tangledTuple ["F", "E"])) =
      (Ty.paren (tangledTuple ["F", "E"])).same (tangledTuple ["E", "F"]) ∧
    (tangledTuple ["E", "F"]).same (tangledTuple ["E", "F"]) = true := by
  obtain ⟨-, hsymm, htrans, hcompatible⟩ :=
    identity_is_an_equivalence (tangledTuple ["E", "F"])
    (.paren (tangledTuple ["F", "E"])) (tangledTuple ["E", "F"]) 9
      inTangledAliases none
  exact ⟨by decide +kernel, hcompatible (.inr ⟨rfl, by decide +kernel⟩),
    hsymm (by decide) (by decide), htrans rfl rfl rfl (by decide) (by decide)⟩

/-- A function in which `B` is a type, until the length of `A` is folded: that
declares a variable `B`. -/
def turningName : Program :=
  soleModule [declareSynonym 1 "B" .bool,
    ⟨⟨3⟩, .none, .func ⟨⟨4⟩, "f", .priv, [], some .void, none, ⟨⟨5⟩, [
      ⟨⟨6⟩, .none, .defDecl ⟨"C", .priv, none, ⟨⟨7⟩, .none, .index
        ⟨⟨8⟩, .none, .tuple [⟨⟨9⟩, .none, .literal (.int "0")⟩,
          ⟨⟨10⟩, .none, .ifExpr ⟨⟨11⟩, .none, .literal (.bool true)⟩
            ⟨⟨12⟩, .none, .letDecl ⟨"B", .priv, false, none,
              some ⟨⟨13⟩, .none, .literal (.int "1")⟩⟩⟩ none⟩]⟩
        ⟨⟨14⟩, .none, .literal (.int "0")⟩⟩⟩⟩,
      declareSynonym 15 "A"
      (.array .bool (.expr ⟨⟨17⟩, .none, .ident "C"⟩) false)], .none⟩, .none⟩⟩]

/-- Where the length of an alias is folded, a tuple of names is not compatible
with itself. -/
theorem tuple_is_refused_by_itself :
    (Ty.tuple [.named "B", .named "A"]).isLengthFree = true ∧
    (Check.within ⟨2⟩ (Check.isCompatible (.tuple [.named "B", .named "A"])
      (.tuple [.named "B", .named "A"]) none) (Session.new turningName {})).1 =
      false := by
  decide +kernel

end StaticCheck
