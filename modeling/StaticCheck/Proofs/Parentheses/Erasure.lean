import StaticCheck.Proofs.Certificate

/-!
# Types without their parentheses

A type may be written with parentheses around it and around its parts.
`Ty.eraseParens` drops them all.  `Ty.eraseInner` drops only those that may be
left in a type when it is compared: the ones inside of structs, enums and
functions.  Whether two types are the same does not depend on parentheses, and
what is asked about one type does not depend on those that are left.
-/

namespace StaticCheck

/-!
## Types without parentheses
-/

mutual

def Ty.eraseParens : Ty → Ty
  | .prim prim => .prim prim
  | .named name => .named name
  | .errors names => .errors names
  | .pointer target mutable => .pointer target.eraseParens mutable
  | .optional inner => .optional inner.eraseParens
  | .array element extent mutable => .array element.eraseParens extent mutable
  | .tuple fields => .tuple (Ty.eraseParensAll fields)
  | .union members => .union (Ty.eraseParensAll members)
  | .struct struct => .struct struct.eraseParens
  | .enum enum => .enum enum.eraseParens
  | .function params result error =>
    .function (Ty.eraseParensAll params) result.eraseParens
      (Ty.eraseParensOpt error)
  | .paren inner => inner.eraseParens

def Ty.eraseParensAll : List Ty → List Ty
  | [] => []
  | ty :: rest => ty.eraseParens :: Ty.eraseParensAll rest

def Ty.eraseParensOpt : Option Ty → Option Ty
  | none => none
  | some ty => some ty.eraseParens

def StructTy.eraseParens : StructTy → StructTy
  | ⟨name, members, scope⟩ => ⟨name, Member.eraseParensAll members, scope⟩

def Member.eraseParens : Member → Member
  | ⟨name, ty⟩ => ⟨name, ty.eraseParens⟩

def Member.eraseParensAll : List Member → List Member
  | [] => []
  | member :: rest => member.eraseParens :: Member.eraseParensAll rest

def EnumTy.eraseParens : EnumTy → EnumTy
  | ⟨name, variants, scope⟩ => ⟨name, Variant.eraseParensAll variants, scope⟩

def Variant.eraseParens : Variant → Variant
  | ⟨name, payload⟩ => ⟨name, Ty.eraseParensOpt payload⟩

def Variant.eraseParensAll : List Variant → List Variant
  | [] => []
  | variant :: rest => variant.eraseParens :: Variant.eraseParensAll rest

end

mutual

/-- The type without the parentheses that may be left in a type that is
compared: those inside of structs, enums and functions. -/
def Ty.eraseInner : Ty → Ty
  | .pointer target mutable => .pointer target.eraseInner mutable
  | .optional inner => .optional inner.eraseInner
  | .array element extent mutable => .array element.eraseInner extent mutable
  | .tuple fields => .tuple (Ty.eraseInnerAll fields)
  | .union members => .union (Ty.eraseInnerAll members)
  | .paren inner => .paren inner.eraseInner
  | ty => ty.eraseParens

def Ty.eraseInnerAll : List Ty → List Ty
  | [] => []
  | ty :: rest => ty.eraseInner :: Ty.eraseInnerAll rest

end

theorem Ty.eraseInnerAll_eq (tys : List Ty) :
    Ty.eraseInnerAll tys = tys.map Ty.eraseInner := by
  induction tys with
  | nil => rfl
  | cons ty rest ih => exact congrArg (ty.eraseInner :: ·) ih

mutual

theorem Ty.eraseParens_eraseParens (ty : Ty) :
    ty.eraseParens.eraseParens = ty.eraseParens := by
  cases ty with
  | prim | named | errors => rfl
  | pointer target mutable =>
    exact congrArg (Ty.pointer · mutable) target.eraseParens_eraseParens
  | optional inner => exact congrArg Ty.optional inner.eraseParens_eraseParens
  | array element extent mutable =>
    exact congrArg (Ty.array · extent mutable) element.eraseParens_eraseParens
  | tuple fields =>
    exact congrArg Ty.tuple (Ty.eraseParensAll_eraseParensAll fields)
  | union members =>
    exact congrArg Ty.union (Ty.eraseParensAll_eraseParensAll members)
  | struct struct =>
    obtain ⟨name, members, scope⟩ := struct
    exact congrArg (fun members => Ty.struct ⟨name, members, scope⟩)
      (Member.eraseParensAll_eraseParensAll members)
  | enum enum =>
    obtain ⟨name, variants, scope⟩ := enum
    exact congrArg (fun variants => Ty.enum ⟨name, variants, scope⟩)
      (Variant.eraseParensAll_eraseParensAll variants)
  | function params result error =>
    simp only [Ty.eraseParens, Ty.eraseParensAll_eraseParensAll params,
      result.eraseParens_eraseParens, Ty.eraseParensOpt_eraseParensOpt error]
  | paren inner => exact inner.eraseParens_eraseParens

theorem Ty.eraseParensAll_eraseParensAll (tys : List Ty) :
    Ty.eraseParensAll (Ty.eraseParensAll tys) = Ty.eraseParensAll tys := by
  cases tys with
  | nil => rfl
  | cons ty rest =>
    exact congrArg₂ List.cons ty.eraseParens_eraseParens
      (Ty.eraseParensAll_eraseParensAll rest)

theorem Ty.eraseParensOpt_eraseParensOpt (ty : Option Ty) :
    Ty.eraseParensOpt (Ty.eraseParensOpt ty) = Ty.eraseParensOpt ty := by
  cases ty with
  | none => rfl
  | some ty => exact congrArg some ty.eraseParens_eraseParens

theorem Member.eraseParensAll_eraseParensAll (members : List Member) :
    Member.eraseParensAll (Member.eraseParensAll members) =
      Member.eraseParensAll members := by
  cases members with
  | nil => rfl
  | cons member rest =>
    obtain ⟨name, ty⟩ := member
    exact congrArg₂ (fun ty rest => (⟨name, ty⟩ : Member) :: rest)
      ty.eraseParens_eraseParens (Member.eraseParensAll_eraseParensAll rest)

theorem Variant.eraseParensAll_eraseParensAll (variants : List Variant) :
    Variant.eraseParensAll (Variant.eraseParensAll variants) =
      Variant.eraseParensAll variants := by
  cases variants with
  | nil => rfl
  | cons variant rest =>
    obtain ⟨name, payload⟩ := variant
    exact congrArg₂ (fun payload rest => (⟨name, payload⟩ : Variant) :: rest)
      (Ty.eraseParensOpt_eraseParensOpt payload)
      (Variant.eraseParensAll_eraseParensAll rest)

end

mutual

theorem Ty.eraseParens_eraseInner (ty : Ty) :
    ty.eraseInner.eraseParens = ty.eraseParens := by
  cases ty with
  | pointer target mutable =>
    exact congrArg (Ty.pointer · mutable) target.eraseParens_eraseInner
  | optional inner => exact congrArg Ty.optional inner.eraseParens_eraseInner
  | array element extent mutable =>
    exact congrArg (Ty.array · extent mutable) element.eraseParens_eraseInner
  | tuple fields =>
    exact congrArg Ty.tuple (Ty.eraseParensAll_eraseInnerAll fields)
  | union members =>
    exact congrArg Ty.union (Ty.eraseParensAll_eraseInnerAll members)
  | paren inner => exact inner.eraseParens_eraseInner
  | prim | named | errors | struct | enum | function =>
    exact Ty.eraseParens_eraseParens _

theorem Ty.eraseParensAll_eraseInnerAll (tys : List Ty) :
    Ty.eraseParensAll (Ty.eraseInnerAll tys) = Ty.eraseParensAll tys := by
  cases tys with
  | nil => rfl
  | cons ty rest =>
    exact congrArg₂ List.cons ty.eraseParens_eraseInner
      (Ty.eraseParensAll_eraseInnerAll rest)

end

section Inner

variable {a b : Ty}

theorem Ty.eraseParens_eq_of_inner (h : a.eraseInner = b.eraseInner) :
    a.eraseParens = b.eraseParens := by
  rw [← a.eraseParens_eraseInner, h, b.eraseParens_eraseInner]

theorem Ty.eraseParensAll_eq_of_inner {as bs : List Ty}
    (h : Ty.eraseInnerAll as = Ty.eraseInnerAll bs) :
    Ty.eraseParensAll as = Ty.eraseParensAll bs := by
  rw [← Ty.eraseParensAll_eraseInnerAll as, h,
    Ty.eraseParensAll_eraseInnerAll bs]

end Inner

mutual

theorem Ty.eraseInner_stripParens (ty : Ty) :
    ty.eraseParens.stripParens.eraseInner = ty.stripParens.eraseInner := by
  cases ty with
  | pointer target mutable =>
    exact congrArg (Ty.pointer · mutable) target.eraseInner_stripParens
  | optional inner => exact congrArg Ty.optional inner.eraseInner_stripParens
  | array element extent mutable =>
    exact congrArg (Ty.array · extent mutable) element.eraseInner_stripParens
  | tuple fields =>
    exact congrArg Ty.tuple (Ty.eraseInnerAll_stripParensAll fields)
  | union members =>
    exact congrArg Ty.union (Ty.eraseInnerAll_stripParensAll members)
  | paren inner => exact inner.eraseInner_stripParens
  | prim | named | errors | struct | enum | function =>
    exact Ty.eraseParens_eraseParens _

theorem Ty.eraseInnerAll_stripParensAll (tys : List Ty) :
    Ty.eraseInnerAll (Ty.stripParensAll (Ty.eraseParensAll tys)) =
      Ty.eraseInnerAll (Ty.stripParensAll tys) := by
  cases tys with
  | nil => rfl
  | cons ty rest =>
    exact congrArg₂ List.cons ty.eraseInner_stripParens
      (Ty.eraseInnerAll_stripParensAll rest)

end

/-!
## The identity of types
-/

theorem Ty.unparen_eraseParens (ty : Ty) :
    ty.eraseParens.unparen = ty.unparen.eraseParens := by
  cases ty with
  | paren inner => exact inner.unparen_eraseParens
  | _ => rfl

theorem Ty.unparen_eraseInner (ty : Ty) :
    ty.eraseInner.unparen = ty.unparen.eraseInner := by
  cases ty with
  | paren inner => exact inner.unparen_eraseInner
  | _ => rfl

theorem Ty.unparen_ne_paren (ty inner : Ty) : ty.unparen ≠ .paren inner := by
  cases ty with
  | paren ty => exact ty.unparen_ne_paren inner
  | _ => exact nofun

theorem EnumTy.same_eraseParens (a b : EnumTy) :
    a.eraseParens.same b.eraseParens = a.same b := by
  cases a
  cases b
  rfl

mutual

theorem Ty.same_eraseParens (a b : Ty) :
    a.eraseParens.same b.eraseParens = a.same b := by
  have hparen := b.unparen_ne_paren
  cases a with
  | paren a => exact Ty.same_eraseParens a b
  | prim | named | errors =>
    simp only [Ty.eraseParens, Ty.same, Ty.unparen_eraseParens]
    cases hb : b.unparen with
    | paren inner => exact absurd hb (hparen inner)
    | _ => rfl
  | pointer a mutable =>
    simp only [Ty.eraseParens, Ty.same, Ty.unparen_eraseParens]
    cases hb : b.unparen with
    | paren inner => exact absurd hb (hparen inner)
    | pointer b => exact congrArg (_ && ·) (Ty.same_eraseParens a b)
    | _ => rfl
  | optional a =>
    simp only [Ty.eraseParens, Ty.same, Ty.unparen_eraseParens]
    cases hb : b.unparen with
    | paren inner => exact absurd hb (hparen inner)
    | optional b => exact Ty.same_eraseParens a b
    | _ => rfl
  | array a extent mutable =>
    simp only [Ty.eraseParens, Ty.same, Ty.unparen_eraseParens]
    cases hb : b.unparen with
    | paren inner => exact absurd hb (hparen inner)
    | array b other =>
      exact congrArg (extent.same other && ·) (Ty.same_eraseParens a b)
    | _ => rfl
  | tuple as =>
    simp only [Ty.eraseParens, Ty.same, Ty.unparen_eraseParens]
    cases hb : b.unparen with
    | paren inner => exact absurd hb (hparen inner)
    | tuple bs => exact Ty.sameAll_eraseParensAll as bs
    | _ => rfl
  | union as =>
    simp only [Ty.eraseParens, Ty.same, Ty.unparen_eraseParens]
    cases hb : b.unparen with
    | paren inner => exact absurd hb (hparen inner)
    | union bs => exact Ty.sameAll_eraseParensAll as bs
    | _ => rfl
  | struct a =>
    obtain ⟨name, members, scope⟩ := a
    simp only [Ty.eraseParens, StructTy.eraseParens, Ty.same,
      Ty.unparen_eraseParens]
    cases hb : b.unparen with
    | paren inner => exact absurd hb (hparen inner)
    | struct b =>
      obtain ⟨otherName, others, otherScope⟩ := b
      simp only [Ty.eraseParens, StructTy.eraseParens,
        Member.sameAll_eraseParensAll members others]
      rfl
    | _ => rfl
  | enum a =>
    simp only [Ty.eraseParens, Ty.same, Ty.unparen_eraseParens]
    cases hb : b.unparen with
    | paren inner => exact absurd hb (hparen inner)
    | enum b => exact a.same_eraseParens b
    | _ => rfl
  | function params result error =>
    simp only [Ty.eraseParens, Ty.same, Ty.unparen_eraseParens]
    cases hb : b.unparen with
    | paren inner => exact absurd hb (hparen inner)
    | function otherParams otherResult otherError =>
      simp only [Ty.eraseParens, Ty.sameAll_eraseParensAll params otherParams,
        Ty.same_eraseParens result otherResult,
        Ty.sameOpt_eraseParensOpt error otherError]
    | _ => rfl

theorem Ty.sameOpt_eraseParensOpt (a b : Option Ty) :
    Ty.sameOpt (Ty.eraseParensOpt a) (Ty.eraseParensOpt b) =
      Ty.sameOpt a b := by
  cases a with
  | none => cases b <;> rfl
  | some a =>
    cases b with
    | none => rfl
    | some b => exact Ty.same_eraseParens a b

theorem Ty.sameAll_eraseParensAll (as bs : List Ty) :
    Ty.sameAll (Ty.eraseParensAll as) (Ty.eraseParensAll bs) =
      Ty.sameAll as bs := by
  cases as with
  | nil => cases bs <;> rfl
  | cons a as =>
    cases bs with
    | nil => rfl
    | cons b bs =>
      exact congrArg₂ (· && ·) (Ty.same_eraseParens a b)
        (Ty.sameAll_eraseParensAll as bs)

theorem Member.sameAll_eraseParensAll (as bs : List Member) :
    Member.sameAll (Member.eraseParensAll as) (Member.eraseParensAll bs) =
      Member.sameAll as bs := by
  cases as with
  | nil => cases bs <;> rfl
  | cons a as =>
    obtain ⟨aName, aTy⟩ := a
    cases bs with
    | nil => rfl
    | cons b bs =>
      obtain ⟨bName, bTy⟩ := b
      exact congrArg₂ (aName == bName && · && ·) (Ty.same_eraseParens aTy bTy)
        (Member.sameAll_eraseParensAll as bs)

end

theorem Ty.same_eraseInner (a b : Ty) :
    a.eraseInner.same b.eraseInner = a.same b := by
  rw [← Ty.same_eraseParens, Ty.eraseParens_eraseInner,
    Ty.eraseParens_eraseInner, Ty.same_eraseParens]

/-!
## Questions that do not see what is left
-/

section Questions

variable (ty : Ty)

theorem Ty.prim?_eraseInner : ty.eraseInner.prim? = ty.prim? := by
  unfold Ty.prim?
  rw [Ty.unparen_eraseInner]
  cases ty.unparen <;> rfl

theorem Ty.isPrim_eraseInner (prim : Prim) :
    ty.eraseInner.isPrim prim = ty.isPrim prim := by
  unfold Ty.isPrim
  rw [Ty.prim?_eraseInner]

theorem Ty.isNumeric_eraseInner : ty.eraseInner.isNumeric = ty.isNumeric := by
  unfold Ty.isNumeric
  rw [Ty.prim?_eraseInner]

theorem Ty.isInteger_eraseInner : ty.eraseInner.isInteger = ty.isInteger := by
  unfold Ty.isInteger
  rw [Ty.prim?_eraseInner]

theorem Ty.length?_eraseInner : ty.eraseInner.length? = ty.length? := by
  unfold Ty.length?
  rw [Ty.unparen_eraseInner]
  cases ty.unparen with
  | array element extent mutable => cases extent <;> rfl
  | _ => rfl

theorem Ty.lengthsAgree_eraseInner (other : Ty) :
    ty.eraseInner.lengthsAgree other.eraseInner = ty.lengthsAgree other := by
  unfold Ty.lengthsAgree
  rw [Ty.length?_eraseInner, Ty.length?_eraseInner]

theorem Ty.any_isNull_eraseInnerAll (tys : List Ty) :
    (Ty.eraseInnerAll tys).any Ty.isNull = tys.any Ty.isNull := by
  rw [Ty.eraseInnerAll_eq, List.any_map]
  exact congrArg tys.any (funext fun ty => ty.isPrim_eraseInner .null)

end Questions

theorem StructTy.eraseParens_eq (struct : StructTy) :
    struct.eraseParens =
      { struct with members := Member.eraseParensAll struct.members } := by
  cases struct
  rfl

theorem Member.eraseParens_eq (member : Member) :
    member.eraseParens = { member with ty := member.ty.eraseParens } := by
  cases member
  rfl

theorem Member.eraseParensAll_eq (members : List Member) :
    Member.eraseParensAll members = members.map Member.eraseParens := by
  induction members with
  | nil => rfl
  | cons member rest ih => exact congrArg (member.eraseParens :: ·) ih

theorem StructTy.member?_eraseParens (struct : StructTy) (name : String) :
    struct.eraseParens.member? name =
      (struct.member? name).map Member.eraseParens := by
  simp only [StructTy.member?, StructTy.eraseParens_eq,
    Member.eraseParensAll_eq, List.find?_map, Function.comp_def,
    Member.eraseParens_eq]

end StaticCheck
