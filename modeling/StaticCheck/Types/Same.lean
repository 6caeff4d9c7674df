import StaticCheck.Types.Basic

/-!
# Identity of types

When two types are one type.  Parentheses do not count, all comptime integers
are one type, and the mutability of an array is no part of its identity.
Declared structs and enums are compared by their scopes, and structs written in
place member by member.
-/

namespace StaticCheck

/-- Two lengths agree if they are one number, or one node with one span. -/
def Extent.same : Extent → Extent → Bool
  | .slice, .slice => true
  | .fixed a, .fixed b => a == b
  | .expr a, .expr b => a.id == b.id && a.span == b.span
  | _, _ => false

def Prim.same : Prim → Prim → Bool
  | .comptimeInt _, .comptimeInt _ => true
  | a, b => a == b

def EnumTy.same (a b : EnumTy) : Bool :=
  match a.scope, b.scope with
  | some s, some t => s == t
  | _, _ => a.name == b.name

/-- Whether the scopes or the names of two structs decide that they are one. -/
def StructTy.sameName? (a b : StructTy) : Option Bool :=
  match a.scope, b.scope with
  | some s, some t => some (s == t)
  | _, _ =>
    if a.isAnonymous || b.isAnonymous then none else some (a.name == b.name)

mutual

def Ty.same : Ty → Ty → Bool
  | .paren a, b => a.same b
  | .prim a, b =>
    match b.unparen with
    | .prim b => a.same b
    | _ => false
  | .named a, b =>
    match b.unparen with
    | .named b => a == b
    | _ => false
  | .pointer a aMutable, b =>
    match b.unparen with
    | .pointer b bMutable => aMutable == bMutable && a.same b
    | _ => false
  | .optional a, b =>
    match b.unparen with
    | .optional b => a.same b
    | _ => false
  | .array a aExtent _, b =>
    match b.unparen with
    | .array b bExtent _ => aExtent.same bExtent && a.same b
    | _ => false
  | .tuple as, b =>
    match b.unparen with
    | .tuple bs => Ty.sameAll as bs
    | _ => false
  | .struct ⟨aName, aMembers, aScope⟩, b =>
    match b.unparen with
    | .struct b =>
      match StructTy.sameName? ⟨aName, aMembers, aScope⟩ b with
      | some answer => answer
      | none => Member.sameAll aMembers b.members
    | _ => false
  | .enum a, b =>
    match b.unparen with
    | .enum b => a.same b
    | _ => false
  | .errors as, b =>
    match b.unparen with
    | .errors bs => as.length == bs.length && as.all bs.contains
    | _ => false
  | .union as, b =>
    match b.unparen with
    | .union bs => Ty.sameAll as bs
    | _ => false
  | .function aParams aResult aError, b =>
    match b.unparen with
    | .function bParams bResult bError =>
      Ty.sameAll aParams bParams && aResult.same bResult &&
        Ty.sameOpt aError bError
    | _ => false
termination_by structural a => a

def Ty.sameOpt : Option Ty → Option Ty → Bool
  | some a, some b => a.same b
  | none, none => true
  | _, _ => false
termination_by structural a => a

def Ty.sameAll : List Ty → List Ty → Bool
  | [], [] => true
  | a :: as, b :: bs => a.same b && Ty.sameAll as bs
  | _, _ => false
termination_by structural as => as

def Member.sameAll : List Member → List Member → Bool
  | [], [] => true
  | ⟨aName, aTy⟩ :: as, ⟨bName, bTy⟩ :: bs =>
    aName == bName && aTy.same bTy && Member.sameAll as bs
  | _, _ => false
termination_by structural as => as

end

end StaticCheck
