import StaticCheck.Session.Judge
import StaticCheck.Types.Builtin
import StaticCheck.Types.Normal

/-!
# Resolution of types

A written type is resolved into the type it stands for: parentheses go, builtin
names and aliases are replaced, and lengths of arrays are folded.  Declared
structs and enums are left as they are, their members as written.  Resolution is
loud or silent: silent resolution does not report the names it cannot resolve.
-/

namespace StaticCheck
namespace Rule

variable {α : Type}

/-- Value of a constant expression: one the evaluator folds, or one whose type
carries its value. -/
def constInt (expr : Expr) : Rule (Option Int) := do
  if let some value := (← evaluator).foldInt expr then return some value
  match ← askType expr with
  | some (.prim (.comptimeInt value)) => return value
  | _ => return none

/-- Folds the length of an array.  Lengths are numbers of 64 bits. -/
def resolveExtent : Extent → Rule Extent
  | .expr length => do
    match ← constInt length with
    | some n =>
      if 0 ≤ n then return .fixed (n.toNat % pow2 64) else return .expr length
    | none => return .expr length
  | extent => return extent

/-- Unfolds an alias in the scope that declares it and records what it stands
for.  An alias met while it is being unfolded depends on itself. -/
def unfoldAlias (id : SymbolId) (name : String) (span : Span) (loud : Bool) :
    Rule (Option Ty) :=
  typedOnce id fun symbol => do
    let some aliased := symbol.info.aliased | return none
    if ← isUnfolding id then
      if loud then report (.circularTypeDependency name) span
      return none
    withUnfolding id (withScope symbol.scope (askResolved aliased span loud))

def resolveNamed (name : String) (span : Span) (loud : Bool) :
    Rule (Option Ty) := do
  match Builtin.type? name with
  | .ok (some ty) => return some ty
  | .error problem =>
    if loud then report problem span
    return none
  | .ok none =>
    let some id ← lookup name
      | do
        if loud then report (.unknownType name) span
        return none
    let symbol ← symbol id
    if symbol.isTypeName then unfoldAlias id name span loud
    else if symbol.kind == .error then return symbol.ty
    else
      if loud then report (.unknownType name) span
      return none

mutual

def resolveTy (span : Span) (loud : Bool) : Ty → Rule (Option Ty)
  | .prim prim => return some (.prim prim)
  | .errors names => return some (.errors names)
  | .enum enum => return some (.enum enum)
  | .struct ⟨name, members, some scope⟩ =>
    return some (.struct ⟨name, members, some scope⟩)
  | .struct ⟨name, members, none⟩ => do
    let some members ← resolveMembers span loud members | return none
    return some (.struct ⟨name, members, none⟩)
  | .paren inner => resolveTy span loud inner
  | .pointer target mutable => do
    let some target ← resolveTy span loud target | return none
    return some (.pointer target mutable)
  | .optional inner => do
    let some inner ← resolveTy span loud inner | return none
    return some (.optional inner)
  | .array element extent mutable => do
    let some element ← resolveTy span loud element | return none
    return some (.array element (← resolveExtent extent) mutable)
  | .tuple fields => do
    let some fields ← resolveAll span loud fields | return none
    return some (.tuple fields)
  | .union members => do
    let some members ← resolveAll span loud members | return none
    return some (.union members)
  | .function params result error => do
    let some params ← resolveAll span loud params | return none
    let some result ← resolveTy span loud result | return none
    let some error ← resolveOpt span loud error | return none
    return some (.function params result error)
  | .named name => resolveNamed name span loud

def resolveAll (span : Span) (loud : Bool) : List Ty → Rule (Option (List Ty))
  | [] => return some []
  | ty :: rest => do
    let some ty ← resolveTy span loud ty | return none
    let some rest ← resolveAll span loud rest | return none
    return some (ty :: rest)

def resolveOpt (span : Span) (loud : Bool) :
    Option Ty → Rule (Option (Option Ty))
  | none => return some none
  | some ty => do
    let some ty ← resolveTy span loud ty | return none
    return some (some ty)

def resolveMembers (span : Span) (loud : Bool) :
    List Member → Rule (Option (List Member))
  | [] => return some []
  | ⟨name, ty⟩ :: rest => do
    let some ty ← resolveTy span loud ty | return none
    let some rest ← resolveMembers span loud rest | return none
    return some (⟨name, ty⟩ :: rest)

end

/-- What a written type stands for; names that do not resolve are reported. -/
def resolveType (ty : Ty) (span : Span) : Rule (Option Ty) :=
  resolveTy span true ty

def tryResolve (ty : Ty) : Rule (Option Ty) := resolveTy .none false ty

/-- The form of a type in which it is compared: what it stands for or, if that
is unknown, the type without its parentheses. -/
def normalize (ty : Ty) : Rule Ty :=
  return (← tryResolve ty).getD ty.stripParens

def derefOnce (ty : Ty) : Rule Ty := do
  match ← normalize ty with
  | .pointer target _ => normalize target
  | ty => return ty

def inScope? (scope : Option ScopeId) (rule : Rule α) : Rule α :=
  match scope with
  | some scope => withScope scope rule
  | none => rule

def resolveMember (struct : StructTy) (member : Member) : Rule (Option Ty) :=
  inScope? struct.scope (tryResolve member.ty)

def exprAsType (expr : Expr) : Rule (Option Ty) := do
  let expr := expr.unparen
  match expr.kind with
  | .type ty => resolveType ty expr.span
  | .ident name =>
    let denotesType ←
      match ← lookup name with
      | some id => do pure (← symbol id).info.denotesType
      | none =>
        match Builtin.type? name with
        | .ok none => pure false
        | _ => pure true
    if denotesType then resolveType (.named name) expr.span else return none
  | _ => return none

/-!
## Resolution for layout
-/

/-- Number of levels to which types are opened for their layout. -/
def layoutDepth : Nat := 33

/-- A member of a struct, resolved where the struct was declared and then by
`opened`. -/
def layoutMember (opened : Ty → Rule (Option Ty)) (struct : StructTy)
    (member : Member) : Rule (Option Member) := do
  let some ty ← resolveMember struct member | return none
  let some ty ← opened ty | return none
  return some ⟨member.name, ty⟩

/-- A variant of an enum, its payload resolved where the enum was declared and
then by `opened`. -/
def layoutVariant (opened : Ty → Rule (Option Ty)) (enum : EnumTy)
    (variant : Variant) : Rule (Option Variant) := do
  let some payload := variant.payload | return some variant
  let some payload ← inScope? enum.scope (tryResolve payload) | return none
  let some payload ← opened payload | return none
  return some ⟨variant.name, some payload⟩

/-- Resolves a type together with what it holds by value, down to the given
number of levels. -/
def layoutTy : Nat → Ty → Rule (Option Ty)
  | 0, _ => return none
  | depth + 1, ty => do
    let some resolved ← tryResolve ty | return none
    match resolved with
    | .struct struct =>
      let some members ← mapSome (layoutMember (layoutTy depth) struct)
        struct.members
        | return none
      return some (.struct { struct with members })
    | .enum enum =>
      let some variants ← mapSome (layoutVariant (layoutTy depth) enum)
        enum.variants
        | return none
      return some (.enum { enum with variants })
    | .array element .slice mutable =>
      return some (.array element .slice mutable)
    | .array element extent mutable =>
      let some element ← layoutTy depth element | return none
      return some (.array element extent mutable)
    | .tuple fields =>
      let some fields ← mapSome (layoutTy depth) fields | return none
      return some (.tuple fields)
    | .optional inner =>
      let some inner ← layoutTy depth inner | return none
      return some (.optional inner)
    | .union members =>
      let some members ← mapSome (layoutTy depth) members | return none
      return some (.union members)
    | ty => return some ty

def resolveLayout (ty : Ty) : Rule (Option Ty) := layoutTy layoutDepth ty

end Rule
end StaticCheck
