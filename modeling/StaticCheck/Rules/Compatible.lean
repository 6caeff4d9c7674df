import StaticCheck.Rules.Resolve
import StaticCheck.Types.Same

/-!
# Compatibility

When a value of one type may stand where another type is expected, and when it
can be cast.  Types are compared in their normal form.  A value read through a
pointer has to match exactly.
-/

namespace StaticCheck

/-- Compatibility of types without parts.  Comptime numbers go into every sized
number that can hold them, and sized numbers into those at least as wide. -/
def Prim.accepts : Prim → Prim → Bool
  | .bool, _ | _, .bool => false
  | .int false bits, .comptimeInt (some value) => fitsInt value false bits
  | .int .., .comptimeInt _ | .int .., .comptimeFloat => true
  | .float _, .comptimeInt _ | .float _, .comptimeFloat => true
  | .comptimeInt _, source | .comptimeFloat, source => source.isNumeric
  | .int _ target, .int _ source => source ≤ target
  | .float target, .int _ source => source ≤ target
  | .float target, .float source => source ≤ target
  | .type, _ => true
  | _, _ => false

/-- Two lengths agree unless both are known and differ. -/
def Ty.lengthsAgree (target source : Ty) : Bool :=
  match target.length?, source.length? with
  | some expected, some received => expected == received
  | _, _ => true

namespace Rule

def membersCompatible (target source : StructTy) : List Member → Rule Bool
  | [] => return true
  | member :: rest => do
    let some provided := source.member? member.name | return false
    let expected? ← resolveMember target member
    let received? ← resolveMember source provided
    let some expected := expected? | return false
    let some received := received? | return false
    if ← askCompatible expected received then
      membersCompatible target source rest
    else return false

/-- Declared structs are compared by scope or name.  If one of them was written
in place, they are compared member by member. -/
def structCompatible (target source : StructTy) : Rule Bool := do
  if target.scope.isSome && target.scope == source.scope then return true
  if !target.isAnonymous && !source.isAnonymous then
    return target.name == source.name
  if target.members.length != source.members.length then return false
  membersCompatible target source target.members

def pointeeCompatible (target source : Ty) : Rule Bool := do
  let target ← normalize target
  let source ← normalize source
  if target.same source then return true
  match target with
  | .optional inner => return inner.same source
  | _ => return false

/-- Compatibility of types in normal form. -/
def compatible (target source : Ty) : Rule Bool := do
  if target.same source then return true
  if source.isNoreturn || source.isPrim .undefined then return true
  match target, source with
  | .prim .any, _ => return true
  | .prim .err, .errors _ => return true
  | .errors members, .errors thrown => return thrown.all members.contains
  | .prim target, .prim source => return target.accepts source
  | .union targets, .union sources =>
    allOf (fun source => anyOf (fun target => askCompatible target source)
      targets) sources
  | .union targets, .optional inner =>
    if targets.any Ty.isNull then
      anyOf (fun target => askCompatible target inner) targets
    else return false
  | .union targets, source =>
    anyOf (fun target => askCompatible target source) targets
  | target, .union sources =>
    allOf (fun source => askCompatible target source) sources
  | .optional _, .prim .null => return true
  | .optional _, .optional _ => return false
  | .optional inner, source => askCompatible inner source
  | .array targetElement _ _, .array sourceElement _ _ =>
    if sourceElement.isAny then return true
    else if target.lengthsAgree source then
      askCompatible targetElement sourceElement
    else return false
  | .pointer _ _, .prim .null => return true
  | .pointer targetPointee targetMutable,
      .pointer sourcePointee sourceMutable =>
    if targetMutable && !sourceMutable then return false
    else pointeeCompatible targetPointee sourcePointee
  | .tuple targets, .tuple sources =>
    if targets.length == sources.length then
      allOf (fun (pair : Ty × Ty) => askCompatible pair.1 pair.2)
        (targets.zip sources)
    else return false
  | .struct target, .struct source => structCompatible target source
  | .enum _, _ => return false
  | .prim .type, _ => return true
  | _, _ => return false

/-- Whether a value of type `source`, made by `expr` if that is known, may stand
where `target` is expected. -/
def isCompatible (target source : Ty) (expr : Option Expr) : Rule Bool := do
  let target ← normalize target
  let source ← normalize source
  if expr.any Expr.isDeref then return target.isAny || target.same source
  else compatible target source

def canCast (target source : Ty) : Rule Bool := do
  if ← isCompatible target source none then return true
  let target ← normalize target
  let source ← normalize source
  if target.isAny || source.isAny then return true
  if source.isBool then return target.isInteger
  if target.isNumeric && source.isNumeric then return true
  match target, source with
  | .enum _, source => return source.isInteger
  | target, .enum _ => return target.isInteger
  | .pointer _ _, .pointer _ _ => return true
  | .pointer _ _, source => return source.isInteger
  | target, .pointer _ _ => return target.isInteger
  | .optional inner, source => askCastable inner source
  | _, _ => return false

end Rule
end StaticCheck
