import StaticCheck.Rules.Flow

/-!
# Assignment

The left side of an assignment has to be a place that may be written: a mutable
variable, parameter or field, or storage reached through a pointer that allows
it.
-/

namespace StaticCheck
namespace Rule

def refuseWrite (name detail : String) (span : Span) : Rule Bool := do
  report (.mutabilityMismatch name detail) span
  return false

/-- Whether a name may be assigned.  An undeclared one is reported when it is
inferred. -/
def bindingWritable (name : String) (span : Span) : Rule Bool := do
  let some id ← lookup name | return true
  let symbol ← symbol id
  match symbol.kind with
  | .var | .parameter | .structField =>
    if symbol.kind == .structField && symbol.isStatic then
      refuseWrite name "static fields cannot be assigned" span
    else if symbol.mutable then return true
    else refuseWrite name "cannot assign to an immutable binding" span
  | _ => refuseWrite name "only variables and fields can be assigned" span

def namesModule (expr : Expr) : Rule Bool := do
  let some name := expr.identName? | return false
  let some id ← lookup name | return false
  return (← symbol id).kind == .use

def fieldObjection? (struct : StructTy) (name : String) :
    Rule (Option String) := do
  let some scope := struct.scope | return none
  let some id ← lookupLocal scope name | return none
  let symbol ← symbol id
  if symbol.kind != .structField then return none
  if symbol.isStatic then return some "static fields cannot be assigned"
  if !symbol.mutable then return some "field is immutable"
  return none

def staticWritable (struct : StructTy) (name : String) (span : Span) :
    Rule Bool := do
  let some scope := struct.scope | return true
  let some id ← lookupLocal scope name | return true
  if (← symbol id).isStatic then
    refuseWrite name "static fields cannot be assigned" span
  else return true

/-- Whether a place inside `base` may be written, given what is known of `base`
itself: storage behind a pointer is judged by the pointer. -/
def containerWritable (base : Expr) (baseWritable : Rule Bool) : Rule Bool := do
  let some ty ← askType base | return false
  match ← normalize ty with
  | .pointer _ true => return true
  | .pointer _ false =>
    refuseWrite "*" "cannot assign through a pointer to const" base.span
  | _ => baseWritable

def memberWritable (base : Expr) (name : String) (span : Span)
    (baseWritable : Rule Bool) : Rule Bool := do
  if let some (.struct struct) ← exprAsType base then
    return ← staticWritable struct name span
  if ← namesModule base then return true
  let some ty ← askType base | return false
  if let .struct struct ← derefOnce ty then
    if let some objection ← fieldObjection? struct name then
      return ← refuseWrite name objection span
  containerWritable base baseWritable

/-- Whether the place that an expression denotes may be written; if not, it is
reported. -/
def placeWritable : Expr → Rule Bool
  | ⟨_, _, .paren inner⟩ => placeWritable inner
  | ⟨_, span, .ident name⟩ => bindingWritable name span
  | ⟨_, span, .deref pointer⟩ => do
    let some ty ← askType pointer | return false
    match ← normalize ty with
    | .pointer _ false =>
      refuseWrite "*" "cannot assign through a pointer to const" span
    | _ => return true
  | ⟨_, span, .member base name⟩ =>
    memberWritable base name span (placeWritable base)
  | ⟨_, _, .index base _⟩ => containerWritable base (placeWritable base)
  | ⟨_, span, _⟩ => do
    reportMismatch "an assignable place" "a temporary value" span
    return false

/-- An assignment has the type of its target.  A compound one is for numbers. -/
def inferAssignment (op : BinaryOp) (left right : Expr) (span : Span) :
    Rule (Option Ty) := do
  if !(← placeWritable left) then return none
  let some target ← askType left | return none
  let some value ← inferExpecting right (some target) | return none
  if op != .assign then
    let resolved ← normalize target
    if !resolved.isNumeric then
      reportMismatch "numeric" resolved.text left.span
      return none
    let resolved ← normalize value
    if !resolved.isNumeric then
      reportMismatch "numeric" resolved.text right.span
      return none
  if ← checkFlow target value right span then return some target
  else return none

end Rule
end StaticCheck
