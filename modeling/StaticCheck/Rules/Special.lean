import StaticCheck.Rules.Flow

/-!
# Special forms

Casts, sizes, defaults of optionals, ranges, and the expressions that hold
statements.  A branch is walked with context and scope restored afterwards.
-/

namespace StaticCheck
namespace Rule

/-- A cast has the type it names, also where it is invalid. -/
def inferCast (operand : Expr) (target : Ty) (span : Span) :
    Rule (Option Ty) := do
  let some source ← inferExpecting operand none | return none
  let some target ← resolveType target span | return none
  if !(← canCast target source) then
    reportCast (.invalidCast source.text target.text) span
  return some target

/-- The type that an operand of a size names, or else the type of its value. -/
def sizedType (operand : Expr) : Rule (Option Ty) := do
  if let some ty ← exprAsType operand then return some ty
  return (← askType operand).map Ty.concretize

def measure (operand : Expr) : Rule (Option Nat) := do
  let some ty ← sizedType operand | return none
  let some layout ← resolveLayout ty | return none
  return (← evaluator).size layout

/-- The size of a type is a comptime integer; a size that is not known counts as
zero. -/
def inferSizeOf (operand : Expr) (span : Span) : Rule Ty := do
  match ← measure operand with
  | some size => return .comptimeInt (some size)
  | none =>
    report (.cannotInferType "size of operand") span
    return .comptimeInt (some 0)

/-- A default of an optional.  Another optional keeps the result optional, and
null gives a union.
-/
def inferOrElse (left right : Expr) : Rule (Option Ty) := do
  let some leftTy ← askType left | return none
  match ← normalize leftTy with
  | .optional inner =>
    let some rightTy ← inferExpecting right (some inner) | return none
    let resolved ← normalize rightTy
    if resolved.isNull then return some (.union [inner, .null])
    match resolved with
    | .optional rightInner =>
      if !(← isCompatible inner rightInner none) then
        reportMismatch (Ty.optional inner).text rightTy.text right.span
      return some (.optional inner)
    | other =>
      if !(← isCompatible inner other (some right)) then
        reportMismatch inner.text other.text right.span
      return some inner
  | _ =>
    discard (askType right)
    return some leftTy

def checkBound (bound : Expr) : Rule Unit := do
  let some ty ← askType bound | return ()
  let ty ← normalize ty
  if !ty.isInteger then reportMismatch "integer" ty.text bound.span

def inferRange (start stop : Option Expr) : Rule (Option Ty) := do
  forEach checkBound (start.toList ++ stop.toList)
  return some .type

def checkCondition (condition : Expr) : Rule Unit := do
  let some ty ← askType condition | return ()
  let ty ← normalize ty
  if !ty.isBool then reportMismatch "bool" ty.text condition.span

def checkBranch (body : Stmt) : Rule Unit := do
  reportFailure (← withSavedState (askValid body))

def checkIf (condition : Expr) (thenBranch : Stmt) (elseBranch : Option Stmt) :
    Rule Unit := do
  checkCondition condition
  forEach checkBranch (thenBranch :: elseBranch.toList)

def checkHandler (id : NodeId) (handler : Stmt) (span : Span) : Rule Unit := do
  match (← tree).nodeScope? id with
  | some scope =>
    reportFailure (← withSavedState (withScope scope (askValid handler)))
  | none => reportInternal (.fault "catch handler has no scope" span)

/-- A handled expression has the type of the expression. -/
def inferCatch (id : NodeId) (operand : Expr) (handler : Stmt) (span : Span) :
    Rule (Option Ty) := do
  let ty ← askType operand
  checkHandler id handler span
  return ty

end Rule
end StaticCheck
