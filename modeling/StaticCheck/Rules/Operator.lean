import StaticCheck.Rules.Compatible

/-!
# Operators

Operators other than assignment.  An operation on two comptime integers of known
value is carried out; other arithmetic promotes its operands.
-/

namespace StaticCheck

def Ty.nullAgainstValue (null other : Ty) : Bool :=
  null.isNull &&
    !(other.isNull || other.isOptional || other.isPointer || other.isAny)

/-- The type of an operation on two comptime integers of known value. -/
def foldTypes (op : BinaryOp) (left right : Ty) : Option Ty :=
  match left.knownInt?, right.knownInt? with
  | some a, some b => some (.comptimeInt (Value.arithmetic? op a b))
  | _, _ => none

/-- The type of a negated number.  An unsigned integer becomes signed. -/
def Ty.negated : Ty → Ty
  | .prim (.comptimeInt value) => .comptimeInt (value.bind Wide.neg?)
  | .prim (.int false bits) => .int true bits
  | ty => ty

namespace Rule

/-- Reports a type that does not satisfy a predicate, and tells whether it
does. -/
def require (ty : Ty) (span : Span) (expected : String) (holds : Ty → Bool) :
    Rule Bool := do
  if holds ty then return true
  reportMismatch expected ty.text span
  return false

/-- Concatenation of two strings.  They have to agree in mutability unless one
is a literal. -/
def inferConcat (leftExpr rightExpr : Expr) (left right : Ty) (span : Span) :
    Rule (Option Ty) := do
  let literal := leftExpr.isLiteral || rightExpr.isLiteral
  if !literal && left.isMutableArray != right.isMutableArray then
    report (.mutabilityMismatch "+" "concatenated strings differ in mutability")
      span
    return none
  let extent :=
    match left.length?, right.length? with
    | some a, some b => .fixed ((a + b) % Layout.sizeLimit)
    | _, _ => .slice
  return some (.array .u8 extent (left.isMutableArray || right.isMutableArray))

/-- An operator on two values of the given types, which are in normal form. -/
def inferOperation (op : BinaryOp) (leftExpr rightExpr : Expr) (left right : Ty)
    (span : Span) : Rule (Option Ty) := do
  match op.opClass with
  | .additive | .multiplicative | .power =>
    if op == .add && left.isString && right.isString then
      return ← inferConcat leftExpr rightExpr left right span
    if !(← require left leftExpr.span "numeric" Ty.isNumeric) then return none
    if !(← require right rightExpr.span "numeric" Ty.isNumeric) then return none
    return some ((foldTypes op left right).getD (promote left right))
  | .shift =>
    if !(← require left leftExpr.span "integer" Ty.isInteger) then return none
    if !(← require right rightExpr.span "integer" Ty.isInteger) then return none
    return some ((foldTypes op left right).getD left)
  | .bitwise =>
    if !(← require left leftExpr.span "integer" Ty.isInteger) then return none
    if !(← require right rightExpr.span "integer" Ty.isInteger) then return none
    return some ((foldTypes op left right).getD (promote left right))
  | .equality | .relational =>
    if left.nullAgainstValue right || right.nullAgainstValue left then
      reportMismatch left.text right.text span
    return some .bool
  | .logical =>
    discard (require left leftExpr.span "bool" Ty.isBool)
    discard (require right rightExpr.span "bool" Ty.isBool)
    return some .bool
  | .assignment => return none

def inferBinary (op : BinaryOp) (leftExpr rightExpr : Expr) (span : Span) :
    Rule (Option Ty) := do
  let some left ← inferExpecting leftExpr none | return none
  let some right ← inferExpecting rightExpr none | return none
  let left ← normalize left
  let right ← normalize right
  if left.isMeta || right.isMeta then
    reportMismatch "a value" "type" span
    return none
  inferOperation op leftExpr rightExpr left right span

def placeMutability : Expr → Rule Bool
  | ⟨_, _, .ident name⟩ => do
    let some id ← lookup name | return false
    return (← symbol id).mutable
  | ⟨_, _, .paren inner⟩ => placeMutability inner
  | ⟨_, _, .member base _⟩ => placeMutability base
  | ⟨_, _, .index base _⟩ => placeMutability base
  | ⟨_, _, .deref pointer⟩ => do
    let some ty ← askType pointer | return false
    match ← normalize ty with
    | .pointer _ mutable => return mutable
    | _ => return false
  | ⟨_, _, .unary _ operand⟩ => placeMutability operand
  | _ => return false

def inferReference (operand : Expr) (span : Span) : Rule (Option Ty) := do
  if !operand.isPlace then
    report .invalidReference span
    return none
  let some pointee ← askType operand | return none
  return some (.pointer pointee (← placeMutability operand))

def inferUnary (op : UnaryOp) (operand : Expr) (span : Span) :
    Rule (Option Ty) := do
  if op == .reference then return ← inferReference operand span
  let some ty ← askType operand | return none
  let ty ← normalize ty
  match op with
  | .plus | .increment | .decrement =>
    if !(← require ty operand.span "numeric" Ty.isNumeric) then return none
    return some ty
  | .minus =>
    if !(← require ty operand.span "numeric" Ty.isNumeric) then return none
    return some ty.negated
  | .not =>
    discard (require ty operand.span "bool" Ty.isBool)
    return some .bool
  | .bitNot =>
    if !(← require ty operand.span "integer" Ty.isInteger) then return none
    return some ty
  | .reference => return none

def inferStep (operand : Expr) : Rule (Option Ty) := do
  let some ty ← askType operand | return none
  let ty ← normalize ty
  if !(← require ty operand.span "numeric" Ty.isNumeric) then return none
  return some ty

def inferDeref (operand : Expr) : Rule (Option Ty) := do
  let some ty ← askType operand | return none
  match ← normalize ty with
  | .pointer target _ => return some target
  | other =>
    reportMismatch "pointer" other.text operand.span
    return none

end Rule
end StaticCheck
