import StaticCheck.Rules.SymbolType

/-!
# Identifiers
-/

namespace StaticCheck
namespace Rule

def isInStatic : Rule Bool := return (← frame?).any (·.isStatic)

/-- Whether a symbol is a field or method of an instance of the type whose
method is being checked.
-/
def isInstanceMember (id : SymbolId) : Rule Bool := do
  let some owner := (← frame?).bind (·.owner) | return false
  let symbol ← symbol id
  return symbol.scope == owner &&
    (symbol.kind == .structField || symbol.kind == .function) &&
    !symbol.isStatic

def misusesInstance (id : SymbolId) : Rule Bool :=
  return (← isInStatic) && (← isInstanceMember id)

def inferUndeclared (name : String) (span : Span) : Rule (Option Ty) := do
  if name == selfName && (← isInStatic) then
    report (.invalidStaticAccess name "static methods have no instance") span
    return none
  match Builtin.type? name with
  | .ok (some _) => return some .type
  | .ok none =>
    report (.undefinedIdentifier name) span
    return none
  | .error problem =>
    report problem span
    return none

def inferIdent (name : String) (span : Span) : Rule (Option Ty) := do
  let some id ← lookup name | inferUndeclared name span
  if ← misusesInstance id then
    report (.invalidStaticAccess name "instance member used in a static method")
      span
    return none
  if (← symbol id).kind == .use then
    markUsed id
    report (.cannotInferType ("module `" ++ name ++ "` used as a value")) span
    return none
  valueOfSymbol id

end Rule
end StaticCheck
