import StaticCheck.Rules.Function

/-!
# Struct and enum declarations

Fields and payloads are resolved in the member scope.  A type that holds itself
by value is reported at the field or payload that closes the cycle.
-/

namespace StaticCheck
namespace Rule

def typeOfMembers? (scope : ScopeId) (name : String) :
    Rule (Option SymbolId) := do
  let tree ← tree
  let some parent := tree.parent? scope | return none
  let some id := tree.lookupLocal parent name | return none
  return if (tree.symbol id).info.scope == some scope then some id else none

/-- Whether a type, read in the current scope, holds the definition by value. -/
def containsType (id : SymbolId) (ty : Ty) : Rule Bool := do
  let s ← get
  return s.tree.contains id s.unfolding s.tree.current ty

def reportCycle (declared : Option SymbolId) (ty : Ty) (name : String)
    (span : Span) : Rule Bool := do
  let some id := declared | return false
  if ← containsType id ty then
    report (.circularTypeDependency name) span
    return true
  return false

def recordField (scope : ScopeId) (field : Slot) (ty : Ty) : Rule Unit := do
  let some id ← lookupLocal scope field.name | return ()
  setTypeIfNone id (some ty)
  updateSymbol id fun symbol => { symbol with checked := true }

def checkFieldType (scope : ScopeId) (field : Slot) : Rule Unit := do
  let some ty ← resolveType field.ty field.span | return ()
  recordField scope field ty
  forEach (checkInitializer ty) field.default.toList

def checkStructField (scope : ScopeId) (declared : Option SymbolId)
    (owner : String) (field : Slot) : Rule Unit := do
  if field.visibility == .static && field.mutable then
    report (.mutabilityMismatch field.name "static fields cannot be mutable")
      field.span
  if ← reportCycle declared field.ty owner field.span then return ()
  checkFieldType scope field

def checkPayload (declared : Option SymbolId) (owner : String)
    (variant : VariantDecl) : Rule Unit := do
  let some payload := variant.payload | return ()
  if ← reportCycle declared payload owner variant.span then return ()
  discard (resolveType payload variant.span)

def checkMethod (scope : ScopeId) (method : FuncDecl) : Rule Unit := do
  reportFailure (← checkFunction method (some scope))

def checkMembers (id : NodeId) (name : String) (span : Span)
    (methods : List FuncDecl)
    (members : ScopeId → Option SymbolId → Rule Unit) :
    Rule (Except Finding Unit) := do
  let some scope := (← tree).nodeScope? id
    | return .error (.fault ("`" ++ name ++ "` has no member scope") span)
  let declared ← typeOfMembers? scope name
  withScope scope do
    members scope declared
    forEach (checkMethod scope) methods
  return .ok ()

def checkStruct (decl : StructDecl) : Rule (Except Finding Unit) :=
  checkMembers decl.id decl.name decl.span decl.methods fun scope declared =>
    forEach (checkStructField scope declared decl.name) decl.fields

def checkEnum (decl : EnumDecl) : Rule (Except Finding Unit) :=
  checkMembers decl.id decl.name decl.span decl.methods fun _ declared =>
    forEach (checkPayload declared decl.name) decl.variants

end Rule
end StaticCheck
