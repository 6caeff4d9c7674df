import StaticCheck.Rules.Resolve

/-!
# Types of symbols

A symbol is typed on first use, from its annotation or its initializer, in the
scope that declares it, and keeps its type from then on.
-/

namespace StaticCheck
namespace Rule

def signatureType (info : SymbolInfo) : Rule (Option Ty) := do
  let some params ← mapSome tryResolve (info.params.map (·.ty)) | return none
  let some result ← tryResolve (info.result.getD .void) | return none
  let some error := info.error.map ErrorClause.toTy
    | return some (Ty.function params result none)
  let some error ← tryResolve error | return none
  return some (Ty.function params result (some error))

def functionType (id : SymbolId) : Rule (Option Ty) :=
  typedOnce id fun symbol => withScope symbol.innerScope
    (signatureType symbol.info)

/-- The type of a declaration, from its annotation or else from its
initializer. -/
def declaredType (info : SymbolInfo) : Rule (Option Ty) :=
  match info.ascribed, info.initializer with
  | some ascribed, _ => tryResolve ascribed
  | none, some initializer => inferExpecting initializer none
  | none, none => return none

/-- The type of a symbol from its declaration.  A mutable variable takes a type
that can be stored.
-/
def typeFromDeclaration (symbol : Symbol) : Rule (Option Ty) := do
  let some ty ← withScope symbol.scope (declaredType symbol.info) | return none
  return some (if symbol.kind == .var &&
    symbol.mutable then ty.concretize else ty)

/-- The type of a symbol.  A symbol met while it is being typed has none yet. -/
def symbolType (id : SymbolId) : Rule (Option Ty) := do
  let symbol ← symbol id
  if symbol.kind == .function then return ← functionType id
  if symbol.isTypeName then return some (symbol.ty.getD .type)
  typedOnce id fun symbol => do
    if ← isUnfolding id then return none
    withUnfolding id (typeFromDeclaration symbol)

def valueOf (id : SymbolId) (symbol : Symbol) : Rule (Option Ty) :=
  if symbol.isTypeName then return some .type
  else
    match symbol.kind with
    | .function => functionType id
    | .error | .enumVariant => return symbol.ty
    | _ => symbolType id

def valueOfSymbol (id : SymbolId) : Rule (Option Ty) := do
  markUsed id
  valueOf id (← symbol id)

end Rule
end StaticCheck
