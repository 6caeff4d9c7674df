import StaticCheck.Rules.Flow
import StaticCheck.Rules.SymbolType

/-!
# Calls

The arguments of a call against the parameters, calls of builtin functions, and
calls of declared functions and of enum variants.
-/

namespace StaticCheck

/-- Whether a builtin function takes an argument of a type, and how it names
what it takes. -/
def Builtin.Arg.accepts : Builtin.Arg → Ty → Bool × String
  | .any, _ | .type, _ => (true, "any")
  | .bool, ty => (ty.isBool, "bool")
  | .integer, ty => (ty.isInteger, "integer")
  | .string, ty => (ty.isString, "string")

namespace Rule

def notCallable (ty : Ty) (span : Span) : Rule (Option Ty) := do
  report (.notCallable ty.text) span
  return none

def checkArity (required : Nat) (most : Option Nat) (received : Nat)
    (span : Span) : Rule Unit := do
  if received < required then report (.tooFewArguments required received) span
  else if let some most := most then
    if most < received then report (.tooManyArguments most received) span

/-- Checks arguments against resolved parameter types.  Those past `required`
may be left out, and those past the last parameter are inferred all the same. -/
def checkArgs (params : List Ty) (required : Nat) (args : List Expr)
    (span : Span) : Rule Unit := do
  checkArity required (some params.length) args.length span
  forEach (fun (pair : Ty × Expr) => checkPassed pair.1 pair.2)
    (params.zip args)
  forEach (fun arg => discard (askType arg)) (args.drop params.length)

def callFunction (id : SymbolId) (args : List Expr) (span : Span) :
    Rule (Option Ty) := do
  markUsed id
  let some (.function params result _) ← functionType id | return none
  checkArgs params (← symbol id).info.requiredParams args span
  return some result

def callVariant (enum : EnumTy) (variant : Variant) (args : List Expr)
    (span : Span) : Rule (Option Ty) := do
  let params ←
    match variant.payload with
    | none => pure []
    | some payload => do
      let some payload ← inScope? enum.scope (resolveType payload span)
        | return none
      pure [payload]
  checkArgs params params.length args span
  return some (.enum enum)

def checkBuiltinArg (kind : Builtin.Arg) (arg : Expr) : Rule (Option Ty) := do
  if kind == .type then
    let named ← exprAsType arg
    if named.isNone then
      let received ← askType arg
      reportMismatch "type" ((received.map Ty.text).getD "") arg.span
    return named
  let some ty ← askType arg | return none
  let ty ← normalize ty
  let (accepted, expected) := kind.accepts ty
  if !accepted then reportMismatch expected ty.text arg.span
  return none

def checkBuiltinArgs : List Builtin.Arg → List Expr → Rule Unit
  | _, [] => return ()
  | kinds, arg :: rest => do
    discard (checkBuiltinArg (kinds.head?.getD .any) arg)
    checkBuiltinArgs kinds.tail rest

/-- Calls a builtin function.  Its first argument may determine the type of the
result. -/
def callBuiltin (name : String) (callee : Expr) (args : List Expr)
    (span : Span) : Rule (Option Ty) := do
  let some builtin := Builtin.function? name
    | do
      report (.undefinedBuiltin name) callee.span
      forEach (fun arg => discard (askType arg)) args
      return none
  let most := if builtin.variadic then none else some builtin.params.length
  checkArity builtin.params.length most args.length span
  let first ←
    match args with
    | [] => pure none
    | arg :: rest => do
      let first ← checkBuiltinArg (builtin.params.head?.getD .any) arg
      checkBuiltinArgs builtin.params.tail rest
      pure first
  return builtin.result.answer first

end Rule
end StaticCheck
