import StaticCheck.Rules.Statement
import StaticCheck.Rules.SymbolType

/-!
# Function declarations

The signature is resolved in the scope of the function; the body is checked
under a frame of its own. A function that promises a value has to hold a return,
or a throw if it can throw.
-/

namespace StaticCheck
namespace Rule

def typeParam (body : ScopeId) (param : Slot) : Rule Unit := do
  let some ty ← resolveType param.ty param.span | return ()
  if let some id ← lookupLocal body param.name then setTypeIfNone id (some ty)
  forEach (checkInitializer ty) param.default.toList

def checkParam (body : ScopeId) (isMethod : Bool) (param : Slot) :
    Rule Unit := do
  if param.visibility != .priv then
    report (.invalidParameterVisibility param.name) param.span
  if !(isMethod && param.name == selfName) then typeParam body param

def resultType (func : FuncDecl) : Rule (Option Ty) :=
  match func.result with
  | some ty => resolveType ty func.span
  | none => return some .void

/-- The type of what a function throws.  A named error clause has to name an
error set. -/
def errorType (func : FuncDecl) : Rule (Option Ty) := do
  let some clause := func.error | return none
  let some ty ← resolveType clause.toTy func.span | return none
  match clause, ty with
  | .named _, .errors _ => return some ty
  | .named _, _ =>
    reportMismatch "error set" ty.text func.span
    return none
  | _, _ => return some ty

def openFrame (func : FuncDecl) (body : ScopeId) (owner : Option ScopeId) :
    Rule Frame := do
  forEach (checkParam body owner.isSome) func.params
  let result ← resultType func
  let errorType ← errorType func
  return {
    name := func.name
    result
    errorType
    errorMode := func.error.map (·.mode)
    ownErrors := (func.error.map (·.ownErrors)).getD []
    isStatic := func.visibility == .static
    owner }

def declareFunction (name : String) : Rule Unit := do
  let some id ← lookupLocal (← tree).current name | return ()
  discard (functionType id)
  updateSymbol id fun symbol => { symbol with checked := true }

end Rule

def Frame.returnsValue (frame : Frame) : Bool :=
  frame.result.any fun ty => !ty.isVoid && !ty.isNoreturn

def Frame.exits (frame : Frame) : Bool :=
  frame.hasReturn || (frame.errorMode.isSome && frame.hasThrow)

namespace Rule

def checkBody (func : FuncDecl) (owner : Option ScopeId) (body : ScopeId) :
    Rule (Except Finding Unit) := do
  let frame ← withScope body (openFrame func body owner)
  let (finished, _) ← withFrame frame
    (withScope body (checkStatements func.body.body))
  let some finished := finished
    | return .error (.fault "function frame lost" func.span)
  if finished.returnsValue && !finished.exits then
    report (.missingReturnStatement func.name) func.span
  return .ok ()

def checkFunction (func : FuncDecl) (owner : Option ScopeId) :
    Rule (Except Finding Unit) := do
  let some body := (← tree).nodeScope? func.id
    | return .error
        (.fault ("function `" ++ func.name ++ "` has no scope") func.span)
  declareFunction func.name
  checkBody func owner body

end Rule
end StaticCheck
