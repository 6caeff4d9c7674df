import StaticCheck.Rules.Call

/-!
# Members and elements

Access to the members of modules, types and values, calls through such an
access, and indexing.  Static members are reached through their type and all
others through a value; a private member is visible only inside its type.
-/

namespace StaticCheck

def lengthName : String := "len"

def Ty.memberScope? : Ty → Option ScopeId
  | .struct s => s.scope
  | .enum e => e.scope
  | _ => none

def Ty.variant? (ty : Ty) (name : String) : Option (EnumTy × Variant) :=
  match ty with
  | .enum e => (e.variant? name).map fun variant => (e, variant)
  | _ => none

namespace Rule

def namedSymbol? (expr : Expr) : Rule (Option SymbolId) := do
  let some name := expr.identName? | return none
  lookup name

def moduleSymbol? (expr : Expr) : Rule (Option SymbolId) := do
  let some id ← namedSymbol? expr | return none
  return if (← symbol id).kind == .use then some id else none

def typeSymbol? (expr : Expr) : Rule (Option SymbolId) := do
  let some id ← namedSymbol? expr | return none
  return if (← symbol id).isTypeName then some id else none

/-- A member reached through its type: it has to exist and to be static. -/
def staticMember (scope : ScopeId) (typeName name : String) (span : Span) :
    Rule (Option SymbolId) := do
  let some id ← lookupLocal scope name
    | do
      report (.symbolNotFound (typeName ++ "." ++ name)) span
      return none
  if !(← symbol id).isStatic then
    report
      (.invalidStaticAccess name
        ("instance member accessed through `" ++ typeName ++ "`")) span
    return none
  return some id

/-- Whether a member may be reached through a value: it must not be static, nor
private outside of its type. -/
def instanceAccess (id : SymbolId) (scope : ScopeId) (name : String)
    (span : Span) : Rule Bool := do
  match (← symbol id).visibility with
  | .static =>
    report
      (.invalidStaticAccess name "static member accessed through an instance")
      span
    return false
  | .priv =>
    let tree ← tree
    if tree.isWithin tree.current scope then return true
    report (.symbolNotAccessible name) span
    return false
  | .pub => return true

def memberNotFound (ty : Ty) (name : String) (span : Span) :
    Rule (Option Ty) := do
  report (.symbolNotFound (ty.text ++ "." ++ name)) span
  return none

def errorNotFound (set name : String) (span : Span) : Rule (Option Ty) := do
  report (.errorMemberNotFound set name) span
  return none

def moduleMember (module : SymbolId) (name : String) (span : Span) :
    Rule (Option Ty) := do
  let symbol ← symbol module
  let moduleName := symbol.info.module.getD symbol.name
  let some scope := symbol.info.scope
    | do
      report (.moduleNotFound moduleName) span
      return none
  let some id ← lookupLocal scope name
    | do
      report (.symbolNotFound name) span
      return none
  if !(← Rule.symbol id).isPublic then
    report (.symbolNotExported name moduleName) span
    return none
  valueOfSymbol id

def typeMember (type : SymbolId) (base : Expr) (name : String) (span : Span) :
    Rule (Option Ty) := do
  let typeName := (← symbol type).name
  let some ty ← resolveType (.named typeName) base.span | return none
  if (ty.variant? name).isSome then return some ty
  match ty with
  | .errors names =>
    if names.contains name then return some ty
      else errorNotFound typeName name span
  | _ =>
    match ty.memberScope? with
    | some scope =>
      let some id ← staticMember scope typeName name span | return none
      valueOfSymbol id
    | none => memberNotFound ty name span

def structMember (struct : StructTy) (name : String) (span : Span) :
    Rule (Option Ty) := do
  match struct.scope with
  | none =>
    match struct.member? name with
    | some member => resolveMember struct member
    | none => memberNotFound (.struct struct) name span
  | some scope =>
    let some id ← lookupLocal scope name
      | memberNotFound (.struct struct) name span
    if ← instanceAccess id scope name span then valueOfSymbol id
      else return none

def enumMember (enum : EnumTy) (scope : ScopeId) (name : String) (span : Span) :
    Rule (Option Ty) := do
  let some id ← lookupLocal scope name | memberNotFound (.enum enum) name span
  if (← symbol id).kind != .function then
    return ← memberNotFound (.enum enum) name span
  if ← instanceAccess id scope name span then valueOfSymbol id else return none

/-- The type under any number of optionals, in normal form, and that number. -/
def peelOptionals (ty : Ty) : Rule (Nat × Ty) := do
  match ← normalize ty with
  | .optional inner =>
    let (depth, ty) ← askPeeled inner
    return (depth + 1, ty)
  | ty => return (0, ty)

/-- A member of a value of the given type, optionals and one pointer being
looked through. -/
def plainMember (ty : Ty) (name : String) (span : Span) : Rule (Option Ty) := do
  match ty with
  | .array .. | .tuple _ =>
    if name == lengthName then return some .usize
      else memberNotFound ty name span
  | .struct struct => structMember struct name span
  | .enum enum =>
    match enum.scope with
    | some scope => enumMember enum scope name span
    | none => memberNotFound ty name span
  | .errors names =>
    if names.contains name then return some ty
      else errorNotFound ty.text name span
  | _ => memberNotFound ty name span

/-- A member of a value.  A member of an optional is optional, however many
optionals there were. -/
def valueMember (base : Ty) (name : String) (span : Span) :
    Rule (Option Ty) := do
  let (depth, ty) ← peelOptionals base
  let ty ← derefOnce ty
  let some result ← plainMember ty name span | return none
  return some (if 0 < depth then .optional result else result)

def inferMember (base : Expr) (name : String) (span : Span) :
    Rule (Option Ty) := do
  if let some module ← moduleSymbol? base then
    return ← moduleMember module name span
  if let some type ← typeSymbol? base then
    return ← typeMember type base name span
  let some ty ← askType base | return none
  valueMember ty name span

/-!
## Calls
-/

def callTypeMember (type : SymbolId) (base : Expr) (name : String)
    (args : List Expr) (span : Span) : Rule (Option Ty) := do
  let typeName := (← symbol type).name
  let some ty ← resolveType (.named typeName) base.span | return none
  match ty.variant? name with
  | some (enum, variant) => callVariant enum variant args span
  | none =>
    match ty.memberScope? with
    | some scope =>
      let some id ← staticMember scope typeName name span | return none
      if (← symbol id).kind == .function then callFunction id args span
      else
        let some ty ← symbolType id | return none
        notCallable ty span
    | none => notCallable ty span

/-- The method that a member of a value of the given type is, with the scope
that declares it. -/
def method? (ty : Ty) (name : String) : Rule (Option (SymbolId × ScopeId)) := do
  let some scope := (← derefOnce ty).memberScope? | return none
  let some id ← lookupLocal scope name | return none
  return if (← symbol id).kind == .function then some (id, scope) else none

/-- A call of a member.  There is no answer if the member is called as a plain
value. -/
def callMember? (base : Expr) (name : String) (args : List Expr) (span : Span) :
    Rule (Option (Option Ty)) := do
  if let some type ← typeSymbol? base then
    return some (← callTypeMember type base name args span)
  if (← moduleSymbol? base).isSome then return none
  let some ty ← askType base | return some none
  let some (id, scope) ← method? ty name | return none
  if ← instanceAccess id scope name span then
    return some (← callFunction id args span)
  else return some none

def calleeSymbol? (callee : Expr) : Rule (Option SymbolId) := do
  let found ←
    match callee.kind with
    | .ident name => lookup name
    | .member base name => do
      let some module ← moduleSymbol? base | return none
      let some scope := (← symbol module).info.scope | return none
      lookupLocal scope name
    | _ => pure none
  let some id := found | return none
  return if (← symbol id).kind == .function then some id else none

def callValue (callee : Expr) (args : List Expr) (calleeSpan span : Span) :
    Rule (Option Ty) := do
  let some ty ← askType callee | return none
  match ← derefOnce ty with
  | .function params result _ =>
    let required ←
      match ← calleeSymbol? callee with
      | some id => do pure (← symbol id).info.requiredParams
      | none => pure params.length
    checkArgs params required args span
    return some result
  | other => notCallable other calleeSpan

def inferCall (callee : Expr) (args : List Expr) (span : Span) :
    Rule (Option Ty) := do
  let plain := callee.unparen
  match plain.kind with
  | .ident name =>
    if Builtin.isName name then callBuiltin name callee args span
    else callValue plain args callee.span span
  | .member base name =>
    match ← callMember? base name args span with
    | some answer => return answer
    | none => callValue plain args callee.span span
  | _ => callValue plain args callee.span span

/-!
## Indexing
-/

def tupleField (fields : List Ty) (known : Option Int) (index : Expr) :
    Rule (Option Ty) := do
  let position? ←
    match known with
    | some position => pure (some position)
    | none => constInt index
  let some position := position?
    | do
      report (.cannotInferType "tuple element at a runtime index") index.span
      return none
  let field :=
    if 0 ≤ position ∧ position < pow2 64 then fields[position.toNat]? else none
  if field.isNone then
    report (.indexOutOfBounds position fields.length) index.span
  return field

/-- Reports an index of known value outside of an array of known length.  The
value is compared as a number of 64 bits. -/
def checkBounds (array : Ty) (known : Option Int) (span : Span) :
    Rule Unit := do
  let some position := known | return ()
  let some length := array.length? | return ()
  if position < 0 ∨ length ≤ position.toNat % pow2 64 then
    report (.indexOutOfBounds position length) span

/-- An element of an array or tuple.  A range as index gives a part of the same
type. -/
def inferIndex (base index : Expr) : Rule (Option Ty) := do
  let some baseTy ← askType base | return none
  let baseTy ← normalize baseTy
  if index.isRange then
    discard (askType index)
    return some baseTy
  let some indexTy ← inferExpecting index (some .usize) | return none
  let indexTy ← normalize indexTy
  if !indexTy.isInteger then
    reportMismatch "integer" indexTy.text index.span
    return none
  let known := indexTy.knownInt?
  match ← derefOnce baseTy with
  | .tuple fields => tupleField fields known index
  | .array element extent mutable =>
    checkBounds (.array element extent mutable) known index.span
    return some element
  | other =>
    reportMismatch "array or tuple" other.text base.span
    return none

end Rule
end StaticCheck
