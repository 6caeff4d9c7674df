import StaticCheck.Rules.Flow
import StaticCheck.Rules.SymbolType

/-!
# Object literals

A named literal constructs the struct of that name.  An anonymous one takes the
struct that is expected, or the first member of an expected union that its shape
fits; otherwise it has a struct type of its own.
-/

namespace StaticCheck

def Symbol.isRequiredField (symbol : Symbol) : Bool :=
  symbol.kind == .structField && !symbol.isStatic &&
    symbol.info.initializer.isNone

namespace Rule

variable {α : Type}

def checkFieldValue (expected : Ty) (field : ObjectField) : Rule Bool := do
  let some received ← inferExpecting field.value (some expected) | return false
  checkFlow expected received field.value field.span

def settableField? (struct : StructTy) (scope : ScopeId) (field : ObjectField) :
    Rule (Option SymbolId) := do
  let qualified := struct.name ++ "." ++ field.name
  let tree ← tree
  let found := (tree.lookupLocal scope field.name).filter fun id =>
    (tree.symbol id).kind == .structField
  match found with
  | none =>
    report (.symbolNotFound qualified) field.span
    return none
  | some id =>
    match (tree.symbol id).visibility with
    | .static =>
      report
        (.invalidStaticAccess qualified
          "static fields cannot be set by a constructor")
        field.span
      return none
    | .priv =>
      if tree.isWithin tree.current scope then return some id
      report (.symbolNotAccessible qualified) field.span
      return none
    | .pub => return some id

def checkGivenField (struct : StructTy) (scope : ScopeId)
    (field : ObjectField) : Rule Bool := do
  let some id ← settableField? struct scope field | return false
  let some expected ← symbolType id | return false
  checkFieldValue expected field

def checkGivenMember (struct : StructTy) (field : ObjectField) : Rule Bool := do
  let some member := struct.member? field.name
    | do
      report (.symbolNotFound field.name) field.span
      return false
  let some expected ← resolveMember struct member | return false
  checkFieldValue expected field

/-- Whether a rule accepts every member of a list.  Unlike `allOf` it looks at
all of them. -/
def everyOf (rule : α → Rule Bool) : List α → Rule Bool
  | [] => return true
  | a :: rest => do
    let first ← rule a
    let others ← everyOf rule rest
    return first && others

def checkGiven (struct : StructTy) (fields : List ObjectField) (span : Span)
    (name : String) : Rule Bool := do
  if fields.any (·.name == name) then return true
  report (.missingStructField struct.name name) span
  return false

def requiredFields (scope : ScopeId) : Rule (List String) := do
  let tree ← tree
  let symbols := (tree.scope scope).symbols.map tree.symbol
  return (symbols.filter Symbol.isRequiredField).map (·.name)

/-- Checks the fields of a literal that constructs `struct`: each exists, may be
given from here and has a value of its type, and none that has to be given is
missing. -/
def checkConstruction (struct : StructTy) (fields : List ObjectField)
    (span : Span) : Rule Bool := do
  match struct.scope with
  | some scope =>
    let given ← everyOf (checkGivenField struct scope) fields
    let complete ← everyOf (checkGiven struct fields span)
      (← requiredFields scope)
    return given && complete
  | none =>
    let given ← everyOf (checkGivenMember struct) fields
    let complete ← everyOf (checkGiven struct fields span)
      (struct.members.map (·.name))
    return given && complete

/-!
## Shapes
-/

structure ShapeField where
  name : String
  ty : Option Ty
  optional : Bool

/-- The field that a symbol of a declared struct is, unless it is something else
or static. -/
def shapeField? (id : SymbolId) : Rule (Option ShapeField) := do
  let symbol ← symbol id
  if symbol.kind != .structField || symbol.isStatic then return none
  return some ⟨symbol.name, ← symbolType id, symbol.info.initializer.isSome⟩

def shapeMember (struct : StructTy) (member : Member) : Rule ShapeField :=
  return ⟨member.name, ← resolveMember struct member, false⟩

def shapeFields (struct : StructTy) : Rule (List ShapeField) := do
  match struct.scope with
  | some scope =>
    return (← mapEach shapeField? ((← tree).scope scope).symbols).filterMap id
  | none => mapEach (shapeMember struct) struct.members

def fitsField (given : List ObjectField) (field : ShapeField) : Rule Bool := do
  match given.find? (·.name == field.name) with
  | none => return field.optional
  | some provided =>
    let some expected := field.ty | return false
    let some received ← inferExpecting provided.value (some expected)
      | return false
    isCompatible expected received (some provided.value)

def fitsShape (struct : StructTy) (given : List ObjectField) : Rule Bool := do
  let fields ← shapeFields struct
  if given.any fun provided => !fields.any (·.name == provided.name) then
    return false
  allOf (fitsField given) fields

/-- The first struct among the candidates whose shape the literal fits.
Candidates are tried in silence; the chosen one is then checked in earnest. -/
def matchCandidate (fields : List ObjectField) (span : Span) :
    List Ty → Rule (Option Ty)
  | [] => return none
  | candidate :: rest => do
    match ← normalize candidate with
    | .struct struct =>
      let (fits, failed) ← speculate (fitsShape struct fields)
      if fits && !failed then
        discard (checkConstruction struct fields span)
        return some (.struct struct)
      else matchCandidate fields span rest
    | _ => matchCandidate fields span rest

/-!
## Inference
-/

/-- Reports the fields that are given more than once, and tells whether there
are none. -/
def checkUnique : List String → List ObjectField → Rule Bool
  | _, [] => return true
  | seen, field :: rest => do
    if seen.contains field.name then
      report (.duplicateSymbol field.name) field.span
      discard (checkUnique seen rest)
      return false
    else checkUnique (field.name :: seen) rest

def constructNamed (name : String) (fields : List ObjectField) (span : Span) :
    Rule (Option Ty) := do
  let some ty ← resolveType (.named name) span | return none
  match ty with
  | .struct struct =>
    if let some expected ← expected? then
      if let .struct expected ← normalize expected then
        if expected.scope.isSome && expected.scope != struct.scope then
          reportMismatch expected.name name span
          return none
    discard (checkConstruction struct fields span)
    return some (.struct struct)
  | other =>
    reportMismatch "struct" other.text span
    return none

/-- The struct type that an anonymous literal takes from the type that is
expected. -/
def adoptExpected (fields : List ObjectField) (span : Span) :
    Rule (Option Ty) := do
  let some expected ← expected? | return none
  match ← normalize expected with
  | .struct struct =>
    if struct.scope.isSome then
      discard (checkConstruction struct fields span)
      return some (.struct struct)
    else return none
  | .union members => matchCandidate fields span members
  | .optional inner => matchCandidate fields span [inner]
  | _ => return none

def synthesizeMember (field : ObjectField) : Rule (Option Member) := do
  let some ty ← inferExpecting field.value none | return none
  return some ⟨field.name, ty⟩

def synthesize (fields : List ObjectField) : Rule (Option Ty) := do
  let some members ← mapSome synthesizeMember fields | return none
  return some (.struct ⟨anonymousName, members, none⟩)

def inferObject (name : Option String) (fields : List ObjectField)
    (span : Span) : Rule (Option Ty) := do
  if !(← checkUnique [] fields) then return none
  match name with
  | some name => constructNamed name fields span
  | none =>
    match ← adoptExpected fields span with
    | some ty => return some ty
    | none => synthesize fields

end Rule
end StaticCheck
