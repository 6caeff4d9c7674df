import StaticCheck.Rules.TypeDecl

/-!
# Bindings, definitions and imports
-/

namespace StaticCheck
namespace Rule

def declaredSymbol (name : String) (span : Span) :
    Rule (Except Finding SymbolId) := do
  match ← lookupLocal (← tree).current name with
  | some id => return .ok id
  | none => return .error (.fault ("`" ++ name ++ "` was never collected") span)

/-- Reports a variant with a payload that is used as a value: it names a
constructor. -/
def checkBareVariant (value : Expr) : Rule Unit := do
  match value.unparen.kind with
  | .member base name =>
    let some (.enum enum) ← exprAsType base | return ()
    let some payload := (enum.variant? name).bind (·.payload) | return ()
    reportMismatch (name ++ "(" ++ payload.text ++ ")") enum.name value.span
  | _ => return ()

def annotatedType (written : Ty) (value : Option Expr) (span : Span) :
    Rule (Option Ty) := do
  let some target ← resolveType written span | return none
  forEach (checkInitializer target) value.toList
  return some target

/-- The type of a binding.  A mutable one without annotation takes a type that
can be stored. -/
def bindingType (decl : LetDecl) (span : Span) : Rule (Option Ty) := do
  match decl.ty, decl.value with
  | some written, value => annotatedType written value span
  | none, some value =>
    let ty ← inferExpecting value none
    return if decl.mutable then ty.map Ty.concretize else ty
  | none, none =>
    report (.cannotInferType ("`" ++ decl.name ++ "` without a type or value"))
      span
    return none

def checkLet (decl : LetDecl) (span : Span) : Rule (Except Finding Unit) := do
  match ← declaredSymbol decl.name span with
  | .error finding => return .error finding
  | .ok id =>
    let ty ← withDeclaration decl.name do
      forEach checkBareVariant decl.value.toList
      bindingType decl span
    updateSymbol id fun symbol =>
      { symbol with
        declared := true
        initialized := symbol.initialized || decl.value.isSome
        checked := true
        ty := symbol.ty.or ty }
    return .ok ()

def checkAlias (id : SymbolId) (name : String) (ty : Ty) (span : Span) :
    Rule Unit := do
  if ← containsType id ty then report (.circularTypeDependency name) span
  else discard (resolveType (.named name) span)

def checkConstant (id : SymbolId) (decl : DefDecl) (span : Span) :
    Rule Unit := do
  checkBareVariant decl.value
  let ty ←
    match decl.ty with
    | some written => annotatedType written (some decl.value) span
    | none => inferExpecting decl.value none
  setTypeIfNone id ty

/-- Checks what a definition stands for: an error set, a type or a constant. -/
def checkDefined (id : SymbolId) (decl : DefDecl) (span : Span) : Rule Unit :=
  match decl.value.kind with
  | .type (.errors _) => return ()
  | .type ty => checkAlias id decl.name ty span
  | _ => checkConstant id decl span

def checkDef (decl : DefDecl) (span : Span) : Rule (Except Finding Unit) := do
  match ← declaredSymbol decl.name span with
  | .error finding => return .error finding
  | .ok id =>
    withDeclaration decl.name (checkDefined id decl span)
    updateSymbol id fun symbol =>
      { symbol with declared := true, checked := true }
    return .ok ()

def checkUse (decl : UseDecl) (span : Span) : Rule Unit := do
  if ((← tree).moduleScope? decl.module).isNone then
    report (.moduleNotFound decl.module) span

end Rule
end StaticCheck
