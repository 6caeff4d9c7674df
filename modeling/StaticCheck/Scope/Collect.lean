import StaticCheck.Report.Diagnostics
import StaticCheck.Scope.Tree

/-!
# Collecting declarations

One walk over a program makes its scope tree: a scope for every module, type,
function, block, loop and catch handler, and a symbol for every declaration.  A
name declared twice in one scope is reported and the first declaration kept.
All modules have their scope before any body is walked, so an import may name a
module that comes later.  Defaults of parameters and fields and the patterns of
a match are not walked.
-/

namespace StaticCheck

def selfName : String := "self"

def selfErrName : String := "selferr"

structure Collection where
  tree : ScopeTree := .empty
  diagnostics : Diagnostics := {}
  deriving Inhabited

abbrev Collect := StateM Collection

namespace Collect

def createScope (kind : ScopeKind) (name : String) (parent : ScopeId) :
    Collect ScopeId :=
  modifyGet fun c =>
    let made := c.tree.createScope kind name (some parent)
    (made.1, { c with tree := made.2 })

def modifyTree (f : ScopeTree → ScopeTree) : Collect Unit :=
  modify fun c => { c with tree := f c.tree }

def bindNode (node : NodeId) (scope : ScopeId) : Collect Unit :=
  modifyTree fun tree => tree.bindNode node scope

def declare (scope : ScopeId) (symbol : Symbol) : Collect Unit :=
  modify fun c =>
    match c.tree.insertSymbol scope symbol with
    | .ok (_, tree) => { c with tree }
    | .error _ =>
      { c with
        diagnostics :=
          c.diagnostics.error (.duplicateSymbol symbol.name) symbol.span }

def declareAll (scope : ScopeId) (symbols : List Symbol) : Collect Unit :=
  symbols.forM (declare scope)

end Collect

open Collect

namespace Symbol

/-- A symbol that is visible and has a value as soon as its scope is entered. -/
def ready (name : String) (kind : SymbolKind) (span : Span) : Symbol :=
  { name, kind, span, declared := true, initialized := true }

def ofLet (decl : LetDecl) (span : Span) : Symbol :=
  { name := decl.name, kind := .var, span,
    visibility := decl.visibility, mutable := decl.mutable,
      initialized := decl.value.isSome,
    info := { ascribed := decl.ty, initializer := decl.value } }

def ofDef (decl : DefDecl) (span : Span) : Symbol :=
  { name := decl.name, kind := .definition, span,
    visibility := decl.visibility, initialized := true,
      info := { ascribed := decl.ty } }

def ofErrorMember (names : List String) (span : Span) (name : String) :
    Symbol :=
  { ready name .error span with visibility := .pub, ty := some (.errors names) }

def ofUse (decl : UseDecl) (target : Option ScopeId) (span : Span) : Symbol :=
  { ready decl.localName .use span with
    info := { scope := target, module := some decl.module } }

def paramInfos (params : List Slot) (isMethod : Bool) : List ParamInfo :=
  (params.filter fun param => !(isMethod && param.name == selfName)).map
    fun param =>
    ⟨param.name, param.ty, param.default.isSome⟩

def ofFunc (decl : FuncDecl) (body : ScopeId) (isMethod : Bool) : Symbol :=
  { ready decl.name .function decl.span with
    visibility := decl.visibility
    info :=
      { params := paramInfos decl.params isMethod, result := decl.result,
        error := decl.error, scope := some body, isMethod } }

def ofReceiver (owner : Ty) (span : Span) : Symbol :=
  { ready selfName .parameter span with ty := some owner, mutable := true }

def ofSelfErr (names : List String) (span : Span) : Symbol :=
  { ready selfErrName .error span with ty := some (.errors names) }

def ofParam (owner : Option Ty) (param : Slot) : Symbol :=
  { ready param.name .parameter param.span with
    visibility := param.visibility, mutable := param.mutable,
    ty := if param.name == selfName then owner else none,
    info := { ascribed := some param.ty, initializer := param.default } }

def ofSignature (decl : FuncDecl) (owner : Option Ty) : List Symbol :=
  let hasReceiver :=
    decl.visibility != .static && !decl.params.any (·.name == selfName)
  let receiver :=
    match owner with
    | some ty => if hasReceiver then [ofReceiver ty decl.span] else []
    | none => []
  let ownErrors :=
    match decl.error with
    | some (.selfGroup names) => [ofSelfErr names decl.span]
    | _ => []
  receiver ++ ownErrors ++ decl.params.map (ofParam owner)

def ofType (name : String) (visibility : Visibility) (ty : Ty)
    (members : ScopeId) (span : Span) : Symbol :=
  { name, kind := .definition, span, visibility, ty := some ty,
    initialized := true,
      info := { denotesType := true, scope := some members } }

def ofField (field : Slot) : Symbol :=
  { name := field.name, kind := .structField, span := field.span,
    visibility := field.visibility, mutable := field.mutable,
    declared := true, initialized := field.default.isSome,
    info := { ascribed := some field.ty, initializer := field.default } }

def ofVariant (ty : Ty) (variant : VariantDecl) : Symbol :=
  { ready variant.name .enumVariant variant.span with
    visibility := .pub, ty := some ty, info := { ascribed := variant.payload } }

def ofForBinding (name : String) (span : Span) : Symbol :=
  ready name .var span

def ofCatchBinding (name : String) (span : Span) : Symbol :=
  { ready name .var span with ty := some .err }

end Symbol

def StructDecl.toTy (decl : StructDecl) (members : ScopeId) : Ty :=
  .struct ⟨decl.name, decl.fields.map fun field => ⟨field.name, field.ty⟩,
    some members⟩

def EnumDecl.toTy (decl : EnumDecl) (members : ScopeId) : Ty :=
  .enum ⟨decl.name, decl.variants.map fun variant =>
    ⟨variant.name, variant.payload⟩, some members⟩

def collectUse (scope : ScopeId) (span : Span) (decl : UseDecl) :
    Collect Unit := do
  let target := (← get).tree.moduleScope? decl.module
  if decl.wildcard then
    if let some module := target then
      modifyTree fun tree => tree.addImport scope module
  declare scope (.ofUse decl target span)

def collectErrorSet (scope : ScopeId) (id : NodeId) (span : Span)
    (decl : DefDecl) (names : List String) : Collect Unit := do
  let members ← createScope .errorSet decl.name scope
  bindNode id members
  declareAll members (names.map (.ofErrorMember names span))
  let symbol := Symbol.ofDef decl span
  declare scope
    { symbol with
      ty := some (.errors names)
      info := { symbol.info with denotesType := true, scope := some members } }

def collectAlias (scope : ScopeId) (span : Span) (decl : DefDecl) (ty : Ty) :
    Collect Unit :=
  let symbol := Symbol.ofDef decl span
  declare scope
    { symbol with
      info := { symbol.info with denotesType := true, aliased := some ty } }

def collectConstant (scope : ScopeId) (span : Span) (decl : DefDecl) :
    Collect Unit :=
  let symbol := Symbol.ofDef decl span
  declare scope
    { symbol with info := { symbol.info with initializer := some decl.value } }

mutual

def collectStmt (scope : ScopeId) : Stmt → Collect Unit
  | ⟨id, span, kind⟩ => collectStmtKind scope id span kind

def collectStmtKind (scope : ScopeId) (id : NodeId) (span : Span) :
    StmtKind → Collect Unit
  | .expr value => collectExpr scope value
  | .block block => collectBlock scope .block block
  | .letDecl ⟨name, visibility, mutable, ty, value⟩ => do
    collectExprOpt scope value
    declare scope (.ofLet ⟨name, visibility, mutable, ty, value⟩ span)
  | .defDecl ⟨name, visibility, ty, ⟨valueId, valueSpan, valueKind⟩⟩ =>
    let decl : DefDecl :=
      ⟨name, visibility, ty, ⟨valueId, valueSpan, valueKind⟩⟩
    match valueKind with
    | .type (.errors names) => collectErrorSet scope id span decl names
    | .type aliased => collectAlias scope span decl aliased
    | kind => do
      collectExprKind scope valueId valueSpan kind
      collectConstant scope span decl
  | .func decl => collectFunc scope none decl
  | .struct ⟨declId, name, visibility, fields, methods, declSpan⟩ => do
    let decl : StructDecl :=
      ⟨declId, name, visibility, fields, methods, declSpan⟩
    let members ← createScope .struct name scope
    bindNode declId members
    let ty := decl.toTy members
    declare scope (.ofType name visibility ty members declSpan)
    declareAll members (fields.map .ofField)
    collectMethods members ty methods
  | .enum ⟨declId, name, visibility, variants, methods, declSpan⟩ => do
    let decl : EnumDecl :=
      ⟨declId, name, visibility, variants, methods, declSpan⟩
    let members ← createScope .enum name scope
    bindNode declId members
    let ty := decl.toTy members
    declare scope (.ofType name visibility ty members declSpan)
    declareAll members (variants.map (.ofVariant ty))
    collectMethods members ty methods
  | .use decl => collectUse scope span decl
  | .returnStmt value => collectExprOpt scope value
  | .throwStmt value => collectExpr scope value
  | .whileLoop condition body => do
    collectExpr scope condition
    collectBlock scope .loop body
  | .forLoop binding iterable ⟨bodyId, body, _⟩ => do
    collectExpr scope iterable
    let inner ← createScope .loop "<for>" scope
    bindNode bodyId inner
    declare inner (.ofForBinding binding span)
    collectStmts inner body
  | .breakStmt | .continueStmt => pure ()

def collectStmts (scope : ScopeId) : List Stmt → Collect Unit
  | [] => pure ()
  | stmt :: rest => do
    collectStmt scope stmt
    collectStmts scope rest

def collectStmtOpt (scope : ScopeId) : Option Stmt → Collect Unit
  | none => pure ()
  | some stmt => collectStmt scope stmt

def collectBlock (scope : ScopeId) (kind : ScopeKind) : Block → Collect Unit
  | ⟨id, body, _⟩ => do
    let inner ← createScope kind "<block>" scope
    bindNode id inner
    collectStmts inner body

/-- Collects a function; `owner` is the type that declares it if it is a
method. -/
def collectFunc (scope : ScopeId) (owner : Option Ty) : FuncDecl → Collect Unit
  | ⟨id, name, visibility, params, result, error,
      ⟨bodyId, body, bodySpan⟩, span⟩ => do
    let decl : FuncDecl :=
      ⟨id, name, visibility, params, result, error,
        ⟨bodyId, body, bodySpan⟩, span⟩
    let inner ← createScope .function name scope
    bindNode id inner
    bindNode bodyId inner
    declare scope (.ofFunc decl inner owner.isSome)
    declareAll inner (Symbol.ofSignature decl owner)
    collectStmts inner body

def collectMethods (scope : ScopeId) (owner : Ty) : List FuncDecl → Collect Unit
  | [] => pure ()
  | method :: rest => do
    collectFunc scope (some owner) method
    collectMethods scope owner rest

def collectExpr (scope : ScopeId) : Expr → Collect Unit
  | ⟨id, span, kind⟩ => collectExprKind scope id span kind

/-- Expressions matter here only for the statements inside them. -/
def collectExprKind (scope : ScopeId) (id : NodeId) (span : Span) :
    ExprKind → Collect Unit
  | .literal (.array elements) => collectExprs scope elements
  | .literal _ | .ident _ | .type _ | .unreachable => pure ()
  | .paren inner => collectExpr scope inner
  | .tuple fields => collectExprs scope fields
  | .object _ fields => collectFields scope fields
  | .binary _ left right => do
    collectExpr scope left
    collectExpr scope right
  | .unary _ operand => collectExpr scope operand
  | .call callee args => do
    collectExpr scope callee
    collectExprs scope args
  | .index base index => do
    collectExpr scope base
    collectExpr scope index
  | .member base _ => collectExpr scope base
  | .increment operand => collectExpr scope operand
  | .decrement operand => collectExpr scope operand
  | .deref operand => collectExpr scope operand
  | .cast operand _ => collectExpr scope operand
  | .typeOf operand => collectExpr scope operand
  | .sizeOf operand => collectExpr scope operand
  | .orElse left right => do
    collectExpr scope left
    collectExpr scope right
  | .range start stop _ => do
    collectExprOpt scope start
    collectExprOpt scope stop
  | .tryExpr operand => collectExpr scope operand
  | .catchExpr operand binding handler => do
    collectExpr scope operand
    let inner ← createScope .handler "<catch>" scope
    bindNode id inner
    declareAll inner
      ((binding.map fun name => Symbol.ofCatchBinding name span).toList)
    collectStmt inner handler
  | .ifExpr condition thenBranch elseBranch => do
    collectExpr scope condition
    collectStmt scope thenBranch
    collectStmtOpt scope elseBranch
  | .matchExpr subject cases default => do
    collectExpr scope subject
    collectCases scope cases
    collectStmtOpt scope default

def collectExprs (scope : ScopeId) : List Expr → Collect Unit
  | [] => pure ()
  | expr :: rest => do
    collectExpr scope expr
    collectExprs scope rest

def collectExprOpt (scope : ScopeId) : Option Expr → Collect Unit
  | none => pure ()
  | some expr => collectExpr scope expr

def collectFields (scope : ScopeId) : List ObjectField → Collect Unit
  | [] => pure ()
  | ⟨_, value, _⟩ :: rest => do
    collectExpr scope value
    collectFields scope rest

def collectCases (scope : ScopeId) : List MatchCase → Collect Unit
  | [] => pure ()
  | ⟨_, body⟩ :: rest => do
    collectStmt scope body
    collectCases scope rest

end

def openModules (modules : List Module) : Collect (List (Module × ScopeId)) :=
  modules.mapM fun module => do
    let scope ← createScope .module module.name ScopeTree.global
    bindNode module.id scope
    modifyTree fun tree => tree.registerModule module.name scope
    pure (module, scope)

def collectProgram (program : Program) : Collect Unit := do
  let opened ← openModules program.modules
  opened.forM fun (module, scope) => collectStmts scope module.body

def Program.collect (program : Program) : Collection :=
  ((collectProgram program).run {}).2

end StaticCheck
