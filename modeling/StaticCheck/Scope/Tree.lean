import StaticCheck.Types.Basic

/-!
# Scopes and symbols

The tree of lexical scopes of a program and the symbols declared in them.
Scopes and symbols are numbered in the order in which they are made; a scope is
made after its parent, so numbers fall on the way up and every walk to the root
ends.
-/

namespace StaticCheck

inductive ScopeKind
  | global
  | module
  | struct
  | enum
  | errorSet
  | function
  | block
  | loop
  | handler
  deriving DecidableEq, Repr, Inhabited

/-- Scopes whose variables exist only once their declaration has been
checked. -/
def ScopeKind.isLocal : ScopeKind → Bool
  | function | block | loop | handler => true
  | _ => false

inductive SymbolKind
  | var
  | parameter
  | function
  | structField
  | enumVariant
  | definition
  | error
  | use
  deriving DecidableEq, Repr, Inhabited

structure ParamInfo where
  name : String
  ty : Ty
  hasDefault : Bool

/-- What a declaration says about its symbol beyond name and kind. -/
structure SymbolInfo where
  /-- Parameters of a function, without the receiver of a method. -/
  params : List ParamInfo := []
  result : Option Ty := none
  error : Option ErrorClause := none
  /-- Scope of the members of a type, of the body of a function, or of the
  module of an import. -/
  scope : Option ScopeId := none
  ascribed : Option Ty := none
  initializer : Option Expr := none
  /-- The type that an alias stands for, as written. -/
  aliased : Option Ty := none
  denotesType : Bool := false
  isMethod : Bool := false
  module : Option String := none
  deriving Inhabited

namespace SymbolInfo

def defaultPositions (info : SymbolInfo) : List Nat :=
  (info.params.zipIdx.filter (·.1.hasDefault)).map (·.2)

/-- Number of arguments a call has to give: those before the first default. -/
def requiredParams (info : SymbolInfo) : Nat :=
  (info.params.findIdx? (·.hasDefault)).getD info.params.length

def errorMode (info : SymbolInfo) : Option ErrorMode :=
  info.error.map ErrorClause.mode

def ownErrors (info : SymbolInfo) : List String :=
  (info.error.map ErrorClause.ownErrors).getD []

end SymbolInfo

structure Symbol where
  id : SymbolId := ⟨0⟩
  name : String
  kind : SymbolKind
  ty : Option Ty := none
  visibility : Visibility := .priv
  mutable : Bool := false
  info : SymbolInfo := {}
  scope : ScopeId := ⟨0⟩
  span : Span
  declared : Bool := false
  initialized : Bool := false
  used : Bool := false
  checked : Bool := false
  deriving Inhabited

namespace Symbol

def isStatic (symbol : Symbol) : Bool := symbol.visibility == .static

def isPublic (symbol : Symbol) : Bool := symbol.visibility == .pub

def isTypeName (symbol : Symbol) : Bool :=
  symbol.kind == .definition && symbol.info.denotesType

def innerScope (symbol : Symbol) : ScopeId :=
  symbol.info.scope.getD symbol.scope

end Symbol

structure Scope where
  id : ScopeId
  kind : ScopeKind
  name : String
  parent : Option ScopeId
  children : List ScopeId := []
  /-- Modules whose public symbols are visible here, in the order of the
  imports. -/
  imports : List ScopeId := []
  names : List (String × SymbolId) := []
  symbols : List SymbolId := []
  deriving Inhabited

def Scope.get? (scope : Scope) (name : String) : Option SymbolId :=
  scope.names.lookup name

structure ScopeTree where
  scopes : Array Scope
  symbols : Array Symbol
  current : ScopeId
  /-- Scopes opened by nodes; the latest binding of a node comes first. -/
  nodes : List (NodeId × ScopeId)
  /-- Scopes of modules by name; the latest module of a name comes first. -/
  modules : List (String × ScopeId)
  deriving Inhabited

namespace ScopeTree

def global : ScopeId := ⟨0⟩

def empty : ScopeTree where
  scopes := #[⟨global, .global, "<global>", none, [], [], [], []⟩]
  symbols := #[]
  current := global
  nodes := []
  modules := []

/-- The scope of the given number.  A number that was never given out stands for
a nameless scope.
-/
def scope (tree : ScopeTree) (id : ScopeId) : Scope :=
  (tree.scopes[id.index]?).getD ⟨id, .block, "", none, [], [], [], []⟩

/-- The symbol of the given number.  A number that was never given out stands
for a nameless one. -/
def symbol (tree : ScopeTree) (id : SymbolId) : Symbol :=
  (tree.symbols[id.index]?).getD { id, name := "", kind := .var, span := .none }

def parent? (tree : ScopeTree) (id : ScopeId) : Option ScopeId :=
  (tree.scope id).parent

def updateScope (tree : ScopeTree) (id : ScopeId) (f : Scope → Scope) :
    ScopeTree :=
  { tree with scopes := tree.scopes.setIfInBounds id.index (f (tree.scope id)) }

def updateSymbol (tree : ScopeTree) (id : SymbolId) (f : Symbol → Symbol) :
    ScopeTree :=
  { tree with
    symbols := tree.symbols.setIfInBounds id.index (f (tree.symbol id)) }

def createScope (tree : ScopeTree) (kind : ScopeKind) (name : String)
    (parent : Option ScopeId) : ScopeId × ScopeTree :=
  let id : ScopeId := ⟨tree.scopes.size⟩
  let grown :=
    { tree with
      scopes := tree.scopes.push ⟨id, kind, name, parent, [], [], [], []⟩ }
  match parent with
  | none => (id, grown)
  | some parent =>
    (id, grown.updateScope parent fun scope =>
      { scope with children := scope.children ++ [id] })

def addImport (tree : ScopeTree) (id target : ScopeId) : ScopeTree :=
  tree.updateScope id fun scope =>
    { scope with imports := scope.imports ++ [target] }

def registerModule (tree : ScopeTree) (name : String) (id : ScopeId) :
    ScopeTree :=
  { tree with modules := (name, id) :: tree.modules }

def moduleScope? (tree : ScopeTree) (name : String) : Option ScopeId :=
  tree.modules.lookup name

def bindNode (tree : ScopeTree) (node : NodeId) (id : ScopeId) : ScopeTree :=
  { tree with nodes := (node, id) :: tree.nodes }

def nodeScope? (tree : ScopeTree) (node : NodeId) : Option ScopeId :=
  tree.nodes.lookup node

def enter (tree : ScopeTree) (id : ScopeId) : ScopeTree :=
  { tree with current := id }

/-- Declares a symbol.  A name taken in the scope is refused with the symbol
that has it. -/
def insertSymbol (tree : ScopeTree) (id : ScopeId) (symbol : Symbol) :
    Except SymbolId (SymbolId × ScopeTree) :=
  match (tree.scope id).get? symbol.name with
  | some existing => .error existing
  | none =>
    let symbolId : SymbolId := ⟨tree.symbols.size⟩
    let entered := tree.updateScope id fun scope =>
      { scope with
        names := scope.names ++ [(symbol.name, symbolId)]
        symbols := scope.symbols ++ [symbolId] }
    .ok (symbolId,
      { entered with
        symbols :=
          entered.symbols.push { symbol with id := symbolId, scope := id } })

end ScopeTree
end StaticCheck
