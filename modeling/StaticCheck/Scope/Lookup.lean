import StaticCheck.Scope.Tree

/-!
# Looking up names

A name is looked up from a scope outward.  Each scope offers its own symbol
first and then the public symbols of the modules it imports; a local variable is
not offered before it is declared, so an outer symbol of the same name stays
visible until then.
-/

namespace StaticCheck
namespace ScopeTree

/-- The scopes met on at most `steps` steps outward. -/
def climb (tree : ScopeTree) : Nat → ScopeId → List ScopeId
  | 0, _ => []
  | steps + 1, id =>
    match tree.parent? id with
    | none => [id]
    | some parent => id :: tree.climb steps parent

/-- The scope and those around it, innermost first.  Numbers fall on the way
out, which bounds the number of steps. -/
def chain (tree : ScopeTree) (id : ScopeId) : List ScopeId :=
  tree.climb (id.index + 1) id

def isPending (tree : ScopeTree) (scope : Scope) (id : SymbolId) : Bool :=
  scope.kind.isLocal && (tree.symbol id).kind == .var &&
    !(tree.symbol id).declared

def ownOffer? (tree : ScopeTree) (scope : Scope) (name : String) :
    Option SymbolId :=
  (scope.get? name).filter fun id => !tree.isPending scope id

def importOffer? (tree : ScopeTree) (name : String) (target : ScopeId) :
    Option SymbolId :=
  ((tree.scope target).get? name).filter fun id => (tree.symbol id).isPublic

def offer? (tree : ScopeTree) (name : String) (id : ScopeId) :
    Option SymbolId :=
  let scope := tree.scope id
  (tree.ownOffer? scope name).or
    (scope.imports.findSome? (tree.importOffer? name))

def lookupFrom (tree : ScopeTree) (id : ScopeId) (name : String) :
    Option SymbolId :=
  (tree.chain id).findSome? (tree.offer? name)

def lookup (tree : ScopeTree) (name : String) : Option SymbolId :=
  tree.lookupFrom tree.current name

def lookupLocal (tree : ScopeTree) (id : ScopeId) (name : String) :
    Option SymbolId :=
  (tree.scope id).get? name

def loopVariable? (tree : ScopeTree) (binding : String) (body : NodeId) :
    Option SymbolId :=
  (tree.nodeScope? body).bind fun scope => tree.lookupLocal scope binding

def childNamed? (tree : ScopeTree) (parent : ScopeId) (name : String)
    (kind : ScopeKind) : Option ScopeId :=
  (tree.scope parent).children.find? fun child =>
    (tree.scope child).kind == kind && (tree.scope child).name == name

def scopeNamed? (tree : ScopeTree) (name : String) (kind : ScopeKind) :
    Option ScopeId :=
  (tree.scopes.toList.find? fun scope => scope.kind == kind && scope.name ==
    name).map (·.id)

def isWithin (tree : ScopeTree) (id ancestor : ScopeId) : Bool :=
  (tree.chain id).contains ancestor

def enclosing? (tree : ScopeTree) (id : ScopeId) (kind : ScopeKind) :
    Option ScopeId :=
  (tree.chain id).find? fun outer => (tree.scope outer).kind == kind

end ScopeTree
end StaticCheck
