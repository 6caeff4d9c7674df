import StaticCheck.Scope.Lookup

/-!
# Containment by value

Whether a type holds the type of a given definition by value, and so would need
infinite room if it were part of it.  Pointers, optionals, slices and functions
break the containment.  A name on the way is replaced by the member, payload or
alias types of its definition, read in the scope of that definition; each
definition is replaced at most once along a path.  A search that runs out of
steps has no answer.
-/

namespace StaticCheck

mutual

/-- Whether a type mentions by value a name that `reached` accepts, or the
struct or enum of the scope `home`. -/
def Ty.mentions (home : Option ScopeId) (reached : String → Option Bool) :
    Ty → Option Bool
  | .prim _ | .errors _ | .pointer .. | .optional _ | .function .. => some false
  | .paren inner => inner.mentions home reached
  | .array _ .slice _ => some false
  | .array element _ _ => element.mentions home reached
  | .tuple fields => Ty.mentionsAny home reached fields
  | .union members => Ty.mentionsAny home reached members
  | .struct ⟨_, members, scope⟩ =>
    match scope with
    | some _ => some (scope == home)
    | none => Member.mentionsAny home reached members
  | .enum enum => some (enum.scope.isSome && enum.scope == home)
  | .named name => reached name

def Ty.mentionsAny (home : Option ScopeId) (reached : String → Option Bool) :
    List Ty → Option Bool
  | [] => some false
  | ty :: rest => do
    if ← ty.mentions home reached then return true
    Ty.mentionsAny home reached rest

def Member.mentionsAny (home : Option ScopeId)
    (reached : String → Option Bool) : List Member → Option Bool
  | [] => some false
  | ⟨_, ty⟩ :: rest => do
    if ← ty.mentions home reached then return true
    Member.mentionsAny home reached rest

end

def Symbol.contents (symbol : Symbol) : List Ty :=
  match symbol.ty, symbol.info.aliased with
  | some (.struct struct), _ => struct.members.map (·.ty)
  | some (.enum enum), _ => enum.variants.filterMap (·.payload)
  | _, some aliased => [aliased]
  | _, none => []

namespace ScopeTree

/-- Whether the definition of a name, read in the scope `scope`, is `root` or
holds it by value.  The definitions on `path` are not entered again, and at most
`steps` definitions are entered. -/
def reaches (tree : ScopeTree) (root : SymbolId) :
    Nat → List SymbolId → ScopeId → String → Option Bool
  | 0, _, _, _ => none
  | steps + 1, path, scope, name =>
    match tree.lookupFrom scope name with
    | none => some false
    | some id =>
      if id == root then some true
      else if path.contains id || !(tree.symbol id).isTypeName then some false
      else
        Ty.mentionsAny (tree.symbol root).info.scope
          (tree.reaches root steps (id :: path) (tree.symbol id).innerScope)
          (tree.symbol id).contents

/-- Whether a type, read in the scope `scope`, holds the type of `root` by
value.  A path enters each definition at most once, so it is no longer than the
number of symbols. -/
def contains (tree : ScopeTree) (root : SymbolId) (path : List SymbolId)
    (scope : ScopeId) (ty : Ty) : Bool :=
  (ty.mentions (tree.symbol root).info.scope
    (tree.reaches root (tree.symbols.size + 1) path scope)).getD false

end ScopeTree
end StaticCheck
