/-!
# Identities and places

Names for the things a program tree refers to: its nodes, the scopes and symbols
declared in it, and the stretches of text its parts were read from.
-/

namespace StaticCheck

/-- Identity of a node of the program tree.  Two occurrences of one node share
it. -/
structure NodeId where
  index : Nat
  deriving DecidableEq, Repr, Inhabited

/-- Position of a scope in the order of creation. -/
structure ScopeId where
  index : Nat
  deriving DecidableEq, Repr, Inhabited

/-- Position of a symbol in the order of declaration. -/
structure SymbolId where
  index : Nat
  deriving DecidableEq, Repr, Inhabited

/-- A stretch of one file, from the offset `start` to the offset `stop`. -/
structure Span where
  file : String
  start : Nat
  stop : Nat
  deriving DecidableEq, Repr, Inhabited

namespace Span

/-- The span of a node that was made without a text. -/
def none : Span := ⟨"<null>", 0, 0⟩

def text (span : Span) : String :=
  span.file ++ ":" ++ toString span.start ++ "-" ++ toString span.stop

end Span

inductive Visibility
  | pub
  | priv
  | static
  deriving DecidableEq, Repr, Inhabited

namespace Visibility

def text : Visibility → String
  | pub => "pub"
  | priv => "priv"
  | static => "static"

def ofText? (text : String) : Option Visibility :=
  [pub, priv, static].find? fun visibility => visibility.text == text

end Visibility

/-- How a function reports errors; it decides which throws are allowed. -/
inductive ErrorMode
  | anyError
  | namedSet
  | group
  | selfGroup
  deriving DecidableEq, Repr, Inhabited

inductive ErrorClause
  | any
  | named (name : String)
  | group (names : List String)
  | selfGroup (names : List String)
  deriving DecidableEq, Repr, Inhabited

namespace ErrorClause

def mode : ErrorClause → ErrorMode
  | any => .anyError
  | named _ => .namedSet
  | group _ => .group
  | selfGroup _ => .selfGroup

/-- The errors a function throws through its implicit `selferr`. -/
def ownErrors : ErrorClause → List String
  | selfGroup names => names
  | _ => []

end ErrorClause

/-- An import of the module `module`, under the name `rename` if there is
one. -/
structure UseDecl where
  module : String
  rename : Option String
  wildcard : Bool
  deriving DecidableEq, Repr, Inhabited

namespace UseDecl

def localName (decl : UseDecl) : String :=
  decl.rename.getD decl.module

end UseDecl
end StaticCheck
