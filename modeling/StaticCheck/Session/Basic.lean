import StaticCheck.Constant.Evaluator
import StaticCheck.Lang.Size
import StaticCheck.Scope.Collect
import StaticCheck.Scope.Containment
import StaticCheck.Session.Context
import StaticCheck.Session.TypeCache
import StaticCheck.Types.Text

/-!
# Sessions

A session is the state of checking one program: its scope tree, what was
reported and remembered so far, and where in the program the checker is.
-/

namespace StaticCheck

structure Options where
  cacheCapacity : Nat := 4096
  /-- Whether an invalid cast is an error rather than a warning. -/
  strictCasts : Bool := true
  deriving DecidableEq, Repr, Inhabited

structure Frame where
  name : String
  /-- Resolved result type; `none` if the declared one did not resolve. -/
  result : Option Ty
  errorType : Option Ty
  errorMode : Option ErrorMode
  ownErrors : List String
  hasReturn : Bool := false
  hasThrow : Bool := false
  isStatic : Bool
  owner : Option ScopeId
  deriving Inhabited

structure Session where
  program : Program
  options : Options
  tree : ScopeTree
  diagnostics : Diagnostics
  context : Context
  evaluator : Evaluator
  cache : TypeCache
  inFlight : List ExprKey
  /-- Definitions whose resolution is under way, the latest first. -/
  unfolding : List SymbolId
  frame : Option Frame
  module : Nat
  /-- Number of reports before the present pass. -/
  passStart : Nat

abbrev Check := StateM Session

end StaticCheck
