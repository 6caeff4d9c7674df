import StaticCheck.Lang.Tree

/-!
# Where the checker is

The nodes being walked, the module, the loops and declarations around the
present place, and the type that the surrounding code expects from the present
expression.  Each stack has its top first.
-/

namespace StaticCheck

structure Context where
  spans : List Span := []
  moduleName : String := ""
  modulePath : String := ""
  loopDepth : Nat := 0
  declarations : List String := []
  /-- Expected types; `none` hides the expectation of the expression around. -/
  expectations : List (Option Ty) := []
  deriving Inhabited

namespace Context

def pushSpan (context : Context) (span : Span) : Context :=
  { context with spans := span :: context.spans }

def popSpan (context : Context) : Context :=
  { context with spans := context.spans.tail }

def currentSpan (context : Context) : Span :=
  context.spans.head?.getD .none

def setModule (context : Context) (name path : String) : Context :=
  { context with moduleName := name, modulePath := path }

def enterLoop (context : Context) : Context :=
  { context with loopDepth := context.loopDepth + 1 }

def exitLoop (context : Context) : Context :=
  { context with loopDepth := context.loopDepth - 1 }

def isInLoop (context : Context) : Bool := 0 < context.loopDepth

/-- The body of a function starts outside of any loop. -/
def setLoopDepth (context : Context) (depth : Nat) : Context :=
  { context with loopDepth := depth }

def pushDeclaration (context : Context) (name : String) : Context :=
  { context with declarations := name :: context.declarations }

def popDeclaration (context : Context) : Context :=
  { context with declarations := context.declarations.tail }

def currentDeclaration? (context : Context) : Option String :=
  context.declarations.head?

def pushExpected (context : Context) (expected : Option Ty) : Context :=
  { context with expectations := expected :: context.expectations }

def popExpected (context : Context) : Context :=
  { context with expectations := context.expectations.tail }

def currentExpected? (context : Context) : Option Ty :=
  context.expectations.head?.join

end Context
end StaticCheck
