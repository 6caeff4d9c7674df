import StaticCheck.Report.Problem

/-!
# Diagnostics

The findings of a session in the order in which they were reported.  Reports go
to the end, so what was reported once stays in front of what comes later.
-/

namespace StaticCheck

inductive Severity
  | error
  | warning
  deriving DecidableEq, Repr, Inhabited

def Severity.text : Severity → String
  | error => "error"
  | warning => "warning"

structure Diagnostic extends Finding where
  severity : Severity
  deriving DecidableEq, Repr, Inhabited

def Diagnostic.isError (diagnostic : Diagnostic) : Bool :=
  diagnostic.severity == .error

structure Diagnostics where
  items : List Diagnostic := []
  deriving DecidableEq, Repr, Inhabited

namespace Diagnostics

def push (log : Diagnostics) (severity : Severity) (finding : Finding) :
    Diagnostics :=
  ⟨log.items ++ [⟨finding, severity⟩]⟩

def error (log : Diagnostics) (problem : Problem) (span : Span) : Diagnostics :=
  log.push .error ⟨problem, span⟩

def warning (log : Diagnostics) (problem : Problem) (span : Span) :
    Diagnostics :=
  log.push .warning ⟨problem, span⟩

def size (log : Diagnostics) : Nat := log.items.length

def isEmpty (log : Diagnostics) : Bool := log.items.isEmpty

def hasErrors (log : Diagnostics) : Bool := log.items.any Diagnostic.isError

def errorsSince (log : Diagnostics) (start : Nat) : Nat :=
  (log.items.drop start).countP Diagnostic.isError

def truncate (log : Diagnostics) (count : Nat) : Diagnostics :=
  ⟨log.items.take count⟩

def codes (log : Diagnostics) : List String :=
  log.items.map (·.problem.code)

end Diagnostics
end StaticCheck
