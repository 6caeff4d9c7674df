import StaticCheck.Checker.Judge

/-!
# Checking a program

A session is opened over a program, which collects its scopes.  A pass checks
every module and tells whether it found an error; between passes single
questions can be asked.  Every question is answered by a judge of a depth that
grows with the program and the question.  A question that nests deeper stays
without an answer where it gets below that depth, also where it would nest
without end.
-/

namespace StaticCheck

variable {α : Type}

namespace Session

/-- Opens a session: collects the scopes of the program, with its first
reports. -/
def new (program : Program) (options : Options) : Session :=
  let collection := program.collect
  { program
    options
    tree := collection.tree
    diagnostics := collection.diagnostics
    context := {}
    evaluator := .literal
    cache := .new options.cacheCapacity
    inFlight := []
    unfolding := []
    frame := none
    module := 0
    passStart := 0 }

def withEvaluator (session : Session) (evaluator : Evaluator) : Session :=
  { session with evaluator }

/-- Depth at which a question of the given size is given up. -/
def depth (session : Session) (size : Nat) : Nat :=
  let parts := session.program.size + size + session.tree.symbols.size + 16
  parts * parts * parts

/-- Forgets the state of a pass, so that the program can be checked again.  What
was reported, and what was found out about symbols, stays. -/
def reset (session : Session) : Session :=
  { session with
    cache := session.cache.clear
    inFlight := []
    unfolding := []
    frame := none
    context := {}
    tree := session.tree.enter ScopeTree.global
    passStart := session.diagnostics.size }

end Session

namespace Check

def ask (size : Nat) (rule : Rule α) : Check α := fun session =>
  rule (Judge.limited (session.depth size)) session

/-- Answers a question in another scope than the current one. -/
def within (scope : ScopeId) (check : Check α) : Check α := do
  let previous := (← get).tree.current
  modify fun s => { s with tree := s.tree.enter scope }
  let answer ← check
  modify fun s => { s with tree := s.tree.enter previous }
  return answer

def modules : Nat → List Module → Check Unit
  | _, [] => return ()
  | index, module :: rest => do
    modify fun s => { s with module := index }
    ask 0 do Rule.reportFailure (← Rule.checkModule module)
    modules (index + 1) rest

/-- Checks every module.  The answer tells whether no error was reported since
the last pass. -/
def handle : Check Bool := do
  modules 0 (← get).program.modules
  let s ← get
  set { s with passStart := s.diagnostics.size }
  return s.diagnostics.errorsSince s.passStart == 0

def reset : Check Unit := modify Session.reset

def infer (expr : Expr) : Check (Option Ty) :=
  ask expr.size (Rule.inferExpr expr)

def inferExpecting (expr : Expr) (expected : Option Ty) : Check (Option Ty) :=
  ask (expr.size + Ty.sizeOpt expected)
    (Rule.withExpected expected (Rule.inferExpr expr))

def validate (stmt : Stmt) : Check (Except Finding Unit) :=
  ask stmt.size (Rule.validateStmt stmt)

def speculate (check : Check α) : Check (α × Bool) :=
  Rule.speculate (fun _ => check) Judge.exhausted

def resolveType (ty : Ty) (span : Span) : Check (Option Ty) :=
  ask ty.size (Rule.resolveType ty span)

def tryResolve (ty : Ty) : Check (Option Ty) := ask ty.size (Rule.tryResolve ty)

def normalize (ty : Ty) : Check Ty := ask ty.size (Rule.normalize ty)

def resolveLayout (ty : Ty) : Check (Option Ty) :=
  ask ty.size (Rule.resolveLayout ty)

def exprAsType (expr : Expr) : Check (Option Ty) :=
  ask expr.size (Rule.exprAsType expr)

def constInt (expr : Expr) : Check (Option Int) :=
  ask expr.size (Rule.constInt expr)

def placeMutability (expr : Expr) : Check Bool :=
  ask expr.size (Rule.placeMutability expr)

def isCompatible (target source : Ty) (expr : Option Expr) : Check Bool :=
  ask (target.size + source.size + Expr.sizeOpt expr)
    (Rule.isCompatible target source expr)

def canCast (target source : Ty) : Check Bool :=
  ask (target.size + source.size) (Rule.canCast target source)

def containsType (id : SymbolId) (ty : Ty) : Check Bool :=
  ask ty.size (Rule.containsType id ty)

def checkConstruction (struct : StructTy) (fields : List ObjectField)
    (span : Span) : Check Bool :=
  ask ((Ty.struct struct).size + ObjectField.sizeAll fields)
    (Rule.checkConstruction struct fields span)

def symbolType (id : SymbolId) : Check (Option Ty) := ask 0 (Rule.symbolType id)

def reportInternal (finding : Finding) : Check Unit :=
  ask 0 (Rule.reportInternal finding)

end Check
end StaticCheck
