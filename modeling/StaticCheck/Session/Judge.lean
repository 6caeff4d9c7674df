import StaticCheck.Session.Basic

/-!
# Judgements and rules

The judgements about a program depend on each other without an order: the type
of an expression may need the type of a symbol, that one the initializer of the
symbol, and so on.  A rule therefore does not call the other judgements.  It is
a computation that reads them from a `Judge`, and the judges are built one above
the other, each applying the rules with the judge below it.
-/

namespace StaticCheck

variable {α β : Type}

structure Judge where
  infer : Expr → Check (Option Ty)
  /-- Whether a statement is in order; a failure of the checker is passed on. -/
  validate : Stmt → Check (Except Finding Unit)
  /-- What a written type stands for, with or without reports. -/
  resolve : Ty → Span → Bool → Check (Option Ty)
  /-- Whether a value of the second type may stand where the first is expected,
  both in normal form.
  -/
  compatible : Ty → Ty → Check Bool
  /-- Whether a value of the second type can be cast to the first. -/
  castable : Ty → Ty → Check Bool
  /-- Checks a value that initializes a place of a type. -/
  checkValue : Ty → Expr → Check Unit
  /-- The type under any number of optionals, and that number. -/
  peel : Ty → Check (Nat × Ty)

/-- A step of checking, which may ask for other judgements. -/
abbrev Rule := ReaderT Judge Check

namespace Rule

def askType (expr : Expr) : Rule (Option Ty) := fun judge => judge.infer expr

def askValid (stmt : Stmt) : Rule (Except Finding Unit) :=
  fun judge => judge.validate stmt

def askResolved (ty : Ty) (span : Span) (loud : Bool) : Rule (Option Ty) :=
  fun judge => judge.resolve ty span loud

def askCompatible (target source : Ty) : Rule Bool :=
  fun judge => judge.compatible target source

def askCastable (target source : Ty) : Rule Bool :=
  fun judge => judge.castable target source

def askValue (target : Ty) (value : Expr) : Rule Unit :=
  fun judge => judge.checkValue target value

def askPeeled (ty : Ty) : Rule (Nat × Ty) := fun judge => judge.peel ty

/-!
## Reading and changing the session
-/

def update (f : Session → Session) : Rule Unit := modify f

def updateTree (f : ScopeTree → ScopeTree) : Rule Unit :=
  update fun s => { s with tree := f s.tree }

def updateContext (f : Context → Context) : Rule Unit :=
  update fun s => { s with context := f s.context }

def updateSymbol (id : SymbolId) (f : Symbol → Symbol) : Rule Unit :=
  updateTree fun tree => tree.updateSymbol id f

def tree : Rule ScopeTree := return (← get).tree

def symbol (id : SymbolId) : Rule Symbol := return (← get).tree.symbol id

def lookup (name : String) : Rule (Option SymbolId) :=
  return (← get).tree.lookup name

def lookupLocal (scope : ScopeId) (name : String) : Rule (Option SymbolId) :=
  return (← get).tree.lookupLocal scope name

def expected? : Rule (Option Ty) := return (← get).context.currentExpected?

def frame? : Rule (Option Frame) := return (← get).frame

def isInLoop : Rule Bool := return (← get).context.isInLoop

def currentModule : Rule Nat := return (← get).module

def evaluator : Rule Evaluator := return (← get).evaluator

def remembered? (key : ExprKey) : Rule (Option Ty) :=
  return (← get).cache.get? key

def remember (key : ExprKey) (ty : Ty) : Rule Unit :=
  update fun s => { s with cache := s.cache.insert key ty }

def isInFlight (key : ExprKey) : Rule Bool :=
  return (← get).inFlight.contains key

def isUnfolding (id : SymbolId) : Rule Bool :=
  return (← get).unfolding.contains id

def setType (id : SymbolId) (ty : Ty) : Rule Unit :=
  updateSymbol id fun symbol => { symbol with ty := some ty }

def setTypeIfNone (id : SymbolId) (ty : Option Ty) : Rule Unit :=
  updateSymbol id fun symbol => { symbol with ty := symbol.ty.or ty }

/-- The type of a symbol: the recorded one or the answer of `typing`, which is
then recorded. -/
def typedOnce (id : SymbolId) (typing : Symbol → Rule (Option Ty)) :
    Rule (Option Ty) := do
  let symbol ← symbol id
  if let some ty := symbol.ty then return some ty
  let some ty ← typing symbol | return none
  setType id ty
  return some ty

def markUsed (id : SymbolId) : Rule Unit :=
  updateSymbol id fun symbol => { symbol with used := true }

def report (problem : Problem) (span : Span) : Rule Unit :=
  update fun s => { s with diagnostics := s.diagnostics.error problem span }

def reportMismatch (expected received : String) (span : Span) : Rule Unit :=
  report (.typeMismatch expected received) span

def reportInternal (finding : Finding) : Rule Unit :=
  update fun s =>
    { s with diagnostics := s.diagnostics.push .error finding.asInternal }

def reportFailure : Except Finding Unit → Rule Unit
  | .ok () => pure ()
  | .error finding => reportInternal finding

def reportCast (problem : Problem) (span : Span) : Rule Unit :=
  update fun s =>
    { s with
      diagnostics :=
        if s.options.strictCasts then s.diagnostics.error problem span
        else s.diagnostics.warning problem span }

/-!
## Brackets

Each runs a rule in a changed session and then restores what it changed.
-/

def withScope (scope : ScopeId) (rule : Rule α) : Rule α := do
  let previous := (← tree).current
  updateTree fun tree => tree.enter scope
  let answer ← rule
  updateTree fun tree => tree.enter previous
  return answer

def withSpan (span : Span) (rule : Rule α) : Rule α := do
  updateContext fun context => context.pushSpan span
  let answer ← rule
  updateContext Context.popSpan
  return answer

def withDeclaration (name : String) (rule : Rule α) : Rule α := do
  updateContext fun context => context.pushDeclaration name
  let answer ← rule
  updateContext Context.popDeclaration
  return answer

def withExpected (expected : Option Ty) (rule : Rule α) : Rule α := do
  updateContext fun context => context.pushExpected expected
  let answer ← rule
  updateContext Context.popExpected
  return answer

def withLoop (rule : Rule α) : Rule α := do
  updateContext Context.enterLoop
  let answer ← rule
  updateContext Context.exitLoop
  return answer

def withInFlight (key : ExprKey) (rule : Rule α) : Rule α := do
  update fun s => { s with inFlight := key :: s.inFlight }
  let answer ← rule
  update fun s => { s with inFlight := s.inFlight.erase key }
  return answer

def withUnfolding (id : SymbolId) (rule : Rule α) : Rule α := do
  update fun s => { s with unfolding := id :: s.unfolding }
  let answer ← rule
  update fun s => { s with unfolding := s.unfolding.tail }
  return answer

/-- Restores the context and the current scope afterwards. -/
def withSavedState (rule : Rule α) : Rule α := do
  let before ← get
  let answer ← rule
  update fun s =>
    { s with
      tree := s.tree.enter before.tree.current, context := before.context }
  return answer

/-- Runs a trial: its reports, remembered types and changes to the frame are
taken back.  The flag tells whether it reported an error. -/
def speculate (rule : Rule α) : Rule (α × Bool) := do
  let before ← get
  update fun s => { s with cache := s.cache.beginTrial }
  let answer ← withSavedState rule
  let after ← get
  let failed := 0 < after.diagnostics.errorsSince before.diagnostics.size
  update fun s =>
    { s with
      cache := s.cache.rollbackTrial
      diagnostics := s.diagnostics.truncate before.diagnostics.size
      frame := before.frame }
  return (answer, failed)

/-- Runs the body of a function outside of any loop and gives its frame as the
body left it. -/
def withFrame (frame : Frame) (rule : Rule α) : Rule (Option Frame × α) := do
  let before ← get
  update fun s =>
    { s with frame := some frame, context := s.context.setLoopDepth 0 }
  let answer ← rule
  let after ← get
  update fun s =>
    { s with
      frame := before.frame
      context := s.context.setLoopDepth before.context.loopDepth }
  return (after.frame, answer)

/-!
## Rules on lists
-/

def mapSome (rule : α → Rule (Option β)) : List α → Rule (Option (List β))
  | [] => return some []
  | a :: rest => do
    let some b ← rule a | return none
    let some bs ← mapSome rule rest | return none
    return some (b :: bs)

def mapEach (rule : α → Rule β) : List α → Rule (List β)
  | [] => return []
  | a :: rest => do
    let b ← rule a
    let bs ← mapEach rule rest
    return b :: bs

def forEach (rule : α → Rule Unit) : List α → Rule Unit
  | [] => return ()
  | a :: rest => do
    rule a
    forEach rule rest

/-- Whether a rule accepts some member of a list; it stops at the first. -/
def anyOf (rule : α → Rule Bool) : List α → Rule Bool
  | [] => return false
  | a :: rest => do
    if ← rule a then return true else anyOf rule rest

/-- Whether a rule accepts every member of a list; it stops at the first that it
refuses. -/
def allOf (rule : α → Rule Bool) : List α → Rule Bool
  | [] => return true
  | a :: rest => do
    if ← rule a then allOf rule rest else return false

def inferExpecting (expr : Expr) (expected : Option Ty) : Rule (Option Ty) :=
  withExpected expected (askType expr)

end Rule
end StaticCheck
