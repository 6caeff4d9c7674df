import StaticCheck.Rules.Special

/-!
# Statement lists and loops

Statements are checked in order, and the failure of one does not stop the next.
What follows a statement that always leaves the list is unreachable: it is
reported and not checked, but the names it declares still shadow those outside.
-/

namespace StaticCheck

mutual

/-- Whether control never goes past a statement. -/
def Stmt.alwaysExits : Stmt → Bool
  | ⟨_, _, .returnStmt _⟩ | ⟨_, _, .throwStmt _⟩ => true
  | ⟨_, _, .expr expr⟩ => expr.isUnreachable
  | ⟨_, _, .block ⟨_, body, _⟩⟩ => Stmt.anyExits body
  | _ => false

def Stmt.anyExits : List Stmt → Bool
  | [] => false
  | stmt :: rest => stmt.alwaysExits || Stmt.anyExits rest

end

/-- Records the type of the symbol that a loop binds, and forgets an earlier one
if there is none now. -/
def ScopeTree.bindLoop (tree : ScopeTree) (binding : String) (body : NodeId)
    (ty : Option Ty) : ScopeTree :=
  match tree.loopVariable? binding body with
  | some id => tree.updateSymbol id fun symbol => { symbol with ty }
  | none => tree

def Stmt.boundName? (stmt : Stmt) : Option String :=
  match stmt.kind with
  | .letDecl decl => some decl.name
  | .defDecl decl => some decl.name
  | _ => none

namespace Rule

def declareBound (stmt : Stmt) : Rule Unit := do
  let some name := stmt.boundName? | return ()
  let some id ← lookupLocal (← tree).current name | return ()
  updateSymbol id fun symbol => { symbol with declared := true }

def skipUnreachable (stmt : Stmt) : Rule Unit := do
  report .unreachableCode stmt.span
  declareBound stmt

def checkStatements : List Stmt → Rule Unit
  | [] => return ()
  | stmt :: rest => do
    reportFailure (← askValid stmt)
    if stmt.alwaysExits then forEach skipUnreachable rest
    else checkStatements rest

def checkBlock (block : Block) : Rule (Except Finding Unit) := do
  match (← tree).nodeScope? block.id with
  | some scope => return .ok (← withScope scope (checkStatements block.body))
  | none => return .error (.fault "block has no scope" block.span)

def checkWhile (condition : Expr) (body : Block) :
    Rule (Except Finding Unit) := do
  checkCondition condition
  withLoop (checkBlock body)

def elementType (iterable : Expr) : Rule (Option Ty) := do
  let some ty ← askType iterable | return none
  if iterable.isRange then return some .usize
  match ← derefOnce ty with
  | .array element _ _ => return some element
  | other =>
    reportMismatch "an array or range" other.text iterable.span
    return none

def bindLoop (binding : String) (body : NodeId) (ty : Option Ty) : Rule Unit :=
  updateTree fun tree => tree.bindLoop binding body ty

/-- Checks a loop over an array or a range.  The binding takes the type of the
elements. -/
def checkFor (binding : String) (iterable : Expr) (body : Block) :
    Rule (Except Finding Unit) := do
  let element ← elementType iterable
  if ((← tree).nodeScope? body.id).isNone then
    return .error (.fault "for body has no scope" body.span)
  bindLoop binding body.id element
  withLoop (checkBlock body)

def checkJump (keyword : String) (span : Span) : Rule Unit := do
  if !(← isInLoop) then report (.controlFlowOutsideLoop keyword) span

end Rule
end StaticCheck
