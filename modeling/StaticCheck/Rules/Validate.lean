import StaticCheck.Rules.Declaration
import StaticCheck.Rules.Exit

/-!
# Statements and modules

The check of a statement by its form, and of a module as a list of statements.
-/

namespace StaticCheck
namespace Rule

def validateKind (stmt : Stmt) : Rule (Except Finding Unit) :=
  match stmt.kind with
  | .expr expr => return .ok (← discard (askType expr))
  | .block block => checkBlock block
  | .letDecl decl => checkLet decl stmt.span
  | .defDecl decl => checkDef decl stmt.span
  | .func decl => checkFunction decl none
  | .struct decl => checkStruct decl
  | .enum decl => checkEnum decl
  | .use decl => return .ok (← checkUse decl stmt.span)
  | .returnStmt value => return .ok (← checkReturn value stmt.span)
  | .throwStmt value => return .ok (← checkThrow value stmt.span)
  | .whileLoop condition body => checkWhile condition body
  | .forLoop binding iterable body => checkFor binding iterable body
  | .breakStmt => return .ok (← checkJump "break" stmt.span)
  | .continueStmt => return .ok (← checkJump "continue" stmt.span)

def validateStmt (stmt : Stmt) : Rule (Except Finding Unit) :=
  withSpan stmt.span (validateKind stmt)

def checkModule (module : Module) : Rule (Except Finding Unit) := do
  match (← tree).nodeScope? module.id with
  | some scope =>
    updateContext fun context => context.setModule module.name module.path
    return .ok (← withScope scope (checkStatements module.body))
  | none =>
    return .error (.fault ("module `" ++ module.name ++ "` has no scope") .none)

end Rule
end StaticCheck
