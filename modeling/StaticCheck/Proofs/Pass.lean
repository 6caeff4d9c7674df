import StaticCheck.Proofs.Preservation

/-!
# What a pass changes

A pass goes from module to module.  It moves the session forward as every rule
does, except that it leaves behind the module it was in last.
-/

namespace StaticCheck

open Rule

theorem Session.Progress.ofModule {s t : Session} {module : Nat}
    {context : Context} (h : { s with module, context }.Progress t) :
    s.Progress t :=
  { h with }

theorem checkModule_of_scope {module : Module} {s : Session} {scope : ScopeId}
    (judge : Judge) (hscope : s.tree.nodeScope? module.id = some scope) :
    checkModule module judge s =
      (.ok (),
        (withScope scope (checkStatements module.body) judge { s with
          context := s.context.setModule module.name module.path }).2) := by
  unfold checkModule
  rw [bind_tree, hscope]
  rfl

theorem checkModule_of_none {module : Module} {s : Session} (judge : Judge)
    (hscope : s.tree.nodeScope? module.id = none) :
    checkModule module judge s =
      (.error (.fault ("module `" ++ module.name ++ "` has no scope") .none),
        s) := by
  unfold checkModule
  rw [bind_tree, hscope]
  rfl

theorem checkModule_progress (module : Module) (n : Nat) (s : Session) :
    s.Progress (checkModule module (Judge.limited n) s).2 := by
  cases hscope : s.tree.nodeScope? module.id with
  | none =>
    rw [checkModule_of_none _ hscope]
    exact .refl s
  | some scope =>
    rw [checkModule_of_scope _ hscope]
    have hbody : Composed .free .outside
        (withScope scope (checkStatements module.body)) :=
      .withScope (.checkStatements fun stmt _ => stmt.suits_free)
    exact Session.Progress.ofModule (hbody.advances n _).toProgress

namespace Check

def module (index : Nat) (module : Module) : Check Unit := do
  modify fun s => { s with module := index }
  ask 0 do reportFailure (← checkModule module)

theorem modules_cons (index : Nat) (module : Module) (rest : List Module)
    (s : Session) :
    modules index (module :: rest) s = modules (index + 1) rest
      (Check.module index module s).2 :=
  rfl

theorem module_progress (index : Nat) (module : Module) (s : Session) :
    s.Progress (Check.module index module s).2 := by
  have hcheck :=
    checkModule_progress module (s.depth 0) { s with module := index }
  have hreport : ∀ result, Composed .free .outside (reportFailure result) :=
    fun result => .reportFailure result
  exact Session.Progress.ofModule
    (hcheck.trans ((hreport _).advances _ _).toProgress)

theorem modules_progress (index : Nat) (modules : List Module) (s : Session) :
    s.Progress (Check.modules index modules s).2 := by
  induction modules generalizing index s with
  | nil => exact .refl s
  | cons module rest ih =>
    rw [modules_cons]
    exact (module_progress index module s).trans (ih (index + 1) _)

def checked (s : Session) : Session := (modules 0 s.program.modules s).2

theorem handle_eq (s : Session) :
    handle s = ((checked s).diagnostics.errorsSince (checked s).passStart == 0,
      { checked s with passStart := (checked s).diagnostics.size }) := rfl

theorem checked_progress (s : Session) : s.Progress (checked s) :=
  modules_progress _ _ _

end Check
end StaticCheck
