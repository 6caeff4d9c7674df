import StaticCheck.Proofs.Answer
import StaticCheck.Proofs.Sized

/-!
# Charts

A chart is what is known about a program before it is checked: the scopes that
were collected for it and the expressions that stand in it.  As a regime it asks
of every part of a program that its expressions are on the chart and, where the
chart is whole, that everything which a check of the part looks up was
collected: the scope of every block, function, type and handler in it, and the
names that its statements declare.  A whole chart may also set apart the
symbols that pledge something of their types: then nothing else that declares a
name leads to one of them.  The places of the regime are the scopes.
-/

namespace StaticCheck

structure Chart where
  tree : ScopeTree
  parts : List (NodeId × Form)
  modules : Nat
  /-- Whether what the checker looks up was collected. -/
  whole : Bool
  /-- Whether the symbols that pledge something are set apart. -/
  pledges : Bool

namespace Chart

/-- If the node has a scope then `inside` holds there; in a whole chart it has
one. -/
structure Opens (chart : Chart) (id : NodeId) (inside : ScopeId → Prop) :
    Prop where
  opened : ∀ scope, chart.tree.nodeScope? id = some scope → inside scope
  unopened : chart.tree.nodeScope? id = none → chart.whole = false

theorem Opens.imp {chart : Chart} {id : NodeId}
    {inside inside' : ScopeId → Prop} (h : chart.Opens id inside)
    (himp : ∀ scope, inside scope → inside' scope) :
    chart.Opens id inside' where
  opened scope hscope := himp scope (h.opened scope hscope)
  unopened := h.unopened

def Declares (chart : Chart) (scope : ScopeId) (name : String) : Prop :=
  chart.tree.lookupLocal scope name = none → chart.whole = false

structure Pledged (chart : Chart) (id : SymbolId) (pledge : Pledge) :
    Prop where
  whole : chart.whole = true
  pledges : chart.pledges = true
  declared : (chart.tree.symbol id).pledge? = some pledge

def Assigns (chart : Chart) (scope : ScopeId) (name : String)
    (pledge? : Option Pledge) : Prop :=
  ∀ id, chart.tree.lookupLocal scope name = some id →
    ∀ pledge, chart.Pledged id pledge → pledge? = some pledge

def Binds (chart : Chart) (binding : String) (body : NodeId) : Prop :=
  ∀ id, chart.tree.loopVariable? binding body = some id →
    ∀ pledge, ¬chart.Pledged id pledge

def Knows (chart : Chart) (key : ExprKey) : Prop :=
  key.module < chart.modules ∧ (key.node, key.form) ∈ chart.parts

def regime (chart : Chart) : Regime where
  Place := ScopeId
  part id form := (id, form) ∈ chart.parts
  leaves _ := True
  jumps _ := True
  loop := chart.Binds
  inLoop scope := scope
  inFunction scope := scope
  enter scope _ := scope
  opens := chart.Opens
  declares := chart.Declares
  pledged := chart.Pledged
  assigns := chart.Assigns
  tolerant := chart.whole = false

section

variable {chart : Chart} (hloose : chart.whole = false)

include hloose

theorem not_pledged_of_loose (id : SymbolId) (pledge : Pledge) :
    ¬chart.Pledged id pledge := by
  intro hpledged
  cases hloose.symm.trans hpledged.whole

theorem opens_of_loose {id : NodeId} {inside : ScopeId → Prop}
    (hinside : ∀ scope, inside scope) :
    chart.Opens id inside where
  opened scope _ := hinside scope
  unopened _ := hloose

theorem assigns_of_loose {scope : ScopeId} {name : String}
    {pledge? : Option Pledge} : chart.Assigns scope name pledge? := by
  intro id _ pledge hpledged
  exact absurd hpledged (not_pledged_of_loose hloose id pledge)

theorem binds_of_loose {binding : String} {body : NodeId} :
    chart.Binds binding body := by
  intro id _
  exact not_pledged_of_loose hloose id

end

def Holds (chart : Chart) (module : Module) : Prop :=
  chart.Opens module.id fun scope => ∀ stmt ∈ module.body,
    stmt.Suits chart.regime scope

end Chart
end StaticCheck
