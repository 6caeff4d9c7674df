import StaticCheck.Proofs.Cache.Capacity
import StaticCheck.Proofs.Chart
import StaticCheck.Proofs.Preservation
import Mathlib.Data.List.Perm.Subperm

/-!
# Two sessions side by side

A session that lies at a scope of a chart has the collected tree, apart from
what was found out about its symbols, and holds only what lies on the chart.
Beside it runs its twin, which differs in the capacity of the cache and in what
was reported before.  A rule keeps to the chart if from every such session it
leads to another one, with an answer that lies on the chart, and does the same
in the twin.  As for the policies, this is proved once for each kind of step.
-/

namespace StaticCheck

open Rule

variable {key : ExprKey} {ty : Ty} {id : SymbolId}

/-- A second session that runs beside the first: it may have other options and
another capacity, and other reports may have been made before. -/
structure Twin where
  options : Options := {}
  capacity : Nat := 0
  before : List Diagnostic := []
  instead : List Diagnostic := []
  passStart : Nat := 0
  evaluator : Evaluator := .literal

variable {α β : Type} {chart : Chart} {twin : Twin} {scope : ScopeId}

/-!
## Caches
-/

/-- A cache whose keys belong to the chart and whose types lie on it.  If the
twin has another capacity then both have room for all keys of the chart. -/
structure TypeCache.LiesOn (chart : Chart) (twin : Twin) (cache : TypeCache) :
    Prop where
  consistent : cache.Consistent
  known : ∀ key ∈ cache.order, chart.Knows key
  types : ∀ ty, cache.Holds ty → Meets chart.regime ty
  room : cache.capacity = twin.capacity ∨
    chart.modules * chart.parts.length ≤ cache.capacity ∧
      chart.modules * chart.parts.length ≤ twin.capacity

def Chart.keys (chart : Chart) : List ExprKey :=
  (List.range chart.modules).flatMap fun module =>
    chart.parts.map fun part => ⟨module, part.1, part.2⟩

theorem Chart.mem_keys : key ∈ chart.keys ↔ chart.Knows key := by
  obtain ⟨module, node, form⟩ := key
  simp only [keys, Knows, List.mem_flatMap, List.mem_range, List.mem_map,
    ExprKey.mk.injEq]
  constructor
  · rintro ⟨other, hlt, part, hpart, rfl, rfl, rfl⟩
    exact ⟨hlt, hpart⟩
  · rintro ⟨hlt, hpart⟩
    exact ⟨module, hlt, (node, form), hpart, rfl, rfl, rfl⟩

theorem Chart.length_keys :
    chart.keys.length = chart.modules * chart.parts.length := by
  simp only [keys, List.length_flatMap, List.length_map, List.map_const',
    List.length_range, List.sum_replicate_nat]

theorem Chart.length_le_of_nodup {keys : List ExprKey} (hnodup : keys.Nodup)
    (hknown : ∀ key ∈ keys, chart.Knows key) :
    keys.length ≤ chart.modules * chart.parts.length := by
  have hsubset : keys ⊆ chart.keys :=
    fun key hkey => Chart.mem_keys.mpr (hknown key hkey)
  have hlength := (List.subperm_of_subset hnodup hsubset).length_le
  rwa [Chart.length_keys] at hlength

namespace TypeCache.LiesOn

variable {cache : TypeCache} {key : ExprKey} {ty : Ty}

theorem get? (h : cache.LiesOn chart twin) (key : ExprKey) :
    Meets chart.regime (cache.get? key) := by
  intro _ hty
  exact h.types _ (holds_of_get? hty)

theorem insert (h : cache.LiesOn chart twin) (hkey : chart.Knows key)
    (hty : Meets chart.regime ty) :
    (cache.insert key ty).LiesOn chart twin where
  consistent := h.consistent.insert key ty
  known found hfound := by
    rcases mem_order_of_mem_order_insert h.consistent hfound with rfl | hold
    · exact hkey
    · exact h.known found hold
  types other hother := by
    rcases holds_of_insert hother with rfl | hold
    · exact hty
    · exact h.types other hold
  room := by
    rw [capacity_insert]
    exact h.room

theorem beginTrial (h : cache.LiesOn chart twin) :
    cache.beginTrial.LiesOn chart twin where
  consistent := h.consistent.beginTrial
  known := h.known
  types ty hty := h.types ty (holds_of_beginTrial hty)
  room := h.room

theorem rollbackTrial (h : cache.LiesOn chart twin) :
    cache.rollbackTrial.LiesOn chart twin where
  consistent := h.consistent.rollbackTrial
  known key hkey := h.known key (mem_order_of_mem_order_rollbackTrial hkey)
  types ty hty := h.types ty (holds_of_rollbackTrial hty)
  room := by
    rw [capacity_rollbackTrial]
    exact h.room

theorem size_le (h : cache.LiesOn chart twin) :
    cache.size ≤ chart.modules * chart.parts.length := by
  rw [← length_order h.consistent]
  exact Chart.length_le_of_nodup h.consistent.nodup h.known

theorem size_lt (h : cache.LiesOn chart twin) (hkey : chart.Knows key)
    (hnew : cache.get? key = none) :
    cache.size < chart.modules * chart.parts.length := by
  have hnodup : (key :: cache.order).Nodup :=
    List.nodup_cons.mpr
      ⟨(get?_eq_none_iff h.consistent).mp hnew, h.consistent.nodup⟩
  have hlength :=
    Chart.length_le_of_nodup hnodup (List.forall_mem_cons.mpr ⟨hkey, h.known⟩)
  rw [List.length_cons, length_order h.consistent] at hlength
  exact hlength

theorem insert_twin (h : cache.LiesOn chart twin) (hkey : chart.Knows key) :
    (cache.withCapacity twin.capacity).insert key ty =
      (cache.insert key ty).withCapacity twin.capacity := by
  rcases h.room with hsame | ⟨hroom, hroom'⟩
  -- With one capacity the twin is the cache itself; otherwise a new key finds
  -- room in both.
  · have hbefore : cache.withCapacity twin.capacity = cache := by
      rw [← hsame]
      rfl
    have hcapacity : (cache.insert key ty).capacity = twin.capacity :=
      capacity_insert.trans hsame
    have hafter : (cache.insert key ty).withCapacity twin.capacity =
        cache.insert key ty := by
      rw [← hcapacity]
      rfl
    rw [hbefore, hafter]
  · have hparts : 0 < chart.parts.length := List.length_pos_of_mem hkey.2
    have hpositive : 0 < chart.modules * chart.parts.length :=
      Nat.mul_pos (Nat.zero_lt_of_lt hkey.1) hparts
    apply insert_withCapacity
    · omega
    · omega
    · intro hnew
      have hsize := h.size_lt hkey hnew
      omega

end TypeCache.LiesOn

/-!
## Sessions
-/

/-- The collected tree, at a scope of the chart. -/
structure ScopeTree.LiesAt (chart : Chart) (scope : ScopeId)
    (tree : ScopeTree) : Prop where
  scopes : tree.scopes = chart.tree.scopes
  nodes : tree.nodes = chart.tree.nodes
  current : tree.current = scope
  symbols : ∀ id, Meets chart.regime (tree.symbol id)
  pledged : ∀ id pledge, chart.Pledged id pledge →
    (tree.symbol id).pledge? = some pledge ∧ (tree.symbol id).Keeps pledge

structure Session.LiesAt (chart : Chart) (twin : Twin) (scope : ScopeId)
    (s : Session) : Prop where
  tree : s.tree.LiesAt chart scope
  cache : s.cache.LiesOn chart twin
  expectations : Meets chart.regime s.context.expectations
  frame : Meets chart.regime s.frame
  module : s.module < chart.modules
  strictCasts : s.options.strictCasts = twin.options.strictCasts
  evaluator : s.evaluator = twin.evaluator
  before : twin.before <+: s.diagnostics.items
  faultless : chart.whole = true → ∀ report ∈ s.diagnostics.items,
    report.problem.isInternal = false

def Twin.of (twin : Twin) (s : Session) : Session :=
  { s with
    options := twin.options
    cache := s.cache.withCapacity twin.capacity
    diagnostics := ⟨twin.instead ++ s.diagnostics.items.drop twin.before.length⟩
    passStart := twin.passStart }

structure Session.Kept [Answer α] (chart : Chart) (twin : Twin)
    (scope : ScopeId) (s : Session) (result : α × Session) : Prop where
  answer : Meets chart.regime result.1
  session : result.2.LiesAt chart twin scope
  frame : result.2.frame.isSome = s.frame.isSome

/-- A check that stays within the chart and does the same in the twin. -/
def Stays [Answer α] (chart : Chart) (twin : Twin) (scope : ScopeId)
    (check : Check α) : Prop :=
  ∀ s : Session, s.LiesAt chart twin scope →
    s.Kept chart twin scope (check s) ∧
      check (twin.of s) = ((check s).1, twin.of (check s).2)

abbrev Judge.KeepsTo (chart : Chart) (twin : Twin) (judge : Judge) : Prop :=
  judge.Answers chart.regime.loose fun scope _ _ check =>
    Stays chart twin scope check

/-- A rule that keeps to the chart at a scope whenever its judge does. -/
def KeepsTo [Answer α] (chart : Chart) (twin : Twin) (scope : ScopeId)
    (rule : Rule α) : Prop :=
  ∀ judge : Judge, judge.KeepsTo chart twin →
    Stays chart twin scope (rule judge)

variable [Answer α] [Answer β]

/-!
## Steps
-/

namespace Stays

theorem pure {a : α} (ha : Meets chart.regime a) :
    Stays chart twin scope (Pure.pure a : Check α) := by
  intro _ hs
  exact ⟨⟨ha, hs, rfl⟩, rfl⟩

theorem bindRun {check : Check α} (next : α → Check β)
    (hcheck : Stays chart twin scope check)
    (hnext : ∀ s, Meets chart.regime (check s).1 →
      Stays chart twin scope (next (check s).1)) :
    Stays chart twin scope (check >>= next) := by
  intro s hs
  obtain ⟨hfirst, htwin⟩ := hcheck s hs
  obtain ⟨hsecond, htwin'⟩ := hnext s hfirst.answer _ hfirst.session
  refine ⟨⟨hsecond.answer, hsecond.session, hsecond.frame.trans hfirst.frame⟩,
    ?_⟩
  show next (check (twin.of s)).1 (check (twin.of s)).2 = _
  rw [htwin]
  exact htwin'

theorem bind {check : Check α} {next : α → Check β}
    (hcheck : Stays chart twin scope check)
    (hnext : ∀ a, Meets chart.regime a → Stays chart twin scope (next a)) :
    Stays chart twin scope (check >>= next) := by
  exact .bindRun next hcheck fun _ hanswer => hnext _ hanswer

theorem change {f : Session → Session}
    (hf : ∀ s : Session, s.LiesAt chart twin scope →
      (f s).LiesAt chart twin scope)
    (hframe : ∀ s : Session, (f s).frame.isSome = s.frame.isSome)
    (htwin : ∀ s : Session, s.LiesAt chart twin scope →
      f (twin.of s) = twin.of (f s)) :
    Stays chart twin scope fun s => ((), f s) := by
  intro s hs
  exact ⟨⟨trivial, hf s hs, hframe s⟩, congrArg (Prod.mk ()) (htwin s hs)⟩

theorem bracket {inner : ScopeId} (enter : Session → Session)
    (leave : Session → α × Session → β × Session) {check : Check α}
    (hcheck : Stays chart twin inner check)
    (henter : ∀ s : Session, s.LiesAt chart twin scope →
      (enter s).LiesAt chart twin inner)
    (hleave : ∀ (s : Session) (result : α × Session),
      s.LiesAt chart twin scope →
      (enter s).Kept chart twin inner result → s.Kept chart twin scope
      (leave s result))
    (hentered : ∀ s : Session, enter (twin.of s) = twin.of (enter s))
    (hleft : ∀ (s : Session) (result : α × Session), s.LiesAt chart twin scope →
      (enter s).Kept chart twin inner result →
      leave (twin.of s) (result.1, twin.of result.2) =
        ((leave s result).1, twin.of (leave s result).2)) :
    Stays chart twin scope fun s => leave s (check (enter s)) := by
  intro s hs
  obtain ⟨hkept, htwin⟩ := hcheck (enter s) (henter s hs)
  refine ⟨hleave s _ hs hkept, ?_⟩
  show leave (twin.of s) (check (enter (twin.of s))) = _
  rw [hentered, htwin, hleft s _ hs hkept]

end Stays

namespace Session.LiesAt

variable {s : Session}

theorem push (h : s.LiesAt chart twin scope) (severity : Severity)
    {finding : Finding}
    (hfinding : chart.whole = true → finding.problem.isInternal = false) :
    { s with diagnostics := s.diagnostics.push severity finding }.LiesAt chart
      twin scope := by
  exact { h with
    before := h.before.trans (List.prefix_append _ _)
    faultless := fun hwhole report hreport => by
      rcases List.mem_append.mp hreport with hold | hnew
      · exact h.faultless hwhole report hold
      · cases List.mem_singleton.mp hnew
        exact hfinding hwhole }

theorem setTree (h : s.LiesAt chart twin scope) {tree : ScopeTree}
    {inner : ScopeId} (htree : tree.LiesAt chart inner) :
    { s with tree }.LiesAt chart twin inner :=
  { h with tree := htree }

theorem setContext (h : s.LiesAt chart twin scope) {context : Context}
    (hcontext : Meets chart.regime context.expectations) :
    { s with context }.LiesAt chart twin scope := by
  exact { h with expectations := hcontext }

theorem push_twin (h : s.LiesAt chart twin scope) (report : Diagnostic) :
    twin.instead ++ (s.diagnostics.items ++ [report]).drop twin.before.length =
      twin.instead ++ s.diagnostics.items.drop twin.before.length ++
      [report] := by
  rw [List.drop_append_of_le_length h.before.length_le, List.append_assoc]

end Session.LiesAt

namespace ScopeTree.LiesAt

variable {tree : ScopeTree}

theorem enter (h : tree.LiesAt chart scope) (inner : ScopeId) :
    (tree.enter inner).LiesAt chart inner :=
  { h with current := rfl }

theorem nodeScope?_eq (h : tree.LiesAt chart scope) (id : NodeId) :
    tree.nodeScope? id = chart.tree.nodeScope? id := by
  unfold ScopeTree.nodeScope?
  rw [h.nodes]

theorem lookupLocal_eq (h : tree.LiesAt chart scope) (inner : ScopeId)
    (name : String) :
    tree.lookupLocal inner name = chart.tree.lookupLocal inner name := by
  unfold ScopeTree.lookupLocal ScopeTree.scope
  rw [h.scopes]

theorem updateSymbol (h : tree.LiesAt chart scope) (id : SymbolId)
    {f : Symbol → Symbol}
    (hadvance : ∀ symbol : Symbol, symbol.Advances (f symbol))
    (hmeets : ∀ symbol : Symbol, Meets chart.regime symbol →
      Meets chart.regime (f symbol))
    (hkeeps : ∀ pledge, chart.Pledged id pledge → ∀ symbol : Symbol,
      symbol.Keeps pledge → (f symbol).Keeps pledge) :
    (tree.updateSymbol id f).LiesAt chart scope where
  scopes := h.scopes
  nodes := h.nodes
  current := h.current
  symbols other := tree.symbol_updateSymbol_induction id f
    (P := fun a b => Meets chart.regime a → Meets chart.regime b) (hmeets _)
    (fun _ h => h) other
    (h.symbols other)
  pledged other pledge hpledged := by
    have hold := h.pledged other pledge hpledged
    by_cases heq : other = id
    · subst heq
      rcases tree.symbol_updateSymbol_self other f with hset | hset
      · rw [hset, (hadvance _).pledge?_eq]
        exact ⟨hold.1, hkeeps pledge hpledged _ hold.2⟩
      · rwa [hset]
    · rwa [symbol_updateSymbol_of_ne tree f heq]

theorem bindLoop (h : tree.LiesAt chart scope) {binding : String}
    {body : NodeId} {ty : Option Ty} (hloop : chart.Binds binding body)
    (hty : Meets chart.regime ty) :
    (tree.bindLoop binding body ty).LiesAt chart scope := by
  unfold ScopeTree.bindLoop
  split
  · next id hid =>
      refine h.updateSymbol id (fun symbol => ?_) (fun symbol hsymbol => ?_)
        fun pledge hpledged => ?_
      · exact { Symbol.Advances.refl symbol with fixed := rfl }
      · exact { hsymbol with ty := hty }
      · rw [ScopeTree.loopVariable?, h.nodeScope?_eq] at hid
        simp only [h.lookupLocal_eq] at hid
        exact absurd hpledged (hloop id hid pledge)
  · exact h

theorem describes (h : tree.LiesAt chart scope) :
    chart.regime.Describes scope tree where
  symbols := h.symbols
  opened hopens hnode := hopens.opened _ (h.nodeScope?_eq _ ▸ hnode)
  unopened hopens hnode := hopens.unopened (h.nodeScope?_eq _ ▸ hnode)
  undeclared hname hnone := by
    rw [h.current, h.lookupLocal_eq] at hnone
    exact hname hnone
  here := ⟨scope, h.current.symm⟩
  assigned hplace hassigns hid := by
    subst hplace
    exact hassigns _ (h.lookupLocal_eq _ _ ▸ hid)

end ScopeTree.LiesAt

namespace KeepsTo

variable {rule : Rule α}

theorem pure {a : α} (ha : Meets chart.regime a) :
    KeepsTo chart twin scope (Pure.pure a : Rule α) :=
  fun _ _ => .pure ha

theorem bind {next : α → Rule β} (hrule : KeepsTo chart twin scope rule)
    (hnext : ∀ a, Meets chart.regime a → KeepsTo chart twin scope (next a)) :
    KeepsTo chart twin scope (rule >>= next) := by
  intro judge hjudge
  exact .bind (hrule judge hjudge) fun a ha =>
    hnext a ha judge hjudge

theorem bindRun {next : α → Rule β} (hrule : KeepsTo chart twin scope rule)
    (hnext : ∀ judge s, Meets chart.regime (rule judge s).1 →
      KeepsTo chart twin scope (next (rule judge s).1)) :
    KeepsTo chart twin scope (rule >>= next) := by
  intro judge hjudge
  refine .bindRun (fun a => next a judge) (hrule judge hjudge)
    fun s hanswer => ?_
  exact hnext judge s hanswer judge hjudge

theorem look {γ : Type} {rule : Rule γ} {next : γ → Rule β} (f : Session → γ)
    (hrun : ∀ judge s, rule judge s = (f s, s))
    (hsame : ∀ s : Session, f (twin.of s) = f s)
    (hnext : ∀ s : Session, s.LiesAt chart twin scope →
      KeepsTo chart twin scope (next (f s))) :
    KeepsTo chart twin scope (rule >>= next) := by
  intro judge hjudge s hs
  rw [bind_run, bind_run, hrun, hrun, hsame]
  exact hnext s hs judge hjudge s hs

theorem read (f : Session → α) (hrun : ∀ judge s, rule judge s = (f s, s))
    (hsame : ∀ s : Session, f (twin.of s) = f s)
    (hanswer : ∀ s : Session, s.LiesAt chart twin scope →
      Meets chart.regime (f s)) :
    KeepsTo chart twin scope rule := by
  intro judge hjudge s hs
  rw [hrun, hrun, hsame]
  exact ⟨⟨hanswer s hs, hs, rfl⟩, rfl⟩

/-!
### Questions
-/

theorem askType {expr : Expr} (hexpr : expr.Suits chart.regime scope) :
    KeepsTo chart twin scope (askType expr) := by
  intro _ hjudge
  exact hjudge.infer hexpr

theorem askValid {stmt : Stmt} (hstmt : stmt.Suits chart.regime scope) :
    KeepsTo chart twin scope (askValid stmt) := by
  intro _ hjudge
  exact hjudge.validate hstmt

theorem askResolved {span : Span} {loud : Bool} (hty : Meets chart.regime ty) :
    KeepsTo chart twin scope (askResolved ty span loud) := by
  intro _ hjudge
  exact hjudge.resolve _ hty

theorem askCompatible {target source : Ty} (htarget : Meets chart.regime target)
    (hsource : Meets chart.regime source) :
    KeepsTo chart twin scope (askCompatible target source) := by
  intro _ hjudge
  exact hjudge.compatible _ (fits_loose.mpr htarget)
    (fits_loose.mpr hsource)

theorem askCastable {target source : Ty} (htarget : Meets chart.regime target)
    (hsource : Meets chart.regime source) :
    KeepsTo chart twin scope (askCastable target source) := by
  intro _ hjudge
  exact hjudge.castable _ (fits_loose.mpr htarget)
    (fits_loose.mpr hsource)

theorem askValue {target : Ty} {value : Expr}
    (htarget : Meets chart.regime target)
    (hvalue : value.Suits chart.regime scope) :
    KeepsTo chart twin scope (askValue target value) := by
  intro _ hjudge
  exact hjudge.checkValue (fits_loose.mpr htarget) hvalue

theorem askPeeled (hty : Meets chart.regime ty) :
    KeepsTo chart twin scope (askPeeled ty) := by
  intro _ hjudge
  exact hjudge.peel _ (fits_loose.mpr hty)

/-!
### Reads
-/

theorem seeTree {next : ScopeTree → Rule β}
    (hnext : ∀ tree, chart.regime.Describes scope tree →
      KeepsTo chart twin scope (next tree)) :
    KeepsTo chart twin scope (tree >>= next) := by
  exact .look (·.tree) (fun _ _ => rfl) (fun _ => rfl) fun s hs =>
    hnext s.tree hs.tree.describes

theorem expected? : KeepsTo chart twin scope expected? := by
  refine .read (·.context.currentExpected?) (fun _ _ => rfl) (fun _ => rfl)
    fun s hs ty hty => ?_
  have hhead := Option.join_eq_some_iff.mp hty
  exact hs.expectations (some ty) (List.mem_of_head? hhead) ty rfl

theorem frame? : KeepsTo chart twin scope frame? := by
  exact .read (·.frame) (fun _ _ => rfl) (fun _ => rfl) fun _ hs => hs.frame

theorem isInLoop : KeepsTo chart twin scope isInLoop := by
  exact .read (·.context.isInLoop) (fun _ _ => rfl) (fun _ => rfl)
    fun _ _ => trivial

theorem isUnfolding : KeepsTo chart twin scope (isUnfolding id) := by
  exact .read (·.unfolding.contains id) (fun _ _ => rfl) (fun _ => rfl)
    fun _ _ => trivial

theorem isInFlight : KeepsTo chart twin scope (isInFlight key) := by
  exact .read (·.inFlight.contains key) (fun _ _ => rfl) (fun _ => rfl)
    fun _ _ => trivial

theorem evaluator : KeepsTo chart twin scope evaluator := by
  exact .read (·.evaluator) (fun _ _ => rfl) (fun _ => rfl) fun _ _ => trivial

theorem containsType : KeepsTo chart twin scope (containsType id ty) := by
  exact .read (fun s => s.tree.contains id s.unfolding s.tree.current ty)
    (fun _ _ => rfl) (fun _ => rfl) fun _ _ => trivial

theorem isInStatic : KeepsTo chart twin scope isInStatic := by
  exact .read (fun s => s.frame.any (·.isStatic)) (fun _ _ => rfl)
    (fun _ => rfl) fun _ _ => trivial

theorem misusesInstance : KeepsTo chart twin scope (misusesInstance id) := by
  exact .read
    (fun s => (staticOwner? s.frame).join.any (isMemberOf (s.tree.symbol id)))
    (misusesInstance_run id) (fun _ => rfl) fun _ _ => trivial

theorem remembered? : KeepsTo chart twin scope (remembered? key) := by
  exact .read (·.cache.get? key) (fun _ _ => rfl) (fun _ => rfl) fun _ hs =>
    hs.cache.get? key

theorem seeKey {expr : Expr} {next : ExprKey → Rule β}
    (hexpr : expr.Suits chart.regime scope)
    (hnext : ∀ key, chart.Knows key → KeepsTo chart twin scope (next key)) :
    KeepsTo chart twin scope (exprKey expr >>= next) := by
  exact .look (fun s => ⟨s.module, expr.id, expr.kind.form⟩) (fun _ _ => rfl)
    (fun _ => rfl) fun _ hs => hnext _ ⟨hs.module, hexpr.part⟩

/-!
### Changes
-/

theorem push {rule : Rule Unit} (severity : Session → Severity)
    (finding : Finding) (hrun : ∀ judge : Judge, rule judge = fun s =>
      ((), { s with diagnostics := s.diagnostics.push (severity s) finding }))
    (hsame : ∀ s : Session, s.LiesAt chart twin scope →
      severity (twin.of s) = severity s)
    (hfinding : chart.whole = true → finding.problem.isInternal = false) :
    KeepsTo chart twin scope rule := by
  intro judge _
  rw [hrun judge]
  refine .change (fun s hs => hs.push (severity s) hfinding) (fun _ => rfl)
    fun s hs => ?_
  rw [hsame s hs]
  have hitems := hs.push_twin ⟨finding, severity s⟩
  simp only [Twin.of, Diagnostics.push, hitems]

theorem report {problem : Problem} {span : Span}
    (hproblem : problem.isInternal = false) :
    KeepsTo chart twin scope (report problem span) := by
  exact .push (fun _ => .error) ⟨problem, span⟩ (fun _ => rfl) (fun _ _ => rfl)
    fun _ => hproblem

theorem reportInternal {finding : Finding} (hwhole : chart.whole = false) :
    KeepsTo chart twin scope (reportInternal finding) := by
  refine .push (fun _ => .error) finding.asInternal (fun _ => rfl)
    (fun _ _ => rfl) fun h => ?_
  rw [hwhole] at h
  cases h

theorem reportCast {problem : Problem} {span : Span}
    (hproblem : problem.isInternal = false) :
    KeepsTo chart twin scope (reportCast problem span) := by
  refine .push (fun s => if s.options.strictCasts then .error else .warning)
    ⟨problem, span⟩
    (reportCast_run problem span) (fun s hs => ?_) fun _ => hproblem
  rw [hs.strictCasts]
  rfl

theorem remember (hkey : chart.Knows key) (hty : Meets chart.regime ty) :
    KeepsTo chart twin scope (remember key ty) := by
  intro judge _
  refine .change (fun s hs => { hs with cache := hs.cache.insert hkey hty })
    (fun _ => rfl) ?_
  intro s hs
  simp only [Twin.of, hs.cache.insert_twin hkey]

theorem updateSymbol {f : Symbol → Symbol}
    (hadvance : ∀ symbol : Symbol, symbol.Advances (f symbol))
    (hmeets : ∀ symbol : Symbol, Meets chart.regime symbol →
      Meets chart.regime (f symbol))
    (hkeeps : ∀ pledge, chart.Pledged id pledge → ∀ symbol : Symbol,
      symbol.Keeps pledge → (f symbol).Keeps pledge) :
    KeepsTo chart twin scope (updateSymbol id f) := by
  intro judge _
  refine .change (fun s hs => ?_) (fun _ => rfl) fun _ _ => rfl
  exact hs.setTree (hs.tree.updateSymbol id hadvance hmeets hkeeps)

theorem bindLoop {binding : String} {body : NodeId} {ty : Option Ty}
    (hloop : chart.Binds binding body) (hty : Meets chart.regime ty) :
    KeepsTo chart twin scope (bindLoop binding body ty) := by
  intro judge _
  refine .change (fun s hs => ?_) (fun _ => rfl) fun _ _ => rfl
  exact hs.setTree (hs.tree.bindLoop hloop hty)

theorem updateFrame {f : Frame → Frame}
    (hadvance : ∀ frame : Frame, frame.Advances (f frame)) :
    KeepsTo chart twin scope (updateFrame f) := by
  intro judge _
  refine .change
    (fun s hs => { hs with frame := meets_map hs.frame fun frame hframe => ?_ })
    (fun _ => Option.isSome_map) fun _ _ => rfl
  rw [(hadvance frame).fixed]
  exact hframe

theorem typedOnce {typing : Symbol → Rule (Option Ty)}
    (htyping : ∀ symbol, Meets chart.regime symbol →
      KeepsTo chart twin scope (typing symbol))
    (hhonours : ∀ (symbol : Symbol) (pledge : Pledge),
      symbol.pledge? = some pledge → Honours pledge (typing symbol)) :
    KeepsTo chart twin scope (typedOnce id typing) := by
  refine .look (·.tree.symbol id) (fun _ _ => rfl) (fun _ => rfl) fun s hs => ?_
  have hsymbol := hs.tree.symbols id
  split
  · next ty hty => exact .pure (meets_some.mpr (hsymbol.ty ty hty))
  · refine .bindRun (htyping _ hsymbol) fun judge t hanswer => ?_
    cases hrun : (typing (s.tree.symbol id) judge t).1 with
    | none => exact .pure meets_none
    | some ty =>
      rw [hrun] at hanswer
      have hset : KeepsTo chart twin scope (setType id ty) := by
        refine .updateSymbol (fun symbol => ?_) (fun _ hsymbol => ?_) ?_
        · exact { Symbol.Advances.refl symbol with fixed := rfl }
        · exact { hsymbol with ty := hanswer }
        · intro pledge hpledged symbol _ found hfound
          cases hfound
          have hdeclared := (hs.tree.pledged id pledge hpledged).1
          exact hhonours _ pledge hdeclared judge t ty hrun
      exact .bind hset fun _ _ => .pure hanswer

/-!
### Brackets
-/

theorem withScope {inner : ScopeId} (hrule : KeepsTo chart twin inner rule) :
    KeepsTo chart twin scope (withScope inner rule) := by
  intro judge hjudge
  refine .bracket (fun s => { s with tree := s.tree.enter inner })
    (fun s result =>
      (result.1, { result.2 with tree := result.2.tree.enter s.tree.current }))
    (hrule judge hjudge) (fun s hs => hs.setTree (hs.tree.enter inner))
    (fun s result hs hkept =>
      ⟨hkept.answer, hkept.session.setTree ?_, hkept.frame⟩)
    (fun _ => rfl) fun _ _ _ _ => rfl
  rw [hs.tree.current]
  exact hkept.session.tree.enter scope

theorem withContext {enter leave : Context → Context}
    (henter : ∀ context : Context, Meets chart.regime context.expectations →
      Meets chart.regime (enter context).expectations)
    (hleave : ∀ context : Context, Meets chart.regime context.expectations →
      Meets chart.regime (leave context).expectations)
    (hrule : KeepsTo chart twin scope rule) :
    KeepsTo chart twin scope (do
      updateContext enter
      let answer ← rule
      updateContext leave
      return answer) :=
  fun judge hjudge =>
    .bracket (fun s => { s with context := enter s.context })
      (fun _ result =>
        (result.1, { result.2 with context := leave result.2.context }))
      (hrule judge hjudge)
      (fun _ hs => hs.setContext (henter _ hs.expectations))
      (fun _ _ _ hkept => ⟨hkept.answer,
        hkept.session.setContext (hleave _ hkept.session.expectations),
        hkept.frame⟩)
      (fun _ => rfl) fun _ _ _ _ => rfl

theorem withSpan {span : Span} (hrule : KeepsTo chart twin scope rule) :
    KeepsTo chart twin scope (withSpan span rule) := by
  exact .withContext (fun _ h => h) (fun _ h => h) hrule

theorem withDeclaration {name : String}
    (hrule : KeepsTo chart twin scope rule) :
    KeepsTo chart twin scope (withDeclaration name rule) := by
  exact .withContext (fun _ h => h) (fun _ h => h) hrule

theorem withLoop (hrule : KeepsTo chart twin scope rule) :
    KeepsTo chart twin scope (withLoop rule) := by
  exact .withContext (fun _ h => h) (fun _ h => h) hrule

theorem withExpected {expected : Option Ty}
    (hexpected : Meets chart.regime expected)
    (hrule : KeepsTo chart twin scope rule) :
    KeepsTo chart twin scope (withExpected expected rule) := by
  exact .withContext (fun _ h => meets_cons.mpr ⟨hexpected, h⟩)
    (fun _ h ty hty => h ty (List.mem_of_mem_tail hty)) hrule

theorem withInFlight (hrule : KeepsTo chart twin scope rule) :
    KeepsTo chart twin scope (withInFlight key rule) := by
  intro judge hjudge
  exact .bracket (fun s => { s with inFlight := key :: s.inFlight })
      (fun _ result =>
        (result.1, { result.2 with inFlight := result.2.inFlight.erase key }))
      (hrule judge hjudge) (fun _ hs => { hs with })
      (fun _ _ _ hkept => ⟨hkept.answer, { hkept.session with }, hkept.frame⟩)
      (fun _ => rfl) fun _ _ _ _ => rfl

theorem withUnfolding (hrule : KeepsTo chart twin scope rule) :
    KeepsTo chart twin scope (withUnfolding id rule) := by
  intro judge hjudge
  exact .bracket (fun s => { s with unfolding := id :: s.unfolding })
      (fun _ result =>
        (result.1, { result.2 with unfolding := result.2.unfolding.tail }))
      (hrule judge hjudge) (fun _ hs => { hs with })
      (fun _ _ _ hkept => ⟨hkept.answer, { hkept.session with }, hkept.frame⟩)
      (fun _ => rfl) fun _ _ _ _ => rfl

theorem withSavedState (hrule : KeepsTo chart twin scope rule) :
    KeepsTo chart twin scope (withSavedState rule) := by
  intro judge hjudge
  refine .bracket (fun s => s)
    (fun s result => (result.1, { result.2 with
      tree := result.2.tree.enter s.tree.current, context := s.context }))
    (hrule judge hjudge) (fun _ hs => hs)
    (fun s result hs hkept => ⟨hkept.answer, ?_, hkept.frame⟩) (fun _ => rfl)
    fun _ _ _ _ => rfl
  have htree := hkept.session.tree.enter s.tree.current
  rw [hs.tree.current] at htree
  exact { hkept.session with
    tree := hs.tree.current ▸ htree, expectations := hs.expectations }

theorem truncate_twin (before instead items : List Diagnostic) (size : Nat) :
    (instead ++ items.drop before.length).take
      (instead.length + (size - before.length)) = instead ++
      (items.take size).drop before.length := by
  rw [List.take_length_add_append, List.drop_take]

theorem speculate (hrule : KeepsTo chart twin scope rule) :
    KeepsTo chart twin scope (speculate rule) := by
  intro judge hjudge
  refine .bracket (fun s => { s with cache := s.cache.beginTrial })
    (fun s result =>
      ((result.1,
        decide (0 < result.2.diagnostics.errorsSince s.diagnostics.size)),
        { result.2 with
          cache := result.2.cache.rollbackTrial
          diagnostics := result.2.diagnostics.truncate s.diagnostics.size
          frame := s.frame }))
    (withSavedState hrule judge hjudge)
    (fun s hs => { hs with cache := hs.cache.beginTrial })
    (fun s result hs hkept => ⟨⟨hkept.answer, trivial⟩, ?_, rfl⟩)
    (fun _ => rfl) ?_
  · exact { hkept.session with
      cache := hkept.session.cache.rollbackTrial
      frame := hs.frame
      before :=
        List.prefix_take_iff.mpr ⟨hkept.session.before, hs.before.length_le⟩
      faultless := fun hwhole report hreport =>
        hkept.session.faultless hwhole report (List.mem_of_mem_take hreport) }
  · intro s result hs hkept
    -- Both count errors and cut off reports from where the trial began.
    have hlength := hs.before.length_le
    have hsize : (twin.of s).diagnostics.size =
        twin.instead.length +
        (s.diagnostics.items.length - twin.before.length) := by
      simp [Twin.of, Diagnostics.size]
    have hcut :=
      truncate_twin twin.before twin.instead result.2.diagnostics.items
      s.diagnostics.items.length
    have hsince : (twin.of result.2).diagnostics.errorsSince
        (twin.of s).diagnostics.size =
          result.2.diagnostics.errorsSince s.diagnostics.size := by
      rw [hsize]
      simp only [Twin.of, Diagnostics.errorsSince, Diagnostics.size]
      rw [List.drop_length_add_append, List.drop_drop,
        Nat.add_sub_cancel' hlength]
    rw [hsince, hsize]
    simp only [Twin.of, Diagnostics.truncate, hcut,
      TypeCache.rollbackTrial_withCapacity]
    rfl

theorem withFrame {frame : Frame} {next : Option Frame × α → Rule β}
    (hframe : Meets chart.regime frame) (hrule : KeepsTo chart twin scope rule)
    (hnext : ∀ finished a, KeepsTo chart twin scope (next (some finished, a))) :
    KeepsTo chart twin scope (withFrame frame rule >>= next) := by
  intro judge hjudge s hs
  -- No `bracket`: what follows goes by the frame as the body leaves it.
  obtain ⟨hkept, htwin⟩ := hrule judge hjudge
    { s with frame := some frame, context := s.context.setLoopDepth 0 }
    { hs with frame := meets_some.mpr hframe }
  obtain ⟨finished, hfinished⟩ := Option.isSome_iff_exists.mp hkept.frame
  have hbody : s.Kept chart twin scope (Rule.withFrame frame rule judge s) :=
    ⟨⟨hkept.session.frame, hkept.answer⟩,
      { hkept.session with frame := hs.frame }, rfl⟩
  have hbodyTwin : Rule.withFrame frame rule judge (twin.of s) =
      ((Rule.withFrame frame rule judge s).1,
        twin.of (Rule.withFrame frame rule judge s).2) := by
    exact congrArg (fun result : α × Session =>
      ((result.2.frame, result.1),
        { result.2 with
          frame := s.frame
          context := result.2.context.setLoopDepth s.context.loopDepth })) htwin
  have hsome : (Rule.withFrame frame rule judge s).1.1 = some finished :=
    hfinished
  rw [bind_run, bind_run, hbodyTwin]
  generalize Rule.withFrame frame rule judge s = run at hbody hsome ⊢
  obtain ⟨⟨_, a⟩, t⟩ := run
  cases hsome
  obtain ⟨hrest, hrestTwin⟩ := hnext finished a judge hjudge t hbody.session
  exact ⟨⟨hrest.answer, hrest.session, hrest.frame.trans hbody.frame⟩,
    hrestTwin⟩

theorem memoized {expr : Expr} (hexpr : expr.Suits chart.regime scope)
    (hkind : KeepsTo chart twin scope (inferKind expr)) :
    KeepsTo chart twin scope (inferExpr expr) := by
  refine .seeKey hexpr fun key hkey => .bind .remembered? fun known hknown => ?_
  cases known with
  | some ty => exact .pure hknown
  | none =>
    refine .bind .isInFlight fun busy _ => ?_
    cases busy with
    | true => exact .pure meets_none
    | false =>
      refine .bind (.withInFlight (.withSpan hkind)) fun answer hanswer => ?_
      cases answer with
      | none => exact .pure meets_none
      | some ty =>
        refine .bind (.remember hkey (meets_some.mp hanswer)) fun _ _ => ?_
        exact .pure hanswer

end KeepsTo

/-!
## Rules and judges
-/

theorem Attested.keepsTo {scope : chart.regime.loose.Place} {α : Type} [Found α]
    {rule : Rule α} (h : Attested chart.regime.loose scope rule) :
    KeepsTo chart twin scope rule := by
  induction h with
  | pure ha => exact .pure ha.1
  | bind _ _ hrule hnext =>
    exact .bind hrule fun a ha => hnext a (fits_loose.mpr ha)
  | askType hexpr => exact .askType hexpr
  | askValid hstmt => exact .askValid hstmt
  | askResolved hty => exact .askResolved hty
  | askCompatible htarget hsource => exact .askCompatible htarget.1 hsource.1
  | askCastable htarget hsource => exact .askCastable htarget.1 hsource.1
  | askValue htarget hvalue => exact .askValue htarget.1 hvalue
  | askPeeled hty => exact .askPeeled hty.1
  | seeTree _ hnext =>
    exact .seeTree fun tree htree => hnext tree ⟨htree, False.elim⟩
  | expected? => exact .expected?
  | isUnfolding => exact .isUnfolding
  | evaluator => exact .evaluator
  | containsType => exact .containsType
  | isInStatic => exact .isInStatic
  | misusesInstance => exact .misusesInstance
  | isInLoop => exact .isInLoop
  | frame? => exact .frame?
  | report hproblem => exact .report hproblem
  | reportInternal hloose => exact .reportInternal hloose
  | reportCast hproblem => exact .reportCast hproblem
  | updateSymbol hadvance _ hfits hsized =>
    refine .updateSymbol hadvance (fun symbol hsymbol => ?_) hsized
    exact (hfits symbol (fits_loose.mpr hsymbol)).1
  | bindLoop hloop hty => exact .bindLoop hloop hty.1
  | updateFrame _ hadvance => exact .updateFrame hadvance
  | typedOnce _ hsized htyping =>
    exact .typedOnce
      (fun symbol hsymbol => htyping symbol (fits_loose.mpr hsymbol)) hsized
  | withScope _ hrule => exact .withScope hrule
  | withSpan _ hrule => exact .withSpan hrule
  | withDeclaration _ hrule => exact .withDeclaration hrule
  | withExpected hexpected _ hrule => exact .withExpected hexpected.1 hrule
  | withLoop _ hrule => exact .withLoop hrule
  | withUnfolding _ hrule => exact .withUnfolding hrule
  | withSavedState _ hrule => exact .withSavedState hrule
  | speculate _ hrule => exact .speculate hrule
  | withFrame hframe _ _ _ hrule hnext => exact .withFrame hframe.1 hrule hnext
  | memoized hexpr _ hkind => exact .memoized hexpr hkind

theorem Judge.limited_keepsTo (n : Nat) : (limited n).KeepsTo chart twin := by
  exact limited_answers (fun _ ha => .pure (fits_loose.mp ha))
    (fun h ih => h.keepsTo _ ih) n

end StaticCheck
