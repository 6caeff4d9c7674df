import StaticCheck.Proofs.Lockstep
import StaticCheck.Proofs.Survey
import Mathlib.Data.List.Nodup

/-!
# The chart of a program

What is collected for a program, together with its expressions, is a chart on
which the program stands.  The chart may promise that nothing is missing if no
node opens two scopes and the collector comes to everything that a check looks
up.  The sessions of the program lie on its chart.
-/

namespace StaticCheck

/-!
## Programs
-/

namespace Program

/-- What is known of a program when it has been collected.  Of its modules at
least one counts, as a session is in the first of them before it looks for
any. -/
def chart (program : Program) (whole : Bool) (pledges : Bool := false) :
    Chart where
  tree := program.collect.tree
  parts := program.expressions
  modules := max 1 program.modules.length
  whole := whole
  pledges := pledges

theorem opened (program : Program) :
    ({} : Collection).Opened program.modules (openModules program.modules {}).1
      (openModules program.modules {}).2 := by
  refine Collection.opened ⟨.empty, fun _ hsymbol => ?_, .empty⟩ rfl
    program.modules
  exact absurd hsymbol List.not_mem_nil

theorem ready (program : Program) :
    (openModules program.modules {}).2.Ready
      ((openModules program.modules {}).1.map (·.2)) where
  sound := program.opened.sound
  has := List.forall_mem_map.mpr fun entry hentry =>
    (program.opened.titled entry hentry).1

def bodyPieces (program : Program) : List Piece :=
  program.modules.flatMap fun module => Stmt.piecesAll true module.body

variable {program : Program} {whole pledges : Bool}

theorem surveys (hdistinct : (program.chart whole pledges).Distinct) :
    Surveys (program.chart whole pledges)
      ((openModules program.modules {}).1.map (·.2)) program.bodyPieces
      ((program.chart whole pledges).Shows program.bodyPieces)
      (∀ entry ∈ (openModules program.modules {}).1,
        Stmt.SuitAll (program.chart whole pledges).regime entry.2 entry.1.body)
      ((openModules program.modules {}).1.forM fun (module, scope) =>
        collectStmts scope module.body) := by
  have hpieces : program.bodyPieces =
      (openModules program.modules {}).1.flatMap fun entry =>
      Stmt.piecesAll true entry.1.body := by
    conv_lhs => rw [bodyPieces, ← program.opened.modules, List.flatMap_map]
  rw [hpieces]
  exact Surveys.bodies hdistinct fun entry hentry => List.mem_map_of_mem hentry

theorem bound_le (program : Program) (node : NodeId) :
    program.collect.bound node ≤ program.openers.count node := by
  -- The nodes of the modules are bound first, then those in the bodies.
  have hloose : (program.chart false).Distinct := nofun
  have hbodies := (surveys hloose).bound (openModules program.modules {}).2 node
  have hmodules : (openModules program.modules {}).2.bound node =
      (program.modules.map (·.id)).count node := by
    have hids : program.modules.map (·.id) =
        (openModules program.modules {}).1.map fun entry => entry.1.id := by
      conv_lhs => rw [← program.opened.modules, List.map_map]
      rfl
    rw [Collection.bound, program.opened.nodes, hids]
    simp [ScopeTree.empty, Function.comp_def]
  have hopeners : program.openers.count node =
      (program.modules.map (·.id)).count node +
      (program.bodyPieces.filterMap Piece.opener?).count node := by
    unfold openers pieces bodyPieces
    generalize program.modules = modules
    induction modules with
    | nil => rfl
    | cons module rest ih =>
      simp only [List.flatMap_cons, List.filterMap_append, List.filterMap_cons,
        Piece.opener?, List.count_append, List.count_cons,
        List.map_cons] at ih ⊢
      omega
  rw [hopeners, ← hmodules]
  exact hbodies

theorem distinct (hopeners : program.openers.Nodup) :
    (program.chart whole pledges).Distinct := by
  intro _
  rw [List.nodup_iff_count_le_one] at hopeners ⊢
  exact fun node => Nat.le_trans (program.bound_le node) (hopeners node)

theorem shows_pieces
    (hcollected : whole = true → ∀ piece ∈ program.pieces, piece.isCollected) :
    (program.chart whole pledges).Shows program.pieces := by
  intro piece hpiece
  cases piece with
  | expr node form => exact List.mem_filterMap.mpr ⟨_, hpiece, rfl⟩
  | opener walked node => exact fun hwhole => hcollected hwhole _ hpiece
  | declaration walked => exact fun hwhole => hcollected hwhole _ hpiece

/-- A chart may promise that nothing is missing only if every node opens one
scope and the collector comes to all that is looked up.  It sets variables apart
only if no name is declared twice. -/
structure Promises (program : Program) (whole : Bool)
    (pledges : Bool := false) : Prop where
  distinct : (program.chart whole pledges).Distinct
  collected : whole = true → ∀ piece ∈ program.pieces, piece.isCollected
  unique : pledges = true → program.collect.diagnostics.duplicates = []

theorem Promises.nothing (program : Program) : program.Promises false where
  distinct h := absurd h Bool.false_ne_true
  collected h := absurd h Bool.false_ne_true
  unique h := absurd h Bool.false_ne_true

theorem Promises.shows (h : program.Promises whole pledges) :
    (program.chart whole pledges).Shows program.bodyPieces := by
  intro piece hpiece
  obtain ⟨module, hmodule, hbody⟩ := List.mem_flatMap.mp hpiece
  exact shows_pieces h.collected piece
    (List.mem_flatMap.mpr ⟨module, hmodule, List.mem_cons_of_mem _ hbody⟩)

theorem Promises.suits (h : program.Promises whole pledges) :
    program.collect.tree.All
      (Symbol.Suits (program.chart whole pledges).regime) ∧
      ∀ entry ∈ (openModules program.modules {}).1,
      Stmt.SuitAll (program.chart whole pledges).regime entry.2
      entry.1.body := by
  have hnone : (openModules program.modules {}).2.tree.All
      (Symbol.Suits (program.chart whole pledges).regime) := by
    intro symbol hsymbol
    rw [program.opened.symbols] at hsymbol
    exact absurd hsymbol List.not_mem_nil
  exact (surveys h.distinct).suits h.shows _ program.ready
    ⟨.refl _, h.unique⟩ hnone

theorem Promises.holds (h : program.Promises whole pledges) :
    ∀ module ∈ program.modules, (program.chart whole pledges).Holds module := by
  intro module hmodule
  rw [← program.opened.modules] at hmodule
  obtain ⟨entry, hentry, rfl⟩ := List.mem_map.mp hmodule
  obtain ⟨names, hgrown⟩ := (surveys h.distinct).grown _ program.ready
  have hnode : (entry.1.id, entry.2) ∈
      (program.chart whole pledges).tree.nodes := by
    apply hgrown.tree.nodes.subset
    rw [program.opened.nodes]
    exact List.mem_append_left _
      (List.mem_reverse.mpr (List.mem_map.mpr ⟨entry, hentry, rfl⟩))
  refine h.distinct.opens hnode
    ((Stmt.suitAll_iff_forall _).mp (h.suits.2 entry hentry)) ?_
  intro hloose scope
  have hbody : (program.chart whole pledges).Shows
      (Stmt.piecesAll true entry.1.body) := by
    intro piece hpiece
    refine h.shows piece (List.mem_flatMap.mpr ⟨entry.1, ?_, hpiece⟩)
    rw [← program.opened.modules]
    exact List.mem_map_of_mem hentry
  exact (Stmt.suitAll_iff_forall _).mp
    (Stmt.suitAll_of_shows _ (fun _ => hloose) hbody)

end Program

theorem Program.collect_faultless (program : Program) :
    ∀ report ∈ program.collect.diagnostics.items,
      report.problem.isInternal = false := by
  intro report hreport
  rcases program.collect_gains.reports report hreport with hold | ⟨name, hname⟩
  · cases hold
  · rw [hname]
    rfl

theorem Program.collect_untyped (program : Program) (id : SymbolId)
    {pledge : Pledge}
    (hid : (program.collect.tree.symbol id).pledge? = some pledge) :
    (program.collect.tree.symbol id).ty = none := by
  have hP : Declarable program.limits fun symbol =>
      symbol.pledge? = some pledge → symbol.ty = none := by
    constructor
    case binding => exact fun _ _ _ _ => rfl
    all_goals
      intros
      first | rfl | contradiction
  exact Collected.symbol hP (fun _ _ _ h => h) (fun _ _ => rfl) id hid

/-!
## Sessions
-/

variable {chart : Chart} {twin : Twin} {scope : ScopeId} {s : Session}

theorem ScopeTree.All.meets {R : Regime} {tree : ScopeTree}
    (h : tree.All (Symbol.Suits R)) (id : SymbolId) :
    Meets R (tree.symbol id) := by
  refine h.symbol (fun _ => ?_) id
  exact ⟨meets_none, meets_nil, meets_none, meets_none, meets_none,
    fun _ hmem =>
    (Option.not_mem_none _ hmem).elim⟩

namespace TypeCache

theorem liesOn_of_empty {cache : TypeCache} (hconsistent : cache.Consistent)
    (horder : cache.order = []) (hentries : cache.entries = [])
    (htrials : cache.trials = [])
    (hroom : cache.capacity = twin.capacity ∨
      chart.modules * chart.parts.length ≤ cache.capacity ∧
        chart.modules * chart.parts.length ≤ twin.capacity) :
        cache.LiesOn chart twin where
  consistent := hconsistent
  known key hkey := by
    rw [horder] at hkey
    exact absurd hkey List.not_mem_nil
  types ty hty := by
    simp [Holds, hentries, htrials] at hty
  room := hroom

end TypeCache

namespace Session

theorem new_liesAt {program : Program} {whole pledges : Bool}
    (hpromises : program.Promises whole pledges) {options : Options}
    {evaluator : Evaluator}
    (hcapacity : options.cacheCapacity = twin.capacity ∨
      (program.chart whole pledges).modules *
      (program.chart whole pledges).parts.length ≤ options.cacheCapacity ∧
        (program.chart whole pledges).modules *
        (program.chart whole pledges).parts.length ≤ twin.capacity)
    (hcasts : options.strictCasts = twin.options.strictCasts)
    (hevaluator : evaluator = twin.evaluator) (hbefore : twin.before = []) :
    ((Session.new program options).withEvaluator evaluator).LiesAt
      (program.chart whole pledges) twin program.collect.tree.current where
  tree := ⟨rfl, rfl, rfl, hpromises.suits.1.meets, fun id _ hpledged =>
    ⟨hpledged.declared,
      .of_none (program.collect_untyped id hpledged.declared)⟩⟩
  cache := TypeCache.liesOn_of_empty (.new _) rfl rfl rfl hcapacity
  expectations := meets_nil
  frame := meets_none
  module := Nat.lt_of_lt_of_le Nat.one_pos (Nat.le_max_left _ _)
  strictCasts := hcasts
  evaluator := hevaluator
  before := hbefore ▸ List.nil_prefix
  faultless _ := program.collect_faultless

theorem LiesAt.reset (h : s.LiesAt chart twin scope) :
    s.reset.LiesAt chart twin ScopeTree.global where
  tree := h.tree.enter ScopeTree.global
  cache := TypeCache.liesOn_of_empty (.clear _) rfl rfl rfl h.cache.room
  expectations := meets_nil
  frame := meets_none
  module := h.module
  strictCasts := h.strictCasts
  evaluator := h.evaluator
  before := h.before
  faultless := h.faultless

section Passes

variable {program : Program} {whole pledges : Bool}
    (hpromises : program.Promises whole pledges)
  (hprogram : s.program = program)
  (hs : s.LiesAt (program.chart whole pledges) twin scope)

include hpromises hprogram hs

theorem LiesAt.checked_twin :
    (Check.checked s).LiesAt (program.chart whole pledges) twin scope ∧
      Check.checked (twin.of s) = twin.of (Check.checked s) := by
  subst hprogram
  exact Check.checked_twin hs (Nat.le_max_right _ _) hpromises.holds

theorem LiesAt.handle_twin (hstart : s.passStart = twin.before.length)
    (hinstead : twin.passStart = twin.instead.length) :
    (Check.handle (twin.of s)).1 = (Check.handle s).1 := by
  subst hprogram
  exact Check.handle_twin hs (Nat.le_max_right _ _) hpromises.holds
    hstart hinstead

theorem LiesAt.handle :
    (Check.handle s).2.LiesAt (program.chart whole pledges) twin scope := by
  exact { (LiesAt.checked_twin hpromises hprogram hs).1 with }

end Passes

theorem LiesAt.beside (h : s.LiesAt chart twin scope) {other : Twin}
    (hcapacity : s.cache.capacity = other.capacity)
    (hcasts : s.options.strictCasts = other.options.strictCasts)
    (hevaluator : s.evaluator = other.evaluator)
    (hbefore : other.before <+: s.diagnostics.items) :
    s.LiesAt chart other scope := by
  exact { h with
    cache := ⟨h.cache.consistent, h.cache.known, h.cache.types, .inl hcapacity⟩
    strictCasts := hcasts
    evaluator := hevaluator
    before := hbefore }

end Session

namespace Program

/-- The session in which a pass over the program starts: a new one for the first
pass, and for each further one that of the pass before, with the state of a pass
cleared. -/
def session (program : Program) (options : Options) (evaluator : Evaluator) :
    Nat → Session
  | 0 => (Session.new program options).withEvaluator evaluator
  | n + 1 => (Check.handle (program.session options evaluator n)).2.reset

variable {program : Program} {options : Options} {evaluator : Evaluator}

theorem session_program (n : Nat) :
    (program.session options evaluator n).program = program := by
  induction n with
  | zero => rfl
  | succ n ih => exact (Check.checked_progress _).program.trans ih

theorem session_liesAt {whole pledges : Bool}
    (hpromises : program.Promises whole pledges) (options : Options)
    (evaluator : Evaluator) (n : Nat) :
    ∃ scope, (program.session options evaluator n).LiesAt
      (program.chart whole pledges)
      { options, capacity := options.cacheCapacity, evaluator } scope := by
  induction n with
  | zero => exact ⟨_, Session.new_liesAt hpromises (.inl rfl) rfl rfl rfl⟩
  | succ n ih =>
    obtain ⟨scope, hscope⟩ := ih
    exact ⟨_, (hscope.handle hpromises (session_program n)).reset⟩

end Program
end StaticCheck
