import StaticCheck.Proofs.Declarations
import StaticCheck.Proofs.Pieces

/-!
# What the collector prepares

A second account of the walk over a program.  Every node that the collector
comes to is bound to the scope made for it and every declaration is found in its
scope, so the statements it has walked suit each chart with the collected tree,
and what the symbols know of their declarations does as well.
-/

namespace StaticCheck

open Collect

variable {α β : Type} {chart : Chart}

/-!
## Charts of distinct nodes
-/

def Chart.Distinct (chart : Chart) : Prop :=
  chart.whole = true → (chart.tree.nodes.map (·.1)).Nodup

theorem lookup_of_nodup {κ ν : Type} [BEq κ] [LawfulBEq κ]
    {entries : List (κ × ν)} {key : κ} {value : ν}
    (hnodup : (entries.map (·.1)).Nodup) (hmem : (key, value) ∈ entries) :
    entries.lookup key = some value := by
  induction entries with
  | nil => cases hmem
  | cons entry rest ih =>
    obtain ⟨other, found⟩ := entry
    rw [List.map_cons, List.nodup_cons] at hnodup
    rw [List.lookup_cons]
    rcases List.mem_cons.mp hmem with hfirst | hrest
    · cases hfirst
      rw [beq_self_eq_true]
    · have hne : key ≠ other := by
        rintro rfl
        exact hnodup.1 (List.mem_map.mpr ⟨_, hrest, rfl⟩)
      rw [beq_false_of_ne hne]
      exact ih hnodup.2 hrest

/-- A node that was bound to a scope opens that one if the chart is whole; if it
is not, then the node may have been bound again. -/
theorem Chart.Distinct.opens (hdistinct : chart.Distinct) {node : NodeId}
    {inner : ScopeId} {inside : ScopeId → Prop}
    (hnode : (node, inner) ∈ chart.tree.nodes) (hinside : inside inner)
    (hloose : chart.whole = false → ∀ scope, inside scope) :
    chart.Opens node inside := by
  constructor
  case opened =>
    intro scope hscope
    cases hwhole : chart.whole with
    | false => exact hloose hwhole scope
    | true =>
      have hfound : chart.tree.nodeScope? node = some inner :=
        lookup_of_nodup (hdistinct hwhole) hnode
      rw [hfound] at hscope
      cases hscope
      exact hinside
  case unopened =>
    intro hnone
    rw [ScopeTree.nodeScope?, List.lookup_eq_none_iff] at hnone
    exact absurd (hnone _ hnode) (by simp)

/-!
## One step
-/

namespace Collection

def bound (c : Collection) (node : NodeId) : Nat :=
  (c.tree.nodes.map (·.1)).count node

structure Ready (scopes : List ScopeId) (c : Collection) : Prop where
  sound : c.Sound
  has : ∀ scope ∈ scopes, c.tree.Has scope

theorem Ready.later {c later : Collection} {scopes : List ScopeId}
    {names : List String} (h : c.Ready scopes) (hgrown : c.Grown names later) :
    later.Ready scopes where
  sound := hgrown.sound
  has scope hscope := hgrown.tree.has scope (h.has scope hscope)

/-- What was collected becomes a part of the chart.  If the chart sets variables
apart then no name was declared twice. -/
structure LeadsTo (chart : Chart) (c : Collection) : Prop where
  tree : c.tree.Extends chart.tree
  unique : chart.pledges = true → c.diagnostics.duplicates = []

theorem LeadsTo.earlier {c later : Collection} {names : List String}
    (h : later.LeadsTo chart) (hgrown : c.Grown names later) :
    c.LeadsTo chart where
  tree := hgrown.tree.trans h.tree
  unique hstores := hgrown.unique (h.unique hstores)

end Collection

/-- A collecting step that walks over parts of a program with the given pieces.
It binds each node at most as often as it occurs among the pieces.  If what it
makes becomes a part of the chart, and `pre` holds, then it declares only
symbols that suit the chart, and `post` holds. -/
structure Surveys (chart : Chart) (scopes : List ScopeId) (pieces : List Piece)
    (pre post : Prop) (step : Collect α) : Prop where
  grown : ∀ c : Collection, c.Ready scopes → ∃ names, c.Grown names (step c).2
  bound : ∀ (c : Collection) (node : NodeId),
    (step c).2.bound node ≤ c.bound node +
    (pieces.filterMap Piece.opener?).count node
  suits : pre → ∀ c : Collection, c.Ready scopes → (step c).2.LeadsTo chart →
    c.tree.All (Symbol.Suits chart.regime) →
      (step c).2.tree.All (Symbol.Suits chart.regime) ∧ post

/-- A survey under no other condition than that the pieces lie on the chart. -/
abbrev Covers (chart : Chart) (scopes : List ScopeId) (pieces : List Piece)
    (post : Prop) (step : Collect α) : Prop :=
  Surveys chart scopes pieces (chart.Shows pieces) post step

namespace Collect

variable {c : Collection} {scope : ScopeId} {symbol : Symbol}

theorem declare_nodes (c : Collection) (scope : ScopeId) (symbol : Symbol) :
    (declare scope symbol c).2.tree.nodes = c.tree.nodes := by
  cases hget : (c.tree.scope scope).get? symbol.name with
  | none =>
    rw [declare_of_free hget]
    rfl
  | some existing => rw [declare_of_taken hget]

theorem declare_entry (symbol : Symbol) (hscope : c.tree.Has scope) :
    ∃ id, ((declare scope symbol c).2.tree.scope scope).get? symbol.name =
      some id := by
  cases hget : (c.tree.scope scope).get? symbol.name with
  | none =>
    refine ⟨⟨c.tree.symbols.size⟩, ?_⟩
    rw [declare_of_free hget, ScopeTree.get?_withSymbol symbol hscope, hget,
      if_pos ⟨rfl, rfl⟩]
    rfl
  | some existing => exact ⟨existing, by rw [declare_of_taken hget, hget]⟩

end Collect

def Symbol.SuitsAt (chart : Chart) (scope : ScopeId) (symbol : Symbol) : Prop :=
  { symbol with scope }.Suits chart.regime

theorem ScopeTree.Extends.lookupLocal_eq {tree later : ScopeTree}
    {scope : ScopeId} {name : String} {id : SymbolId} (h : tree.Extends later)
    (hid : (tree.scope scope).get? name = some id) :
    later.lookupLocal scope name = some id := by
  obtain ⟨more, hmore⟩ := h.names scope
  rw [ScopeTree.lookupLocal, Scope.get?, ← hmore,
    List.lookup_append, ← Scope.get?, hid]
  rfl

theorem ScopeTree.Extends.symbol_size {tree later : ScopeTree} {scope : ScopeId}
    (symbol : Symbol) (h : (tree.withSymbol scope symbol).Extends later) :
    later.symbol ⟨tree.symbols.size⟩ =
      { symbol with id := ⟨tree.symbols.size⟩, scope } := by
  obtain ⟨more, hmore⟩ := h.symbols
  rw [ScopeTree.symbol, ← Array.getElem?_toList, ← hmore]
  simp [ScopeTree.withSymbol]

/-- The name was declared, and it pledges what the symbol does. -/
def Chart.Takes (chart : Chart) (scope : ScopeId) (symbol : Symbol) : Prop :=
  chart.Declares scope symbol.name ∧
    chart.Assigns scope symbol.name symbol.pledge?

theorem Chart.takes_of_declare {c : Collection} {scope : ScopeId}
    {symbol : Symbol} (hscope : c.tree.Has scope)
    (hleads : (declare scope symbol c).2.LeadsTo chart) :
    chart.Takes scope symbol := by
  obtain ⟨known, hknown⟩ := declare_entry symbol hscope
  have hfound := hleads.tree.lookupLocal_eq hknown
  refine ⟨fun hnone => ?_, fun id hid pledge hpledged => ?_⟩
  · rw [hfound] at hnone
    cases hnone
  · -- the name is not declared twice, so it leads to this symbol
    have hunique := hleads.unique hpledged.pledges
    cases hget : (c.tree.scope scope).get? symbol.name with
    | some existing =>
      rw [declare_of_taken hget, duplicates_error] at hunique
      simp at hunique
    | none =>
      rw [declare_of_free hget] at hleads
      rw [declare_of_free hget, ScopeTree.get?_withSymbol symbol hscope, hget,
        if_pos ⟨rfl, rfl⟩] at hknown
      cases hknown
      cases hfound.symm.trans hid
      have hdeclared := hpledged.declared
      rw [hleads.tree.symbol_size symbol] at hdeclared
      exact hdeclared

namespace Surveys

variable {scopes : List ScopeId} {scope : ScopeId}
    {pieces first second : List Piece} {pre post : Prop}

theorem pure (a : α) :
    Surveys chart scopes [] pre True (Pure.pure a : Collect α) where
  grown _ hc := ⟨[], .still hc.sound⟩
  bound _ _ := Nat.le_add_right _ _
  suits _ _ _ _ hall := ⟨hall, trivial⟩

theorem bind {step : Collect α} {next : α → Collect β} {need mid : Prop}
    {need' post' : Prop} (hstep : Surveys chart scopes first need mid step)
    (hnext : ∀ a, Surveys chart scopes second need' post' (next a))
    (hneed : pre → need) (hneed' : pre → mid → need') :
    Surveys chart scopes (first ++ second) pre (mid ∧ post')
      (step >>= next) where
  grown c hc := by
    obtain ⟨names, hfirst⟩ := hstep.grown c hc
    obtain ⟨more, hsecond⟩ :=
      (hnext (step c).1).grown (step c).2 (hc.later hfirst)
    exact ⟨names ++ more, hfirst.trans hsecond⟩
  bound c node := by
    have hfirst := hstep.bound c node
    have hsecond := (hnext (step c).1).bound (step c).2 node
    rw [List.filterMap_append, List.count_append]
    show (next (step c).1 (step c).2).2.bound node ≤ _
    omega
  suits hpre c hc hleads hall := by
    obtain ⟨names, hfirst⟩ := hstep.grown c hc
    have hready := hc.later hfirst
    obtain ⟨more, hsecond⟩ := (hnext (step c).1).grown (step c).2 hready
    -- what comes after the first step only adds to it
    have hbefore : (step c).2.LeadsTo chart := hleads.earlier hsecond
    obtain ⟨hmid, hpost⟩ := hstep.suits (hneed hpre) c hc hbefore hall
    obtain ⟨hlast, hpost'⟩ :=
      (hnext _).suits (hneed' hpre hpost) _ hready hleads hmid
    exact ⟨hlast, hpost, hpost'⟩

theorem conseq {step : Collect α} {pre' post' : Prop}
    (h : Surveys chart scopes first pre post step)
    (hpieces : first.Sublist pieces) (hpre : pre' → pre)
    (hpost : pre' → post → post') :
    Surveys chart scopes pieces pre' post' step where
  grown := h.grown
  bound c node := by
    have hcount := (hpieces.filterMap Piece.opener?).count_le node
    exact Nat.le_trans (h.bound c node) (Nat.add_le_add_left hcount _)
  suits hpre' c hc hleads hall := by
    obtain ⟨hlast, hdone⟩ := h.suits (hpre hpre') c hc hleads hall
    exact ⟨hlast, hpost hpre' hdone⟩

theorem imp {step : Collect α} {post' : Prop}
    (h : Surveys chart scopes pieces pre post step)
    (hpost : pre → post → post') :
    Surveys chart scopes pieces pre post' step := by
  exact .conseq h (List.Sublist.refl _) (fun hpre => hpre) hpost

theorem seq {step : Collect α} {next : α → Collect β} {mid : Prop}
    (hstep : Covers chart scopes first mid step)
    (hnext : ∀ a, Covers chart scopes second post (next a)) :
    Covers chart scopes (first ++ second) (mid ∧ post) (step >>= next) := by
  exact .bind hstep hnext (fun h => (Chart.shows_append.mp h).1) fun h _ =>
    (Chart.shows_append.mp h).2

theorem bindNode (node : NodeId) (id : ScopeId) :
    Surveys chart scopes [.opener true node] pre ((node, id) ∈ chart.tree.nodes)
      (bindNode node id) where
  grown c hc := ⟨[], Declares.bindNode node id c hc.sound hc.has⟩
  bound c other := by
    show ((node :: c.tree.nodes.map (·.1)).count other) ≤ _ +
      List.count other [node]
    exact Nat.le_of_eq
      (by rw [Collection.bound, List.count_cons, List.count_singleton])
  suits _ c _ hleads hall := ⟨hall, hleads.tree.nodes.subset (.head _)⟩

theorem within {kind : ScopeKind} {name : String} {next : ScopeId → Collect α}
    {good : ScopeId → Prop} (hscope : scope ∈ scopes)
    (hnext : ∀ inner, Surveys chart (inner :: scopes) pieces pre (good inner)
      (next inner)) :
    Surveys chart scopes pieces pre (∃ inner, good inner)
      (createScope kind name scope >>= next) := by
  have hmade {c : Collection} (hc : c.Ready scopes) :
      c.Grown [] (createScope kind name scope c).2 :=
    createScope_grown hc.sound (hc.has scope hscope)
  have hready {c : Collection} (hc : c.Ready scopes) :
      (createScope kind name scope c).2.Ready
      ((createScope kind name scope c).1 :: scopes) :=
    ⟨(hmade hc).sound,
      List.forall_mem_cons.mpr ⟨has_createScope, (hc.later (hmade hc)).has⟩⟩
  constructor
  case grown =>
    intro c hc
    obtain ⟨names, hgrown⟩ := (hnext _).grown _ (hready hc)
    exact ⟨[] ++ names, (hmade hc).trans hgrown⟩
  case bound => exact fun c node =>
    (hnext _).bound (createScope kind name scope c).2 node
  case suits =>
    intro hpre c hc hleads hall
    have hsymbols : (createScope kind name scope c).2.tree.symbols =
        c.tree.symbols :=
      ScopeTree.createScope_symbols c.tree kind name (some scope)
    have hsame : (createScope kind name scope c).2.tree.All
        (Symbol.Suits chart.regime) :=
      fun symbol hsymbol => hall symbol (hsymbols ▸ hsymbol)
    obtain ⟨hlast, hgood⟩ := (hnext _).suits hpre _ (hready hc) hleads hsame
    exact ⟨hlast, _, hgood⟩

theorem opening {kind : ScopeKind} {name : String} {node : NodeId}
    {next : ScopeId → Collect α} {good : ScopeId → Prop}
    (hdistinct : chart.Distinct) (hscope : scope ∈ scopes)
    (hnext : ∀ inner, Surveys chart (inner :: scopes) pieces pre (good inner)
      (next inner))
    (hloose : pre → chart.whole = false → ∀ inner, good inner) :
    Surveys chart scopes (.opener true node :: pieces) pre
      (chart.Opens node good) (createScope kind name scope >>= fun inner =>
        Collect.bindNode node inner >>= fun _ => next inner) := by
  have hinner (inner : ScopeId) : Surveys chart (inner :: scopes)
      ([.opener true node] ++ pieces)
      pre ((node, inner) ∈ chart.tree.nodes ∧ good inner)
      (Collect.bindNode node inner >>= fun _ => next inner) :=
    .bind (.bindNode node inner) (fun _ => hnext inner) (fun h => h)
      fun h _ => h
  refine .imp (.within hscope hinner) ?_
  rintro hpre ⟨inner, hnode, hgood⟩
  exact hdistinct.opens hnode hgood (hloose hpre)

theorem opens {kind : ScopeKind} {name : String} {node : NodeId}
    {next : ScopeId → Collect α} {good : ScopeId → Prop}
    (hdistinct : chart.Distinct) (hscope : scope ∈ scopes)
    (hnext : ∀ inner, Covers chart (inner :: scopes) pieces (good inner)
      (next inner))
    (hloose : chart.whole = false → chart.Shows pieces → ∀ inner, good inner) :
    Covers chart scopes (.opener true node :: pieces) (chart.Opens node good)
      (createScope kind name scope >>= fun inner =>
        Collect.bindNode node inner >>= fun _ => next inner) := by
  exact .conseq (.opening hdistinct hscope hnext fun hshows hwhole =>
    hloose hwhole hshows)
    (List.Sublist.refl _) (fun h => (Chart.shows_cons.mp h).2) fun _ h => h

theorem declare {symbol : Symbol} (hscope : scope ∈ scopes)
    (hkind : (symbol.kind == .use) = false) :
    Surveys chart scopes [] (symbol.SuitsAt chart scope)
      (chart.Takes scope symbol) (declare scope symbol) where
  grown c hc := ⟨[symbol.name], declare_grown hc.sound (hc.has scope hscope)
    (.of_ne (ne_of_beq_false hkind))⟩
  bound c node := by
    rw [Collection.bound, declare_nodes]
    exact Nat.le_add_right _ _
  suits hsuits c hc hleads hall :=
    ⟨declare_all hall fun _ => { hsuits with },
      Chart.takes_of_declare (hc.has scope hscope) hleads⟩

theorem declareAll {symbols : List Symbol} (hscope : scope ∈ scopes)
    (hkind : ∀ symbol ∈ symbols, (symbol.kind == .use) = false) :
    Surveys chart scopes [] (∀ symbol ∈ symbols, symbol.SuitsAt chart scope)
      (∀ symbol ∈ symbols, chart.Takes scope symbol)
      (declareAll scope symbols) := by
  induction symbols with
  | nil => exact .imp (.pure ()) fun _ _ => List.forall_mem_nil _
  | cons symbol rest ih =>
    rw [List.forall_mem_cons] at hkind
    have hboth := Surveys.bind (.declare hscope hkind.1) (fun _ => ih hkind.2)
      (fun h => (List.forall_mem_cons.mp h).1) fun h _ =>
        (List.forall_mem_cons.mp h).2
    exact .imp hboth fun _ hboth => List.forall_mem_cons.mpr hboth

end Surveys

/-!
## Declared symbols
-/

namespace Symbol

variable {scope : ScopeId}

theorem suitsAt_of_ty {symbol : Symbol} (hty : Meets chart.regime symbol.ty)
    (hparams : symbol.info.params = []) (hresult : symbol.info.result = none)
    (hascribed : symbol.info.ascribed = none)
    (haliased : symbol.info.aliased = none)
    (hvalue : symbol.info.initializer = none) : symbol.SuitsAt chart scope := by
  constructor
  case ty => exact hty
  case initializer => simp [hvalue]
  all_goals simp [hparams, hresult, hascribed, haliased]

theorem suitsAt_of_value {symbol : Symbol} (hty : Meets chart.regime symbol.ty)
    (hparams : symbol.info.params = []) (hresult : symbol.info.result = none)
    (haliased : symbol.info.aliased = none)
    (hascribed : Meets chart.regime symbol.info.ascribed)
    (hvalue : Expr.SuitsOpt chart.regime scope symbol.info.initializer) :
    symbol.SuitsAt chart scope := by
  constructor
  case ty => exact hty
  case ascribed => exact hascribed
  case initializer =>
    exact fun value hmem _ => (Expr.suitsOpt_iff_forall _).mp hvalue value hmem
  all_goals simp [hparams, hresult, haliased]

variable {slot : Slot} {decl : FuncDecl} {owner : Option Ty}

theorem meets_paramInfos {params : List Slot} {isMethod : Bool}
    (hparams : Slot.SuitAll chart.regime scope params) :
    Meets chart.regime (paramInfos params isMethod) := by
  intro info hinfo
  obtain ⟨param, hparam, rfl⟩ := List.mem_map.mp hinfo
  exact ((Slot.suitAll_iff_forall params).mp hparams param
    (List.mem_filter.mp hparam).1).1

theorem suitsAt_ofFunc {body : ScopeId} {isMethod : Bool}
    (hparams : Slot.SuitAll chart.regime scope decl.params)
    (hresult : Meets chart.regime decl.result) :
    (ofFunc decl body isMethod).SuitsAt chart scope where
  ty := meets_none
  params := meets_paramInfos hparams
  result := hresult
  ascribed := meets_none
  aliased := meets_none
  initializer _ hmem := (Option.not_mem_none _ hmem).elim

theorem suitsAt_ofSignature (howner : Meets chart.regime owner)
    (hparams : Slot.SuitAll chart.regime scope decl.params) :
    ∀ symbol ∈ ofSignature decl owner, symbol.SuitsAt chart scope := by
  intro symbol hsymbol
  simp only [ofSignature, List.mem_append, List.mem_map] at hsymbol
  rcases hsymbol with (hreceiver | herrors) | ⟨param, hparam, rfl⟩
  · split at hreceiver
    · split at hreceiver
      · rw [List.mem_singleton] at hreceiver
        subst hreceiver
        exact suitsAt_of_ty howner rfl rfl rfl rfl rfl
      · exact (List.not_mem_nil hreceiver).elim
    · exact (List.not_mem_nil hreceiver).elim
  · split at herrors
    · rw [List.mem_singleton] at herrors
      subst herrors
      exact suitsAt_of_ty (meets_some.mpr (Ty.meets_errors _)) rfl
        rfl rfl rfl rfl
    · exact (List.not_mem_nil herrors).elim
  · have hslot := (Slot.suitAll_iff_forall _).mp hparams param hparam
    refine suitsAt_of_value ?_ rfl rfl rfl (meets_some.mpr hslot.1)
      ((Expr.suitsOpt_iff_forall _).mpr hslot.2)
    show Meets chart.regime (if param.name == selfName then owner else none)
    split
    · exact howner
    · exact meets_none

end Symbol

theorem StructDecl.meets_toTy {decl : StructDecl} {scope : ScopeId}
    (hfields : Slot.SuitAll chart.regime scope decl.fields)
    (members : ScopeId) :
    Meets chart.regime (decl.toTy members) := by
  rw [StructDecl.toTy, Ty.meets_struct]
  intro member hmember
  obtain ⟨field, hfield, rfl⟩ := List.mem_map.mp hmember
  exact ((Slot.suitAll_iff_forall decl.fields).mp hfields field hfield).1

theorem EnumDecl.meets_toTy {decl : EnumDecl}
    (hvariants : VariantDecl.SuitAll chart.regime decl.variants)
    (members : ScopeId) :
    Meets chart.regime (decl.toTy members) := by
  rw [EnumDecl.toTy, Ty.meets_enum]
  intro variant hvariant
  obtain ⟨declared, hdeclared, rfl⟩ := List.mem_map.mp hvariant
  exact (VariantDecl.suitAll_iff_meets decl.variants).mp hvariants
    declared hdeclared

/-!
## The walk over a program
-/

namespace Surveys

open Chart StaticCheck.Symbol

variable {scopes : List ScopeId} {scope : ScopeId} {pre : Prop}

theorem use (hscope : scope ∈ scopes) (span : Span) (decl : UseDecl) :
    Surveys chart scopes [] pre True (collectUse scope span decl) where
  grown c hc :=
    ⟨[decl.localName], Declares.use hscope span decl c hc.sound hc.has⟩
  bound c node := by
    obtain ⟨imported, hcases, hrun⟩ := collectUse_cases scope span decl c
    rw [hrun, Collection.bound, declare_nodes]
    rcases hcases with rfl | ⟨target, -, rfl⟩ <;> exact Nat.le_add_right _ _
  suits _ c _ _ hall := by
    obtain ⟨imported, hcases, hrun⟩ := collectUse_cases scope span decl c
    have himported : imported.tree.All (Symbol.Suits chart.regime) := by
      rcases hcases with rfl | ⟨target, -, rfl⟩ <;> exact hall
    rw [hrun]
    have hsuits : (ofUse decl (c.tree.moduleScope? decl.module) span).SuitsAt
        chart scope :=
      suitsAt_of_ty meets_none rfl rfl rfl rfl rfl
    exact ⟨declare_all himported fun _ => { hsuits with }, trivial⟩

theorem errorSet (hscope : scope ∈ scopes) (id : NodeId) (span : Span)
    (decl : DefDecl) (names : List String) :
    Surveys chart scopes [.opener true id] (Meets chart.regime decl.ty)
      (chart.Declares scope decl.name ∧ chart.Assigns scope decl.name none)
      (collectErrorSet scope id span decl names) := by
  have herrors : Meets chart.regime (some (Ty.errors names)) :=
    meets_some.mpr (Ty.meets_errors _)
  have hmembers {members : ScopeId} :
      ∀ symbol ∈ names.map (ofErrorMember names span),
      symbol.SuitsAt chart members :=
    List.forall_mem_map.mpr fun _ _ => suitsAt_of_ty herrors rfl rfl rfl rfl rfl
  have hkinds : ∀ symbol ∈ names.map (ofErrorMember names span),
      (symbol.kind == .use) = false :=
    List.forall_mem_map.mpr fun _ _ => rfl
  refine .imp (.within hscope fun members => .bind (.bindNode id members)
    (fun _ => .bind (.declareAll (.head _) hkinds)
      (fun _ => .declare (.tail _ hscope) rfl)
      (fun _ => hmembers) fun hty _ => ?_) (fun h => h) fun h _ => h) ?_
  · exact ⟨herrors, meets_nil, meets_none, hty, meets_none, fun _ hmem =>
      (Option.not_mem_none _ hmem).elim⟩
  · rintro - ⟨members, -, -, hdeclares, hassigns⟩
    exact ⟨hdeclares, hassigns⟩

theorem sublist_of_value (first value rest : List Piece) :
    (value ++ []).Sublist (first ++ (value ++ rest)) := by
  exact (List.nil_sublist rest).append_left value |>.trans
    (List.sublist_append_right first _)

theorem ofKind {id : NodeId} {span : Span} {kind : ExprKind}
    {step : Collect Unit}
    (hkind : Covers chart scopes (kind.pieces true id)
      (kind.Suits chart.regime scope id) step) :
    Covers chart scopes (Expr.pieces true ⟨id, span, kind⟩)
      (Expr.Suits chart.regime scope ⟨id, span, kind⟩) step := by
  exact .conseq hkind (List.sublist_cons_self _ _)
    (fun h => (shows_cons.mp h).2) fun h hsuits => ⟨(shows_cons.mp h).1, hsuits⟩

theorem constant {id : NodeId} {span : Span} {decl : DefDecl}
    {step : Collect Unit} (hscope : scope ∈ scopes)
    (hvalue : Covers chart scopes (decl.value.pieces true)
      (decl.value.Suits chart.regime scope) step) :
    Covers chart scopes ((StmtKind.defDecl decl).pieces true id)
      ((StmtKind.defDecl decl).Suits chart.regime scope)
      (step >>= fun _ => collectConstant scope span decl) := by
  obtain ⟨name, visibility, ty, value⟩ := decl
  refine .conseq (.bind hvalue (fun _ => .declare hscope rfl) ?_ ?_)
    (sublist_of_value _ _ _) (fun h => h) ?_
  · exact fun h => (shows_append.mp (shows_append.mp h).2).1
  · intro h hsuits
    have hty := Ty.suitsOpt_of_shows ty (shows_append.mp h).1
    exact suitsAt_of_value meets_none rfl rfl rfl
      ((Ty.suitsOpt_iff_meets ty).mp hty) hsuits
  · rintro h ⟨hsuits, hdeclares, hassigns⟩
    exact ⟨⟨hdeclares, hassigns⟩,
      Ty.suitsOpt_of_shows ty (shows_append.mp h).1, hsuits⟩

theorem typeAlias {id valueId : NodeId} {span valueSpan : Span} {name : String}
    {visibility : Visibility} {ty : Option Ty} {aliased : Ty}
    (hscope : scope ∈ scopes) :
    Covers chart scopes
      (StmtKind.pieces true id
        (.defDecl ⟨name, visibility, ty, valueId, valueSpan, .type aliased⟩))
      (StmtKind.Suits chart.regime scope
        (.defDecl ⟨name, visibility, ty, valueId, valueSpan, .type aliased⟩))
      (collectAlias scope span
        ⟨name, visibility, ty, valueId, valueSpan, .type aliased⟩ aliased) := by
  refine .conseq (.declare hscope rfl) (List.nil_sublist _) ?_ ?_
  · intro h
    have hparts := shows_append.mp h
    have hvalue := shows_cons.mp (shows_append.mp hparts.2).1
    exact ⟨meets_none, meets_nil, meets_none,
      (Ty.suitsOpt_iff_meets ty).mp (Ty.suitsOpt_of_shows ty hparts.1),
      meets_some.mpr (aliased.suits_of_shows hvalue.2),
      fun _ hmem => (Option.not_mem_none _ hmem).elim⟩
  · intro h htakes
    have hparts := shows_append.mp h
    have hvalue := shows_cons.mp (shows_append.mp hparts.2).1
    exact ⟨htakes, Ty.suitsOpt_of_shows ty hparts.1, hvalue.1,
      aliased.suits_of_shows hvalue.2⟩

theorem signature_of_shows {id bodyId : NodeId} {params : List Slot}
    {result : Option Ty} {body : List Stmt}
    (h : chart.Shows (.opener true id :: .opener true bodyId ::
      (Slot.piecesAll params ++
        (Ty.piecesOpt result ++ Stmt.piecesAll true body)))) :
    (∀ inner, Slot.SuitAll chart.regime inner params) ∧
      Ty.SuitsOpt chart.regime result ∧
      chart.Shows (Stmt.piecesAll true body) := by
  have hparams := shows_append.mp (shows_cons.mp (shows_cons.mp h).2).2
  have hresult := shows_append.mp hparams.2
  exact ⟨fun _ => Slot.suitAll_of_shows params hparams.1,
    Ty.suitsOpt_of_shows result hresult.1, hresult.2⟩

section

set_option linter.unusedSectionVars false

variable (hdistinct : chart.Distinct)

include hdistinct

mutual

theorem stmt {scopes : List ScopeId} {scope : ScopeId} (hscope : scope ∈ scopes)
    (stmt : Stmt) : Covers chart scopes (stmt.pieces true)
      (stmt.Suits chart.regime scope) (collectStmt scope stmt) := by
  obtain ⟨id, span, kind⟩ := stmt
  exact stmtKind hscope id span kind

theorem stmtKind {scopes : List ScopeId} {scope : ScopeId}
    (hscope : scope ∈ scopes) (id : NodeId) (span : Span) (kind : StmtKind) :
    Covers chart scopes (kind.pieces true id)
      (kind.Suits chart.regime scope) (collectStmtKind scope id span kind) := by
  cases kind with
  | expr value => exact expr hscope value
  | block inner =>
    obtain ⟨blockId, body, blockSpan⟩ := inner
    exact block hscope .block ⟨blockId, body, blockSpan⟩
  | letDecl decl =>
    obtain ⟨name, visibility, mutable, ty, value⟩ := decl
    refine .conseq
      (.bind (exprOpt hscope value) (fun _ => .declare hscope rfl) ?_ ?_)
      (sublist_of_value _ _ _) (fun h => h) ?_
    · exact fun h => (shows_append.mp (shows_append.mp h).2).1
    · intro h hvalue
      have hty := Ty.suitsOpt_of_shows ty (shows_append.mp h).1
      exact suitsAt_of_value meets_none rfl rfl rfl
        ((Ty.suitsOpt_iff_meets ty).mp hty) hvalue
    · rintro h ⟨hvalue, hdeclares, hassigns⟩
      exact ⟨⟨hdeclares, hassigns⟩,
        Ty.suitsOpt_of_shows ty (shows_append.mp h).1, hvalue⟩
  | defDecl decl =>
    obtain ⟨name, visibility, ty, valueId, valueSpan, valueKind⟩ := decl
    have hvalue := exprKind hscope valueId valueSpan valueKind
    cases valueKind with
    | type aliased =>
      cases aliased with
      | errors names =>
        refine .conseq (.errorSet hscope id span _ names) ?_ ?_ ?_
        · exact ((List.nil_sublist _).cons_cons _).trans
            ((List.sublist_cons_self _ _).trans (List.sublist_append_right _ _))
        · exact fun h => (Ty.suitsOpt_iff_meets ty).mp
            (Ty.suitsOpt_of_shows ty (shows_append.mp h).1)
        · intro h hdeclares
          have hparts := shows_append.mp h
          exact ⟨hdeclares, Ty.suitsOpt_of_shows ty hparts.1,
            (shows_cons.mp hparts.2).1, trivial⟩
      | _ => exact .typeAlias hscope
    | _ => exact .constant hscope (.ofKind hvalue)
  | func decl =>
    exact .conseq (func hscope none decl) (List.Sublist.refl _)
      (fun h => ⟨meets_none, h⟩) fun _ h => h
  | struct decl =>
    obtain ⟨declId, name, visibility, fields, members, declSpan⟩ := decl
    have hfields {rest : List Piece}
        (h : chart.Shows (Slot.piecesAll fields ++ rest))
        (inner : ScopeId) : Slot.SuitAll chart.regime inner fields :=
      Slot.suitAll_of_shows fields (shows_append.mp h).1
    have hkinds : ∀ symbol ∈ fields.map ofField,
        (symbol.kind == .use) = false :=
      List.forall_mem_map.mpr fun _ _ => rfl
    refine .opens hdistinct hscope (fun inner => .conseq
      (.bind (.declare (.tail _ hscope) rfl)
        (fun _ => .bind (.declareAll (.head _) hkinds)
        (fun _ => methods (.head _) _ members) ?_ ?_) ?_ fun h _ => h)
      (List.sublist_append_right _ _) (fun h => h) ?_) ?_
    · intro h
      refine List.forall_mem_map.mpr fun field hfield => ?_
      have hslot :=
        (Slot.suitAll_iff_forall fields).mp (hfields h inner) field hfield
      exact suitsAt_of_value meets_none rfl rfl rfl (meets_some.mpr hslot.1)
        ((Expr.suitsOpt_iff_forall _).mpr hslot.2)
    · exact fun h _ =>
        ⟨StructDecl.meets_toTy (hfields h inner) inner, (shows_append.mp h).2⟩
    · intro h
      exact suitsAt_of_ty
        (meets_some.mpr (StructDecl.meets_toTy (hfields h inner) inner))
        rfl rfl rfl rfl rfl
    · rintro h ⟨-, hdeclared, hmethods⟩
      refine ⟨hfields h inner, hmethods, fun field hfield => ?_⟩
      exact (hdeclared _ (List.mem_map_of_mem hfield)).2
    · exact fun hloose h inner => ⟨hfields h inner,
        FuncDecl.suitAll_of_shows members (fun _ => hloose)
        (shows_append.mp h).2,
        fun _ _ => assigns_of_loose hloose⟩
  | enum decl =>
    obtain ⟨declId, name, visibility, variants, members, declSpan⟩ := decl
    have hvariants {rest : List Piece}
        (h : chart.Shows (VariantDecl.piecesAll variants ++ rest)) :
        VariantDecl.SuitAll chart.regime variants :=
      VariantDecl.suitAll_of_shows variants (shows_append.mp h).1
    refine .opens hdistinct hscope (fun inner => .conseq
      (.bind (.declare (.tail _ hscope) rfl) (fun _ => .bind
        (.declareAll (.head _) (List.forall_mem_map.mpr fun _ _ => rfl))
        (fun _ => methods (.head _) _ members) ?_ ?_) ?_ fun h _ => h)
      (List.sublist_append_right _ _) (fun h => h) ?_) ?_
    · intro h
      refine List.forall_mem_map.mpr fun variant hvariant => ?_
      have hpayload := (VariantDecl.suitAll_iff_meets variants).mp (hvariants h)
        variant hvariant
      exact suitsAt_of_value
        (meets_some.mpr (EnumDecl.meets_toTy (hvariants h) inner))
        rfl rfl rfl hpayload trivial
    · exact fun h _ =>
        ⟨EnumDecl.meets_toTy (hvariants h) inner, (shows_append.mp h).2⟩
    · intro h
      exact suitsAt_of_ty
        (meets_some.mpr (EnumDecl.meets_toTy (hvariants h) inner))
        rfl rfl rfl rfl rfl
    · exact fun h hpost => ⟨hvariants h, hpost.2.2⟩
    · exact fun hloose h inner => ⟨hvariants h,
        FuncDecl.suitAll_of_shows members (fun _ => hloose)
        (shows_append.mp h).2⟩
  | use decl =>
    exact .imp (.use hscope span decl) fun _ _ => trivial
  | returnStmt value =>
    exact .imp (exprOpt hscope value) fun _ hvalue => ⟨trivial, hvalue⟩
  | throwStmt value =>
    exact .imp (expr hscope value) fun _ hvalue => ⟨trivial, hvalue⟩
  | whileLoop condition body =>
    obtain ⟨bodyId, body, bodySpan⟩ := body
    exact .seq (expr hscope condition) fun _ =>
      block hscope .loop ⟨bodyId, body, bodySpan⟩
  | forLoop binding iterable body =>
    obtain ⟨bodyId, body, bodySpan⟩ := body
    refine .imp (.seq (expr hscope iterable) fun _ => .opens hdistinct hscope
      (fun inner => .bind (.declare (.head _) rfl)
        (fun _ => stmts (.head _) body)
        (fun _ => suitsAt_of_ty meets_none rfl rfl rfl rfl rfl) fun h _ => h)
        ?_) ?_
    · refine fun hloose hshows inner =>
        ⟨⟨fun _ => hloose, assigns_of_loose hloose⟩, ?_⟩
      exact Stmt.suitAll_of_shows body (fun _ => hloose) hshows
    · rintro - ⟨hiterable, hopens⟩
      refine ⟨fun id hid pledge hpledged => ?_, hiterable,
        hopens.imp fun _ hinner => hinner.2⟩
      obtain ⟨inner, hinner, hid⟩ := Option.bind_eq_some_iff.mp hid
      cases (hopens.opened inner hinner).1.2 id hid pledge hpledged
  | breakStmt | continueStmt =>
    exact .imp (.pure ()) fun _ _ => trivial

theorem stmts {scopes : List ScopeId} {scope : ScopeId}
    (hscope : scope ∈ scopes) (stmts : List Stmt) :
    Covers chart scopes (Stmt.piecesAll true stmts)
      (Stmt.SuitAll chart.regime scope stmts) (collectStmts scope stmts) := by
  cases stmts with
  | nil => exact .pure ()
  | cons first rest =>
    exact .seq (stmt hscope first) fun _ => Surveys.stmts hscope rest

theorem stmtOpt {scopes : List ScopeId} {scope : ScopeId}
    (hscope : scope ∈ scopes) (stmt : Option Stmt) :
    Covers chart scopes (Stmt.piecesOpt true stmt)
      (Stmt.SuitsOpt chart.regime scope stmt) (collectStmtOpt scope stmt) := by
  cases stmt with
  | none => exact .pure ()
  | some stmt => exact Surveys.stmt hscope stmt

theorem block {scopes : List ScopeId} {scope : ScopeId}
    (hscope : scope ∈ scopes) (kind : ScopeKind) (block : Block) :
    Covers chart scopes (block.pieces true)
      (chart.Opens block.id fun inner => Stmt.SuitAll chart.regime
        inner block.body)
      (collectBlock scope kind block) := by
  obtain ⟨id, body, _⟩ := block
  exact .opens hdistinct hscope (fun inner => stmts (.head _) body)
    fun hloose hshows inner =>
    Stmt.suitAll_of_shows body (fun _ => hloose) hshows

theorem func {scopes : List ScopeId} {scope : ScopeId} (hscope : scope ∈ scopes)
    (owner : Option Ty) (decl : FuncDecl) :
    Surveys chart scopes (decl.pieces true)
      (Meets chart.regime owner ∧ chart.Shows (decl.pieces true))
      (decl.Suits chart.regime scope) (collectFunc scope owner decl) := by
  obtain ⟨id, name, visibility, params, result, error, ⟨bodyId, body, bodySpan⟩,
    span⟩ := decl
  refine .opening hdistinct hscope (fun inner => .conseq
    (.bind (.bindNode bodyId inner)
      (fun _ => .bind (.declare (.tail _ hscope) rfl)
      (fun _ => .bind (.declareAll (.head _) (ofSignature_kind _ _))
        (fun _ => stmts (.head _) body) ?_ ?_) ?_ fun h _ => h) (fun h => h)
        fun h _ => h)
    ?_ (fun h => h) ?_) ?_
  · exact fun h => suitsAt_ofSignature h.1 ((signature_of_shows h.2).1 inner)
  · exact fun h _ => (signature_of_shows h.2).2.2
  · exact fun h => suitsAt_ofFunc ((signature_of_shows h.2).1 scope)
      ((Ty.suitsOpt_iff_meets result).mp (signature_of_shows h.2).2.1)
  · exact ((List.sublist_append_right _ _).trans
      (List.sublist_append_right _ _)).cons_cons _
  · rintro h ⟨-, -, hdeclared, hbody⟩
    refine ⟨(signature_of_shows h.2).1 inner,
      (signature_of_shows h.2).2.1, hbody, ?_⟩
    exact fun param hparam =>
      (hdeclared _ (List.mem_append_right _ (List.mem_map_of_mem hparam))).2
  · exact fun h hloose inner =>
      ⟨(signature_of_shows h.2).1 inner, (signature_of_shows h.2).2.1,
        Stmt.suitAll_of_shows body (fun _ => hloose)
        (signature_of_shows h.2).2.2,
      fun _ _ => assigns_of_loose hloose⟩

theorem methods {scopes : List ScopeId} {scope : ScopeId}
    (hscope : scope ∈ scopes) (owner : Ty) (methods : List FuncDecl) :
    Surveys chart scopes (FuncDecl.piecesAll true methods)
      (Meets chart.regime owner ∧ chart.Shows (FuncDecl.piecesAll true methods))
      (FuncDecl.SuitAll chart.regime scope methods)
      (collectMethods scope owner methods) := by
  cases methods with
  | nil => exact .pure ()
  | cons first rest =>
    refine .bind (func hscope (some owner) first)
      (fun _ => Surveys.methods hscope owner rest) ?_ ?_
    · exact fun h => ⟨meets_some.mpr h.1, (shows_append.mp h.2).1⟩
    · exact fun h _ => ⟨h.1, (shows_append.mp h.2).2⟩

theorem expr {scopes : List ScopeId} {scope : ScopeId} (hscope : scope ∈ scopes)
    (expr : Expr) : Covers chart scopes (expr.pieces true)
      (expr.Suits chart.regime scope) (collectExpr scope expr) := by
  obtain ⟨id, span, kind⟩ := expr
  exact .ofKind (exprKind hscope id span kind)

theorem exprKind {scopes : List ScopeId} {scope : ScopeId}
    (hscope : scope ∈ scopes) (id : NodeId) (span : Span) (kind : ExprKind) :
    Covers chart scopes (kind.pieces true id)
      (kind.Suits chart.regime scope id)
      (collectExprKind scope id span kind) := by
  cases kind with
  | literal literal =>
    cases literal with
    | array elements => exact exprs hscope elements
    | _ => exact .pure ()
  | ident | unreachable => exact .pure ()
  | type ty =>
    exact .conseq (.pure ()) (List.nil_sublist _) (fun h => h)
      fun h _ => ty.suits_of_shows h
  | tuple elements => exact exprs hscope elements
  | object _ inits => exact fields hscope inits
  | binary _ left right | orElse left right | index left right =>
    exact .seq (expr hscope left) fun _ => expr hscope right
  | call callee args =>
    exact .seq (expr hscope callee) fun _ => exprs hscope args
  | paren operand | unary _ operand | member operand _ | increment operand
  | decrement operand
  | deref operand | typeOf operand | sizeOf operand | tryExpr operand =>
    exact expr hscope operand
  | cast operand target =>
    refine .conseq (expr hscope operand) (List.sublist_append_left _ _)
      (fun h => (shows_append.mp h).1) fun h hoperand => ⟨hoperand, ?_⟩
    exact target.suits_of_shows (shows_append.mp h).2
  | range start stop _ =>
    exact .seq (exprOpt hscope start) fun _ => exprOpt hscope stop
  | catchExpr operand binding handler =>
    have hbinding :
        ∀ symbol ∈ (binding.map fun name => ofCatchBinding name span).toList,
        (symbol.kind == .use) = false ∧
        ∀ inner, symbol.SuitsAt chart inner := by
      intro symbol hsymbol
      obtain ⟨name, -, rfl⟩ :=
        Option.map_eq_some_iff.mp (Option.mem_toList.mp hsymbol)
      have herr : Meets chart.regime (some Ty.err) :=
        meets_some.mpr (Ty.meets_prim _)
      exact ⟨rfl, fun _ => suitsAt_of_ty herr rfl rfl rfl rfl rfl⟩
    refine .seq (expr hscope operand) fun _ =>
      .opens hdistinct hscope (fun inner => .imp
      (.bind (.declareAll (.head _) fun symbol h => (hbinding symbol h).1)
        (fun _ => stmt (.head _) handler)
        (fun _ symbol h => (hbinding symbol h).2 inner)
        fun h _ => h) fun _ h => h.2) ?_
    exact fun hloose hshows inner =>
      handler.suits_of_shows (fun _ => hloose) hshows
  | ifExpr condition thenBranch elseBranch =>
    exact .seq (expr hscope condition) fun _ =>
      .seq (stmt hscope thenBranch) fun _ =>
      stmtOpt hscope elseBranch
  | matchExpr subject branches default =>
    exact .seq (expr hscope subject) fun _ =>
      .seq (cases hscope branches) fun _ =>
      stmtOpt hscope default

theorem exprs {scopes : List ScopeId} {scope : ScopeId}
    (hscope : scope ∈ scopes) (exprs : List Expr) :
    Covers chart scopes (Expr.piecesAll true exprs)
      (Expr.SuitAll chart.regime scope exprs) (collectExprs scope exprs) := by
  cases exprs with
  | nil => exact .pure ()
  | cons first rest =>
    exact .seq (expr hscope first) fun _ => Surveys.exprs hscope rest

theorem exprOpt {scopes : List ScopeId} {scope : ScopeId}
    (hscope : scope ∈ scopes) (expr : Option Expr) :
    Covers chart scopes (Expr.piecesOpt true expr)
      (Expr.SuitsOpt chart.regime scope expr) (collectExprOpt scope expr) := by
  cases expr with
  | none => exact .pure ()
  | some expr => exact Surveys.expr hscope expr

theorem fields {scopes : List ScopeId} {scope : ScopeId}
    (hscope : scope ∈ scopes) (fields : List ObjectField) :
    Covers chart scopes (ObjectField.piecesAll true fields)
      (ObjectField.SuitAll chart.regime scope fields)
      (collectFields scope fields) := by
  cases fields with
  | nil => exact .pure ()
  | cons first rest =>
    obtain ⟨_, value, _⟩ := first
    exact .seq (expr hscope value) fun _ => Surveys.fields hscope rest

theorem cases {scopes : List ScopeId} {scope : ScopeId}
    (hscope : scope ∈ scopes) (branches : List MatchCase) :
    Covers chart scopes (MatchCase.piecesAll true branches)
      (MatchCase.SuitAll chart.regime scope branches)
      (collectCases scope branches) := by
  cases branches with
  | nil => exact .pure ()
  | cons first rest =>
    obtain ⟨patterns, body⟩ := first
    refine .conseq (.seq (stmt hscope body) fun _ => Surveys.cases hscope rest)
      (List.sublist_append_right _ _) (fun h => (shows_append.mp h).2)
      fun h hpost => ⟨⟨?_, ?_⟩, ?_⟩
    · exact Expr.suitAll_of_shows patterns doubts_false (shows_append.mp h).1
    · exact hpost.1
    · exact hpost.2

end

theorem bodies {scopes : List ScopeId} {opened : List (Module × ScopeId)}
    (hopened : ∀ entry ∈ opened, entry.2 ∈ scopes) :
    Covers chart scopes
      (opened.flatMap fun entry => Stmt.piecesAll true entry.1.body)
      (∀ entry ∈ opened, Stmt.SuitAll chart.regime entry.2 entry.1.body)
      (opened.forM fun (module, scope) => collectStmts scope module.body) := by
  induction opened with
  | nil => exact .imp (.pure ()) fun _ _ => List.forall_mem_nil _
  | cons first rest ih =>
    rw [List.forall_mem_cons] at hopened
    have hfirst := stmts hdistinct hopened.1 first.1.body
    exact .imp (.seq hfirst fun _ => ih hopened.2) fun _ hsuits =>
      List.forall_mem_cons.mpr hsuits

end

end Surveys
end StaticCheck
