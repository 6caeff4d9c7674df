import StaticCheck.Proofs.TreeShape

/-!
# What becomes of declarations

The collector keeps its tree well-formed at every step, so the tree of every
program is well-formed.  Counting along the same walk, every declared name ends
as the name of a symbol or in a report of a duplicate, and every import leads to
the module that it names, be it collected before or after.
-/

namespace StaticCheck

open Collect

variable {α β : Type}

/-!
## One step
-/

def Problem.duplicate? : Problem → Option String
  | .duplicateSymbol name => some name
  | _ => none

def Diagnostics.duplicates (log : Diagnostics) : List String :=
  log.items.filterMap (·.problem.duplicate?)

def Symbol.Linked (modules : List (String × ScopeId)) (symbol : Symbol) :
    Prop :=
  symbol.kind = .use →
    ∃ name, symbol.info.module = some name ∧ symbol.info.scope =
    modules.lookup name

theorem Symbol.Linked.of_ne {modules : List (String × ScopeId)}
    {symbol : Symbol} (h : symbol.kind ≠ .use) : symbol.Linked modules :=
  fun hkind => absurd hkind h

namespace Collection

def names (c : Collection) : List String :=
  c.tree.symbols.toList.map (·.name) ++ c.diagnostics.duplicates

structure Sound (c : Collection) : Prop where
  wellFormed : c.tree.WellFormed
  linked : c.tree.All (Symbol.Linked c.tree.modules)
  imports : c.tree.ImportsModules

structure Grown (c : Collection) (names : List String) (later : Collection) :
    Prop where
  sound : later.Sound
  tree : c.tree.Extends later.tree
  modules : later.tree.modules = c.tree.modules
  names : later.names.Perm (c.names ++ names)
  unique : later.diagnostics.duplicates = [] → c.diagnostics.duplicates = []

variable {c : Collection}

theorem Grown.still (hc : c.Sound) : c.Grown [] c where
  sound := hc
  tree := .refl c.tree
  modules := rfl
  names := by rw [List.append_nil]
  unique h := h

theorem Grown.trans {first second : List String} {d e : Collection}
    (hcd : c.Grown first d) (hde : d.Grown second e) :
    c.Grown (first ++ second) e where
  sound := hde.sound
  tree := hcd.tree.trans hde.tree
  modules := hde.modules.trans hcd.modules
  names := by
    rw [← List.append_assoc]
    exact hde.names.trans (hcd.names.append_right second)
  unique h := hcd.unique (hde.unique h)

end Collection

namespace Collect

variable {c : Collection} {scope : ScopeId} {symbol : Symbol}

theorem duplicates_error (log : Diagnostics) (name : String) (span : Span) :
    (log.error (.duplicateSymbol name) span).duplicates = log.duplicates ++
      [name] := by
  simp [Diagnostics.duplicates, Diagnostics.error, Diagnostics.push,
    Problem.duplicate?]

theorem declare_grown (hc : c.Sound) (hscope : c.tree.Has scope)
    (hsymbol : symbol.Linked c.tree.modules) :
    c.Grown [symbol.name] (declare scope symbol c).2 := by
  cases hget : (c.tree.scope scope).get? symbol.name with
  | none =>
    rw [declare_of_free hget]
    constructor
    case sound =>
      refine ⟨hc.wellFormed.withSymbol hscope hget, ?_,
        hc.imports.withSymbol scope symbol⟩
      intro other hother
      simp only [ScopeTree.withSymbol, Array.toList_push, List.mem_append,
        List.mem_singleton] at hother
      rcases hother with hother | rfl
      · exact hc.linked other hother
      · exact hsymbol
    case tree => exact .withSymbol symbol hscope
    case modules => rfl
    case names =>
      simp only [Collection.names, ScopeTree.withSymbol, Array.toList_push,
        List.map_append, List.map_singleton, List.append_assoc]
      exact List.Perm.append_left _ List.perm_append_comm
    case unique => exact fun h => h
  | some existing =>
    rw [declare_of_taken hget]
    constructor
    case sound => exact ⟨hc.wellFormed, hc.linked, hc.imports⟩
    case tree => exact .refl c.tree
    case modules => rfl
    case names =>
      simp [Collection.names, duplicates_error]
    case unique => simp [duplicates_error]

theorem has_createScope {kind : ScopeKind} {name : String} :
    (createScope kind name scope c).2.tree.Has
      (createScope kind name scope c).1 := by
  exact ScopeTree.has_createScope.mpr (.inr rfl)

theorem createScope_grown {kind : ScopeKind} {name : String} (hc : c.Sound)
    (hscope : c.tree.Has scope) :
    c.Grown [] (createScope kind name scope c).2 := by
  have hsymbols : (createScope kind name scope c).2.tree.symbols =
      c.tree.symbols :=
    ScopeTree.createScope_symbols c.tree kind name (some scope)
  constructor
  case sound =>
    refine ⟨hc.wellFormed.createScope kind name hscope, ?_,
      hc.imports.createScope kind name hscope⟩
    intro symbol hsymbol
    exact hc.linked symbol (hsymbols ▸ hsymbol)
  case tree => exact .createScope kind name hscope
  case modules => rfl
  case names =>
    rw [Collection.names, hsymbols, List.append_nil]
    rfl
  case unique => exact fun h => h

end Collect

/-- The collecting step declares the given names, wherever it starts with the
given scopes made. -/
def Declares (scopes : List ScopeId) (names : List String) (step : Collect α) :
    Prop :=
  ∀ c : Collection, c.Sound → (∀ scope ∈ scopes, c.tree.Has scope) →
    c.Grown names (step c).2

namespace Declares

variable {scopes : List ScopeId} {scope : ScopeId} {names : List String}

theorem bind {first second : List String} {step : Collect α}
    {next : α → Collect β} (hstep : Declares scopes first step)
    (hnext : ∀ a, Declares scopes second (next a)) :
    Declares scopes (first ++ second) (step >>= next) := by
  intro c hc hscopes
  have hfirst := hstep c hc hscopes
  have hkept : ∀ scope ∈ scopes, (step c).2.tree.Has scope :=
    fun scope hscope => hfirst.tree.has scope (hscopes scope hscope)
  exact hfirst.trans (hnext _ _ hfirst.sound hkept)

theorem bindNode (node : NodeId) (id : ScopeId) :
    Declares scopes [] (bindNode node id) := by
  intro c hc _
  have hsound : (Collect.bindNode node id c).2.Sound :=
    ⟨⟨hc.wellFormed.toNested.congr (fun _ => Iff.rfl) fun _ => rfl,
      hc.wellFormed.toTabled.congr rfl fun _ => rfl⟩, hc.linked, hc.imports⟩
  exact { Collection.Grown.still hsound with tree := .bindNode node id }

theorem within {kind : ScopeKind} {name : String} {next : ScopeId → Collect α}
    (hscope : scope ∈ scopes)
    (hnext : ∀ inner, Declares (inner :: scopes) names (next inner)) :
    Declares scopes names (createScope kind name scope >>= next) := by
  intro c hc hscopes
  have hmade : c.Grown [] (createScope kind name scope c).2 :=
    createScope_grown hc (hscopes scope hscope)
  have hinner : ∀ other ∈ (createScope kind name scope c).1 :: scopes,
      (createScope kind name scope c).2.tree.Has other := by
    rw [List.forall_mem_cons]
    exact ⟨has_createScope, fun other hother =>
      hmade.tree.has other (hscopes other hother)⟩
  exact hmade.trans (hnext _ _ hmade.sound hinner)

theorem use (hscope : scope ∈ scopes) (span : Span) (decl : UseDecl) :
    Declares scopes [decl.localName] (collectUse scope span decl) := by
  intro c hc hscopes
  have hhas := hscopes scope hscope
  have hlinked :
      (Symbol.ofUse decl (c.tree.moduleScope? decl.module) span).Linked
      c.tree.modules :=
    fun _ => ⟨decl.module, rfl, rfl⟩
  obtain ⟨imported, hcases, hrun⟩ := collectUse_cases scope span decl c
  rw [hrun]
  rcases hcases with rfl | ⟨target, hfound, rfl⟩
  · exact declare_grown hc hhas hlinked
  · have himported : c.Grown []
        { c with tree := c.tree.addImport scope target } :=
      { Collection.Grown.still hc with
        sound := ⟨hc.wellFormed.addImport scope target, hc.linked,
          hc.imports.addImport scope hfound⟩
        tree := .addImport scope target }
    have hdeclared :=
      declare_grown himported.sound (himported.tree.has scope hhas) hlinked
    exact himported.trans hdeclared

end Declares

theorem Collected.declares {P : Symbol → Prop} {scopes : List ScopeId}
    {names : List String} {step : Collect α}
    (h : Collected P scopes names step) : Declares scopes names step := by
  induction h with
  | pure => exact fun _ hc _ => .still hc
  | bind _ _ hstep hnext => exact .bind hstep hnext
  | within hscope _ hnext => exact .within hscope hnext
  | bindNode node id => exact .bindNode node id
  | use hscope => exact .use hscope _ _
  | declare hscope hname hkind =>
    intro c hc hscopes
    rw [← hname]
    exact declare_grown hc (hscopes _ hscope) (.of_ne (ne_of_beq_false hkind))

/-!
## Modules
-/

theorem ScopeTree.Extends.registerModule {tree : ScopeTree} (name : String)
    (id : ScopeId) : tree.Extends (tree.registerModule name id) where
  has _ hid := hid
  title _ _ := rfl
  names _ := List.prefix_rfl
  symbols := List.prefix_rfl
  nodes := List.suffix_rfl

structure Collection.Opened (c : Collection) (modules : List Module)
    (opened : List (Module × ScopeId)) (later : Collection) : Prop where
  sound : later.Sound
  tree : c.tree.Extends later.tree
  symbols : later.tree.symbols = #[]
  diagnostics : later.diagnostics = c.diagnostics
  modules : opened.map (·.1) = modules
  registered : later.tree.modules =
    (opened.map fun entry => (entry.1.name, entry.2)).reverse ++ c.tree.modules
  nodes : later.tree.nodes =
    (opened.map fun entry => (entry.1.id, entry.2)).reverse ++ c.tree.nodes
  titled : ∀ entry ∈ opened, later.tree.Has entry.2 ∧
    (later.tree.scope entry.2).title = (.module, entry.1.name)

theorem Collection.withModule_opened {c : Collection} (hc : c.Sound)
    (hsymbols : c.tree.symbols = #[]) (module : Module) :
    c.Opened [module] [(module, ⟨c.tree.scopes.size⟩)]
      (c.withModule module) := by
  have hglobal := hc.wellFormed.root.1
  have hmade := hc.wellFormed.createScope .module module.name hglobal
  have hempty := ScopeTree.createScope_symbols c.tree .module module.name
    (some ScopeTree.global)
  constructor
  case sound =>
    refine ⟨⟨hmade.toNested.congr (fun _ => Iff.rfl) fun _ => rfl,
      hmade.toTabled.congr rfl fun _ => rfl⟩, fun symbol hsymbol => ?_,
      (hc.imports.createScope .module module.name hglobal).registerModule
      module.name _⟩
    have hnone : symbol ∈ (#[] : Array Symbol).toList := by
      rw [← hsymbols, ← hempty]
      exact hsymbol
    exact absurd hnone List.not_mem_nil
  case tree =>
    have hscope := ScopeTree.Extends.createScope .module module.name hglobal
    exact (hscope.trans (.bindNode module.id _)).trans
      (.registerModule module.name _)
  case symbols => exact hempty.trans hsymbols
  case diagnostics => rfl
  case modules => rfl
  case registered => rfl
  case nodes => rfl
  case titled =>
    rw [List.forall_mem_singleton]
    refine ⟨ScopeTree.has_createScope.mpr (.inr rfl), ?_⟩
    have hnew := ScopeTree.scope_createScope .module module.name hglobal
      ⟨c.tree.scopes.size⟩
    rw [if_pos rfl] at hnew
    exact congrArg Scope.title hnew

theorem Collection.Opened.append {c d e : Collection}
    {first second : List Module} {opened more : List (Module × ScopeId)}
    (hcd : c.Opened first opened d) (hde : d.Opened second more e) :
    c.Opened (first ++ second) (opened ++ more) e where
  sound := hde.sound
  tree := hcd.tree.trans hde.tree
  symbols := hde.symbols
  diagnostics := hde.diagnostics.trans hcd.diagnostics
  modules := by rw [List.map_append, hcd.modules, hde.modules]
  registered := by
    rw [hde.registered, hcd.registered, List.map_append, List.reverse_append,
      List.append_assoc]
  nodes := by
    rw [hde.nodes, hcd.nodes, List.map_append, List.reverse_append,
      List.append_assoc]
  titled := by
    rw [List.forall_mem_append]
    refine ⟨fun entry hentry => ?_, hde.titled⟩
    obtain ⟨hhas, htitle⟩ := hcd.titled entry hentry
    exact ⟨hde.tree.has _ hhas, (hde.tree.title _ hhas).trans htitle⟩

theorem Collection.opened {c : Collection} (hc : c.Sound)
    (hsymbols : c.tree.symbols = #[]) (modules : List Module) :
    c.Opened modules (openModules modules c).1 (openModules modules c).2 := by
  unfold openModules
  rw [← List.mapM'_eq_mapM]
  induction modules generalizing c with
  | nil =>
    refine ⟨hc, .refl c.tree, hsymbols, rfl, rfl, rfl, rfl, fun _ hentry => ?_⟩
    exact absurd hentry List.not_mem_nil
  | cons module rest ih =>
    have hfirst := Collection.withModule_opened hc hsymbols module
    exact hfirst.append (ih hfirst.sound hfirst.symbols)

/-!
## The tree of a program
-/

theorem Collection.Opened.mem_modules {modules : List Module}
    {opened : List (Module × ScopeId)} {start : Collection}
    (h : ({} : Collection).Opened modules opened start) {name : String}
    {target : ScopeId} : (name, target) ∈ start.tree.modules ↔
      ∃ entry ∈ opened, entry.1.name = name ∧ entry.2 = target := by
  have hnone : ({} : Collection).tree.modules = [] := rfl
  rw [h.registered, hnone, List.append_nil, List.mem_reverse, List.mem_map]
  simp only [Prod.mk.injEq]

theorem Program.collect_grown (program : Program) : ∃ opened start,
    ({} : Collection).Opened program.modules opened start ∧
      start.Grown program.declaredNames program.collect := by
  have hempty : ({} : Collection).Sound :=
    ⟨.empty, fun _ hsymbol => absurd hsymbol List.not_mem_nil, .empty⟩
  have hopened := Collection.opened hempty rfl program.modules
  refine ⟨_, _, hopened, ?_⟩
  have hscopes : ∀ scope ∈ (openModules program.modules {}).1.map (·.2),
      (openModules program.modules {}).2.tree.Has scope := by
    intro scope hscope
    obtain ⟨entry, hentry, rfl⟩ := List.mem_map.mp hscope
    exact (hopened.titled entry hentry).1
  have hbodies := (Collected.program Declarable.any).declares
    (openModules program.modules {}).2 hopened.sound hscopes
  have hnames : program.declaredNames =
      (openModules program.modules {}).1.flatMap fun entry =>
      Stmt.declaredNamesAll entry.1.body := by
    conv_lhs => rw [declaredNames, ← hopened.modules, List.flatMap_map]
  rw [hnames]
  exact hbodies

theorem Program.collect_wellFormed (program : Program) :
    program.collect.tree.WellFormed := by
  obtain ⟨_, _, -, hgrown⟩ := program.collect_grown
  exact hgrown.sound.wellFormed

/-- The collector makes a well-formed tree in which every import leads to the
module that it names, wherever that stands, and it loses nothing: each
declaration in the part of the program that it walks ends as a symbol or as a
report of a duplicate. -/
theorem Program.collect_loses_nothing (program : Program) :
    program.collect.tree.WellFormed ∧
    (∀ symbol ∈ program.collect.tree.symbols.toList, symbol.kind = .use →
      ∃ name, symbol.info.module = some name ∧
        symbol.info.scope = program.collect.tree.moduleScope? name) ∧
    (∀ name, (program.collect.tree.moduleScope? name).isSome ↔
      ∃ module ∈ program.modules, module.name = name) ∧
    (∀ name target, program.collect.tree.moduleScope? name = some target →
      (program.collect.tree.scope target).kind = .module ∧
        (program.collect.tree.scope target).name = name) ∧
    (program.collect.tree.symbols.toList.map (·.name) ++
      program.collect.diagnostics.duplicates).Perm program.declaredNames ∧
    program.declaredNames.length =
      program.collect.tree.symbols.size +
      program.collect.diagnostics.duplicates.length := by
  obtain ⟨opened, start, hopened, hgrown⟩ := program.collect_grown
  have hnames : program.collect.names.Perm program.declaredNames := by
    have hstart : start.names = [] := by
      rw [Collection.names, hopened.symbols, hopened.diagnostics]
      rfl
    simpa only [hstart, List.nil_append] using hgrown.names
  refine ⟨hgrown.sound.wellFormed, hgrown.sound.linked, ?_, ?_, hnames, ?_⟩
  · intro name
    rw [ScopeTree.moduleScope?, hgrown.modules, ← hopened.modules]
    constructor
    · intro hsome
      obtain ⟨target, htarget⟩ := Option.isSome_iff_exists.mp hsome
      obtain ⟨entry, hentry, hname, -⟩ :=
        hopened.mem_modules.mp (mem_of_lookup htarget)
      exact ⟨entry.1, List.mem_map_of_mem hentry, hname⟩
    · rintro ⟨module, hmodule, rfl⟩
      obtain ⟨entry, hentry, rfl⟩ := List.mem_map.mp hmodule
      have hmem := hopened.mem_modules.mpr ⟨entry, hentry, rfl, rfl⟩
      by_contra hnone
      rw [Bool.not_eq_true, Option.isSome_eq_false_iff,
        Option.isNone_iff_eq_none, List.lookup_eq_none_iff] at hnone
      exact absurd (hnone _ hmem) (by simp)
  · intro name target htarget
    rw [ScopeTree.moduleScope?, hgrown.modules] at htarget
    obtain ⟨entry, hentry, rfl, rfl⟩ :=
      hopened.mem_modules.mp (mem_of_lookup htarget)
    obtain ⟨hhas, htitle⟩ := hopened.titled entry hentry
    have hkept := (hgrown.tree.title entry.2 hhas).trans htitle
    exact ⟨congrArg (·.1) hkept, congrArg (·.2) hkept⟩
  · rw [← hnames.length_eq, Collection.names, List.length_append,
      List.length_map, Array.length_toList]

end StaticCheck
