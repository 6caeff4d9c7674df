import StaticCheck.Proofs.Collected

/-!
# The shape of a collected tree

A scope tree is an arena with redundant views: a scope names its parent and is
listed among the children of it, and a symbol names its scope and stands in the
table of names there.  Here it is proved that the collector keeps these views in
agreement, that the imports it records lead to the modules they name, and that
it drops no declaration: every name declared in the part of the program it walks
is the name of a symbol or of a reported duplicate.
-/

namespace StaticCheck

open Collect

variable {α β : Type}
variable {id scope parent : ScopeId} {symbol : Symbol}

/-!
## Well-formed trees
-/

def Scope.position (scope : Scope) : ScopeId × Option ScopeId × List ScopeId :=
  (scope.id, scope.parent, scope.children)

def Scope.title (scope : Scope) : ScopeKind × String := (scope.kind, scope.name)

def Scope.tables (scope : Scope) : List (String × SymbolId) × List SymbolId :=
  (scope.names, scope.symbols)

namespace ScopeTree

def Has (tree : ScopeTree) (id : ScopeId) : Prop := id.index < tree.scopes.size

/-- Scopes are numbered by their position, and every scope but the global one
hangs below a scope that was made before it: once, and below no other. -/
structure Nested (tree : ScopeTree) : Prop where
  root : tree.Has global ∧ tree.parent? global = none
  scope_id : ∀ id, tree.Has id → (tree.scope id).id = id
  parent : ∀ id, tree.Has id → id ≠ global →
    ∃ parent, tree.parent? id = some parent ∧ parent.index < id.index
  children : ∀ parent child, (tree.scope parent).children.count child =
    if tree.parent? child = some parent then 1 else 0

/-- Symbols are numbered by their position, and every symbol is declared in the
scope it names: once, in no other, and under its own name. -/
structure Tabled (tree : ScopeTree) : Prop where
  symbol_id : ∀ id, id.index < tree.symbols.size → (tree.symbol id).id = id
  symbols : ∀ scope id, (tree.scope scope).symbols.count id =
    if id.index < tree.symbols.size ∧ (tree.symbol id).scope =
      scope then 1 else 0
  names : ∀ scope name id, (tree.scope scope).get? name = some id ↔
    id ∈ (tree.scope scope).symbols ∧ (tree.symbol id).name = name

/-- The views of a scope tree agree. -/
structure WellFormed (tree : ScopeTree) : Prop extends tree.Nested, tree.Tabled

variable {tree : ScopeTree}

theorem Has.ne_size (h : tree.Has id) : id ≠ ⟨tree.scopes.size⟩ := by
  rintro rfl
  exact Nat.lt_irrefl _ h

theorem scope_of_not_has (h : ¬tree.Has id) :
    tree.scope id = ⟨id, .block, "", none, [], [], [], []⟩ := by
  unfold scope
  rw [Array.getElem?_eq_none (Nat.le_of_not_lt h), Option.getD_none]

theorem scope_updateScope_self (f : Scope → Scope) (h : tree.Has id) :
    (tree.updateScope id f).scope id = f (tree.scope id) := by
  have hlt : id.index < tree.scopes.size := h
  simp [scope, updateScope, hlt]

theorem scope_updateScope_of_ne {other : ScopeId} (f : Scope → Scope)
    (h : other ≠ id) :
    (tree.updateScope id f).scope other = tree.scope other := by
  have hindex : id.index ≠ other.index :=
    fun heq => h (congrArg ScopeId.mk heq).symm
  simp [scope, updateScope, hindex]

theorem proj_updateScope {γ : Type} (g : Scope → γ) {f : Scope → Scope}
    (hg : ∀ scope, g (f scope) = g scope) (id other : ScopeId) :
    g ((tree.updateScope id f).scope other) = g (tree.scope other) := by
  by_cases hother : other = id
  · subst hother
    by_cases hhas : other.index < tree.scopes.size
    · rw [scope_updateScope_self f hhas, hg]
    · simp [scope, updateScope, hhas]
  · rw [scope_updateScope_of_ne f hother]

theorem has_updateScope {other : ScopeId} {f : Scope → Scope} :
    (tree.updateScope id f).Has other ↔ tree.Has other := by
  simp [Has, updateScope]

theorem scope_withSymbol (id scope : ScopeId) (symbol : Symbol) :
    (tree.withSymbol scope symbol).scope id =
      (tree.updateScope scope
        (·.withEntry symbol.name ⟨tree.symbols.size⟩)).scope id := rfl

theorem symbol_withSymbol_self (scope : ScopeId) (symbol : Symbol) :
    (tree.withSymbol scope symbol).symbol ⟨tree.symbols.size⟩ =
      { symbol with id := ⟨tree.symbols.size⟩, scope } := by
  simp [ScopeTree.symbol, withSymbol]

theorem symbol_withSymbol_of_ne {id : SymbolId} (scope : ScopeId)
    (symbol : Symbol) (h : id ≠ ⟨tree.symbols.size⟩) :
    (tree.withSymbol scope symbol).symbol id = tree.symbol id := by
  have hindex : id.index ≠ tree.symbols.size :=
    fun heq => h (congrArg SymbolId.mk heq)
  simp [ScopeTree.symbol, withSymbol, Array.getElem?_push, hindex]

theorem size_withSymbol (scope : ScopeId) (symbol : Symbol) :
    (tree.withSymbol scope symbol).symbols.size = tree.symbols.size + 1 := by
  simp [withSymbol]

theorem has_withSymbol :
    (tree.withSymbol scope symbol).Has id ↔ tree.Has id := by
  simp [Has, withSymbol, updateScope]

theorem tables_withSymbol (symbol : Symbol) (hscope : tree.Has scope)
    (id : ScopeId) : ((tree.withSymbol scope symbol).scope id).tables =
      ((tree.scope id).names ++
        (if id = scope then [(symbol.name, ⟨tree.symbols.size⟩)] else []),
        (tree.scope id).symbols ++
        (if id = scope then [⟨tree.symbols.size⟩] else [])) := by
  rw [scope_withSymbol]
  by_cases hid : id = scope
  · rw [if_pos hid, if_pos hid, hid, scope_updateScope_self _ hscope]
    rfl
  · rw [if_neg hid, if_neg hid, scope_updateScope_of_ne _ hid, List.append_nil,
      List.append_nil]
    rfl

theorem get?_withSymbol (symbol : Symbol) (hscope : tree.Has scope)
    (place : ScopeId) (name : String) :
    ((tree.withSymbol scope symbol).scope place).get? name =
      ((tree.scope place).get? name).or
      (if place = scope ∧ name = symbol.name then some ⟨tree.symbols.size⟩
        else none) := by
  have hnames := congrArg Prod.fst (tables_withSymbol symbol hscope place)
  rw [Scope.get?, show Scope.names _ = _ from hnames,
    List.lookup_append, ← Scope.get?]
  congr 1
  by_cases hplace : place = scope
  · by_cases hname : name = symbol.name
    · simp [hplace, hname]
    · simp [hplace, hname, List.lookup_cons, beq_false_of_ne hname]
  · simp [hplace]

theorem count_symbols_withSymbol (symbol : Symbol) (hscope : tree.Has scope)
    (place : ScopeId) (id : SymbolId) :
    ((tree.withSymbol scope symbol).scope place).symbols.count id =
      (tree.scope place).symbols.count id +
        if place = scope ∧ id = ⟨tree.symbols.size⟩ then 1 else 0 := by
  have hsymbols := congrArg Prod.snd (tables_withSymbol symbol hscope place)
  rw [show Scope.symbols _ = _ from hsymbols, List.count_append]
  congr 1
  by_cases hplace : place = scope
  · simp [hplace, List.count_singleton, @eq_comm _ id]
  · simp [hplace]

theorem mem_symbols_withSymbol {place : ScopeId} {id : SymbolId}
    (hscope : tree.Has scope) :
    id ∈ ((tree.withSymbol scope symbol).scope place).symbols ↔
      id ∈ (tree.scope place).symbols ∨ place = scope ∧
      id = ⟨tree.symbols.size⟩ := by
  rw [← List.count_pos_iff,
    count_symbols_withSymbol symbol hscope, ← List.count_pos_iff]
  split <;> simp_all

theorem scope_createScope (kind : ScopeKind) (name : String)
    (hparent : tree.Has parent) (id : ScopeId) :
    (tree.createScope kind name (some parent)).2.scope id =
      if id = ⟨tree.scopes.size⟩ then
        ⟨id, kind, name, some parent, [], [], [], []⟩
      else if id = parent then
        { tree.scope id with
          children := (tree.scope id).children ++ [⟨tree.scopes.size⟩] }
      else tree.scope id := by
  have hlt : parent.index < tree.scopes.size := hparent
  let made : Scope :=
    ⟨⟨tree.scopes.size⟩, kind, name, some parent, [], [], [], []⟩
  let grown : ScopeTree := { tree with scopes := tree.scopes.push made }
  have hgrown : ∀ {id : ScopeId}, id ≠ ⟨tree.scopes.size⟩ →
      grown.scope id = tree.scope id := by
    intro id hne
    have hindex : id.index ≠ tree.scopes.size :=
      fun heq => hne (congrArg ScopeId.mk heq)
    simp [scope, grown, Array.getElem?_push, hindex]
  have hfresh := hparent.ne_size
  have hhas : grown.Has parent := by
    simp only [Has, grown, Array.size_push]
    omega
  change (grown.updateScope parent _).scope id = _
  by_cases hnew : id = ⟨tree.scopes.size⟩
  · rw [if_pos hnew, scope_updateScope_of_ne _ (hnew ▸ hfresh.symm)]
    subst hnew
    simp [scope, grown, made]
  · rw [if_neg hnew]
    by_cases hid : id = parent
    · rw [if_pos hid, hid, scope_updateScope_self _ hhas, hgrown hfresh]
    · rw [if_neg hid, scope_updateScope_of_ne _ hid, hgrown hnew]

theorem contents_createScope (kind : ScopeKind) (name : String)
    (hparent : tree.Has parent) (id : ScopeId) :
    ((tree.createScope kind name (some parent)).2.scope id).tables =
        (tree.scope id).tables ∧
      ((tree.createScope kind name (some parent)).2.scope id).imports =
        (tree.scope id).imports := by
  rw [scope_createScope kind name hparent]
  by_cases hid : id = ⟨tree.scopes.size⟩
  · have hnew : ¬tree.Has id := hid ▸ Nat.lt_irrefl tree.scopes.size
    rw [if_pos hid, scope_of_not_has hnew]
    exact ⟨rfl, rfl⟩
  · rw [if_neg hid]
    split <;> exact ⟨rfl, rfl⟩

theorem parent?_createScope (kind : ScopeKind) (name : String)
    (hparent : tree.Has parent) (id : ScopeId) :
    (tree.createScope kind name (some parent)).2.parent? id =
      if id = ⟨tree.scopes.size⟩ then some parent else tree.parent? id := by
  simp only [parent?, scope_createScope kind name hparent]
  split
  · rfl
  · split <;> rfl

theorem count_children_createScope (kind : ScopeKind) (name : String)
    (hparent : tree.Has parent) (id child : ScopeId) :
    ((tree.createScope kind name (some parent)).2.scope
      id).children.count child = (tree.scope id).children.count child +
        if id = parent ∧ child = ⟨tree.scopes.size⟩ then 1 else 0 := by
  rw [scope_createScope kind name hparent]
  by_cases hid : id = ⟨tree.scopes.size⟩
  · have hnew : ¬tree.Has id := hid ▸ Nat.lt_irrefl tree.scopes.size
    have hne : id ≠ parent := hid ▸ hparent.ne_size.symm
    rw [if_pos hid, if_neg fun h => hne h.1, scope_of_not_has hnew]
    rfl
  · rw [if_neg hid]
    by_cases hthere : id = parent
    · simp [hthere, List.count_singleton, @eq_comm _ child]
    · simp [hthere]

theorem has_createScope {kind : ScopeKind} {name : String} :
    (tree.createScope kind name (some parent)).2.Has id ↔
      tree.Has id ∨ id = ⟨tree.scopes.size⟩ := by
  have hsize : (tree.createScope kind name (some parent)).2.scopes.size =
      tree.scopes.size + 1 := by
    simp [createScope, updateScope]
  have hnew : id = ⟨tree.scopes.size⟩ ↔ id.index = tree.scopes.size :=
    ⟨fun heq => by rw [heq], fun heq => congrArg ScopeId.mk heq⟩
  rw [hnew, Has, Has, hsize, Nat.lt_succ_iff_lt_or_eq]

end ScopeTree

namespace ScopeTree.Nested

variable {tree : ScopeTree}

theorem congr (h : tree.Nested) {other : ScopeTree}
    (hhas : ∀ id, other.Has id ↔ tree.Has id)
    (hscope : ∀ id, (other.scope id).position = (tree.scope id).position) :
    other.Nested := by
  have hid : ∀ id, (other.scope id).id = (tree.scope id).id := fun id =>
    congrArg (·.1) (hscope id)
  have hparent : ∀ id, other.parent? id = tree.parent? id := fun id =>
    congrArg (·.2.1) (hscope id)
  have hchildren : ∀ id, (other.scope id).children =
      (tree.scope id).children := fun id =>
    congrArg (·.2.2) (hscope id)
  constructor
  case root =>
    rw [hhas, hparent]
    exact h.root
  case scope_id =>
    intro id hid'
    rw [hid]
    exact h.scope_id id ((hhas id).mp hid')
  case parent =>
    intro id hid'
    rw [hparent]
    exact h.parent id ((hhas id).mp hid')
  case children =>
    intro parent child
    rw [hchildren, hparent]
    exact h.children parent child

theorem createScope (h : tree.Nested) (kind : ScopeKind) (name : String)
    (hparent : tree.Has parent) :
    (tree.createScope kind name (some parent)).2.Nested := by
  have hscope := scope_createScope kind name hparent
  have hup := parent?_createScope kind name hparent
  have hcount := count_children_createScope kind name hparent
  have hhas : ∀ id, (tree.createScope kind name (some parent)).2.Has id ↔
      tree.Has id ∨ id = ⟨tree.scopes.size⟩ := fun _ => has_createScope
  generalize (tree.createScope kind name (some parent)).2 =
    made at hscope hup hcount hhas ⊢
  constructor
  case root =>
    rw [hup, if_neg h.root.1.ne_size]
    exact ⟨(hhas _).mpr (.inl h.root.1), h.root.2⟩
  case scope_id =>
    intro id hid
    rw [hscope]
    rcases (hhas id).mp hid with hid | rfl
    · rw [if_neg hid.ne_size]
      split <;> exact h.scope_id id hid
    · rw [if_pos rfl]
  case parent =>
    intro id hid hglobal
    rw [hup]
    rcases (hhas id).mp hid with hid | rfl
    · rw [if_neg hid.ne_size]
      exact h.parent id hid hglobal
    · exact ⟨parent, if_pos rfl, hparent⟩
  case children =>
    intro above child
    rw [hcount, hup, h.children]
    by_cases hchild : child = ⟨tree.scopes.size⟩
    · -- the number of the new scope was nobody's child before
      have hnew : ¬tree.Has child := hchild ▸ Nat.lt_irrefl tree.scopes.size
      have hnone : tree.parent? child = none := by
        rw [parent?, scope_of_not_has hnew]
      simp [hchild ▸ hnone, hchild, eq_comm]
    · simp [hchild]

end ScopeTree.Nested

namespace ScopeTree.Tabled

variable {tree : ScopeTree}

theorem index_lt (h : tree.Tabled) {name : String} {id : SymbolId}
    (hid : tree.lookupLocal scope name = some id) :
    id.index < tree.symbols.size := by
  have hcount := List.count_pos_iff.mpr ((h.names scope name id).mp hid).1
  rw [h.symbols] at hcount
  by_contra hlt
  rw [if_neg fun hboth => hlt hboth.1] at hcount
  exact Nat.lt_irrefl 0 hcount

theorem congr (h : tree.Tabled) {other : ScopeTree}
    (hsymbols : other.symbols = tree.symbols)
    (htables : ∀ id, (other.scope id).tables = (tree.scope id).tables) :
    other.Tabled := by
  have hsymbol : ∀ id, other.symbol id = tree.symbol id := fun id => by
    simp only [ScopeTree.symbol, hsymbols]
  have hnames : ∀ id, (other.scope id).names = (tree.scope id).names :=
    fun id => congrArg Prod.fst (htables id)
  have hlisted : ∀ id, (other.scope id).symbols = (tree.scope id).symbols :=
    fun id => congrArg Prod.snd (htables id)
  constructor
  case symbol_id =>
    intro id
    rw [hsymbols, hsymbol]
    exact h.symbol_id id
  case symbols =>
    intro scope id
    rw [hlisted, hsymbols, hsymbol]
    exact h.symbols scope id
  case names =>
    intro scope name id
    rw [Scope.get?, hnames, hlisted, hsymbol]
    exact h.names scope name id

theorem mem_symbols (h : tree.Tabled) {id : SymbolId} :
    id ∈ (tree.scope scope).symbols ↔
      id.index < tree.symbols.size ∧ (tree.symbol id).scope = scope := by
  rw [← List.count_pos_iff, h.symbols]
  split <;> simp_all

theorem withSymbol (h : tree.Tabled) (hscope : tree.Has scope)
    (hfree : (tree.scope scope).get? symbol.name = none) :
    (tree.withSymbol scope symbol).Tabled := by
  have hcount := count_symbols_withSymbol symbol hscope
  have hget := get?_withSymbol symbol hscope
  have hmem {place : ScopeId} {id : SymbolId} :
      id ∈ ((tree.withSymbol scope symbol).scope place).symbols ↔
        id ∈ (tree.scope place).symbols ∨ place = scope ∧
        id = ⟨tree.symbols.size⟩ :=
    mem_symbols_withSymbol hscope
  have hnew : (tree.withSymbol scope symbol).symbol ⟨tree.symbols.size⟩ = _ :=
    symbol_withSymbol_self scope symbol
  have hold {id : SymbolId} (hne : id ≠ ⟨tree.symbols.size⟩) :
      (tree.withSymbol scope symbol).symbol id = tree.symbol id :=
    symbol_withSymbol_of_ne scope symbol hne
  have hindex {id : SymbolId} : id = ⟨tree.symbols.size⟩ ↔
      id.index = tree.symbols.size :=
    ⟨fun heq => by rw [heq], fun heq => congrArg SymbolId.mk heq⟩
  have hsize : (tree.withSymbol scope symbol).symbols.size =
      tree.symbols.size + 1 :=
    size_withSymbol scope symbol
  have hfresh {id : ScopeId} : ⟨tree.symbols.size⟩ ∉ (tree.scope id).symbols :=
    fun hmem => Nat.lt_irrefl _ (h.mem_symbols.mp hmem).1
  generalize tree.withSymbol scope symbol =
    made at hcount hget hmem hnew hold hsize ⊢
  constructor
  case symbol_id =>
    intro id hid
    by_cases hlast : id = ⟨tree.symbols.size⟩
    · rw [hlast, hnew]
    · rw [hold hlast]
      rw [hindex] at hlast
      exact h.symbol_id id (by omega)
  case symbols =>
    intro place id
    rw [hcount]
    by_cases hlast : id = ⟨tree.symbols.size⟩
    · subst hlast
      rw [List.count_eq_zero.mpr hfresh, hnew, hsize]
      simp [eq_comm]
    · have hlt : id.index < made.symbols.size ↔
          id.index < tree.symbols.size := by
        rw [hindex] at hlast
        omega
      rw [if_neg fun hthis => hlast hthis.2, h.symbols, hold hlast]
      simp only [hlt, Nat.add_zero]
  case names =>
    intro place name id
    rw [hget, Option.or_eq_some_iff, h.names, hmem]
    by_cases hlast : id = ⟨tree.symbols.size⟩
    · -- the new symbol has the name that was free in its scope
      subst hlast
      simp only [hfresh, hnew, false_and, false_or, and_true]
      constructor
      · rintro ⟨-, hthis⟩
        obtain ⟨⟨rfl, rfl⟩, -⟩ := Option.ite_none_right_eq_some.mp hthis
        exact ⟨rfl, rfl⟩
      · rintro ⟨rfl, rfl⟩
        exact ⟨hfree, if_pos ⟨rfl, rfl⟩⟩
    · rw [hold hlast]
      have hother : (if place = scope ∧ name = symbol.name then
          some (⟨tree.symbols.size⟩ : SymbolId) else none) ≠ some id := by
        intro hthis
        exact hlast
          (Option.some.inj (Option.ite_none_right_eq_some.mp hthis).2).symm
      simp [hother, hlast]

end ScopeTree.Tabled

namespace ScopeTree.WellFormed

variable {tree : ScopeTree}

theorem empty : ScopeTree.empty.WellFormed := by
  have hscope : ∀ id : ScopeId, (ScopeTree.empty.scope id).children = [] ∧
      (ScopeTree.empty.scope id).tables = ([], []) ∧
        (ScopeTree.empty.scope id).parent = none := by
    intro ⟨index⟩
    cases index with
    | zero => exact ⟨rfl, rfl, rfl⟩
    | succ index => exact ⟨rfl, rfl, rfl⟩
  have hglobal : ∀ id : ScopeId, ScopeTree.empty.Has id →
      id = ScopeTree.global := by
    intro ⟨index⟩ hid
    exact congrArg ScopeId.mk (Nat.lt_one_iff.mp hid)
  constructor
  case toNested =>
    constructor
    case root => exact ⟨Nat.one_pos, rfl⟩
    case scope_id => exact fun id hid => hglobal id hid ▸ rfl
    case parent => exact fun id hid hne => absurd (hglobal id hid) hne
    case children =>
      intro parent child
      simp [(hscope parent).1, ScopeTree.parent?, (hscope child).2.2]
  case toTabled =>
    constructor
    case symbol_id => exact fun id hid => absurd hid (Nat.not_lt_zero _)
    case symbols =>
      intro scope id
      rw [show Scope.symbols _ = _ from congrArg Prod.snd (hscope scope).2.1]
      simp [ScopeTree.empty]
    case names =>
      intro scope name id
      rw [Scope.get?, show Scope.names _ =
        _ from congrArg Prod.fst (hscope scope).2.1,
        show Scope.symbols _ = _ from congrArg Prod.snd (hscope scope).2.1]
      simp

theorem createScope (h : tree.WellFormed) (kind : ScopeKind) (name : String)
    (hparent : tree.Has parent) :
    (tree.createScope kind name (some parent)).2.WellFormed where
  toNested := h.toNested.createScope kind name hparent
  toTabled :=
    h.toTabled.congr (createScope_symbols tree kind name (some parent))
    (fun id => (contents_createScope kind name hparent id).1)

theorem addImport (h : tree.WellFormed) (id target : ScopeId) :
    (tree.addImport id target).WellFormed := by
  constructor
  case toNested =>
    refine h.toNested.congr (fun _ => has_updateScope) fun other => ?_
    exact proj_updateScope Scope.position (by exact fun _ => rfl) id other
  case toTabled =>
    refine h.toTabled.congr rfl fun other => ?_
    exact proj_updateScope Scope.tables (by exact fun _ => rfl) id other

theorem withSymbol (h : tree.WellFormed) (hscope : tree.Has scope)
    (hfree : (tree.scope scope).get? symbol.name = none) :
    (tree.withSymbol scope symbol).WellFormed := by
  constructor
  case toNested =>
    refine h.toNested.congr (fun _ => has_withSymbol) fun other => ?_
    rw [scope_withSymbol]
    exact proj_updateScope Scope.position (by exact fun _ => rfl) scope other
  case toTabled => exact h.toTabled.withSymbol hscope hfree

end ScopeTree.WellFormed

/-!
## Imports
-/

theorem mem_of_lookup {κ ν : Type} [BEq κ] [LawfulBEq κ]
    {entries : List (κ × ν)} {key : κ} {value : ν}
    (h : entries.lookup key = some value) : (key, value) ∈ entries := by
  obtain ⟨before, after, rfl, -⟩ := List.lookup_eq_some_iff.mp h
  simp

/-- What a scope imports are scopes of modules. -/
def ScopeTree.ImportsModules (tree : ScopeTree) : Prop :=
  ∀ id, ∀ target ∈ (tree.scope id).imports, ∃ name, (name, target) ∈
    tree.modules

namespace ScopeTree.ImportsModules

variable {tree : ScopeTree}

theorem empty : ScopeTree.empty.ImportsModules := by
  intro ⟨index⟩ target htarget
  cases index with
  | zero => exact absurd htarget List.not_mem_nil
  | succ index => exact absurd htarget List.not_mem_nil

theorem createScope (h : tree.ImportsModules) (kind : ScopeKind) (name : String)
    (hparent : tree.Has parent) :
    (tree.createScope kind name (some parent)).2.ImportsModules := by
  intro id target htarget
  rw [(contents_createScope kind name hparent _).2] at htarget
  exact h id target htarget

theorem registerModule (h : tree.ImportsModules) (name : String)
    (id : ScopeId) : (tree.registerModule name id).ImportsModules := by
  intro other target htarget
  obtain ⟨found, hfound⟩ := h other target htarget
  exact ⟨found, List.mem_cons_of_mem _ hfound⟩

theorem addImport (h : tree.ImportsModules) (id : ScopeId) {name : String}
    {target : ScopeId} (htarget : tree.moduleScope? name = some target) :
    (tree.addImport id target).ImportsModules := by
  intro other imported himported
  have hcases : imported ∈ (tree.scope other).imports ∨ imported = target := by
    unfold ScopeTree.addImport at himported
    by_cases hother : other = id
    · subst hother
      by_cases hhas : tree.Has other
      · rw [scope_updateScope_self _ hhas] at himported
        exact (List.mem_append.mp himported).imp_right List.mem_singleton.mp
      · rw [scope_of_not_has (mt has_updateScope.mp hhas)] at himported
        exact absurd himported List.not_mem_nil
    · rw [scope_updateScope_of_ne _ hother] at himported
      exact .inl himported
  rcases hcases with hold | rfl
  · exact h other imported hold
  · exact ⟨name, mem_of_lookup htarget⟩

theorem withSymbol (h : tree.ImportsModules) (scope : ScopeId)
    (symbol : Symbol) : (tree.withSymbol scope symbol).ImportsModules := by
  intro id target htarget
  have himports : ((tree.withSymbol scope symbol).scope id).imports =
      (tree.scope id).imports := by
    rw [scope_withSymbol]
    exact proj_updateScope Scope.imports (by exact fun _ => rfl) scope id
  rw [himports] at htarget
  exact h id target htarget

end ScopeTree.ImportsModules

/-!
## Growth
-/

/-- A tree after more has been collected: scopes and symbols are added, and what
was there stays. -/
structure ScopeTree.Extends (a b : ScopeTree) : Prop where
  has : ∀ id, a.Has id → b.Has id
  title : ∀ id, a.Has id → (b.scope id).title = (a.scope id).title
  names : ∀ id, (a.scope id).names <+: (b.scope id).names
  symbols : a.symbols.toList <+: b.symbols.toList
  nodes : a.nodes <:+ b.nodes

namespace ScopeTree.Extends

variable {a b c tree : ScopeTree}

theorem refl (tree : ScopeTree) : tree.Extends tree where
  has _ hid := hid
  title _ _ := rfl
  names _ := List.prefix_rfl
  symbols := List.prefix_rfl
  nodes := List.suffix_rfl

theorem trans (hab : a.Extends b) (hbc : b.Extends c) : a.Extends c where
  has id hid := hbc.has id (hab.has id hid)
  title id hid := (hbc.title id (hab.has id hid)).trans (hab.title id hid)
  names id := (hab.names id).trans (hbc.names id)
  symbols := hab.symbols.trans hbc.symbols
  nodes := hab.nodes.trans hbc.nodes

theorem createScope (kind : ScopeKind) (name : String)
    (hparent : tree.Has parent) :
    tree.Extends (tree.createScope kind name (some parent)).2 where
  has _ hid := has_createScope.mpr (.inl hid)
  title id hid := by
    rw [scope_createScope kind name hparent, if_neg hid.ne_size]
    split <;> rfl
  names id := by
    have hnames :
        ((tree.createScope kind name (some parent)).2.scope id).names = _ :=
      congrArg Prod.fst (contents_createScope kind name hparent id).1
    exact hnames.symm ▸ List.prefix_rfl
  symbols := (createScope_symbols tree kind name (some parent)).symm ▸
    List.prefix_rfl
  nodes := List.suffix_rfl

theorem bindNode (node : NodeId) (id : ScopeId) :
    tree.Extends (tree.bindNode node id) where
  has _ hid := hid
  title _ _ := rfl
  names _ := List.prefix_rfl
  symbols := List.prefix_rfl
  nodes := List.suffix_cons _ _

theorem addImport (id target : ScopeId) :
    tree.Extends (tree.addImport id target) := by
  constructor
  case has => exact fun _ hid => has_updateScope.mpr hid
  case title =>
    exact fun other _ => proj_updateScope Scope.title
      (by exact fun _ => rfl) id other
  case names =>
    intro other
    have hnames : ((tree.addImport id target).scope other).names =
        (tree.scope other).names :=
      proj_updateScope Scope.names (by exact fun _ => rfl) id other
    exact hnames.symm ▸ List.prefix_rfl
  case symbols => exact List.prefix_rfl
  case nodes => exact List.suffix_rfl

theorem withSymbol (symbol : Symbol) (hscope : tree.Has scope) :
    tree.Extends (tree.withSymbol scope symbol) := by
  constructor
  case has => exact fun _ hid => has_withSymbol.mpr hid
  case title =>
    intro other _
    rw [scope_withSymbol]
    exact proj_updateScope Scope.title (by exact fun _ => rfl) scope other
  case names =>
    intro other
    have hnames : ((tree.withSymbol scope symbol).scope other).names = _ :=
      congrArg Prod.fst (tables_withSymbol symbol hscope other)
    exact hnames.symm ▸ List.prefix_append _ _
  case symbols =>
    simp only [ScopeTree.withSymbol, Array.toList_push]
    exact List.prefix_append _ _
  case nodes => exact List.suffix_rfl

end ScopeTree.Extends

end StaticCheck
