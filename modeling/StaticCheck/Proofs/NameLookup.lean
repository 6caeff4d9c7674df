import StaticCheck.Proofs.Declarations
import Mathlib.Logic.Relation

/-!
# What a name denotes

A name denotes what the nearest scope around the place offers for it.  A scope
offers its own symbol of the name, unless that is a local variable whose
declaration is still to come, and otherwise the public symbol of the first of
its imported modules that has one.  The rule is stated here without the walk
over scope numbers, for the trees that the collector makes and any symbols of
them declared.
-/

namespace StaticCheck
namespace ScopeTree

variable {tree : ScopeTree} {scope inner outer target : ScopeId} {name : String}
    {id : SymbolId}

/-!
## Scopes around a scope
-/

def LiesIn (tree : ScopeTree) : ScopeId → ScopeId → Prop :=
  Relation.ReflTransGen fun inner outer => tree.parent? inner = some outer

/-- The scopes from one outward, up to a scope without a parent. -/
inductive Outward (tree : ScopeTree) : ScopeId → List ScopeId → Prop
  | last {scope : ScopeId} (hparent : tree.parent? scope = none) :
      tree.Outward scope [scope]
  | next {scope parent : ScopeId} {rest : List ScopeId}
      (hparent : tree.parent? scope = some parent)
      (hrest : tree.Outward parent rest) : tree.Outward scope (scope :: rest)

namespace Outward

variable {scopes others : List ScopeId}

theorem unique (h : tree.Outward scope scopes)
    (hother : tree.Outward scope others) : scopes = others := by
  induction h generalizing others with
  | last hparent =>
    cases hother with
    | last => rfl
    | next hsome =>
      exact absurd (hsome.symm.trans hparent) (Option.some_ne_none _)
  | next hparent _ ih =>
    cases hother with
    | last hnone =>
      exact absurd (hparent.symm.trans hnone) (Option.some_ne_none _)
    | next hsome hrest =>
      cases Option.some.inj (hparent.symm.trans hsome)
      exact congrArg (_ :: ·) (ih hrest)

theorem mem_iff (h : tree.Outward scope scopes) :
    outer ∈ scopes ↔ tree.LiesIn scope outer := by
  induction h with
  | last hparent =>
    rw [List.mem_singleton]
    constructor
    · rintro rfl
      exact .refl
    · intro hlies
      rcases hlies.cases_head with heq | ⟨parent, hsome, -⟩
      · exact heq.symm
      · exact absurd (hsome.symm.trans hparent) (Option.some_ne_none _)
  | @next scope parent rest hparent _ ih =>
    rw [List.mem_cons, ih]
    constructor
    · rintro (rfl | hlies)
      · exact .refl
      · exact .head hparent hlies
    · intro hlies
      rcases hlies.cases_head with heq | ⟨above, hsome, hlies⟩
      · exact .inl heq.symm
      · cases Option.some.inj (hparent.symm.trans hsome)
        exact .inr hlies

end Outward

theorem Nested.index_lt_of_parent? (h : tree.Nested)
    (hparent : tree.parent? inner = some outer) :
    outer.index < inner.index := by
  by_cases hglobal : inner = global
  · rw [hglobal, h.root.2] at hparent
    exact absurd hparent.symm (Option.some_ne_none _)
  · by_cases hhas : tree.Has inner
    · obtain ⟨parent, hsome, hlt⟩ := h.parent inner hhas hglobal
      cases Option.some.inj (hparent.symm.trans hsome)
      exact hlt
    · rw [parent?, scope_of_not_has hhas] at hparent
      exact absurd hparent.symm (Option.some_ne_none _)

theorem Nested.outward_climb (h : tree.Nested) {steps : Nat}
    (hsteps : scope.index < steps) :
    tree.Outward scope (tree.climb steps scope) := by
  induction steps generalizing scope with
  | zero => exact absurd hsteps (Nat.not_lt_zero _)
  | succ steps ih =>
    unfold climb
    cases hparent : tree.parent? scope with
    | none => exact .last hparent
    | some parent =>
      have hlt := h.index_lt_of_parent? hparent
      exact .next hparent (ih (by omega))

theorem Nested.outward_chain (h : tree.Nested) (scope : ScopeId) :
    tree.Outward scope (tree.chain scope) := by
  exact h.outward_climb (Nat.lt_succ_self _)

/-!
## What a scope offers
-/

def Owns (tree : ScopeTree) (scope : ScopeId) (name : String) (id : SymbolId) :
    Prop :=
  id.index < tree.symbols.size ∧ (tree.symbol id).scope = scope ∧
    (tree.symbol id).name = name

/-- The symbol is a variable of a local scope whose declaration is still to
come. -/
def Awaits (tree : ScopeTree) (scope : ScopeId) (id : SymbolId) : Prop :=
  (tree.scope scope).kind ∈ [ScopeKind.function, .block, .loop, .handler] ∧
    (tree.symbol id).kind = .var ∧ (tree.symbol id).declared = false

def OffersOwn (tree : ScopeTree) (scope : ScopeId) (name : String)
    (id : SymbolId) : Prop :=
  tree.Owns scope name id ∧ ¬tree.Awaits scope id

def OffersPublic (tree : ScopeTree) (target : ScopeId) (name : String)
    (id : SymbolId) : Prop :=
  tree.Owns target name id ∧ (tree.symbol id).visibility = .pub

/-- The scope has the symbol for the name, of its own or from an import. -/
def Offers (tree : ScopeTree) (scope : ScopeId) (name : String)
    (id : SymbolId) : Prop :=
  tree.OffersOwn scope name id ∨
    ∃ target ∈ (tree.scope scope).imports, tree.OffersPublic target name id

/-- Of all that the scope has for the name the symbol is the one that counts:
its own before those from imports, and those from earlier imports before those
from later ones. -/
def Prefers (tree : ScopeTree) (scope : ScopeId) (name : String)
    (id : SymbolId) : Prop :=
  tree.OffersOwn scope name id ∨
    (∀ own, ¬tree.OffersOwn scope name own) ∧
      ∃ earlier target later, (tree.scope scope).imports = earlier ++
      target :: later ∧
        (∀ before ∈ earlier, ∀ other, ¬tree.OffersPublic before name other) ∧
          tree.OffersPublic target name id

/-- The name denotes the symbol that the nearest scope prefers, where nearer
ones offer nothing. -/
def Denotes (tree : ScopeTree) (scope : ScopeId) (name : String)
    (id : SymbolId) : Prop :=
  ∃ nearer outer farther, tree.Outward scope (nearer ++ outer :: farther) ∧
    (∀ near ∈ nearer, ∀ other, ¬tree.Offers near name other) ∧
    tree.Prefers outer name id

theorem Prefers.offers (h : tree.Prefers scope name id) :
    tree.Offers scope name id := by
  rcases h with hown | ⟨-, earlier, target, later, himports, -, hpublic⟩
  · exact .inl hown
  · refine .inr ⟨target, ?_, hpublic⟩
    rw [himports]
    exact List.mem_append_right _ List.mem_cons_self

theorem isPending_iff :
    tree.isPending (tree.scope scope) id = true ↔ tree.Awaits scope id := by
  have hlocal : (tree.scope scope).kind.isLocal = true ↔
      (tree.scope scope).kind ∈
      [ScopeKind.function, .block, .loop, .handler] := by
    cases (tree.scope scope).kind <;> decide
  simp only [isPending, Bool.and_eq_true, hlocal, beq_iff_eq, Bool.not_eq_true',
    Awaits, and_assoc]

namespace Tabled

theorem get?_eq_some_iff (h : tree.Tabled) :
    (tree.scope scope).get? name = some id ↔ tree.Owns scope name id := by
  rw [h.names, h.mem_symbols, Owns, and_assoc]

theorem ownOffer?_eq_some_iff (h : tree.Tabled) :
    tree.ownOffer? (tree.scope scope) name = some id ↔
      tree.OffersOwn scope name id := by
  rw [ownOffer?, Option.filter_eq_some_iff, h.get?_eq_some_iff,
    Bool.not_eq_true', ← Bool.not_eq_true, isPending_iff, OffersOwn]

theorem ownOffer?_eq_none_iff (h : tree.Tabled) :
    tree.ownOffer? (tree.scope scope) name = none ↔
      ∀ own, ¬tree.OffersOwn scope name own := by
  rw [Option.eq_none_iff_forall_ne_some]
  exact forall_congr' fun own => not_congr h.ownOffer?_eq_some_iff

theorem importOffer?_eq_some_iff (h : tree.Tabled) :
    tree.importOffer? name target = some id ↔
      tree.OffersPublic target name id := by
  rw [importOffer?, Option.filter_eq_some_iff, h.get?_eq_some_iff,
    Symbol.isPublic, beq_iff_eq, OffersPublic]

theorem importOffer?_eq_none_iff (h : tree.Tabled) :
    tree.importOffer? name target = none ↔
      ∀ other, ¬tree.OffersPublic target name other := by
  rw [Option.eq_none_iff_forall_ne_some]
  exact forall_congr' fun other => not_congr h.importOffer?_eq_some_iff

theorem offer?_eq_some_iff (h : tree.Tabled) :
    tree.offer? name scope = some id ↔ tree.Prefers scope name id := by
  simp only [offer?, Option.or_eq_some_iff, List.findSome?_eq_some_iff,
    h.ownOffer?_eq_some_iff, h.ownOffer?_eq_none_iff,
    h.importOffer?_eq_some_iff, h.importOffer?_eq_none_iff, Prefers]
  refine or_congr_right (and_congr_right fun _ => ?_)
  exact exists₃_congr fun _ _ _ => and_congr_right fun _ => and_comm

theorem offer?_eq_none_iff (h : tree.Tabled) :
    tree.offer? name scope = none ↔ ∀ other, ¬tree.Offers scope name other := by
  simp only [offer?, Option.or_eq_none_iff, List.findSome?_eq_none_iff,
    h.ownOffer?_eq_none_iff, h.importOffer?_eq_none_iff, Offers, not_or,
    not_exists, not_and, forall_and]
  refine and_congr_right fun _ => ?_
  exact ⟨fun hnone other target htarget => hnone target htarget other,
    fun hnone target htarget other => hnone other target htarget⟩

end Tabled

namespace WellFormed

theorem lookupFrom_eq_some_iff (h : tree.WellFormed) :
    tree.lookupFrom scope name = some id ↔ tree.Denotes scope name id := by
  have hchain := h.outward_chain scope
  simp only [lookupFrom, List.findSome?_eq_some_iff, h.offer?_eq_some_iff,
    h.offer?_eq_none_iff, Denotes]
  constructor
  · rintro ⟨nearer, outer, farther, hsplit, hprefers, hnearer⟩
    exact ⟨nearer, outer, farther, hsplit ▸ hchain, hnearer, hprefers⟩
  · rintro ⟨nearer, outer, farther, houtward, hnearer, hprefers⟩
    exact ⟨nearer, outer, farther, hchain.unique houtward, hprefers, hnearer⟩

theorem lookupFrom_eq_none_iff (h : tree.WellFormed) :
    tree.lookupFrom scope name = none ↔ ∀ outer, tree.LiesIn scope outer →
      ∀ other, ¬tree.Offers outer name other := by
  simp only [lookupFrom, List.findSome?_eq_none_iff, h.offer?_eq_none_iff,
    (h.outward_chain scope).mem_iff]

end WellFormed

/-- What is denoted from outside the scopes around the place is public, and is
there by an import. -/
theorem Denotes.visible (h : tree.Denotes scope name id) :
    (tree.symbol id).name = name ∧
      (tree.LiesIn scope (tree.symbol id).scope ∨ (tree.symbol id).visibility =
        .pub ∧ ∃ outer, tree.LiesIn scope outer ∧
        (tree.symbol id).scope ∈ (tree.scope outer).imports) := by
  obtain ⟨nearer, outer, farther, houtward, -, hprefers⟩ := h
  have hlies : tree.LiesIn scope outer :=
    houtward.mem_iff.mp (List.mem_append_right _ List.mem_cons_self)
  rcases hprefers.offers with ⟨⟨-, rfl, hname⟩, -⟩
    | ⟨target, himport, ⟨-, rfl, hname⟩, hpublic⟩
  · exact ⟨hname, .inl hlies⟩
  · exact ⟨hname, .inr ⟨hpublic, outer, hlies, himport⟩⟩

/-!
## Declared symbols
-/

def withDeclared (tree : ScopeTree) (declared : SymbolId → Bool) : ScopeTree :=
  { tree with
    symbols := tree.symbols.mapIdx fun index symbol =>
      { symbol with declared := declared ⟨index⟩ } }

variable {declared : SymbolId → Bool}

theorem size_withDeclared :
    (tree.withDeclared declared).symbols.size = tree.symbols.size :=
  Array.size_mapIdx

theorem proj_withDeclared {γ : Type} (g : Symbol → γ)
    (hg : ∀ symbol flag, g { symbol with declared := flag } = g symbol)
    (id : SymbolId) :
    g ((tree.withDeclared declared).symbol id) = g (tree.symbol id) := by
  simp only [symbol, withDeclared, Array.getElem?_mapIdx]
  cases tree.symbols[id.index]? with
  | none => rfl
  | some symbol => exact hg symbol (declared id)

theorem WellFormed.withDeclared (h : tree.WellFormed)
    (declared : SymbolId → Bool) : (tree.withDeclared declared).WellFormed := by
  constructor
  case toNested => exact h.toNested.congr (fun _ => Iff.rfl) fun _ => rfl
  case toTabled =>
    constructor
    case symbol_id =>
      intro id
      rw [size_withDeclared, proj_withDeclared Symbol.id fun _ _ => rfl]
      exact h.symbol_id id
    case symbols =>
      intro scope id
      rw [size_withDeclared, proj_withDeclared Symbol.scope fun _ _ => rfl]
      exact h.symbols scope id
    case names =>
      intro scope name id
      rw [proj_withDeclared Symbol.name fun _ _ => rfl]
      exact h.names scope name id

end ScopeTree

/-!
## The trees of programs
-/

theorem Program.title_of_import (program : Program) {scope target : ScopeId}
    (himport : target ∈ (program.collect.tree.scope scope).imports) :
    ∃ module ∈ program.modules,
      (program.collect.tree.scope target).title = (.module, module.name) := by
  obtain ⟨opened, start, hopened, hgrown⟩ := program.collect_grown
  obtain ⟨name, hmem⟩ := hgrown.sound.imports scope target himport
  rw [hgrown.modules] at hmem
  obtain ⟨entry, hentry, rfl, rfl⟩ := hopened.mem_modules.mp hmem
  obtain ⟨hhas, htitle⟩ := hopened.titled entry hentry
  refine ⟨entry.1, ?_, (hgrown.tree.title entry.2 hhas).trans htitle⟩
  rw [← hopened.modules]
  exact List.mem_map_of_mem hentry

/-- Whatever symbols of a program are declared, a name looked up from a scope
denotes what the nearest scope around it prefers, and nothing only if no scope
around it offers anything.  The way outward ends.  What is found has the name;
it stands in a scope around the place, or it is public and stands in a module
that one of these scopes imports, so nothing private is found from outside.
-/
theorem lookup_is_innermost_first
    (program : Program)
    (declared : SymbolId → Bool)
    (scope : ScopeId)
    (name : String) :
    let tree := program.collect.tree.withDeclared declared
    tree.Outward scope (tree.chain scope) ∧
    (∀ id, tree.lookupFrom scope name = some id ↔ tree.Denotes scope name id) ∧
    (tree.lookupFrom scope name = none ↔
      ∀ outer, tree.LiesIn scope outer → ∀ id, ¬tree.Offers outer name id) ∧
    (∀ id, tree.lookupFrom scope name = some id → (tree.symbol id).name = name ∧
      (tree.LiesIn scope (tree.symbol id).scope ∨
        (tree.symbol id).visibility = .pub ∧
        ∃ outer module, tree.LiesIn scope outer ∧
          (tree.symbol id).scope ∈ (tree.scope outer).imports ∧
          module ∈ program.modules ∧
            (tree.scope (tree.symbol id).scope).title =
            (.module, module.name))) := by
  intro tree
  obtain ⟨opened, start, -, hgrown⟩ := program.collect_grown
  have hformed : tree.WellFormed :=
    hgrown.sound.wellFormed.withDeclared declared
  refine ⟨hformed.outward_chain scope, fun _ => hformed.lookupFrom_eq_some_iff,
    hformed.lookupFrom_eq_none_iff, fun id hid => ?_⟩
  obtain ⟨hname, hlies | ⟨hpublic, outer, hlies, himport⟩⟩ :=
    (hformed.lookupFrom_eq_some_iff.mp hid).visible
  · exact ⟨hname, .inl hlies⟩
  · obtain ⟨module, hmodule, htitle⟩ := program.title_of_import himport
    exact ⟨hname,
      .inr ⟨hpublic, outer, module, hlies, himport, hmodule, htitle⟩⟩

end StaticCheck
