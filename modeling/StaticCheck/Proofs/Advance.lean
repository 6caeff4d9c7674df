import StaticCheck.Checker.Session
import Mathlib.Tactic.Common

/-!
# What checking changes

Checking moves a session forward: reports are added at the end, symbols get
types and flags, and the function around may be marked as left by a return or a
throw.  All else, the place in the program above all, is afterwards as it was
before.
-/

namespace StaticCheck

/-- A symbol at a later time.  Flags are set and never cleared, the type may be
another one. -/
structure Symbol.Advances (a b : Symbol) : Prop where
  fixed :
    b = { a with
      ty := b.ty, declared := b.declared, initialized := b.initialized,
        used := b.used,
      checked := b.checked }
  declared : a.declared = true → b.declared = true
  initialized : a.initialized = true → b.initialized = true
  used : a.used = true → b.used = true
  checked : a.checked = true → b.checked = true

namespace Symbol.Advances

theorem refl (a : Symbol) : a.Advances a where
  fixed := rfl
  declared h := h
  initialized h := h
  used h := h
  checked h := h

variable {a b c : Symbol}

theorem kind_eq (h : a.Advances b) : b.kind = a.kind := by
  rw [h.fixed]

theorem info_eq (h : a.Advances b) : b.info = a.info := by
  rw [h.fixed]

theorem scope_eq (h : a.Advances b) : b.scope = a.scope := by
  rw [h.fixed]

theorem visibility_eq (h : a.Advances b) : b.visibility = a.visibility := by
  rw [h.fixed]

theorem trans (hab : a.Advances b) (hbc : b.Advances c) : a.Advances c where
  fixed := by
    rw [hbc.fixed, hab.fixed]
  declared h := hbc.declared (hab.declared h)
  initialized h := hbc.initialized (hab.initialized h)
  used h := hbc.used (hab.used h)
  checked h := hbc.checked (hab.checked h)

end Symbol.Advances

structure ScopeTree.SameProgram (a b : ScopeTree) : Prop where
  scopes : b.scopes = a.scopes
  nodes : b.nodes = a.nodes
  modules : b.modules = a.modules
  size : b.symbols.size = a.symbols.size
  symbols : ∀ id, (a.symbol id).Advances (b.symbol id)

/-- A scope tree at a later time: its symbols have advanced and nothing else has
changed. -/
structure ScopeTree.Advances (a b : ScopeTree) : Prop
    extends a.SameProgram b where
  current : b.current = a.current

namespace ScopeTree

theorem symbol_updateSymbol_of_ne (tree : ScopeTree) {id other : SymbolId}
    (f : Symbol → Symbol) (hne : other ≠ id) :
    (tree.updateSymbol id f).symbol other = tree.symbol other := by
  have hindex : id.index ≠ other.index := by
    intro h
    apply hne
    cases id
    cases other
    simp_all
  simp only [symbol, updateSymbol]
  rw [Array.getElem?_setIfInBounds_ne hindex]

theorem symbol_updateSymbol_of_lt (tree : ScopeTree) {id : SymbolId}
    (f : Symbol → Symbol) (hlt : id.index < tree.symbols.size) :
    (tree.updateSymbol id f).symbol id = f (tree.symbol id) := by
  simp [symbol, updateSymbol, hlt]

theorem symbol_updateSymbol_self (tree : ScopeTree) (id : SymbolId)
    (f : Symbol → Symbol) :
    (tree.updateSymbol id f).symbol id = f (tree.symbol id) ∨
      (tree.updateSymbol id f).symbol id = tree.symbol id := by
  by_cases hlt : id.index < tree.symbols.size
  · left
    exact symbol_updateSymbol_of_lt tree f hlt
  · right
    simp [symbol, updateSymbol, hlt]

theorem symbol_updateSymbol_induction (tree : ScopeTree) (id : SymbolId)
    (f : Symbol → Symbol) {P : Symbol → Symbol → Prop}
    (hself : P (tree.symbol id) (f (tree.symbol id)))
    (hrefl : ∀ symbol, P symbol symbol) (other : SymbolId) :
    P (tree.symbol other) ((tree.updateSymbol id f).symbol other) := by
  by_cases heq : other = id
  · subst heq
    rcases symbol_updateSymbol_self tree other f with h | h
    · rw [h]
      exact hself
    · rw [h]
      exact hrefl _
  · rw [symbol_updateSymbol_of_ne tree f heq]
    exact hrefl _

variable {a b c : ScopeTree}

theorem SameProgram.refl (tree : ScopeTree) : tree.SameProgram tree where
  scopes := rfl
  nodes := rfl
  modules := rfl
  size := rfl
  symbols _ := Symbol.Advances.refl _

theorem SameProgram.trans (hab : a.SameProgram b) (hbc : b.SameProgram c) :
    a.SameProgram c where
  scopes := hbc.scopes.trans hab.scopes
  nodes := hbc.nodes.trans hab.nodes
  modules := hbc.modules.trans hab.modules
  size := hbc.size.trans hab.size
  symbols id := (hab.symbols id).trans (hbc.symbols id)

namespace Advances

theorem refl (tree : ScopeTree) : tree.Advances tree where
  toSameProgram := .refl tree
  current := rfl

theorem trans (hab : a.Advances b) (hbc : b.Advances c) : a.Advances c where
  toSameProgram := hab.toSameProgram.trans hbc.toSameProgram
  current := hbc.current.trans hab.current

theorem updateSymbol (tree : ScopeTree) (id : SymbolId) {f : Symbol → Symbol}
    (hf : (tree.symbol id).Advances (f (tree.symbol id))) :
    tree.Advances (tree.updateSymbol id f) where
  scopes := rfl
  nodes := rfl
  modules := rfl
  current := rfl
  size := by simp [ScopeTree.updateSymbol]
  symbols := tree.symbol_updateSymbol_induction id f hf Symbol.Advances.refl

theorem setType (h : a.Advances b) {id : SymbolId}
    (hnone : (a.symbol id).ty = none) (ty : Ty) :
    a.Advances
      (b.updateSymbol id fun symbol => { symbol with ty := some ty }) where
  scopes := h.scopes
  nodes := h.nodes
  modules := h.modules
  current := h.current
  size := by simp [ScopeTree.updateSymbol, h.size]
  symbols other := by
    by_cases heq : other = id
    · subst heq
      have hbefore := h.symbols other
      rcases b.symbol_updateSymbol_self other fun symbol =>
        { symbol with ty := some ty } with hset | hset
      · rw [hset]
        refine { hbefore with fixed := ?_ }
        rw [hbefore.fixed]
      · rw [hset]
        exact hbefore
    · rw [symbol_updateSymbol_of_ne b _ heq]
      exact h.symbols other

theorem detour {scope : ScopeId} (h : (a.enter scope).Advances b) :
    a.Advances (b.enter a.current) where
  scopes := h.scopes
  nodes := h.nodes
  modules := h.modules
  current := rfl
  size := h.size
  symbols := h.symbols

end Advances
end ScopeTree

structure Frame.Advances (a b : Frame) : Prop where
  fixed : b = { a with hasReturn := b.hasReturn, hasThrow := b.hasThrow }
  hasReturn : a.hasReturn = true → b.hasReturn = true
  hasThrow : a.hasThrow = true → b.hasThrow = true

namespace Frame.Advances

theorem refl (a : Frame) : a.Advances a := ⟨rfl, id, id⟩

theorem trans {a b c : Frame} (hab : a.Advances b) (hbc : b.Advances c) :
    a.Advances c where
  fixed := by
    rw [hbc.fixed, hab.fixed]
  hasReturn h := hbc.hasReturn (hab.hasReturn h)
  hasThrow h := hbc.hasThrow (hab.hasThrow h)

end Frame.Advances

/-- A session at a later time of a pass. -/
structure Session.Progress (a b : Session) : Prop where
  tree : a.tree.Advances b.tree
  inFlight : b.inFlight = a.inFlight
  unfolding : b.unfolding = a.unfolding
  frame : Option.Rel Frame.Advances a.frame b.frame
  passStart : b.passStart = a.passStart
  program : b.program = a.program
  diagnostics : a.diagnostics.items <+: b.diagnostics.items

/-- A session at a later time, at the same place of the program. -/
structure Session.Advances (a b : Session) : Prop extends a.Progress b where
  context : b.context = a.context
  module : b.module = a.module

namespace Session

theorem Advances.frame_refl (frame : Option Frame) :
    Option.Rel Frame.Advances frame frame := by
  cases frame with
  | none => exact .none
  | some frame => exact .some (Frame.Advances.refl frame)

theorem Advances.frame_trans {a b c : Option Frame}
    (hab : Option.Rel Frame.Advances a b)
    (hbc : Option.Rel Frame.Advances b c) : Option.Rel Frame.Advances a c := by
  cases hab with
  | none => exact hbc
  | some hab =>
    cases hbc with
    | some hbc => exact .some (hab.trans hbc)

theorem Progress.refl (s : Session) : s.Progress s where
  tree := .refl _
  inFlight := rfl
  unfolding := rfl
  frame := Advances.frame_refl _
  passStart := rfl
  program := rfl
  diagnostics := List.prefix_rfl

theorem Progress.trans {a b c : Session} (hab : a.Progress b)
    (hbc : b.Progress c) : a.Progress c where
  tree := hab.tree.trans hbc.tree
  inFlight := hbc.inFlight.trans hab.inFlight
  unfolding := hbc.unfolding.trans hab.unfolding
  frame := Advances.frame_trans hab.frame hbc.frame
  passStart := hbc.passStart.trans hab.passStart
  program := hbc.program.trans hab.program
  diagnostics := hab.diagnostics.trans hbc.diagnostics

theorem Advances.refl (s : Session) : s.Advances s where
  toProgress := .refl s
  context := rfl
  module := rfl

theorem Advances.trans {a b c : Session} (hab : a.Advances b)
    (hbc : b.Advances c) : a.Advances c where
  toProgress := hab.toProgress.trans hbc.toProgress
  context := hbc.context.trans hab.context
  module := hbc.module.trans hab.module

end Session
end StaticCheck
