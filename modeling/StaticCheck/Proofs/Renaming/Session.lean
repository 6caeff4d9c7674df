import StaticCheck.Proofs.Renaming.Types
import StaticCheck.Checker.Session
import Mathlib.Data.List.Basic
import Mathlib.Logic.Embedding.Basic

/-!
# Renamed sessions

A session is renamed in the program, in what is known of the symbols, and in the
keys under which types are remembered.  The scopes, the reports and the flags of
symbols hold no node ids.
-/

namespace StaticCheck

class Renames (α : Type) where
  rename : (NodeId → NodeId) → α → α

export Renames (rename)

class NoIds (α : Type) : Prop

instance : NoIds Unit where
instance : NoIds Bool where
instance : NoIds Nat where
instance : NoIds Int where
instance : NoIds String where
instance : NoIds ScopeId where
instance : NoIds SymbolId where
instance : NoIds Span where
instance : NoIds Finding where
instance : NoIds UnaryOp where
instance : NoIds BinaryOp where
instance : NoIds ErrorMode where
instance : NoIds Builtin.Arg where
instance : NoIds UseDecl where
instance {α : Type} : NoIds (Except Finding α) where
instance {α : Type} [NoIds α] : NoIds (Option α) where
instance {α : Type} [NoIds α] : NoIds (List α) where

instance {α : Type} [NoIds α] : Renames α := ⟨fun _ a => a⟩

instance : Renames NodeId := ⟨fun f => f⟩
instance {α : Type} : Renames (Except Finding α) := ⟨fun _ a => a⟩

instance : Renames Ty := ⟨Ty.rename⟩
instance : Renames Extent := ⟨Extent.rename⟩
instance : Renames Member := ⟨Member.rename⟩
instance : Renames Variant := ⟨Variant.rename⟩
instance : Renames StructTy := ⟨StructTy.rename⟩
instance : Renames EnumTy := ⟨EnumTy.rename⟩
instance : Renames Literal := ⟨Literal.rename⟩
instance : Renames Expr := ⟨Expr.rename⟩
instance : Renames ObjectField := ⟨ObjectField.rename⟩
instance : Renames MatchCase := ⟨MatchCase.rename⟩
instance : Renames Stmt := ⟨Stmt.rename⟩
instance : Renames Block := ⟨Block.rename⟩
instance : Renames LetDecl := ⟨LetDecl.rename⟩
instance : Renames DefDecl := ⟨DefDecl.rename⟩
instance : Renames Slot := ⟨Slot.rename⟩
instance : Renames FuncDecl := ⟨FuncDecl.rename⟩
instance : Renames StructDecl := ⟨StructDecl.rename⟩
instance : Renames VariantDecl := ⟨VariantDecl.rename⟩
instance : Renames EnumDecl := ⟨EnumDecl.rename⟩
instance : Renames Module := ⟨Module.rename⟩

instance {α : Type} [Renames α] : Renames (Option α) :=
  ⟨fun f => Option.map (rename f)⟩
instance {α : Type} [Renames α] : Renames (List α) :=
  ⟨fun f => List.map (rename f)⟩
instance {α β : Type} [Renames α] [Renames β] : Renames (α × β) :=
  ⟨fun f pair => (rename f pair.1, rename f pair.2)⟩

/-!
## Scopes and symbols
-/

section

variable (f : NodeId → NodeId)

def ParamInfo.rename (param : ParamInfo) : ParamInfo :=
  { param with ty := param.ty.rename f }

def SymbolInfo.rename (info : SymbolInfo) : SymbolInfo :=
  { info with
    params := info.params.map (ParamInfo.rename f)
    result := info.result.map (Ty.rename f)
    ascribed := info.ascribed.map (Ty.rename f)
    initializer := info.initializer.map (Expr.rename f)
    aliased := info.aliased.map (Ty.rename f) }

def Symbol.rename (symbol : Symbol) : Symbol :=
  { symbol with
    ty := symbol.ty.map (Ty.rename f), info := symbol.info.rename f }

def ScopeTree.rename (tree : ScopeTree) : ScopeTree :=
  { tree with
    symbols := tree.symbols.map (Symbol.rename f)
    nodes := tree.nodes.map fun entry => (f entry.1, entry.2) }

def Frame.rename (frame : Frame) : Frame :=
  { frame with
    result := frame.result.map (Ty.rename f)
    errorType := frame.errorType.map (Ty.rename f) }

def Context.rename (context : Context) : Context :=
  { context with
    expectations := context.expectations.map (Option.map (Ty.rename f)) }

def ExprKey.rename (key : ExprKey) : ExprKey := { key with node := f key.node }

def Insertion.rename (insertion : Insertion) : Insertion :=
  ⟨insertion.key.rename f, insertion.replaced.map (Ty.rename f)⟩

def TypeCache.renameEntries (entries : List (ExprKey × Ty)) :
    List (ExprKey × Ty) :=
  entries.map fun entry => (entry.1.rename f, entry.2.rename f)

def TypeCache.rename (cache : TypeCache) : TypeCache :=
  { cache with
    entries := TypeCache.renameEntries f cache.entries
    order := cache.order.map (ExprKey.rename f)
    trials := cache.trials.map (List.map (Insertion.rename f)) }

def Session.rename (s : Session) : Session :=
  { s with
    program := s.program.rename f
    tree := s.tree.rename f
    context := s.context.rename f
    cache := s.cache.rename f
    inFlight := s.inFlight.map (ExprKey.rename f)
    frame := s.frame.map (Frame.rename f) }

end

instance : Renames Symbol := ⟨Symbol.rename⟩
instance : Renames SymbolInfo := ⟨SymbolInfo.rename⟩
instance : Renames ScopeTree := ⟨ScopeTree.rename⟩
instance : Renames Frame := ⟨Frame.rename⟩
instance : Renames ExprKey := ⟨ExprKey.rename⟩
instance : Renames Session := ⟨Session.rename⟩

variable {f : NodeId → NodeId}

namespace Symbol

variable {symbol : Symbol}

@[simp] theorem rename_name : (symbol.rename f).name = symbol.name := rfl
@[simp] theorem rename_kind : (symbol.rename f).kind = symbol.kind := rfl
@[simp] theorem rename_visibility :
    (symbol.rename f).visibility = symbol.visibility := rfl

end Symbol

@[simp] theorem SymbolInfo.requiredParams_rename (info : SymbolInfo) :
    (info.rename f).requiredParams = info.requiredParams := by
  simp only [requiredParams, rename, List.findIdx?_map, List.length_map]
  rfl

theorem lookup_map_of_injective {α β γ : Type} [BEq α] [LawfulBEq α] {g : α → α}
    (hg : Function.Injective g) (h : β → γ) (key : α) (entries : List (α × β)) :
    (entries.map fun entry => (g entry.1, h entry.2)).lookup (g key) =
      (entries.lookup key).map h := by
  induction entries with
  | nil => rfl
  | cons entry rest ih =>
    obtain ⟨other, value⟩ := entry
    by_cases hkey : key = other
    · simp [hkey]
    · have hne : g key ≠ g other := fun heq => hkey (hg heq)
      simp [List.lookup_cons, beq_false_of_ne hkey, beq_false_of_ne hne, ih]

namespace ScopeTree

variable {tree : ScopeTree}

@[simp] theorem rename_current : (tree.rename f).current = tree.current := rfl
@[simp] theorem scope_rename (id : ScopeId) :
    (tree.rename f).scope id = tree.scope id := rfl

@[simp] theorem parent?_rename (id : ScopeId) :
    (tree.rename f).parent? id = tree.parent? id := rfl

@[simp] theorem lookupLocal_rename (scope : ScopeId) (name : String) :
    (tree.rename f).lookupLocal scope name = tree.lookupLocal scope name := rfl

@[simp] theorem symbol_rename (id : SymbolId) :
    (tree.rename f).symbol id = (tree.symbol id).rename f := by
  simp only [symbol, rename, Array.getElem?_map]
  cases tree.symbols[id.index]? <;> rfl

@[simp] theorem updateSymbol_rename {g g' : Symbol → Symbol} (id : SymbolId)
    (hg : g' ((tree.symbol id).rename f) = (g (tree.symbol id)).rename f) :
    (tree.rename f).updateSymbol id g' = (tree.updateSymbol id g).rename f := by
  simp only [updateSymbol, symbol_rename, hg]
  simp only [rename, Array.map_setIfInBounds]

@[simp] theorem offer?_rename (name : String) (id : ScopeId) :
    (tree.rename f).offer? name id = tree.offer? name id := by
  have hown : ∀ scope, (tree.rename f).ownOffer? scope name =
      tree.ownOffer? scope name := by
    intro scope
    simp only [ownOffer?, isPending, symbol_rename]
    rfl
  have himport : ∀ target, (tree.rename f).importOffer? name target =
      tree.importOffer? name target := by
    intro target
    simp only [importOffer?, symbol_rename]
    rfl
  simp only [offer?, hown]
  exact congrArg (Option.or _) (congrArg (List.findSome? · _) (funext himport))

@[simp] theorem climb_rename (steps : Nat) (id : ScopeId) :
    (tree.rename f).climb steps id = tree.climb steps id := by
  induction steps generalizing id with
  | zero => rfl
  | succ steps ih =>
    simp only [climb, ih]
    rfl

@[simp] theorem chain_rename (id : ScopeId) :
    (tree.rename f).chain id = tree.chain id :=
  climb_rename _ id

@[simp] theorem lookupFrom_rename (id : ScopeId) (name : String) :
    (tree.rename f).lookupFrom id name = tree.lookupFrom id name := by
  simp only [lookupFrom, chain_rename]
  exact congrArg (List.findSome? · _)
    (funext fun scope => offer?_rename name scope)

@[simp] theorem lookup_rename (name : String) :
    (tree.rename f).lookup name = tree.lookup name := lookupFrom_rename _ name

@[simp] theorem isWithin_rename (id ancestor : ScopeId) :
    (tree.rename f).isWithin id ancestor = tree.isWithin id ancestor := by
  simp only [isWithin, chain_rename]

theorem nodeScope?_rename (hf : Function.Injective f) (node : NodeId) :
    (tree.rename f).nodeScope? (f node) = tree.nodeScope? node := by
  exact (lookup_map_of_injective hf id node tree.nodes).trans
    Option.map_id_apply

theorem loopVariable?_rename (hf : Function.Injective f) (binding : String)
    (body : NodeId) :
    (tree.rename f).loopVariable? binding (f body) =
      tree.loopVariable? binding body := by
  simp only [loopVariable?, nodeScope?_rename hf]
  rfl

theorem bindLoop_rename (hf : Function.Injective f) (binding : String)
    (body : NodeId) (ty : Option Ty) :
    (tree.rename f).bindLoop binding (f body) (ty.map (Ty.rename f)) =
      (tree.bindLoop binding body ty).rename f := by
  simp only [bindLoop, loopVariable?_rename hf]
  cases tree.loopVariable? binding body with
  | none => rfl
  | some id => exact updateSymbol_rename id rfl

@[simp] theorem contents_rename (symbol : Symbol) :
    (symbol.rename f).contents = symbol.contents.map (Ty.rename f) := by
  obtain ⟨id, name, kind, ty, visibility, mutable, info, scope, span, _, _, _,
    _⟩ := symbol
  cases ty with
  | none =>
    cases haliased : info.aliased <;>
      simp [Symbol.contents, Symbol.rename, SymbolInfo.rename, haliased]
  | some ty =>
    cases ty with
    | struct struct => simp [Symbol.contents, Symbol.rename, Ty.rename]
    | enum enum =>
      simp [Symbol.contents, Symbol.rename, Ty.rename, List.filterMap_map,
        List.map_filterMap]
    | _ =>
      cases haliased : info.aliased <;>
        simp [Symbol.contents, Symbol.rename, SymbolInfo.rename,
          Ty.rename, haliased]

@[simp] theorem reaches_rename (root : SymbolId) (steps : Nat)
    (path : List SymbolId) (scope : ScopeId) (name : String) :
    (tree.rename f).reaches root steps path scope name =
      tree.reaches root steps path scope name := by
  induction steps generalizing path scope name with
  | zero => rfl
  | succ steps ih =>
    have hreached : ∀ path scope,
        (tree.rename f).reaches root steps path scope =
        tree.reaches root steps path scope :=
          fun path scope => funext fun name => ih path scope name
    simp only [reaches, lookupFrom_rename, symbol_rename,
      contents_rename, hreached, ← Ty.renameAll_eq, Ty.mentionsAny_rename]
    rfl

@[simp] theorem contains_rename (root : SymbolId) (path : List SymbolId)
    (scope : ScopeId) (ty : Ty) :
    (tree.rename f).contains root path scope (ty.rename f) =
      tree.contains root path scope ty := by
  have hreached :
      (tree.rename f).reaches root (tree.symbols.size + 1) path scope =
      tree.reaches root (tree.symbols.size + 1) path scope :=
    funext fun name => reaches_rename root _ path scope name
  have hsize : (tree.rename f).symbols.size = tree.symbols.size :=
    Array.size_map ..
  simp only [contains, Ty.mentions_rename, symbol_rename, hsize, hreached]
  rfl

end ScopeTree

/-!
## Remembered types
-/

theorem ExprKey.rename_injective (hf : Function.Injective f) :
    Function.Injective (ExprKey.rename f) := by
  rintro ⟨module, node, form⟩ ⟨otherModule, otherNode, otherForm⟩ h
  simp only [ExprKey.rename, ExprKey.mk.injEq] at h
  rw [h.1, hf h.2.1, h.2.2]

namespace TypeCache

variable {cache : TypeCache}

@[simp] theorem size_rename : (cache.rename f).size = cache.size :=
  List.length_map ..

theorem get?_rename (hf : Function.Injective f) (key : ExprKey) :
    (cache.rename f).get? (key.rename f) = (cache.get? key).map
      (Ty.rename f) := by
  exact lookup_map_of_injective (ExprKey.rename_injective hf) (Ty.rename f) key
    cache.entries

theorem replace_rename (hf : Function.Injective f)
    (entries : List (ExprKey × Ty)) (key : ExprKey) (ty : Ty) :
    replace (renameEntries f entries) (key.rename f) (ty.rename f) =
      renameEntries f (replace entries key ty) := by
  simp only [replace, renameEntries, List.map_map]
  refine List.map_congr_left fun entry _ => ?_
  by_cases hkey : entry.1 = key
  · simp [hkey]
  · have hne : entry.1.rename f ≠ key.rename f :=
      (ExprKey.rename_injective hf).ne hkey
    simp [hkey, hne]

theorem filter_key_rename (hf : Function.Injective f) (keys : List ExprKey)
    (key : ExprKey) :
    (keys.map (ExprKey.rename f)).filter (fun other => other ≠ key.rename f) =
      (keys.filter fun other => other ≠ key).map (ExprKey.rename f) := by
  rw [List.filter_map]
  congr 2
  funext other
  simp [(ExprKey.rename_injective hf).eq_iff]

theorem remove_rename (hf : Function.Injective f)
    (entries : List (ExprKey × Ty)) (key : ExprKey) :
    remove (renameEntries f entries) (key.rename f) = renameEntries f
      (remove entries key) := by
  simp only [remove, renameEntries, List.filter_map]
  congr 2
  funext entry
  simp [(ExprKey.rename_injective hf).eq_iff]

theorem dropOldest_rename (hf : Function.Injective f) (cache : TypeCache)
    (count : Nat) :
    (cache.rename f).dropOldest count = (cache.dropOldest count).rename f := by
  induction count generalizing cache with
  | zero => rfl
  | succ count ih =>
    obtain ⟨capacity, entries, order, trials⟩ := cache
    cases order with
    | nil => rfl
    | cons key order =>
      refine Eq.trans ?_ (ih ⟨capacity, remove entries key, order, trials⟩)
      exact congrArg (fun entries => dropOldest count ⟨capacity, entries, _, _⟩)
        (remove_rename hf entries key)

theorem withRoom_rename (hf : Function.Injective f) :
    (cache.rename f).withRoom = cache.withRoom.rename f := by
  have hfull : (cache.rename f).isFull = cache.isFull := by
    simp only [isFull, size_rename]
    rfl
  simp only [withRoom, hfull, size_rename, dropOldest_rename hf]
  split <;> rfl

theorem note_rename (trials : List (List Insertion)) (insertion : Insertion) :
    note (trials.map (List.map (Insertion.rename f))) (insertion.rename f) =
      (note trials insertion).map (List.map (Insertion.rename f)) := by
  cases trials <;> rfl

theorem insert_rename (hf : Function.Injective f) (key : ExprKey) (ty : Ty) :
    (cache.rename f).insert (key.rename f) (ty.rename f) =
      (cache.insert key ty).rename f := by
  by_cases hcapacity : cache.capacity = 0
  · have hother : (cache.rename f).capacity = 0 := hcapacity
    simp only [insert, hcapacity, hother, if_true]
  have hother : (cache.rename f).capacity ≠ 0 := hcapacity
  simp only [insert, if_neg hcapacity, if_neg hother, get?_rename hf]
  cases cache.get? key with
  | some previous =>
    exact congrArg₂
      (fun entries trials =>
        ({ cache.rename f with entries, trials } : TypeCache))
      (replace_rename hf cache.entries key ty)
      (note_rename cache.trials ⟨key, some previous⟩)
  | none =>
    simp only [Option.map_none, withRoom_rename hf]
    have hnote := note_rename (f := f) cache.trials ⟨key, none⟩
    simp only [rename, renameEntries, Insertion.rename, Option.map_none,
      List.map_append, List.map_cons, List.map_nil] at hnote ⊢
    rw [hnote]

theorem undo_rename (hf : Function.Injective f) (insertion : Insertion) :
    (cache.rename f).undo (insertion.rename f) =
      (cache.undo insertion).rename f := by
  obtain ⟨key, replaced⟩ := insertion
  cases replaced with
  | none =>
    exact congrArg₂
      (fun entries order =>
        ({ cache.rename f with entries, order } : TypeCache))
      (remove_rename hf cache.entries key)
      (filter_key_rename hf cache.order key)
  | some ty =>
    exact congrArg
      (fun entries => ({ cache.rename f with entries } : TypeCache))
      (replace_rename hf cache.entries key ty)

theorem undoAll_rename (hf : Function.Injective f) (journal : List Insertion) :
    (journal.map (Insertion.rename f)).foldl undo (cache.rename f) =
      (journal.foldl undo cache).rename f := by
  induction journal generalizing cache with
  | nil => rfl
  | cons insertion rest ih =>
    rw [List.map_cons, List.foldl_cons, undo_rename hf, ih]; rfl

theorem rollbackTrial_rename (hf : Function.Injective f) :
    (cache.rename f).rollbackTrial = cache.rollbackTrial.rename f := by
  cases htrials : cache.trials with
  | nil =>
    have hother : (cache.rename f).trials = [] := by simp [rename, htrials]
    simp only [rollbackTrial, htrials, hother]
  | cons journal outer =>
    have hother : (cache.rename f).trials =
        journal.map (Insertion.rename f) ::
        outer.map (List.map (Insertion.rename f)) := by
      simp [rename, htrials]
    simp only [rollbackTrial, htrials, hother, undoAll_rename hf]
    rfl

end TypeCache

end StaticCheck
