import StaticCheck.Proofs.PolicyParts

/-!
# What the collector declares

The collector makes scopes, binds nodes to them and declares symbols.  One
certificate says of each part of its walk which names are declared, in scopes
that were made before.  A property of single symbols that holds of every symbol
it declares holds of every symbol of the tree it makes.  What a symbol knows of
its declaration is a part of the program: it is no larger and has no other
loops.
-/

namespace StaticCheck

open Collect

variable {α β : Type} {P : Symbol → Prop}

/-!
## Declared names

The names declared in the parts of a program that are walked, one for each
declaration.
-/

def ExprKind.errorMembers : ExprKind → List String
  | .type (.errors names) => names
  | _ => []

/-- The names a function declares without writing them: the receiver of a method
that is not static and has no parameter in its place, and the carrier of the
errors of its own group. -/
def FuncDecl.implicitNames (decl : FuncDecl) (isMethod : Bool) : List String :=
  (if isMethod && decl.visibility != .static &&
    !decl.params.any (·.name == selfName) then
    [selfName] else []) ++
  (if decl.error.map ErrorClause.mode =
    some .selfGroup then [selfErrName] else [])

mutual

def Stmt.declaredNames : Stmt → List String
  | ⟨_, _, kind⟩ => kind.declaredNames

def StmtKind.declaredNames : StmtKind → List String
  | .expr value => value.declaredNames
  | .block block => block.declaredNames
  | .letDecl ⟨name, _, _, _, value⟩ => Expr.declaredNamesOpt value ++ [name]
  | .defDecl ⟨name, _, _, ⟨_, _, value⟩⟩ =>
    value.errorMembers ++ (value.declaredNames ++ [name])
  | .func decl => decl.declaredNames false
  | .struct ⟨_, name, _, fields, methods, _⟩ =>
    name :: (fields.map (·.name) ++ FuncDecl.declaredNamesAll methods)
  | .enum ⟨_, name, _, variants, methods, _⟩ =>
    name :: (variants.map (·.name) ++ FuncDecl.declaredNamesAll methods)
  | .use decl => [decl.localName]
  | .returnStmt value => Expr.declaredNamesOpt value
  | .throwStmt value => value.declaredNames
  | .whileLoop condition body => condition.declaredNames ++ body.declaredNames
  | .forLoop binding iterable body =>
    iterable.declaredNames ++ (binding :: body.declaredNames)
  | .breakStmt | .continueStmt => []

def Stmt.declaredNamesAll : List Stmt → List String
  | [] => []
  | stmt :: rest => stmt.declaredNames ++ Stmt.declaredNamesAll rest

def Stmt.declaredNamesOpt : Option Stmt → List String
  | none => []
  | some stmt => stmt.declaredNames

def Block.declaredNames : Block → List String
  | ⟨_, body, _⟩ => Stmt.declaredNamesAll body

def FuncDecl.declaredNames (isMethod : Bool) : FuncDecl → List String
  | ⟨id, name, visibility, params, result, error,
      ⟨bodyId, body, bodySpan⟩, span⟩ =>
    name ::
      (FuncDecl.implicitNames
          ⟨id, name, visibility, params, result, error,
            ⟨bodyId, body, bodySpan⟩, span⟩ isMethod ++
        params.map (·.name) ++ Stmt.declaredNamesAll body)

def FuncDecl.declaredNamesAll : List FuncDecl → List String
  | [] => []
  | method :: rest =>
    method.declaredNames true ++ FuncDecl.declaredNamesAll rest

def Expr.declaredNames : Expr → List String
  | ⟨_, _, kind⟩ => kind.declaredNames

def ExprKind.declaredNames : ExprKind → List String
  | .literal (.array elements) => Expr.declaredNamesAll elements
  | .literal _ | .ident _ | .type _ | .unreachable => []
  | .paren inner => inner.declaredNames
  | .tuple fields => Expr.declaredNamesAll fields
  | .object _ fields => ObjectField.declaredNamesAll fields
  | .binary _ left right => left.declaredNames ++ right.declaredNames
  | .unary _ operand => operand.declaredNames
  | .call callee args => callee.declaredNames ++ Expr.declaredNamesAll args
  | .index base index => base.declaredNames ++ index.declaredNames
  | .member base _ => base.declaredNames
  | .increment operand => operand.declaredNames
  | .decrement operand => operand.declaredNames
  | .deref operand => operand.declaredNames
  | .cast operand _ => operand.declaredNames
  | .typeOf operand => operand.declaredNames
  | .sizeOf operand => operand.declaredNames
  | .orElse left right => left.declaredNames ++ right.declaredNames
  | .range start stop _ =>
    Expr.declaredNamesOpt start ++ Expr.declaredNamesOpt stop
  | .tryExpr operand => operand.declaredNames
  | .catchExpr operand binding handler =>
    operand.declaredNames ++ (binding.toList ++ handler.declaredNames)
  | .ifExpr condition thenBranch elseBranch =>
    condition.declaredNames ++
      (thenBranch.declaredNames ++ Stmt.declaredNamesOpt elseBranch)
  | .matchExpr subject cases default =>
    subject.declaredNames ++
      (MatchCase.declaredNamesAll cases ++ Stmt.declaredNamesOpt default)

def Expr.declaredNamesAll : List Expr → List String
  | [] => []
  | expr :: rest => expr.declaredNames ++ Expr.declaredNamesAll rest

def Expr.declaredNamesOpt : Option Expr → List String
  | none => []
  | some expr => expr.declaredNames

def ObjectField.declaredNamesAll : List ObjectField → List String
  | [] => []
  | ⟨_, value, _⟩ :: rest =>
    value.declaredNames ++ ObjectField.declaredNamesAll rest

def MatchCase.declaredNamesAll : List MatchCase → List String
  | [] => []
  | ⟨_, body⟩ :: rest => body.declaredNames ++ MatchCase.declaredNamesAll rest

end

def Program.declaredNames (program : Program) : List String :=
  program.modules.flatMap fun module => Stmt.declaredNamesAll module.body

/-!
## Steps
-/

/-- Number and scope are given to a symbol when it is declared, so a property of
what is declared must not depend on them. -/
def Placeless (P : Symbol → Prop) : Prop :=
  ∀ (symbol : Symbol) (id : SymbolId) (scope : ScopeId), P symbol →
    P { symbol with id, scope }

/-- The step makes scopes below the given ones and declares in them symbols with
the property `P`, under the given names. -/
inductive Collected (P : Symbol → Prop) :
    {α : Type} → List ScopeId → List String → Collect α → Prop
  | pure {α : Type} {scopes : List ScopeId} (a : α) :
      Collected P scopes [] (Pure.pure a : Collect α)
  | bind {α β : Type} {scopes : List ScopeId} {first second : List String}
      {step : Collect α} {next : α → Collect β}
      (hstep : Collected P scopes first step)
      (hnext : ∀ a, Collected P scopes second (next a)) :
      Collected P scopes (first ++ second) (step >>= next)
  | within {α : Type} {scopes : List ScopeId} {names : List String}
      {scope : ScopeId} {kind : ScopeKind} {name : String}
      {next : ScopeId → Collect α} (hscope : scope ∈ scopes)
      (hnext : ∀ inner, Collected P (inner :: scopes) names (next inner)) :
      Collected P scopes names (createScope kind name scope >>= next)
  | bindNode {scopes : List ScopeId} (node : NodeId) (id : ScopeId) :
      Collected P scopes [] (bindNode node id)
  | use {scopes : List ScopeId} {scope : ScopeId} {span : Span} {decl : UseDecl}
      (hscope : scope ∈ scopes)
      (hsymbol : ∀ target, P (.ofUse decl target span)) :
      Collected P scopes [decl.localName] (collectUse scope span decl)
  | declare {scopes : List ScopeId} {scope : ScopeId} {symbol : Symbol}
      {name : String} (hscope : scope ∈ scopes) (hname : symbol.name = name)
      (hkind : (symbol.kind == .use) = false) (hsymbol : P symbol) :
      Collected P scopes [name] (declare scope symbol)

def ScopeTree.All (P : Symbol → Prop) (tree : ScopeTree) : Prop :=
  ∀ symbol ∈ tree.symbols.toList, P symbol

def Scope.withEntry (scope : Scope) (name : String) (id : SymbolId) : Scope :=
  { scope with
    names := scope.names ++ [(name, id)], symbols := scope.symbols ++ [id] }

namespace ScopeTree

theorem createScope_symbols (tree : ScopeTree) (kind : ScopeKind)
    (name : String) (parent : Option ScopeId) :
    (tree.createScope kind name parent).2.symbols = tree.symbols := by
  cases parent <;> rfl

theorem All.symbol {tree : ScopeTree} (h : tree.All P)
    (hnone : ∀ id, P { id, name := "", kind := .var, span := .none })
    (id : SymbolId) :
    P (tree.symbol id) := by
  unfold ScopeTree.symbol
  cases hsymbol : tree.symbols[id.index]? with
  | none => exact hnone id
  | some symbol =>
    exact h symbol (Array.mem_toList_iff.mpr (Array.mem_of_getElem? hsymbol))

def withSymbol (tree : ScopeTree) (scope : ScopeId) (symbol : Symbol) :
    ScopeTree :=
  { tree.updateScope scope (·.withEntry symbol.name ⟨tree.symbols.size⟩) with
    symbols :=
      tree.symbols.push { symbol with id := ⟨tree.symbols.size⟩, scope } }

end ScopeTree

namespace Collect

variable {c : Collection} {scope : ScopeId} {symbol : Symbol}

theorem modify_run (f : Collection → Collection) (c : Collection) :
    (modify f : Collect Unit) c = ((), f c) := rfl

theorem get_bind (next : Collection → Collect α) (c : Collection) :
    ((MonadState.get : Collect Collection) >>= next) c = next c c := rfl

theorem declare_of_free (hfree : (c.tree.scope scope).get? symbol.name = none) :
    declare scope symbol c =
      ((), { c with tree := c.tree.withSymbol scope symbol }) := by
  simp only [declare, modify_run, ScopeTree.insertSymbol, hfree]
  rfl

theorem declare_of_taken {existing : SymbolId}
    (htaken : (c.tree.scope scope).get? symbol.name = some existing) :
    declare scope symbol c = ((), { c with
      diagnostics := c.diagnostics.error
        (.duplicateSymbol symbol.name) symbol.span }) := by
  simp only [declare, modify_run, ScopeTree.insertSymbol, htaken]

theorem declare_all (hall : c.tree.All P)
    (hsymbol : ∀ id, P { symbol with id, scope }) :
    (declare scope symbol c).2.tree.All P := by
  cases hget : (c.tree.scope scope).get? symbol.name with
  | none =>
    rw [declare_of_free hget]
    intro other hother
    simp only [ScopeTree.withSymbol, Array.toList_push, List.mem_append,
      List.mem_singleton] at hother
    rcases hother with hold | rfl
    · exact hall other hold
    · exact hsymbol _
  | some existing =>
    rw [declare_of_taken hget]
    exact hall

end Collect

theorem collectUse_cases (scope : ScopeId) (span : Span) (decl : UseDecl)
    (c : Collection) :
    ∃ imported : Collection, (imported = c ∨ ∃ target,
      c.tree.moduleScope? decl.module = some target ∧
      imported = { c with tree := c.tree.addImport scope target }) ∧
      collectUse scope span decl c =
        declare scope (.ofUse decl (c.tree.moduleScope? decl.module) span)
          imported := by
  unfold collectUse
  rw [Collect.get_bind]
  dsimp only
  split
  · cases hfound : c.tree.moduleScope? decl.module with
    | none => exact ⟨c, .inl rfl, rfl⟩
    | some target => exact ⟨_, .inr ⟨target, rfl, rfl⟩, rfl⟩
  · exact ⟨c, .inl rfl, rfl⟩

namespace Collection

/-- What a step adds: symbols with the property `P` and reports of duplicates.
It works at no other place. -/
structure Gains (P : Symbol → Prop) (c later : Collection) : Prop where
  symbols : c.tree.All P → later.tree.All P
  current : later.tree.current = c.tree.current
  reports : ∀ report ∈ later.diagnostics.items,
    report ∈ c.diagnostics.items ∨
      ∃ name, report.problem = .duplicateSymbol name

namespace Gains

variable {c d e : Collection}

theorem of_eq (hsymbols : d.tree.symbols = c.tree.symbols)
    (hcurrent : d.tree.current = c.tree.current)
    (hdiagnostics : d.diagnostics = c.diagnostics) : c.Gains P d where
  symbols h symbol hsymbol := h symbol (hsymbols ▸ hsymbol)
  current := hcurrent
  reports _ hreport := .inl (hdiagnostics ▸ hreport)

theorem trans (hcd : c.Gains P d) (hde : d.Gains P e) : c.Gains P e where
  symbols h := hde.symbols (hcd.symbols h)
  current := hde.current.trans hcd.current
  reports report hreport :=
    (hde.reports report hreport).elim (hcd.reports report) .inr

theorem declare (hplaceless : Placeless P) {scope : ScopeId} {symbol : Symbol}
    (hsymbol : P symbol) : c.Gains P (declare scope symbol c).2 where
  symbols h := declare_all h fun id => hplaceless symbol id scope hsymbol
  current := by
    cases hget : (c.tree.scope scope).get? symbol.name with
    | none =>
      rw [declare_of_free hget]
      rfl
    | some existing => rw [declare_of_taken hget]
  reports report hreport := by
    cases hget : (c.tree.scope scope).get? symbol.name with
    | none =>
      rw [declare_of_free hget] at hreport
      exact .inl hreport
    | some existing =>
      rw [declare_of_taken hget] at hreport
      refine (List.mem_append.mp hreport).imp_right fun hnew => ?_
      rw [List.mem_singleton.mp hnew]
      exact ⟨_, rfl⟩

theorem createScope (kind : ScopeKind) (name : String) (parent : ScopeId) :
    c.Gains P (createScope kind name parent c).2 := by
  exact .of_eq (ScopeTree.createScope_symbols c.tree kind name (some parent))
    rfl rfl

end Gains

def withModule (c : Collection) (module : Module) : Collection :=
  { c with
    tree :=
      ((c.tree.createScope .module module.name
        (some ScopeTree.global)).2.bindNode module.id
      ⟨c.tree.scopes.size⟩).registerModule module.name ⟨c.tree.scopes.size⟩ }

theorem Gains.openModules (modules : List Module) (c : Collection) :
    c.Gains P (openModules modules c).2 := by
  unfold StaticCheck.openModules
  rw [← List.mapM'_eq_mapM]
  induction modules generalizing c with
  | nil => exact .of_eq rfl rfl rfl
  | cons module rest ih =>
    have hfirst : c.Gains P (c.withModule module) :=
      .of_eq (ScopeTree.createScope_symbols c.tree _ _ _) rfl rfl
    exact hfirst.trans (ih _)

end Collection

namespace Collected

variable {scopes : List ScopeId} {scope : ScopeId} {names : List String}

theorem gains {step : Collect α} (h : Collected P scopes names step)
    (hplaceless : Placeless P) (c : Collection) : c.Gains P (step c).2 := by
  induction h generalizing c with
  | pure | bindNode => exact .of_eq rfl rfl rfl
  | bind _ _ hstep hnext => exact (hstep c).trans (hnext _ _)
  | within _ _ hnext =>
    exact (Collection.Gains.createScope _ _ _).trans (hnext _ _)
  | @use _ scope span decl _ hsymbol =>
    obtain ⟨imported, hcases, hrun⟩ := collectUse_cases scope span decl c
    rw [hrun]
    rcases hcases with rfl | ⟨target, -, rfl⟩
    · exact .declare hplaceless (hsymbol _)
    · have himported : c.Gains P
          { c with tree := c.tree.addImport scope target } :=
        .of_eq rfl rfl rfl
      exact himported.trans (.declare hplaceless (hsymbol _))
  | declare _ _ _ hsymbol => exact .declare hplaceless hsymbol

theorem of_eq {names' : List String} {step : Collect α}
    (h : Collected P scopes names step) (heq : names = names') :
    Collected P scopes names' step :=
  heq ▸ h

theorem declareAll {symbols : List Symbol} (hscope : scope ∈ scopes)
    (hkind : ∀ symbol ∈ symbols, (symbol.kind == .use) = false)
    (h : ∀ symbol ∈ symbols, P symbol) :
    Collected P scopes (symbols.map (·.name)) (declareAll scope symbols) := by
  induction symbols with
  | nil => exact .pure ()
  | cons symbol rest ih =>
    rw [List.forall_mem_cons] at hkind h
    exact .bind (.declare hscope rfl hkind.1 h.1) fun _ => ih hkind.2 h.2

theorem declareEach {ι : Type} {parts : List ι} {make : ι → Symbol}
    (name : ι → String) (hscope : scope ∈ scopes)
    (hname : ∀ part, (make part).name = name part)
    (hkind : ∀ part, ((make part).kind == .use) = false)
    (h : ∀ part ∈ parts, P (make part)) :
    Collected P scopes (parts.map name)
      (Collect.declareAll scope (parts.map make)) := by
  have hnames : (parts.map make).map (·.name) = parts.map name := by
    rw [List.map_map]
    exact List.map_congr_left fun part _ => hname part
  rw [← hnames]
  exact .declareAll hscope (List.forall_mem_map.mpr fun part _ => hkind part)
    (List.forall_mem_map.mpr h)

end Collected

/-!
## Parts of a program
-/

/-- How large the parts of a program can be, and which loops they can have. -/
structure Limits where
  loops : List (String × NodeId)
  size : Nat

structure Limits.Hold (limits : Limits) (size : Nat) (exits : Exits) :
    Prop where
  size_le : size ≤ limits.size
  allowed : exits.Allowed (.listed limits.loops) .outside

namespace Limits.Hold

variable {limits : Limits} {m n : Nat} {a b : Exits}

theorem left (h : limits.Hold (m + n) (a ++ b)) : limits.Hold m a := by
  exact ⟨Nat.le_trans (Nat.le_add_right m n) h.size_le,
    (Exits.allowed_append.mp h.allowed).1⟩

theorem right (h : limits.Hold (m + n) (a ++ b)) : limits.Hold n b := by
  exact ⟨Nat.le_trans (Nat.le_add_left n m) h.size_le,
    (Exits.allowed_append.mp h.allowed).2⟩

theorem inner (h : limits.Hold (n + 1) a) : limits.Hold n a := by
  exact ⟨Nat.le_of_succ_le h.size_le, h.allowed⟩

theorem ofLoop (h : limits.Hold n (.ofLoop a)) : limits.Hold n a :=
  ⟨h.size_le, h.allowed⟩

end Limits.Hold

def Program.loops (program : Program) : List (String × NodeId) :=
  program.modules.flatMap fun module => (Stmt.exitsAll module.body).loops

def Program.limits (program : Program) : Limits := ⟨program.loops, program.size⟩

theorem Program.body_size_lt {program : Program} {module : Module}
    (h : module ∈ program.modules) :
    Stmt.sizeAll module.body < program.size := by
  unfold Program.size
  generalize program.modules = modules at h ⊢
  induction modules with
  | nil => cases h
  | cons first rest ih =>
    rw [Module.sizeAll]
    rcases List.mem_cons.mp h with rfl | h
    · rw [Module.size]
      omega
    · have := ih h
      omega

theorem Program.limits_hold {program : Program} {module : Module}
    (hmodule : module ∈ program.modules) :
    program.limits.Hold (Stmt.sizeAll module.body)
      (Stmt.exitsAll module.body) where
  size_le := Nat.le_of_lt (program.body_size_lt hmodule)
  allowed _ hloop := List.mem_flatMap.mpr ⟨module, hmodule, hloop⟩

structure Limits.Owner (limits : Limits) (ty : Ty) : Prop where
  obeys : Obeys (.listed limits.loops) ty
  declared : ty.memberScope?.isSome = true

structure Declarable (limits : Limits) (P : Symbol → Prop) : Prop where
  binding : ∀ decl span,
    limits.Hold (StmtKind.letDecl decl).size (StmtKind.letDecl decl).exits →
    P (.ofLet decl span)
  constant : ∀ decl span,
    limits.Hold (StmtKind.defDecl decl).size (StmtKind.defDecl decl).exits →
    P { Symbol.ofDef decl span with
      info :=
        { (Symbol.ofDef decl span).info with initializer := some decl.value } }
  typeAlias : ∀ decl span ty,
    limits.Hold (StmtKind.defDecl decl).size (StmtKind.defDecl decl).exits →
    decl.value.kind = .type ty →
    P { Symbol.ofDef decl span with
      info :=
        { (Symbol.ofDef decl span).info with
          denotesType := true, aliased := some ty } }
  errorSet : ∀ decl span names members,
    limits.Hold (StmtKind.defDecl decl).size (StmtKind.defDecl decl).exits →
    P { Symbol.ofDef decl span with
      ty := some (.errors names)
      info :=
        { (Symbol.ofDef decl span).info with
          denotesType := true, scope := some members } }
  errorMember : ∀ names span name, P (.ofErrorMember names span name)
  use : ∀ decl target span, P (.ofUse decl target span)
  function : ∀ decl body isMethod, limits.Hold decl.size decl.exits →
    P (.ofFunc decl body isMethod)
  receiver : ∀ owner span, limits.Owner owner → P (.ofReceiver owner span)
  selfErr : ∀ names span, P (.ofSelfErr names span)
  param : ∀ owner slot, (∀ ty ∈ owner, limits.Owner ty) →
    limits.Hold (Slot.sizeAll [slot]) (Slot.exitsAll [slot]) →
    P (.ofParam owner slot)
  type : ∀ name visibility ty members span, Obeys (.listed limits.loops) ty →
    ty.memberScope? = some members → P (.ofType name visibility ty members span)
  field : ∀ slot, limits.Hold (Slot.sizeAll [slot]) (Slot.exitsAll [slot]) →
    P (.ofField slot)
  variant : ∀ ty decl, limits.Owner ty →
    Obeys (.listed limits.loops) decl.payload → P (.ofVariant ty decl)
  forBinding : ∀ name span, P (.ofForBinding name span)
  catchBinding : ∀ name span, P (.ofCatchBinding name span)

section Slots

variable {limits : Limits}

theorem Limits.Hold.of_mem_slots {slots : List Slot}
    (h : limits.Hold (Slot.sizeAll slots) (Slot.exitsAll slots)) {slot : Slot}
    (hslot : slot ∈ slots) :
    limits.Hold (Slot.sizeAll [slot]) (Slot.exitsAll [slot]) := by
  induction slots with
  | nil => cases hslot
  | cons first rest ih =>
    obtain ⟨hsize, hallowed⟩ := h
    have hlist : ∀ slot rest, Slot.sizeAll (slot :: rest) =
        Slot.sizeAll [slot] + Slot.sizeAll rest := by
      intro slot rest
      cases slot
      simp only [Slot.sizeAll]
      omega
    rw [hlist] at hsize
    rw [Slot.exitsAll_allowed_iff, List.forall_mem_cons] at hallowed
    rcases List.mem_cons.mp hslot with rfl | hslot
    · refine ⟨by omega, ?_⟩
      rw [Slot.exitsAll_allowed_iff, List.forall_mem_singleton]
      exact hallowed.1
    · refine ih ⟨by omega, ?_⟩ hslot
      rw [Slot.exitsAll_allowed_iff]
      exact hallowed.2

theorem Limits.Hold.slot {slot : Slot}
    (h : limits.Hold (Slot.sizeAll [slot]) (Slot.exitsAll [slot])) :
    Obeys (.listed limits.loops) slot.ty ∧
      limits.Hold (Expr.sizeOpt slot.default) (Expr.exitsOpt slot.default) := by
  obtain ⟨name, ty, visibility, mutable, default, span⟩ := slot
  have hsize := h.size_le
  have hallowed := h.allowed
  simp only [Slot.sizeAll] at hsize
  simp only [Slot.exitsAll, Exits.allowed_append, Ty.allowed_iff] at hallowed
  exact ⟨hallowed.1.1, by dsimp only; omega, hallowed.1.2⟩

theorem Limits.Hold.func {decl : FuncDecl}
    (h : limits.Hold decl.size decl.exits) :
    limits.Hold (Slot.sizeAll decl.params) (Slot.exitsAll decl.params) ∧
      Obeys (.listed limits.loops) decl.result ∧
      limits.Hold (Stmt.sizeAll decl.body.body)
      (Stmt.exitsAll decl.body.body) := by
  obtain ⟨id, name, visibility, params, result, error, ⟨bodyId, body, bodySpan⟩,
    span⟩ := decl
  have hsize := h.size_le
  have hallowed := h.allowed
  simp only [FuncDecl.size] at hsize
  simp only [FuncDecl.exits, Exits.allowed_append,
    Ty.allowed_opt_iff] at hallowed
  exact ⟨⟨by dsimp only; omega, hallowed.1.1⟩, hallowed.1.2,
    ⟨by dsimp only; omega, hallowed.2⟩⟩

theorem StructDecl.obeys_toTy (decl : StructDecl)
    (h : limits.Hold (Slot.sizeAll decl.fields) (Slot.exitsAll decl.fields))
    (members : ScopeId) :
    Obeys (.listed limits.loops) (decl.toTy members) := by
  refine (Ty.meets_struct _).mpr fun member hmember => ?_
  obtain ⟨field, hfield, rfl⟩ := List.mem_map.mp hmember
  exact (h.of_mem_slots hfield).slot.1

theorem EnumDecl.obeys_toTy (decl : EnumDecl)
    (h : (VariantDecl.exitsAll decl.variants).Allowed
      (.listed limits.loops) .outside)
    (members : ScopeId) : Obeys (.listed limits.loops) (decl.toTy members) := by
  rw [VariantDecl.exitsAll_allowed_iff] at h
  refine (Ty.meets_enum _).mpr fun variant hvariant => ?_
  obtain ⟨declared, hdeclared, rfl⟩ := List.mem_map.mp hvariant
  exact h declared hdeclared

theorem Declarable.signature (h : Declarable limits P) {decl : FuncDecl}
    (hdecl : limits.Hold decl.size decl.exits) {owner : Option Ty}
    (howner : ∀ ty ∈ owner, limits.Owner ty) :
    ∀ symbol ∈ Symbol.ofSignature decl owner, P symbol := by
  intro symbol hsymbol
  simp only [Symbol.ofSignature, List.mem_append, List.mem_map] at hsymbol
  rcases hsymbol with (hreceiver | herrors) | ⟨param, hparam, rfl⟩
  · split at hreceiver
    · split at hreceiver
      · rw [List.mem_singleton] at hreceiver
        subst hreceiver
        exact h.receiver _ _ (howner _ rfl)
      · exact (List.not_mem_nil hreceiver).elim
    · exact (List.not_mem_nil hreceiver).elim
  · split at herrors
    · rw [List.mem_singleton] at herrors
      subst herrors
      exact h.selfErr _ _
    · exact (List.not_mem_nil herrors).elim
  · exact h.param owner param howner (hdecl.func.1.of_mem_slots hparam)

end Slots

/-!
## The walk over a program
-/

theorem Symbol.ofSignature_names (decl : FuncDecl) (owner : Option Ty) :
    (Symbol.ofSignature decl owner).map (·.name) =
      decl.implicitNames owner.isSome ++ decl.params.map (·.name) := by
  have hparams : (decl.params.map (ofParam owner)).map (·.name) =
      decl.params.map (·.name) := by
    rw [List.map_map]
    rfl
  unfold ofSignature FuncDecl.implicitNames
  simp only [List.map_append, hparams]
  congr 2
  · cases owner with
    | none => rfl
    | some ty =>
      simp only [Option.isSome_some, Bool.true_and]
      split <;> rfl
  · cases decl.error with
    | none => rfl
    | some clause => cases clause <;> rfl

theorem Symbol.ofSignature_kind (decl : FuncDecl) (owner : Option Ty) :
    ∀ symbol ∈ Symbol.ofSignature decl owner,
      (symbol.kind == .use) = false := by
  unfold ofSignature
  simp only [List.forall_mem_append, List.forall_mem_map]
  refine ⟨⟨?_, ?_⟩, fun _ _ => rfl⟩
  · cases owner with
    | none => exact List.forall_mem_nil _
    | some ty =>
      dsimp only
      split
      · exact List.forall_mem_singleton.mpr rfl
      · exact List.forall_mem_nil _
  · split
    · exact List.forall_mem_singleton.mpr rfl
    · exact List.forall_mem_nil _

namespace Collected

set_option linter.unusedSectionVars false

variable {limits : Limits} (hP : Declarable limits P)

include hP

theorem errorSet {scopes : List ScopeId} {scope : ScopeId}
    (hscope : scope ∈ scopes) (id : NodeId) (span : Span) (decl : DefDecl)
    (names : List String)
    (h : limits.Hold (StmtKind.defDecl decl).size
      (StmtKind.defDecl decl).exits) :
    Collected P scopes (names ++ [decl.name])
      (collectErrorSet scope id span decl names) := by
  have hmembers (members : ScopeId) : Collected P (members :: scopes) names
      (Collect.declareAll members (names.map (.ofErrorMember names span))) :=
    .of_eq (.declareEach (fun name => name) (.head _) (fun _ => rfl)
      (fun _ => rfl) fun name _ => hP.errorMember names span name)
      (List.map_id names)
  exact .of_eq (.within hscope fun members => .bind (.bindNode id members)
    fun _ => .bind (hmembers members) fun _ => .declare (.tail _ hscope) rfl rfl
      (hP.errorSet decl span names members h)) rfl

mutual

theorem stmt {scopes : List ScopeId} {scope : ScopeId} (hscope : scope ∈ scopes)
    (stmt : Stmt) (h : limits.Hold stmt.size stmt.exits) :
    Collected P scopes stmt.declaredNames (collectStmt scope stmt) := by
  obtain ⟨id, span, kind⟩ := stmt
  exact stmtKind hscope id span kind h.inner

theorem stmtKind {scopes : List ScopeId} {scope : ScopeId}
    (hscope : scope ∈ scopes) (id : NodeId) (span : Span) (kind : StmtKind)
    (h : limits.Hold kind.size kind.exits) :
    Collected P scopes kind.declaredNames
      (collectStmtKind scope id span kind) := by
  cases kind with
  | expr value => exact expr hscope value h
  | block inner => exact block hscope .block inner h
  | letDecl decl =>
    obtain ⟨name, visibility, mutable, ty, value⟩ := decl
    exact .of_eq (.bind (exprOpt hscope value h.right) fun _ =>
      .declare hscope rfl rfl (hP.binding _ span h)) rfl
  | defDecl decl =>
    obtain ⟨name, visibility, ty, valueId, valueSpan, valueKind⟩ := decl
    have hvalue := exprKind hscope valueId valueSpan valueKind h.right.inner
    cases valueKind with
    | type aliased =>
      cases aliased with
      | errors names => exact .of_eq (errorSet hP hscope id span _ names h) rfl
      | _ =>
        exact .of_eq (.declare hscope rfl rfl (hP.typeAlias _ span _ h rfl)) rfl
    | _ =>
      exact .of_eq (.bind hvalue fun _ =>
        .declare hscope rfl rfl (hP.constant _ span h)) rfl
  | func decl =>
    exact func hscope none decl h fun _ hmem =>
      absurd hmem (Option.not_mem_none _)
  | struct decl =>
    obtain ⟨declId, name, visibility, fields, members, declSpan⟩ := decl
    have hfields : limits.Hold (Slot.sizeAll fields) (Slot.exitsAll fields) :=
      h.left
    have hty :=
      StructDecl.obeys_toTy
        ⟨declId, name, visibility, fields, members, declSpan⟩
      hfields
    have hdeclared : ∀ field ∈ fields, P (.ofField field) :=
      fun field hfield => hP.field field (hfields.of_mem_slots hfield)
    exact .of_eq (.within hscope fun inner => .bind (.bindNode declId inner)
      fun _ => .bind (.declare (.tail _ hscope) rfl rfl
        (hP.type _ _ _ _ _ (hty inner) rfl)) fun _ =>
      .bind (.declareEach Slot.name (.head _) (fun _ => rfl) (fun _ => rfl)
        hdeclared) fun _ =>
      methods (.head _) _ members h.right ⟨hty inner, rfl⟩) rfl
  | enum decl =>
    obtain ⟨declId, name, visibility, variants, members, declSpan⟩ := decl
    have hvariants : limits.Hold (VariantDecl.sizeAll variants)
        (VariantDecl.exitsAll variants) :=
      h.left
    have hty :=
      EnumDecl.obeys_toTy
        ⟨declId, name, visibility, variants, members, declSpan⟩
      hvariants.allowed
    have hpayload :=
      (VariantDecl.exitsAll_allowed_iff variants).mp hvariants.allowed
    exact .of_eq (.within hscope fun inner => .bind (.bindNode declId inner)
      fun _ => .bind (.declare (.tail _ hscope) rfl rfl
        (hP.type _ _ _ _ _ (hty inner) rfl)) fun _ =>
      .bind (.declareEach VariantDecl.name (.head _) (fun _ => rfl)
        (fun _ => rfl) fun variant hvariant => hP.variant _ variant
          ⟨hty inner, rfl⟩ (hpayload variant hvariant)) fun _ =>
      methods (.head _) _ members h.right ⟨hty inner, rfl⟩) rfl
  | use decl => exact .use hscope fun _ => hP.use _ _ _
  | returnStmt value =>
    exact exprOpt hscope value
      ⟨h.size_le, (Exits.allowed_append.mp h.allowed).2⟩
  | throwStmt value =>
    exact expr hscope value ⟨h.size_le, (Exits.allowed_append.mp h.allowed).2⟩
  | whileLoop condition body =>
    obtain ⟨bodyId, body, bodySpan⟩ := body
    exact .of_eq (.bind (expr hscope condition h.left) fun _ =>
      block hscope .loop ⟨bodyId, body, bodySpan⟩ h.right.ofLoop) rfl
  | forLoop binding iterable body =>
    obtain ⟨bodyId, body, bodySpan⟩ := body
    have hparts : limits.Hold (iterable.size + Stmt.sizeAll body)
        (iterable.exits ++ .ofLoop (Stmt.exitsAll body)) := by
      refine ⟨h.size_le, ?_⟩
      have hallowed := h.allowed
      simp only [StmtKind.exits, Exits.allowed_append] at hallowed ⊢
      exact ⟨hallowed.1.2, hallowed.2⟩
    exact .of_eq (.bind (expr hscope iterable hparts.left) fun _ =>
      .within hscope fun inner => .bind (.bindNode bodyId inner) fun _ =>
      .bind (.declare (.head _) rfl rfl (hP.forBinding binding span)) fun _ =>
      stmts (.head _) body hparts.right.ofLoop) rfl
  | breakStmt | continueStmt => exact .pure ()

theorem stmts {scopes : List ScopeId} {scope : ScopeId}
    (hscope : scope ∈ scopes) (stmts : List Stmt)
    (h : limits.Hold (Stmt.sizeAll stmts) (Stmt.exitsAll stmts)) :
    Collected P scopes (Stmt.declaredNamesAll stmts)
      (collectStmts scope stmts) := by
  cases stmts with
  | nil => exact .pure ()
  | cons first rest =>
    exact .of_eq (.bind (stmt hscope first h.left) fun _ =>
      Collected.stmts hscope rest h.right) rfl

theorem stmtOpt {scopes : List ScopeId} {scope : ScopeId}
    (hscope : scope ∈ scopes) (stmt : Option Stmt)
    (h : limits.Hold (Stmt.sizeOpt stmt) (Stmt.exitsOpt stmt)) :
    Collected P scopes (Stmt.declaredNamesOpt stmt)
      (collectStmtOpt scope stmt) := by
  cases stmt with
  | none => exact .pure ()
  | some stmt => exact Collected.stmt hscope stmt h

theorem block {scopes : List ScopeId} {scope : ScopeId}
    (hscope : scope ∈ scopes) (kind : ScopeKind) (block : Block)
    (h : limits.Hold (StmtKind.block block).size (StmtKind.block block).exits) :
    Collected P scopes block.declaredNames (collectBlock scope kind block) := by
  obtain ⟨id, body, _⟩ := block
  exact .of_eq (.within hscope fun inner => .bind (.bindNode id inner) fun _ =>
    stmts (.head _) body h) rfl

theorem func {scopes : List ScopeId} {scope : ScopeId} (hscope : scope ∈ scopes)
    (owner : Option Ty) (decl : FuncDecl) (h : limits.Hold decl.size decl.exits)
    (howner : ∀ ty ∈ owner, limits.Owner ty) :
    Collected P scopes (decl.declaredNames owner.isSome)
      (collectFunc scope owner decl) := by
  obtain ⟨id, name, visibility, params, result, error, ⟨bodyId, body, bodySpan⟩,
    span⟩ := decl
  refine .of_eq (.within hscope fun inner => .bind (.bindNode id inner) fun _ =>
    .bind (.bindNode bodyId inner) fun _ =>
    .bind (.declare (.tail _ hscope) rfl rfl (hP.function _ _ _ h)) fun _ =>
    .bind (.declareAll (.head _) (Symbol.ofSignature_kind _ _)
      (hP.signature h howner)) fun _ => stmts (.head _) body h.func.2.2) ?_
  rw [Symbol.ofSignature_names]
  rfl

theorem methods {scopes : List ScopeId} {scope : ScopeId}
    (hscope : scope ∈ scopes) (owner : Ty) (methods : List FuncDecl)
    (h : limits.Hold (FuncDecl.sizeAll methods) (FuncDecl.exitsAll methods))
    (howner : limits.Owner owner) :
    Collected P scopes (FuncDecl.declaredNamesAll methods)
      (collectMethods scope owner methods) := by
  cases methods with
  | nil => exact .pure ()
  | cons method rest =>
    exact .of_eq (.bind (func hscope (some owner) method h.left
      fun _ h => Option.some.inj h ▸ howner) fun _ =>
      Collected.methods hscope owner rest h.right howner) rfl

theorem expr {scopes : List ScopeId} {scope : ScopeId} (hscope : scope ∈ scopes)
    (expr : Expr) (h : limits.Hold expr.size expr.exits) :
    Collected P scopes expr.declaredNames (collectExpr scope expr) := by
  obtain ⟨id, span, kind⟩ := expr
  exact exprKind hscope id span kind h.inner

theorem exprKind {scopes : List ScopeId} {scope : ScopeId}
    (hscope : scope ∈ scopes) (id : NodeId) (span : Span) (kind : ExprKind)
    (h : limits.Hold kind.size kind.exits) :
    Collected P scopes kind.declaredNames
      (collectExprKind scope id span kind) := by
  cases kind with
  | literal literal =>
    cases literal with
    | array elements => exact exprs hscope elements h
    | _ => exact .pure ()
  | ident _ | type _ | unreachable => exact .pure ()
  | tuple elements => exact exprs hscope elements h
  | object _ given => exact fields hscope given h
  | paren operand | unary _ operand | member operand _ | increment operand
  | decrement operand
  | deref operand | typeOf operand | sizeOf operand | tryExpr operand =>
    exact expr hscope operand h
  | cast operand _ => exact expr hscope operand h.left
  | binary _ left right | index left right | orElse left right =>
    exact .of_eq (.bind (expr hscope left h.left) fun _ =>
      expr hscope right h.right) rfl
  | call callee args =>
    exact .of_eq (.bind (expr hscope callee h.left) fun _ =>
      exprs hscope args h.right) rfl
  | range start stop _ =>
    exact .of_eq (.bind (exprOpt hscope start h.left) fun _ =>
      exprOpt hscope stop h.right) rfl
  | catchExpr operand binding handler =>
    have hbinding (inner : ScopeId) :
        Collected P (inner :: scopes) binding.toList (Collect.declareAll inner
          (binding.map fun name => Symbol.ofCatchBinding name
            span).toList) := by
      cases binding with
      | none => exact .pure ()
      | some name =>
        exact .of_eq
          (.bind (.declare (.head _) rfl rfl (hP.catchBinding name span))
          fun _ => .pure ()) rfl
    exact .of_eq (.bind (expr hscope operand h.left) fun _ =>
      .within hscope fun inner => .bind (.bindNode id inner) fun _ =>
      .bind (hbinding inner) fun _ => stmt (.head _) handler h.right) rfl
  | ifExpr condition thenBranch elseBranch =>
    exact .of_eq (.bind (expr hscope condition h.left.left) fun _ =>
      .bind (stmt hscope thenBranch h.left.right) fun _ =>
      stmtOpt hscope elseBranch h.right) rfl
  | matchExpr subject branches default =>
    exact .of_eq (.bind (expr hscope subject h.left.left) fun _ =>
      .bind (cases hscope branches h.left.right) fun _ =>
      stmtOpt hscope default h.right) rfl

theorem exprs {scopes : List ScopeId} {scope : ScopeId}
    (hscope : scope ∈ scopes) (exprs : List Expr)
    (h : limits.Hold (Expr.sizeAll exprs) (Expr.exitsAll exprs)) :
    Collected P scopes (Expr.declaredNamesAll exprs)
      (collectExprs scope exprs) := by
  cases exprs with
  | nil => exact .pure ()
  | cons first rest =>
    exact .of_eq (.bind (expr hscope first h.left) fun _ =>
      Collected.exprs hscope rest h.right) rfl

theorem exprOpt {scopes : List ScopeId} {scope : ScopeId}
    (hscope : scope ∈ scopes) (expr : Option Expr)
    (h : limits.Hold (Expr.sizeOpt expr) (Expr.exitsOpt expr)) :
    Collected P scopes (Expr.declaredNamesOpt expr)
      (collectExprOpt scope expr) := by
  cases expr with
  | none => exact .pure ()
  | some expr => exact Collected.expr hscope expr h

theorem fields {scopes : List ScopeId} {scope : ScopeId}
    (hscope : scope ∈ scopes) (fields : List ObjectField)
    (h : limits.Hold (ObjectField.sizeAll fields)
      (ObjectField.exitsAll fields)) :
    Collected P scopes (ObjectField.declaredNamesAll fields)
      (collectFields scope fields) := by
  cases fields with
  | nil => exact .pure ()
  | cons field rest =>
    obtain ⟨name, value, span⟩ := field
    exact .of_eq (.bind (expr hscope value h.left) fun _ =>
      Collected.fields hscope rest h.right) rfl

theorem cases {scopes : List ScopeId} {scope : ScopeId}
    (hscope : scope ∈ scopes) (branches : List MatchCase)
    (h : limits.Hold (MatchCase.sizeAll branches)
      (MatchCase.exitsAll branches)) :
    Collected P scopes (MatchCase.declaredNamesAll branches)
      (collectCases scope branches) := by
  cases branches with
  | nil => exact .pure ()
  | cons branch rest =>
    obtain ⟨patterns, body⟩ := branch
    exact .of_eq (.bind (stmt hscope body h.left.right) fun _ =>
      Collected.cases hscope rest h.right) rfl

end

omit hP in
theorem mem_openModules (modules : List Module) (c : Collection) :
    ∀ opened ∈ (openModules modules c).1, opened.1 ∈ modules := by
  unfold openModules
  rw [← List.mapM'_eq_mapM]
  induction modules generalizing c with
  | nil => exact fun _ hopened => (List.not_mem_nil hopened).elim
  | cons module rest ih =>
    intro opened hopened
    rcases List.mem_cons.mp hopened with rfl | hopened
    · exact .head _
    · exact .tail _ (ih _ opened hopened)

theorem bodies {scopes : List ScopeId} {opened : List (Module × ScopeId)}
    (hopened : ∀ entry ∈ opened, entry.2 ∈ scopes)
    (h : ∀ entry ∈ opened,
      limits.Hold (Stmt.sizeAll entry.1.body) (Stmt.exitsAll entry.1.body)) :
    Collected P scopes
      (opened.flatMap fun entry => Stmt.declaredNamesAll entry.1.body)
      (opened.forM fun (module, scope) => collectStmts scope module.body) := by
  induction opened with
  | nil => exact .pure ()
  | cons first rest ih =>
    rw [List.forall_mem_cons] at hopened h
    exact .of_eq (.bind (stmts hP hopened.1 first.1.body h.1) fun _ =>
      ih hopened.2 h.2) rfl

omit hP in
theorem program {program : Program} (hP : Declarable program.limits P) :
    Collected P ((openModules program.modules {}).1.map (·.2))
      ((openModules program.modules {}).1.flatMap fun entry =>
        Stmt.declaredNamesAll entry.1.body)
      ((openModules program.modules {}).1.forM fun (module, scope) =>
        collectStmts scope module.body) := by
  exact bodies hP (fun _ hentry => List.mem_map_of_mem hentry)
    fun entry hentry =>
    program.limits_hold (mem_openModules program.modules {} entry hentry)

omit hP in
theorem symbols {program : Program} (hP : Declarable program.limits P)
    (hplaceless : Placeless P) : program.collect.tree.All P := by
  have hopened : ({} : Collection).Gains P (openModules program.modules {}).2 :=
    .openModules program.modules {}
  exact (hopened.trans ((Collected.program hP).gains hplaceless _)).symbols
    fun _ hsymbol => (List.not_mem_nil hsymbol).elim

omit hP in
theorem symbol {program : Program} (hP : Declarable program.limits P)
    (hplaceless : Placeless P)
    (hnone : ∀ id, P { id, name := "", kind := .var, span := .none })
    (id : SymbolId) :
    P (program.collect.tree.symbol id) := by
  exact (Collected.symbols hP hplaceless).symbol hnone id

end Collected

theorem Declarable.any {limits : Limits} : Declarable limits fun _ => True := by
  constructor <;> intros <;> trivial

theorem Program.collect_gains (program : Program) :
    ({} : Collection).Gains (fun _ => True) program.collect := by
  exact (Collection.Gains.openModules program.modules {}).trans
    ((Collected.program .any).gains (fun _ _ _ _ => trivial) _)

/-!
## Declared parts
-/

structure Symbol.Fits (limits : Limits) (symbol : Symbol) : Prop where
  obeys : Obeys (.listed limits.loops) symbol
  size_le : ∀ value ∈ symbol.info.initializer, value.size ≤ limits.size

namespace Symbol.Fits

variable {limits : Limits}

theorem placeless : Placeless (Symbol.Fits limits) := by
  intro _ _ _ h
  exact ⟨{ h.obeys with initializer := h.obeys.initializer }, h.size_le⟩

theorem of_value {symbol : Symbol}
    (hty : Obeys (.listed limits.loops) symbol.ty)
    (hparams : symbol.info.params = []) (hresult : symbol.info.result = none)
    (haliased : symbol.info.aliased = none)
    (hascribed : Obeys (.listed limits.loops) symbol.info.ascribed)
    (hvalue : limits.Hold (Expr.sizeOpt symbol.info.initializer)
      (Expr.exitsOpt symbol.info.initializer)) : symbol.Fits limits where
  obeys := by
    rw [Symbol.obeys_iff, hparams, hresult, haliased]
    exact ⟨hty, meets_nil, meets_none, hascribed, meets_none, hvalue.allowed⟩
  size_le := by
    intro value hmem
    rw [Option.mem_def.mp hmem] at hvalue
    exact hvalue.size_le

theorem of_ty {symbol : Symbol} (hty : Obeys (.listed limits.loops) symbol.ty)
    (hparams : symbol.info.params = []) (hresult : symbol.info.result = none)
    (hascribed : symbol.info.ascribed = none)
    (haliased : symbol.info.aliased = none)
    (hvalue : symbol.info.initializer = none) : symbol.Fits limits := by
  refine of_value hty hparams hresult haliased ?_ ?_
  · rw [hascribed]
    exact meets_none
  · rw [hvalue]
    exact ⟨Nat.zero_le _, Exits.allowed_none⟩

theorem declarable : Declarable limits (Symbol.Fits limits) where
  binding decl span h := by
    obtain ⟨name, visibility, mutable, ty, value⟩ := decl
    refine of_value meets_none rfl rfl rfl ?_ h.right
    exact (Ty.allowed_opt_iff ty).mp h.left.allowed
  constant decl span h := by
    obtain ⟨name, visibility, ty, value⟩ := decl
    refine of_value meets_none rfl rfl rfl ?_ h.right
    exact (Ty.allowed_opt_iff ty).mp h.left.allowed
  typeAlias decl span ty h hkind := by
    obtain ⟨name, visibility, ascribed, id, valueSpan, kind⟩ := decl
    cases hkind
    have hascribed := (Ty.allowed_opt_iff ascribed).mp h.left.allowed
    have hty : Obeys (.listed limits.loops) ty :=
      ty.allowed_iff.mp h.right.allowed
    refine ⟨⟨meets_none, meets_nil, meets_none, hascribed,
      meets_some.mpr hty, ?_⟩, ?_⟩
    · exact fun _ hmem => nomatch hmem
    · exact fun _ hmem => nomatch hmem
  errorSet decl span names members h := by
    obtain ⟨name, visibility, ty, value⟩ := decl
    have hascribed := (Ty.allowed_opt_iff ty).mp h.left.allowed
    refine of_value (meets_some.mpr (Ty.meets_errors names)) rfl rfl rfl
      hascribed ?_
    exact ⟨Nat.zero_le _, Exits.allowed_none⟩
  errorMember names _ _ :=
    of_ty (meets_some.mpr (Ty.meets_errors names)) rfl rfl rfl rfl rfl
  use _ _ _ := of_ty meets_none rfl rfl rfl rfl rfl
  function decl body isMethod h := by
    obtain ⟨hparams, hresult, -⟩ := h.func
    refine ⟨⟨meets_none, ?_, hresult, meets_none, meets_none, ?_⟩, ?_⟩
    · intro param hparam
      obtain ⟨slot, hslot, rfl⟩ := List.mem_map.mp hparam
      exact (hparams.of_mem_slots (List.mem_filter.mp hslot).1).slot.1
    · exact fun _ hmem => nomatch hmem
    · exact fun _ hmem => nomatch hmem
  receiver _ _ howner := of_ty (meets_some.mpr howner.obeys) rfl rfl rfl rfl rfl
  selfErr names _ :=
    of_ty (meets_some.mpr (Ty.meets_errors names)) rfl rfl rfl rfl rfl
  param owner slot howner h := by
    refine of_value ?_ rfl rfl rfl (meets_some.mpr h.slot.1) h.slot.2
    show Obeys _ (if slot.name == selfName then owner else none)
    split
    · exact fun ty hty => (howner ty hty).obeys
    · exact meets_none
  type _ _ _ _ _ hty _ := of_ty (meets_some.mpr hty) rfl rfl rfl rfl rfl
  field slot h :=
    of_value meets_none rfl rfl rfl (meets_some.mpr h.slot.1) h.slot.2
  variant ty decl hty hpayload := by
    refine of_value (meets_some.mpr hty.obeys) rfl rfl rfl hpayload ?_
    exact ⟨Nat.zero_le _, Exits.allowed_none⟩
  forBinding _ _ := of_ty meets_none rfl rfl rfl rfl rfl
  catchBinding _ _ :=
    of_ty (meets_some.mpr (Ty.meets_prim _)) rfl rfl rfl rfl rfl

theorem of_tree (program : Program) (id : SymbolId) :
    (program.collect.tree.symbol id).Fits program.limits := by
  exact Collected.symbol declarable placeless
    (fun _ => of_ty meets_none rfl rfl rfl rfl rfl) id

end Symbol.Fits

/-!
## Type names

A symbol that names a type carries the type, unless it is an alias: then it
carries the type as written.
-/

def Symbol.Grounded (symbol : Symbol) : Prop :=
  symbol.isTypeName = true → symbol.info.aliased = none →
    symbol.ty.isSome = true

namespace Symbol.Grounded

theorem placeless : Placeless Symbol.Grounded := fun _ _ _ h => h

theorem of_value {symbol : Symbol} (h : symbol.info.denotesType = false) :
    symbol.Grounded := by
  intro hname
  simp [Symbol.isTypeName, h] at hname

theorem declarable {limits : Limits} : Declarable limits Symbol.Grounded where
  binding _ _ _ := of_value rfl
  constant _ _ _ := of_value rfl
  typeAlias _ _ _ _ _ := fun _ halias => nomatch halias
  errorSet _ _ _ _ _ := fun _ _ => rfl
  errorMember _ _ _ := of_value rfl
  use _ _ _ := of_value rfl
  function _ _ _ _ := of_value rfl
  receiver _ _ _ := of_value rfl
  selfErr _ _ := of_value rfl
  param _ _ _ _ := of_value rfl
  type _ _ _ _ _ _ _ := fun _ _ => rfl
  field _ _ := of_value rfl
  variant _ _ _ _ := of_value rfl
  forBinding _ _ := of_value rfl
  catchBinding _ _ := of_value rfl

theorem of_tree (program : Program) (id : SymbolId) :
    (program.collect.tree.symbol id).Grounded := by
  exact Collected.symbol declarable placeless (fun _ => of_value rfl) id

end Symbol.Grounded

end StaticCheck
