import StaticCheck.Proofs.Charted
import StaticCheck.Proofs.Visits
import Mathlib.Algebra.Order.BigOperators.Group.Finset

/-!
# Checking again

Between two passes everything is forgotten but the symbols and the reports.  So
what a pass does is settled by the symbols that it starts from, and as a pass
only adds to what is known of them, the passes over a program without loops soon
repeat each other.  The second pass need not repeat the first: it sees variables
as declared that the first pass had yet to come to.
-/

namespace StaticCheck

/-!
## What a pass depends on
-/

/-- What a pass leaves behind: the reports that it adds, and the symbols. -/
structure PassResult where
  reports : List Diagnostic
  symbols : Array Symbol

namespace Session

def pass (s : Session) : PassResult where
  reports :=
    (Check.handle s).2.diagnostics.items.drop s.diagnostics.items.length
  symbols := (Check.handle s).2.tree.symbols

theorem pass_module (s : Session) (module : Nat) :
    { s with module }.pass = s.pass := by
  obtain ⟨⟨modules⟩⟩ := s
  cases modules with
  | nil => rfl
  | cons first rest => rfl

/-- A reset would clear nothing. -/
def Rests (s : Session) : Prop :=
  s.reset = { s with passStart := s.diagnostics.size }

/-- Sessions over one program that can differ only in what was found out and
reported. -/
structure Akin (a b : Session) : Prop where
  program : b.program = a.program
  options : b.options = a.options
  evaluator : b.evaluator = a.evaluator
  capacity : b.cache.capacity = a.cache.capacity
  scopes : b.tree.scopes = a.tree.scopes
  nodes : b.tree.nodes = a.tree.nodes
  modules : b.tree.modules = a.tree.modules

namespace Akin

variable {a b c : Session}

theorem refl (s : Session) : s.Akin s := ⟨rfl, rfl, rfl, rfl, rfl, rfl, rfl⟩

theorem symm (h : a.Akin b) : b.Akin a := by
  exact ⟨h.program.symm, h.options.symm, h.evaluator.symm, h.capacity.symm,
    h.scopes.symm, h.nodes.symm, h.modules.symm⟩

theorem trans (hab : a.Akin b) (hbc : b.Akin c) : a.Akin c where
  program := hbc.program.trans hab.program
  options := hbc.options.trans hab.options
  evaluator := hbc.evaluator.trans hab.evaluator
  capacity := hbc.capacity.trans hab.capacity
  scopes := hbc.scopes.trans hab.scopes
  nodes := hbc.nodes.trans hab.nodes
  modules := hbc.modules.trans hab.modules

theorem reset_eq (h : a.Akin b) (hsymbols : b.tree.symbols = a.tree.symbols) :
    { b with module := a.module }.reset =
      { a.reset with
        diagnostics := b.diagnostics, passStart := b.diagnostics.size } := by
  have htree : b.tree.enter ScopeTree.global =
      a.tree.enter ScopeTree.global := by
    simp only [ScopeTree.enter, h.scopes, h.nodes, h.modules, hsymbols]
  have hcache : b.cache.clear = a.cache.clear := by
    simp only [TypeCache.clear, h.capacity]
  simp only [reset, h.program, h.options, h.evaluator, htree, hcache]

theorem eq_of_rests (h : a.Akin b) (hsymbols : b.tree.symbols = a.tree.symbols)
    (ha : a.Rests) (hb : b.Rests) :
    { b with module := a.module } =
      { a with diagnostics := b.diagnostics, passStart := b.passStart } := by
  exact calc
    { b with module := a.module } =
        { b.reset with module := a.module, passStart := b.passStart } := by
          rw [hb]
    _ =
      { a.reset with diagnostics := b.diagnostics, passStart := b.passStart } :=
      congrArg (fun t : Session => { t with passStart := b.passStart })
      (h.reset_eq hsymbols)
    _ = { a with diagnostics := b.diagnostics, passStart := b.passStart } := by
      rw [ha]

end Akin

section

variable {program : Program} {twin : Twin} {scope : ScopeId} {s : Session}

theorem LiesAt.akin (hprogram : s.program = program)
    (hs : s.LiesAt (program.chart false) twin scope) :
    s.Akin (Check.handle s).2 := by
  let self : Twin :=
    { options := s.options, capacity := s.cache.capacity,
      passStart := s.passStart, evaluator := s.evaluator }
  have hself : s.LiesAt (program.chart false) self scope :=
    hs.beside rfl rfl rfl List.nil_prefix
  obtain ⟨hafter, htwin⟩ := hself.checked_twin (.nothing program) hprogram
  have hsame : Check.checked s = self.of (Check.checked s) := htwin
  have hoptions : (Check.checked s).options = s.options := by
    rw [hsame]
    rfl
  have hcapacity : (Check.checked s).cache.capacity = s.cache.capacity := by
    rw [hsame]
    rfl
  have hprogress := Check.checked_progress s
  constructor
  case program => exact hprogress.program
  case options => exact hoptions
  case evaluator => exact hafter.evaluator
  case capacity => exact hcapacity
  case scopes => exact hprogress.tree.scopes
  case nodes => exact hprogress.tree.nodes
  case modules => exact hprogress.tree.modules

theorem LiesAt.pass_eq {other : Session} (hprogram : s.program = program)
    (hs : s.LiesAt (program.chart false) twin scope) (hakin : s.Akin other)
    (hsymbols : other.tree.symbols = s.tree.symbols) (hrests : s.Rests)
    (hother : other.Rests) :
    other.pass = s.pass := by
  -- Apart from the module, the other session is a twin that made other reports
  -- before.
  let beside : Twin :=
    { options := s.options, capacity := s.cache.capacity,
      before := s.diagnostics.items, instead := other.diagnostics.items,
        passStart := other.passStart,
      evaluator := s.evaluator }
  have hbeside : s.LiesAt (program.chart false) beside scope :=
    hs.beside rfl rfl rfl List.prefix_rfl
  have hstart : beside.of s = { other with module := s.module } := by
    have hreports : other.diagnostics.items ++
        s.diagnostics.items.drop s.diagnostics.items.length =
        other.diagnostics.items := by
      rw [List.drop_length, List.append_nil]
    rw [hakin.eq_of_rests hsymbols hrests hother]
    exact congrArg (fun items => { s with
      diagnostics := ⟨items⟩, passStart := other.passStart }) hreports
  obtain ⟨-, htwin⟩ := hbeside.checked_twin (.nothing program) hprogram
  rw [hstart] at htwin
  have hreports :
      (Check.checked { other with module := s.module }).diagnostics.items.drop
      other.diagnostics.items.length =
        (Check.checked s).diagnostics.items.drop
        s.diagnostics.items.length := by
    rw [htwin]
    exact List.drop_left
  have hafter : (Check.checked { other with module := s.module }).tree.symbols =
      (Check.checked s).tree.symbols := by
    rw [htwin]
    rfl
  calc
    other.pass = { other with module := s.module }.pass :=
      (other.pass_module s.module).symm
    _ = s.pass := congrArg₂ PassResult.mk hreports hafter

end

end Session

namespace Program

variable {program : Program} {options : Options} {evaluator : Evaluator}

theorem collect_current (program : Program) :
    program.collect.tree.current = ScopeTree.global :=
  program.collect_gains.current

theorem session_rests (n : Nat) :
    (program.session options evaluator n).Rests := by
  cases n with
  | zero =>
    have htree : program.collect.tree.enter ScopeTree.global =
        program.collect.tree := by
      rw [← program.collect_current]
      rfl
    exact congrArg
      (fun tree => { (Session.new program options).withEvaluator evaluator with
      tree, passStart := program.collect.diagnostics.size }) htree
  | succ n => rfl

theorem session_akin (n : Nat) :
    (program.session options evaluator 0).Akin
      (program.session options evaluator n) := by
  induction n with
  | zero => exact .refl _
  | succ n ih =>
    obtain ⟨scope, hlies⟩ :=
      session_liesAt (.nothing program) options evaluator n
    have hpass := hlies.akin (session_program n)
    exact ih.trans ⟨hpass.program, hpass.options, hpass.evaluator,
      hpass.capacity, hpass.scopes, hpass.nodes, hpass.modules⟩

theorem pass_eq_of_symbols {m n : Nat}
    (hsymbols : (program.session options evaluator m).tree.symbols =
      (program.session options evaluator n).tree.symbols) :
    (program.session options evaluator m).pass =
      (program.session options evaluator n).pass := by
  obtain ⟨scope, hlies⟩ := session_liesAt (.nothing program) options evaluator n
  exact hlies.pass_eq (session_program n)
    ((session_akin n).symm.trans (session_akin m)) hsymbols
    (session_rests n) (session_rests m)

end Program

/-!
## What passes add
-/

namespace Session

theorem Within.reset {policy : Policy} {s : Session}
    (h : s.Within policy .outside) : s.reset.Within policy .outside where
  symbols := h.symbols
  cache :=
    ⟨fun _ hmem => (List.not_mem_nil hmem).elim, fun _ hmem =>
      (List.not_mem_nil hmem).elim⟩
  expectations := meets_nil
  frame _ := meets_none

end Session

theorem Check.modules_within {policy : Policy} {modules : List Module}
    {s : Session} (hs : s.Within policy .outside)
    (hmodules : ∀ module ∈ modules, ∀ stmt ∈ module.body,
      stmt.Suits policy.regime .outside)
    (index : Nat) :
    (Check.modules index modules s).2.Within policy .outside := by
  induction modules generalizing index s with
  | nil => exact hs
  | cons first rest ih =>
    rw [List.forall_mem_cons] at hmodules
    exact ih (module_step hs hmodules.1 index).1 hmodules.2 (index + 1)

namespace Program

variable {program : Program} {options : Options} {evaluator : Evaluator}

theorem session_allowed (n : Nat) :
    (program.session options evaluator n).program.Allowed
      (.listed program.loops) := by
  rw [session_program]
  exact program.allowed_loops

theorem session_within (n : Nat) :
    (program.session options evaluator n).Within (.listed program.loops)
      .outside := by
  induction n with
  | zero =>
    exact Session.new_within_of_obeys evaluator fun id =>
      (Symbol.Fits.of_tree program id).obeys
  | succ n ih =>
    have hchecked : (Check.checked (program.session options evaluator n)).Within
        (.listed program.loops) .outside :=
      Check.modules_within ih (session_allowed n) 0
    have hend : (Check.handle (program.session options evaluator n)).2.Within
        (.listed program.loops) .outside := { hchecked with }
    exact hend.reset

theorem session_keeps_succ (n : Nat) :
    (program.session options evaluator n).tree.Keeps (.listed program.loops)
      (program.session options evaluator (n + 1)).tree := by
  exact ((Check.modules_step (session_within n) (session_allowed n) 0).trans
    (.enter _ _)).keeps

theorem session_keeps (n : Nat) :
    program.collect.tree.Keeps (.listed program.loops)
      (program.session options evaluator n).tree := by
  induction n with
  | zero => exact .refl _
  | succ n ih => exact ih.trans (session_keeps_succ n)

theorem session_type_succ {n : Nat} {id : SymbolId} {ty : Ty}
    (hfree : ∀ loop ∈ program.loops,
      program.collect.tree.loopVariable? loop.1 loop.2 ≠ some id)
    (hty : ((program.session options evaluator n).tree.symbol id).ty =
      some ty) :
    ((program.session options evaluator (n + 1)).tree.symbol id).ty =
      some ty := by
  refine (session_keeps_succ n).types program.loops rfl id
    (fun loop hloop => ?_) ty hty
  rw [(session_keeps n).loopVariable?_eq]
  exact hfree loop hloop

theorem session_advances_succ (n : Nat) (id : SymbolId) :
    ((program.session options evaluator n).tree.symbol id).Advances
      ((program.session options evaluator (n + 1)).tree.symbol id) := by
  exact (Check.checked_progress
    (program.session options evaluator n)).tree.symbols id

theorem session_size (n : Nat) :
    (program.session options evaluator n).tree.symbols.size =
      program.collect.tree.symbols.size := by
  induction n with
  | zero => rfl
  | succ n ih => exact (Check.checked_progress _).tree.size.trans ih

end Program

/-!
## Passes settle
-/

namespace Symbol

/-- How much has been found out about the symbol. -/
def known (symbol : Symbol) : Nat :=
  symbol.declared.toNat + symbol.initialized.toNat + symbol.used.toNat +
    symbol.checked.toNat + symbol.ty.isSome.toNat

theorem known_le (symbol : Symbol) : symbol.known ≤ 5 := by
  have hdeclared := symbol.declared.toNat_le
  have hinitialized := symbol.initialized.toNat_le
  have hused := symbol.used.toNat_le
  have hchecked := symbol.checked.toNat_le
  have hty := symbol.ty.isSome.toNat_le
  unfold known
  omega

variable {a b : Symbol}

theorem Advances.toNat_le (h : a.Advances b)
    (hty : ∀ ty, a.ty = some ty → b.ty = some ty) :
    a.declared.toNat ≤ b.declared.toNat ∧
      a.initialized.toNat ≤ b.initialized.toNat ∧ a.used.toNat ≤ b.used.toNat ∧
      a.checked.toNat ≤ b.checked.toNat ∧
      a.ty.isSome.toNat ≤ b.ty.isSome.toNat := by
  have htyped : a.ty.isSome = true → b.ty.isSome = true := by
    intro hsome
    obtain ⟨ty, ha⟩ := Option.isSome_iff_exists.mp hsome
    exact Option.isSome_iff_exists.mpr ⟨ty, hty ty ha⟩
  exact ⟨Bool.toNat_le_toNat h.declared, Bool.toNat_le_toNat h.initialized,
    Bool.toNat_le_toNat h.used, Bool.toNat_le_toNat h.checked,
    Bool.toNat_le_toNat htyped⟩

theorem Advances.known_le (h : a.Advances b)
    (hty : ∀ ty, a.ty = some ty → b.ty = some ty) : a.known ≤ b.known := by
  obtain ⟨hdeclared, hinitialized, hused, hchecked, htyped⟩ := h.toNat_le hty
  unfold known
  omega

theorem Advances.eq_of_known_eq (h : a.Advances b)
    (hty : ∀ ty, a.ty = some ty → b.ty = some ty) (hknown : a.known = b.known) :
    b = a := by
  obtain ⟨hdeclared, hinitialized, hused, hchecked, htyped⟩ := h.toNat_le hty
  unfold known at hknown
  -- The parts only grow and their sum has not grown, so none of them has.
  have hsame : b.ty = a.ty := by
    cases ha : a.ty with
    | some ty => exact hty ty ha
    | none =>
      rw [ha] at hknown htyped
      have hnone : b.ty.isSome.toNat = 0 := by
        simp only [Option.isSome_none, Bool.toNat_false] at hknown
        omega
      exact Option.not_isSome_iff_eq_none.mp fun hsome => by
        simp [hsome] at hnone
  have hinjective : Function.Injective Bool.toNat :=
    Function.LeftInverse.injective Bool.ofNat_toNat
  have hdeclared : b.declared = a.declared := hinjective (by omega)
  have hinitialized : b.initialized = a.initialized := hinjective (by omega)
  have hused : b.used = a.used := hinjective (by omega)
  have hchecked : b.checked = a.checked := hinjective (by omega)
  rw [h.fixed, hsame, hdeclared, hinitialized, hused, hchecked]

end Symbol

namespace ScopeTree

def known (tree : ScopeTree) : Nat :=
  ∑ index ∈ Finset.range tree.symbols.size, (tree.symbol ⟨index⟩).known

theorem known_le (tree : ScopeTree) : tree.known ≤ 5 * tree.symbols.size := by
  exact calc
    tree.known ≤ ∑ _ ∈ Finset.range tree.symbols.size, 5 :=
      Finset.sum_le_sum fun index _ => (tree.symbol ⟨index⟩).known_le
    _ = 5 * tree.symbols.size := by
      rw [Finset.sum_const_nat fun _ _ => rfl, Finset.card_range, Nat.mul_comm]

theorem symbols_eq_of_symbol_eq {a b : ScopeTree}
    (hsize : b.symbols.size = a.symbols.size)
    (hsymbol : ∀ index < a.symbols.size, b.symbol ⟨index⟩ = a.symbol ⟨index⟩) :
    b.symbols = a.symbols := by
  refine Array.ext hsize fun index hb ha => ?_
  have hsame := hsymbol index ha
  simp only [symbol, Array.getElem?_eq_getElem hb,
    Array.getElem?_eq_getElem ha] at hsame
  exact hsame

end ScopeTree

namespace Program

section

variable {program : Program} {options : Options} {evaluator : Evaluator}
  (hloops : program.loops = [])

include hloops

theorem session_type_stays {n : Nat} {id : SymbolId} (ty : Ty)
    (hty : ((program.session options evaluator n).tree.symbol id).ty =
      some ty) :
    ((program.session options evaluator (n + 1)).tree.symbol id).ty =
      some ty := by
  refine session_type_succ (fun loop hloop => ?_) hty
  rw [hloops] at hloop
  exact (List.not_mem_nil hloop).elim

theorem session_known_le_succ (n : Nat) :
    (program.session options evaluator n).tree.known ≤
      (program.session options evaluator (n + 1)).tree.known := by
  unfold ScopeTree.known
  rw [session_size, session_size]
  refine Finset.sum_le_sum fun index _ => ?_
  exact (session_advances_succ n ⟨index⟩).known_le (session_type_stays hloops)

theorem session_symbols_eq_of_known_eq {n : Nat}
    (hknown : (program.session options evaluator n).tree.known =
      (program.session options evaluator (n + 1)).tree.known) :
    (program.session options evaluator (n + 1)).tree.symbols =
      (program.session options evaluator n).tree.symbols := by
  have hsize : (program.session options evaluator (n + 1)).tree.symbols.size =
      (program.session options evaluator n).tree.symbols.size := by
    rw [session_size, session_size]
  unfold ScopeTree.known at hknown
  rw [hsize, Finset.sum_eq_sum_iff_of_le fun index _ =>
    (session_advances_succ n ⟨index⟩).known_le
      (session_type_stays hloops)] at hknown
  refine ScopeTree.symbols_eq_of_symbol_eq hsize fun index hindex => ?_
  exact (session_advances_succ n ⟨index⟩).eq_of_known_eq
    (session_type_stays hloops) (hknown index (Finset.mem_range.mpr hindex))

/-- Each pass that changes the symbols adds to what is known of them, which is
bounded. -/
theorem exists_session_unchanged : ∃ k ≤ 5 * program.collect.tree.symbols.size,
    (program.session options evaluator (k + 1)).tree.symbols =
      (program.session options evaluator k).tree.symbols := by
  by_contra hnone
  -- Every pass up to the bound adds something, so that in the end too much is
  -- known.
  have hadds : ∀ n ≤ 5 * program.collect.tree.symbols.size + 1,
      n ≤ (program.session options evaluator n).tree.known := by
    intro n hn
    induction n with
    | zero => exact Nat.zero_le _
    | succ n ih =>
      have hbefore := ih (by omega)
      have hle : (program.session options evaluator n).tree.known ≤
          (program.session options evaluator (n + 1)).tree.known :=
        session_known_le_succ hloops n
      have hne : (program.session options evaluator n).tree.known ≠
          (program.session options evaluator (n + 1)).tree.known := fun heq =>
        hnone ⟨n, by omega, session_symbols_eq_of_known_eq hloops heq⟩
      omega
  have hlast := hadds _ le_rfl
  have hbound := ScopeTree.known_le (program.session options evaluator
    (5 * program.collect.tree.symbols.size + 1)).tree
  rw [session_size] at hbound
  omega

end

theorem pass_eq_of_unchanged {program : Program} {options : Options}
    {evaluator : Evaluator} {k : Nat}
    (hk : (program.session options evaluator (k + 1)).tree.symbols =
      (program.session options evaluator k).tree.symbols)
      {n : Nat} (hn : k ≤ n) :
    (program.session options evaluator n).pass =
      (program.session options evaluator k).pass := by
  induction n, hn using Nat.le_induction with
  | base => rfl
  | succ n _ ih =>
    have hsymbols : (program.session options evaluator (n + 1)).tree.symbols =
        (program.session options evaluator k).tree.symbols :=
      (congrArg PassResult.symbols ih).trans hk
    exact pass_eq_of_symbols hsymbols

end Program

/-- What a pass over a program reports and makes of the symbols is settled by
the symbols that it starts from.  A pass leaves a symbol the type that it has,
unless a loop binds it.  In a program without loops, the passes are all the same
from some point on. -/
theorem passes_settle
    (program : Program)
    (options : Options)
    (evaluator : Evaluator) : (∀ m n,
      (program.session options evaluator m).tree.symbols =
        (program.session options evaluator n).tree.symbols →
      (program.session options evaluator m).pass =
        (program.session options evaluator n).pass) ∧
    (∀ n id ty,
      (∀ loop ∈ program.loops,
        program.collect.tree.loopVariable? loop.1 loop.2 ≠ some id) →
      ((program.session options evaluator n).tree.symbol id).ty = some ty →
      ((program.session options evaluator (n + 1)).tree.symbol id).ty =
      some ty) ∧
    (program.loops = [] →
      ∃ k ≤ 5 * program.collect.tree.symbols.size, ∀ n, k ≤ n →
        (program.session options evaluator n).pass =
          (program.session options evaluator k).pass) := by
  refine ⟨fun m n => Program.pass_eq_of_symbols, fun n id ty =>
    Program.session_type_succ, ?_⟩
  intro hloops
  obtain ⟨k, hk, hunchanged⟩ := Program.exists_session_unchanged hloops
  exact ⟨k, hk, fun n hn => Program.pass_eq_of_unchanged hunchanged hn⟩

def shadowedLocal : Program :=
  soleModule [
    ⟨⟨1⟩, .none, .letDecl ⟨"x", .priv, false, some (.int true 32),
      some ⟨⟨2⟩, .none, .literal (.int "1")⟩⟩⟩,
    ⟨⟨3⟩, .none, .func ⟨⟨4⟩, "f", .priv, [], some .void, none, ⟨⟨5⟩, [
      ⟨⟨6⟩, .none, .letDecl ⟨"a", .priv, false, some .bool,
        some ⟨⟨7⟩, .none, .ident "x"⟩⟩⟩,
      ⟨⟨8⟩, .none, .letDecl ⟨"x", .priv, false, none,
        some ⟨⟨9⟩, .none, .literal (.bool true)⟩⟩⟩], .none⟩, .none⟩⟩]

theorem passes_settle_of_shadowing :
    (∃ ty, ((shadowedLocal.session {} .literal 1).tree.symbol ⟨0⟩).ty =
      some ty ∧ ((shadowedLocal.session {} .literal 2).tree.symbol ⟨0⟩).ty =
      some ty) ∧
      (shadowedLocal.session {} .literal 3).pass =
      (shadowedLocal.session {} .literal 2).pass ∧
      ∃ k ≤ 5 * shadowedLocal.collect.tree.symbols.size, ∀ n, k ≤ n →
        (shadowedLocal.session {} .literal n).pass =
          (shadowedLocal.session {} .literal k).pass := by
  have hloops : shadowedLocal.loops = [] := rfl
  have htyped :
      ((shadowedLocal.session {} .literal 1).tree.symbol ⟨0⟩).ty.isSome =
      true := by
    decide +kernel
  have hknown : (shadowedLocal.session {} .literal 2).tree.known =
      (shadowedLocal.session {} .literal 3).tree.known := by
    decide +kernel
  obtain ⟨ty, hty⟩ := Option.isSome_iff_exists.mp htyped
  obtain ⟨hsettled, hstays, hrepeats⟩ := passes_settle shadowedLocal {} .literal
  refine ⟨⟨ty, hty, hstays 1 ⟨0⟩ ty ?_ hty⟩, hsettled 3 2 ?_, hrepeats hloops⟩
  · rw [hloops]
    exact List.forall_mem_nil _
  · exact Program.session_symbols_eq_of_known_eq hloops hknown

def usedTooEarly : Program :=
  soleModule [⟨⟨1⟩, .none, .func ⟨⟨2⟩, "f", .priv, [], some .void, none, ⟨⟨3⟩, [
    ⟨⟨4⟩, .none,
      .letDecl ⟨"a", .priv, false, none, some ⟨⟨5⟩, .none, .ident "x"⟩⟩⟩,
    ⟨⟨6⟩, .none, .letDecl ⟨"x", .priv, false, none,
      some ⟨⟨7⟩, .none, .literal (.int "1")⟩⟩⟩], .none⟩, .none⟩⟩]

def undefinedLength : Program :=
  soleModule [⟨⟨1⟩, .none, .defDecl ⟨"A", .priv, none, ⟨⟨2⟩, .none,
    .type (.array (.int true 32) (.expr ⟨⟨3⟩, .none, .ident "n"⟩) false)⟩⟩⟩]

/-- What the first pass reports the second need not report: it finds the
variables of the functions declared, which the first one skipped, and the alias
resolved. -/
theorem second_pass_differs :
    ([shadowedLocal, usedTooEarly, undefinedLength].map fun program =>
      (program.session {} .literal 0).pass.reports.map (·.problem)) =
        [[.typeMismatch "bool" "i32"], [.undefinedIdentifier "x"],
          [.undefinedIdentifier "n"]] ∧
    ∀ program ∈ [shadowedLocal, usedTooEarly, undefinedLength],
      (Check.handle (program.session {} .literal 0)).1 = false ∧
      (program.session {} .literal 1).pass.reports.map (·.problem) = [] ∧
      (Check.handle (program.session {} .literal 1)).1 = true := by
  decide +kernel

end StaticCheck
