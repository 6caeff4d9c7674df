import StaticCheck.Proofs.Renaming.Collection
import StaticCheck.Proofs.Renaming.Ids
import StaticCheck.Proofs.Renaming.Statements

/-!
# Programs under a renaming

Node ids matter only as identities.  A program whose node ids are renamed so
that different ones stay different is checked with the same verdict and the same
reports; scopes and symbols are the same, except that the new ids stand in the
lengths and initializers that symbols hold.
-/

namespace StaticCheck

variable {α : Type} [Renames α] {f : NodeId ↪ NodeId}

theorem Judge.limited_renamed (n : Nat) :
    (Judge.limited n).RenamedTo f (Judge.limited n) := by
  induction n with
  | zero =>
    exact {
      infer := fun _ _ hs => ⟨rfl, hs⟩
      validate := fun _ _ hs => ⟨rfl, hs⟩
      resolve := fun _ _ _ _ hs => ⟨rfl, hs⟩
      compatible := fun _ _ _ hs => ⟨rfl, hs⟩
      castable := fun _ _ _ hs => ⟨rfl, hs⟩
      checkValue := fun _ _ _ hs => ⟨rfl, hs⟩
      peel := fun _ _ hs => ⟨rfl, hs⟩ }
  | succ n ih =>
    exact {
      infer := fun expr => Renamed.inferExpr expr ih
      validate := fun stmt => Renamed.validateStmt stmt ih
      resolve := fun ty span loud => Renamed.resolveTy span loud ty ih
      compatible := fun target source => Renamed.compatible target source ih
      castable := fun target source => Renamed.canCast target source ih
      checkValue := fun target value => Renamed.checkInitializer target value ih
      peel := fun ty => Renamed.peelOptionals ty ih }

theorem Session.depth_rename (s : Session) (size : Nat) :
    (s.rename f).depth size = s.depth size := by
  have hsymbols : (s.tree.rename f).symbols.size = s.tree.symbols.size :=
    Array.size_map ..
  simp only [Session.depth, Session.rename, Program.size_rename, hsymbols]

namespace Check.RenamedTo

theorem ask {rule rule' : Rule α} (size : Nat) (h : Renamed f rule rule') :
    Check.RenamedTo f (Check.ask size rule) (Check.ask size rule') := by
  intro s hs
  have hrun := h (Judge.limited_renamed (s.depth size)) s hs
  refine ⟨?_, hrun.2⟩
  unfold Check.ask
  rw [Session.depth_rename]
  exact hrun.1

theorem modules (index : Nat) (list : List Module) :
    Check.RenamedTo f (Check.modules index list)
      (Check.modules index (list.map (Module.rename f))) := by
  induction list generalizing index with
  | nil => exact fun _ hs => ⟨rfl, hs⟩
  | cons module rest ih =>
    refine .bind (fun _ hs => ⟨rfl, hs⟩) fun _ => .bind (.ask 0 ?_) fun _ =>
      ih (index + 1)
    exact .bind (.checkModule module) fun result => .reportFailure result

theorem handle : Check.RenamedTo f Check.handle Check.handle := by
  refine .bind (fun _ hs => ⟨rfl, hs⟩) fun s =>
    .bind (.modules 0 s.program.modules) fun _ => ?_
  exact fun _ hs => ⟨rfl, hs⟩

end Check.RenamedTo

theorem Session.new_rename (program : Program) (options : Options)
    (f : NodeId → NodeId) :
    Session.new (program.rename f) options =
      (Session.new program options).rename f := by
  simp only [Session.new, Program.collect_rename]
  rfl

theorem handle_rename (program : Program) (options : Options)
    (f : NodeId ↪ NodeId) :
    Check.handle (Session.new (program.rename f) options) =
      ((Check.handle (Session.new program options)).1,
        (Check.handle (Session.new program options)).2.rename f) := by
  rw [Session.new_rename]
  exact (Check.RenamedTo.handle _ rfl).1

/-!
## Node ids in symbols
-/

def Symbol.ids (symbol : Symbol) : List NodeId :=
  Ty.idsOpt symbol.ty ++ symbol.info.params.flatMap (·.ty.ids) ++
    Ty.idsOpt symbol.info.result ++
    Ty.idsOpt symbol.info.ascribed ++ Expr.idsOpt symbol.info.initializer ++
      Ty.idsOpt symbol.info.aliased

theorem Symbol.rename_eq_iff {f g : NodeId → NodeId} (symbol : Symbol) :
    symbol.rename f = symbol.rename g ↔ ∀ id ∈ symbol.ids, f id = g id := by
  have hparams : symbol.info.params.map (ParamInfo.rename f) =
      symbol.info.params.map (ParamInfo.rename g) ↔
      ∀ id ∈ symbol.info.params.flatMap (·.ty.ids), f id = g id := by
    simp only [List.map_inj_left, List.forall_mem_flatMap, ParamInfo.rename,
      ParamInfo.mk.injEq, true_and, and_true, Ty.rename_eq_iff]
  simp only [Symbol.rename, SymbolInfo.rename, Symbol.mk.injEq,
    SymbolInfo.mk.injEq, true_and, and_true, Symbol.ids, List.forall_mem_append,
    and_assoc, hparams, ← Ty.renameOpt_eq,
    ← Expr.renameOpt_eq, Ty.renameOpt_eq_iff, Expr.renameOpt_eq_iff]

theorem mem_ids_of_handle {program : Program} {options : Options}
    {symbol : Symbol} {id : NodeId}
    (hsymbol : symbol ∈
      (Check.handle (Session.new program options)).2.tree.symbols)
    (hid : id ∈ symbol.ids) : id ∈ program.ids := by
  -- Two renamings that agree on the program alone lead to the same run.
  obtain ⟨g, h, -, hagree⟩ :=
    exists_embeddings (f := fun id => id) fun _ _ _ _ hab => hab
  have hprogram : program.rename g = program.rename h :=
    (Program.rename_eq_iff program).mpr fun id hid => (hagree id).mpr hid
  have hrun := handle_rename program options g
  rw [hprogram, handle_rename program options h, Prod.mk.injEq] at hrun
  have hsymbols := congrArg (·.tree.symbols) hrun.2
  have hsame : symbol.rename h = symbol.rename g :=
    Array.map_inj_left.mp hsymbols symbol hsymbol
  exact (hagree id).mp ((Symbol.rename_eq_iff symbol).mp hsame id hid).symm

/-- The second run, on a program with renamed node ids, differs from the first
one only in the node ids that symbols hold. -/
structure RunsAlike (f : NodeId → NodeId) (run run' : Bool × Session) :
    Prop where
  verdict : run'.1 = run.1
  diagnostics : run'.2.diagnostics = run.2.diagnostics
  cacheSize : run'.2.cache.size = run.2.cache.size
  scopes : run'.2.tree.scopes = run.2.tree.scopes
  /-- Names, kinds, flags and the shape of types are the same. -/
  symbols : run'.2.tree.symbols = run.2.tree.symbols.map (Symbol.rename f)

/-- Node ids matter only as identities: a renaming that keeps those of the
program apart does not show in the check of the program. -/
theorem handle_of_renamed_ids
    (program : Program)
    (options : Options)
    (f : NodeId → NodeId)
    (hf : ∀ a ∈ program.ids, ∀ b ∈ program.ids, f a = f b → a = b) :
    RunsAlike f (Check.handle (.new program options))
      (Check.handle (.new (program.rename f) options)) := by
  obtain ⟨g, h, hextends, -⟩ := exists_embeddings hf
  rw [(Program.rename_eq_iff program).mpr hextends,
    handle_rename program options g]
  have hsymbols :
      ∀ symbol ∈ (Check.handle (.new program options)).2.tree.symbols,
      symbol.rename g = symbol.rename f := by
    intro symbol hsymbol
    refine ((Symbol.rename_eq_iff symbol).mpr fun id hid => ?_).symm
    exact hextends id (mem_ids_of_handle hsymbol hid)
  exact {
    verdict := rfl
    diagnostics := rfl
    cacheSize := TypeCache.size_rename
    scopes := rfl
    symbols := Array.map_congr_left hsymbols }

def sizedAtRuntime : Program :=
  ⟨[⟨⟨0⟩, "main", "main.sc",
    [⟨⟨1⟩, .none, .letDecl ⟨"n", .priv, true, some (.named "usize"),
        some ⟨⟨2⟩, .none, .literal (.int "3")⟩⟩⟩,
      ⟨⟨3⟩, .none, .letDecl ⟨"a", .priv, true,
        some (.array .u8 (.expr ⟨⟨4⟩, .none, .ident "n"⟩) false), none⟩⟩,
      ⟨⟨5⟩, .none, .letDecl ⟨"b", .priv, true,
        some (.pointer (.array .u8 (.expr ⟨⟨6⟩, .none, .ident "n"⟩) false)
          false),
        some ⟨⟨7⟩, .none, .unary .reference ⟨⟨8⟩, .none, .ident "a"⟩⟩⟩⟩]⟩]⟩

/-- Counting down keeps the first node ids apart, and only these.  Where the
lengths of both arrays become the same node, so do their types, and the verdict
is another one. -/
theorem handle_of_ids_counted_down :
    (∀ a ∈ sizedAtRuntime.ids, ∀ b ∈ sizedAtRuntime.ids,
      (⟨8 - a.index⟩ : NodeId) = ⟨8 - b.index⟩ → a = b) ∧
    RunsAlike (fun id => ⟨8 - id.index⟩) (Check.handle (.new sizedAtRuntime {}))
      (Check.handle
        (.new (sizedAtRuntime.rename fun id => ⟨8 - id.index⟩) {})) ∧
    (Check.handle (.new sizedAtRuntime {})).1 = false ∧
    (Check.handle
      (.new (sizedAtRuntime.rename fun id => if id = ⟨6⟩ then ⟨4⟩ else id)
        {})).1 = true := by
  exact ⟨by decide, handle_of_renamed_ids _ _ _ (by decide), by
    decide +kernel, by
    decide +kernel⟩

end StaticCheck
