import StaticCheck.Proofs.Renaming.Session

/-!
# Collected scopes under a renaming

The collector does not look at node ids, it only notes which scope a node opens.
So it makes of a renamed program the renamed scope tree, with the same reports.
-/

namespace StaticCheck

variable {α β : Type} [Renames α] [Renames β] {f : NodeId → NodeId}

def Collection.rename (f : NodeId → NodeId) (collection : Collection) :
    Collection :=
  { collection with tree := collection.tree.rename f }

instance : Renames Collection := ⟨Collection.rename⟩

namespace ScopeTree

variable {tree : ScopeTree}

theorem insertSymbol_rename (tree : ScopeTree) (scope : ScopeId)
    (symbol : Symbol) : (tree.rename f).insertSymbol scope (symbol.rename f) =
      (tree.insertSymbol scope symbol).map fun made =>
      (made.1, made.2.rename f) := by
  have hsize : (tree.rename f).symbols.size = tree.symbols.size :=
    Array.size_map ..
  simp only [insertSymbol, scope_rename, Symbol.rename_name, hsize]
  cases (tree.scope scope).get? symbol.name with
  | some existing => rfl
  | none =>
    simp only [Except.map, ScopeTree.rename, updateScope, Array.map_push]
    rfl

end ScopeTree

/-!
## The symbols of declarations
-/

namespace Symbol

theorem ofLet_rename (decl : LetDecl) (span : Span) :
    ofLet (decl.rename f) span = (ofLet decl span).rename f := by
  obtain ⟨name, visibility, mutable, ty, value⟩ := decl
  simp [ofLet, LetDecl.rename, rename, SymbolInfo.rename]

theorem ofDef_rename (decl : DefDecl) (span : Span) :
    ofDef (decl.rename f) span = (ofDef decl span).rename f := by
  obtain ⟨name, visibility, ty, value⟩ := decl
  simp [ofDef, DefDecl.rename, rename, SymbolInfo.rename]

theorem paramInfos_rename (params : List Slot) (isMethod : Bool) :
    paramInfos (params.map (Slot.rename f)) isMethod =
      (paramInfos params isMethod).map (ParamInfo.rename f) := by
  simp [paramInfos, List.filter_map, Function.comp_def, ParamInfo.rename]

theorem ofFunc_rename (decl : FuncDecl) (body : ScopeId) (isMethod : Bool) :
    ofFunc (decl.rename f) body isMethod =
      (ofFunc decl body isMethod).rename f := by
  obtain ⟨id, name, visibility, params, result, error, block, span⟩ := decl
  simp [ofFunc, ready, FuncDecl.rename, rename, SymbolInfo.rename,
    paramInfos_rename]

theorem ofParam_rename (owner : Option Ty) (param : Slot) :
    ofParam (owner.map (Ty.rename f)) (param.rename f) =
      (ofParam owner param).rename f := by
  obtain ⟨name, ty, visibility, mutable, default, span⟩ := param
  by_cases hself : name = selfName <;>
    simp [ofParam, ready, Slot.rename, rename, SymbolInfo.rename, hself]

theorem ofSignature_rename (decl : FuncDecl) (owner : Option Ty) :
    ofSignature (decl.rename f) (owner.map (Ty.rename f)) =
      (ofSignature decl owner).map (rename f) := by
  obtain ⟨id, name, visibility, params, result, error, block, span⟩ := decl
  have hnamed : (params.map (Slot.rename f)).any (·.name == selfName) =
      params.any (·.name == selfName) := by
    simp [List.any_map, Function.comp_def]
  have hparams :
      (params.map (Slot.rename f)).map (ofParam (owner.map (Ty.rename f))) =
      (params.map (ofParam owner)).map (rename f) := by
    simp [Function.comp_def, ofParam_rename]
  simp only [ofSignature, FuncDecl.rename, Slot.renameAll_eq, hnamed, hparams,
    List.map_append]
  congr 2
  · cases owner with
    | none => rfl
    | some ty =>
      simp only [Option.map_some]
      split <;> rfl
  · cases error with
    | none => rfl
    | some clause => cases clause <;> rfl

theorem ofField_rename (field : Slot) :
    ofField (field.rename f) = (ofField field).rename f := by
  obtain ⟨name, ty, visibility, mutable, default, span⟩ := field
  simp [ofField, Slot.rename, rename, SymbolInfo.rename]

theorem ofVariant_rename (ty : Ty) (variant : VariantDecl) :
    ofVariant (ty.rename f) (variant.rename f) =
      (ofVariant ty variant).rename f := by
  obtain ⟨name, payload, span⟩ := variant
  simp [ofVariant, ready, VariantDecl.rename, rename, SymbolInfo.rename]

theorem ofVariants_rename (ty : Ty) (variants : List VariantDecl) :
    (VariantDecl.renameAll f variants).map (ofVariant (ty.rename f)) =
      (variants.map (ofVariant ty)).map (rename f) := by
  simp [Function.comp_def, ofVariant_rename]

end Symbol

theorem StructDecl.toTy_rename (decl : StructDecl) (members : ScopeId) :
    (decl.rename f).toTy members = (decl.toTy members).rename f := by
  obtain ⟨id, name, visibility, fields, methods, span⟩ := decl
  simp [StructDecl.toTy, StructDecl.rename, Ty.rename, StructTy.rename,
    Member.rename]

theorem EnumDecl.toTy_rename (decl : EnumDecl) (members : ScopeId) :
    (decl.rename f).toTy members = (decl.toTy members).rename f := by
  obtain ⟨id, name, visibility, variants, methods, span⟩ := decl
  simp [EnumDecl.toTy, EnumDecl.rename, Ty.rename, EnumTy.rename,
    Variant.rename]

/-!
## The collector
-/

namespace Collect

def Mirrored (f : NodeId → NodeId) (step step' : Collect α) : Prop :=
  ∀ c : Collection, step' (c.rename f) =
    (rename f (step c).1, (step c).2.rename f)

namespace Mirrored

theorem pure {a a' : α} (h : a' = rename f a) :
    Mirrored f (Pure.pure a : Collect α) (Pure.pure a') := by
  intro c
  exact congrArg (·, c.rename f) h

theorem bind {step step' : Collect α} {next next' : α → Collect β}
    (hstep : Mirrored f step step')
    (hnext : ∀ a, Mirrored f (next a) (next' (rename f a))) :
    Mirrored f (step >>= next) (step' >>= next') := by
  intro c
  show next' (step' (c.rename f)).1 (step' (c.rename f)).2 = _
  rw [hstep c]
  exact hnext (step c).1 (step c).2

theorem andThen {step step' : Collect Unit} {next next' : Collect β}
    (hstep : Mirrored f step step') (hnext : Mirrored f next next') :
    Mirrored f (step >>= fun _ => next) (step' >>= fun _ => next') :=
  .bind hstep fun _ => hnext

theorem collection : Mirrored f (get : Collect Collection) get := fun _ => rfl

theorem createScope (kind : ScopeKind) (name : String) (parent : ScopeId) :
    Mirrored f (createScope kind name parent) (createScope kind name parent) :=
  fun _ => rfl

theorem bindNode (node : NodeId) (scope : ScopeId) :
    Mirrored f (bindNode node scope) (bindNode (f node) scope) :=
  fun _ => rfl

theorem modifyTree {g : ScopeTree → ScopeTree}
    (h : ∀ tree : ScopeTree, g (tree.rename f) = (g tree).rename f) :
    Mirrored f (modifyTree g) (modifyTree g) := by
  intro c
  exact congrArg (fun tree => ((), ({ c.rename f with tree } : Collection)))
    (h c.tree)

theorem declare {symbol symbol' : Symbol} (scope : ScopeId)
    (h : symbol' = symbol.rename f) :
    Mirrored f (declare scope symbol) (declare scope symbol') := by
  intro c
  subst h
  have hinsert := ScopeTree.insertSymbol_rename (f := f) c.tree scope symbol
  simp only [Collect.declare, modify, modifyGet, MonadStateOf.modifyGet,
    StateT.modifyGet, Collection.rename, hinsert]
  cases c.tree.insertSymbol scope symbol <;> rfl

theorem declareAll {symbols symbols' : List Symbol} (scope : ScopeId)
    (h : symbols' = symbols.map (Symbol.rename f)) :
    Mirrored f (declareAll scope symbols) (declareAll scope symbols') := by
  subst h
  induction symbols with
  | nil => exact .pure rfl
  | cons symbol rest ih => exact .andThen (.declare scope rfl) ih

theorem use (scope : ScopeId) (span : Span) (decl : UseDecl) :
    Mirrored f (collectUse scope span decl) (collectUse scope span decl) := by
  refine .bind .collection fun c => ?_
  have htarget : (rename f c).tree.moduleScope? decl.module =
      c.tree.moduleScope? decl.module := rfl
  simp only [htarget]
  split
  · split
    · exact .andThen (.modifyTree fun _ => rfl) (.declare scope rfl)
    · exact .declare scope rfl
  · exact .declare scope rfl

theorem errorSet (scope : ScopeId) (id : NodeId) (span : Span) (decl : DefDecl)
    (names : List String) :
    Mirrored f (collectErrorSet scope id span decl names)
      (collectErrorSet scope (f id) span (decl.rename f) names) := by
  have hname : (decl.rename f).name = decl.name := by cases decl; rfl
  simp only [collectErrorSet, hname, Symbol.ofDef_rename]
  refine .bind (.createScope _ _ scope) fun members =>
    .andThen (.bindNode id members) ?_
  refine .andThen (.declareAll members ?_) (.declare scope rfl)
  rw [List.map_map]
  rfl

theorem typeAlias (scope : ScopeId) (span : Span) (decl : DefDecl) (ty : Ty) :
    Mirrored f (collectAlias scope span decl ty)
      (collectAlias scope span (decl.rename f) (ty.rename f)) := by
  simp only [collectAlias, Symbol.ofDef_rename]
  exact .declare scope rfl

theorem constant (scope : ScopeId) (span : Span) (decl : DefDecl) :
    Mirrored f (collectConstant scope span decl)
      (collectConstant scope span (decl.rename f)) := by
  have hvalue : (decl.rename f).value = decl.value.rename f := by
    cases decl; rfl
  simp only [collectConstant, Symbol.ofDef_rename, hvalue]
  exact .declare scope rfl

mutual

theorem stmt (scope : ScopeId) (stmt : Stmt) :
    Mirrored f (collectStmt scope stmt)
      (collectStmt scope (stmt.rename f)) := by
  obtain ⟨id, span, kind⟩ := stmt
  exact stmtKind scope id span kind

theorem stmtKind (scope : ScopeId) (id : NodeId) (span : Span)
    (kind : StmtKind) : Mirrored f (collectStmtKind scope id span kind)
      (collectStmtKind scope (f id) span (kind.rename f)) := by
  cases kind with
  | expr value => exact expr scope value
  | block body => exact block scope .block body
  | letDecl decl =>
    obtain ⟨name, visibility, mutable, ty, value⟩ := decl
    refine .andThen (exprOpt scope value) (.declare scope ?_)
    exact Symbol.ofLet_rename ⟨name, visibility, mutable, ty, value⟩ span
  | defDecl decl =>
    have hconstant := constant (f := f) scope span decl
    have halias := typeAlias (f := f) scope span decl
    have herrors := errorSet (f := f) scope id span decl
    obtain ⟨name, visibility, ty, ⟨valueId, valueSpan, valueKind⟩⟩ := decl
    have hvalue := exprKind scope valueId valueSpan valueKind
    cases valueKind with
    | type aliased =>
      cases aliased with
      | errors names => exact herrors names
      | _ => exact halias _
    | _ => exact .andThen hvalue hconstant
  | func decl => exact func scope none decl
  | struct decl =>
    have hty := decl.toTy_rename (f := f)
    obtain ⟨declId, name, visibility, slots, functions, declSpan⟩ := decl
    refine .bind (.createScope _ _ scope) fun members =>
      .andThen (.bindNode declId members) ?_
    refine .andThen (.declare scope ?_) (.andThen (.declareAll members ?_) ?_)
    · exact congrArg
        (fun ty => Symbol.ofType name visibility ty members declSpan)
        (hty members)
    · simp [Symbol.ofField_rename]
    · have hmethods := methods members
        (StructDecl.toTy ⟨declId, name, visibility, slots, functions, declSpan⟩
          members) functions
      rw [← hty] at hmethods
      exact hmethods
  | enum decl =>
    have hty := decl.toTy_rename (f := f)
    obtain ⟨declId, name, visibility, variants, functions, declSpan⟩ := decl
    refine .bind (.createScope _ _ scope) fun members =>
      .andThen (.bindNode declId members) ?_
    refine .andThen (.declare scope ?_) (.andThen (.declareAll members ?_) ?_)
    · exact congrArg
        (fun ty => Symbol.ofType name visibility ty members declSpan)
        (hty members)
    · have hvariants := Symbol.ofVariants_rename (f := f)
        (EnumDecl.toTy ⟨declId, name, visibility, variants, functions, declSpan⟩
          members) variants
      rw [← hty] at hvariants
      exact hvariants
    · have hmethods := methods members
        (EnumDecl.toTy ⟨declId, name, visibility, variants, functions, declSpan⟩
          members)
        functions
      rw [← hty] at hmethods
      exact hmethods
  | use decl => exact .use scope span decl
  | returnStmt value => exact exprOpt scope value
  | throwStmt value => exact expr scope value
  | whileLoop condition body =>
    exact .andThen (expr scope condition) (block scope .loop body)
  | forLoop binding iterable body =>
    obtain ⟨bodyId, body, bodySpan⟩ := body
    refine .andThen (expr scope iterable)
      (.bind (.createScope _ _ scope) fun inner => ?_)
    exact .andThen (.bindNode bodyId inner)
      (.andThen (.declare inner rfl) (stmts inner body))
  | breakStmt | continueStmt => exact .pure rfl

theorem stmts (scope : ScopeId) (list : List Stmt) :
    Mirrored f (collectStmts scope list)
      (collectStmts scope (Stmt.renameAll f list)) := by
  cases list with
  | nil => exact .pure rfl
  | cons first rest => exact .andThen (stmt scope first) (stmts scope rest)

theorem stmtOpt (scope : ScopeId) (body : Option Stmt) :
    Mirrored f (collectStmtOpt scope body)
      (collectStmtOpt scope (Stmt.renameOpt f body)) := by
  cases body with
  | none => exact .pure rfl
  | some body => exact stmt scope body

theorem block (scope : ScopeId) (kind : ScopeKind) (body : Block) :
    Mirrored f (collectBlock scope kind body)
      (collectBlock scope kind (body.rename f)) := by
  obtain ⟨id, body, _⟩ := body
  refine .bind (.createScope _ _ scope) fun inner => ?_
  exact .andThen (.bindNode id inner) (stmts inner body)

theorem func (scope : ScopeId) (owner : Option Ty) (decl : FuncDecl) :
    Mirrored f (collectFunc scope owner decl)
      (collectFunc scope (owner.map (Ty.rename f)) (decl.rename f)) := by
  have hdeclared :=
    fun inner => Symbol.ofFunc_rename (f := f) decl inner owner.isSome
  have hsignature := Symbol.ofSignature_rename (f := f) decl owner
  obtain ⟨id, name, visibility, params, result, error, ⟨bodyId, body, bodySpan⟩,
    span⟩ := decl
  refine .bind (.createScope _ _ scope) fun inner =>
    .andThen (.bindNode id inner) ?_
  refine .andThen (.bindNode bodyId inner) (.andThen (.declare scope ?_) ?_)
  · rw [Option.isSome_map]
    exact hdeclared inner
  · exact .andThen (.declareAll inner hsignature) (stmts inner body)

theorem methods (scope : ScopeId) (owner : Ty) (list : List FuncDecl) :
    Mirrored f (collectMethods scope owner list)
      (collectMethods scope (owner.rename f) (FuncDecl.renameAll f list)) := by
  cases list with
  | nil => exact .pure rfl
  | cons first rest =>
    exact .andThen (func scope (some owner) first) (methods scope owner rest)

theorem expr (scope : ScopeId) (expr : Expr) :
    Mirrored f (collectExpr scope expr)
      (collectExpr scope (expr.rename f)) := by
  obtain ⟨id, span, kind⟩ := expr
  exact exprKind scope id span kind

theorem exprKind (scope : ScopeId) (id : NodeId) (span : Span)
    (kind : ExprKind) : Mirrored f (collectExprKind scope id span kind)
      (collectExprKind scope (f id) span (kind.rename f)) := by
  cases kind with
  | literal literal =>
    cases literal with
    | array elements => exact exprs scope elements
    | _ => exact .pure rfl
  | ident | type | unreachable => exact .pure rfl
  | tuple items => exact exprs scope items
  | object name given => exact fields scope given
  | paren operand | unary _ operand | member operand | increment operand
  | decrement operand
  | deref operand | cast operand | typeOf operand | sizeOf operand
  | tryExpr operand =>
    exact expr scope operand
  | binary _ left right | index left right | orElse left right =>
    exact .andThen (expr scope left) (expr scope right)
  | call callee args => exact .andThen (expr scope callee) (exprs scope args)
  | range start stop =>
    exact .andThen (exprOpt scope start) (exprOpt scope stop)
  | catchExpr operand binding handler =>
    refine .andThen (expr scope operand)
      (.bind (.createScope _ _ scope) fun inner => ?_)
    refine .andThen (.bindNode id inner)
      (.andThen (.declareAll inner ?_) (stmt inner handler))
    cases binding <;> rfl
  | ifExpr condition thenBranch elseBranch =>
    refine .andThen (expr scope condition) (.andThen (stmt scope thenBranch) ?_)
    exact stmtOpt scope elseBranch
  | matchExpr subject branches default =>
    refine .andThen (expr scope subject) (.andThen (cases scope branches) ?_)
    exact stmtOpt scope default

theorem exprs (scope : ScopeId) (list : List Expr) :
    Mirrored f (collectExprs scope list)
      (collectExprs scope (Expr.renameAll f list)) := by
  cases list with
  | nil => exact .pure rfl
  | cons first rest => exact .andThen (expr scope first) (exprs scope rest)

theorem exprOpt (scope : ScopeId) (value : Option Expr) :
    Mirrored f (collectExprOpt scope value)
      (collectExprOpt scope (Expr.renameOpt f value)) := by
  cases value with
  | none => exact .pure rfl
  | some value => exact expr scope value

theorem fields (scope : ScopeId) (list : List ObjectField) :
    Mirrored f (collectFields scope list)
      (collectFields scope (ObjectField.renameAll f list)) := by
  cases list with
  | nil => exact .pure rfl
  | cons first rest =>
    obtain ⟨name, value, span⟩ := first
    exact .andThen (expr scope value) (fields scope rest)

theorem cases (scope : ScopeId) (list : List MatchCase) :
    Mirrored f (collectCases scope list)
      (collectCases scope (MatchCase.renameAll f list)) := by
  cases list with
  | nil => exact .pure rfl
  | cons first rest =>
    obtain ⟨patterns, body⟩ := first
    exact .andThen (stmt scope body) (cases scope rest)

end

theorem modules (list : List Module) :
    Mirrored f (openModules list)
      (openModules (list.map (Module.rename f))) := by
  unfold openModules
  induction list with
  | nil => exact .pure rfl
  | cons module rest ih =>
    simp only [List.map_cons, List.mapM_cons, bind_assoc, pure_bind]
    refine .bind (.createScope _ _ _) fun scope =>
      .andThen (.bindNode module.id scope) ?_
    refine .andThen (.modifyTree fun _ => rfl)
      (.bind ih fun opened => .pure rfl)

theorem bodies (opened : List (Module × ScopeId)) :
    Mirrored f (opened.forM fun entry => collectStmts entry.2 entry.1.body)
      ((rename f opened).forM fun entry =>
        collectStmts entry.2 entry.1.body) := by
  induction opened with
  | nil => exact .pure rfl
  | cons entry rest ih => exact .andThen (stmts entry.2 entry.1.body) ih

end Mirrored
end Collect

theorem Program.collect_rename (f : NodeId → NodeId) (program : Program) :
    (program.rename f).collect = program.collect.rename f := by
  have hprogram : Collect.Mirrored f (collectProgram program)
      (collectProgram (program.rename f)) :=
    .bind (.modules program.modules) fun opened => .bodies opened
  have hempty : Collection.rename f {} = {} := by
    simp [Collection.rename, ScopeTree.rename, ScopeTree.empty]
  have hrun := hprogram {}
  rw [hempty] at hrun
  exact congrArg Prod.snd hrun

end StaticCheck
