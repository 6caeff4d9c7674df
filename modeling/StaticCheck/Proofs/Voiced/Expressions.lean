import StaticCheck.Proofs.Voiced.Forms

/-!
# Expressions that answer or report

Whether an expression surely has a type, or else a report, is told by its form
and by what is known of the names in it.  The type of a name is asked of its
symbol, and a symbol that is still being typed has none; nobody is told.  A
module or a type has its members without being asked for a type, but what a
member of any other value is depends on the value's type.
-/

namespace StaticCheck

open Rule

/-- What is known beforehand of the names in an expression: which of them have a
type, and which members of them do, wherever in the expression they stand, and
which are names of modules. -/
structure Knowledge where
  name : List (NodeId × Form) → String → Bool
  member : List (NodeId × Form) → String → String → Bool
  module : String → Bool

variable {program : Program} {n : Nat} {view : View program} {known : Knowledge}

/-- Whether a call asks for the callee as a plain value, as it does for a member
of a module. -/
def Expr.calledAsValue (callee : Expr) (known : Knowledge) : Bool :=
  match callee.unparen.kind with
  | .member base _ => base.identName?.any known.module
  | _ => true

mutual

/-- Whether an expression surely has a type.  `above` holds the nodes that the
expression stands in: a node that were met again inside of itself would have no
type there. -/
def Expr.answerable (known : Knowledge) (above : List (NodeId × Form)) :
    Expr → Bool
  | ⟨id, _, kind⟩ =>
    !above.contains (id, kind.form) &&
      kind.answerable known ((id, kind.form) :: above)

def ExprKind.answerable (known : Knowledge) (above : List (NodeId × Form)) :
    ExprKind → Bool
  | .literal literal => literal.answerable known above
  | .ident name => known.name above name
  | .paren inner => inner.answerable known above
  | .tuple fields => Expr.allAnswerable known above fields
  | .object name fields =>
    name.isSome || ObjectField.allAnswerable known above fields
  | .type _ | .sizeOf _ | .range .. | .ifExpr .. | .matchExpr ..
  | .unreachable => true
  | .binary op left right =>
    op.opClass != .assignment && left.answerable known above &&
      right.answerable known above
  | .unary _ operand => operand.answerable known above
  | .call callee _ =>
    callee.namesBuiltin || callee.answerable known above &&
      callee.calledAsValue known
  | .index base index =>
    base.answerable known above && index.answerable known above
  | .increment operand => operand.answerable known above
  | .decrement operand => operand.answerable known above
  | .deref operand => operand.answerable known above
  | .cast operand _ => operand.answerable known above
  | .typeOf operand => operand.answerable known above
  | .orElse left right =>
    left.answerable known above && right.answerable known above
  | .tryExpr operand => operand.answerable known above
  | .catchExpr operand _ _ => operand.answerable known above
  | .member base name =>
    base.identName?.any fun owner => known.member above owner name

def Literal.answerable (known : Knowledge) (above : List (NodeId × Form)) :
    Literal → Bool
  | .array elements => Expr.firstAnswerable known above elements
  | _ => true

def Expr.firstAnswerable (known : Knowledge) (above : List (NodeId × Form)) :
    List Expr → Bool
  | [] => true
  | first :: _ => first.answerable known above

def Expr.allAnswerable (known : Knowledge) (above : List (NodeId × Form)) :
    List Expr → Bool
  | [] => true
  | expr :: rest =>
    expr.answerable known above && Expr.allAnswerable known above rest

def ObjectField.allAnswerable (known : Knowledge)
    (above : List (NodeId × Form)) : List ObjectField → Bool
  | [] => true
  | ⟨_, value, _⟩ :: rest =>
    value.answerable known above && ObjectField.allAnswerable known above rest

end

/-- Asked from the view, what is known of names is true. -/
structure View.Settles (view : View program) (known : Knowledge) : Prop where
  name :
    ∀ (n : Nat) (above : List (NodeId × Form)) (name : String) (span : Span),
    view.depth < n → known.name above name = true →
      Voiced n { view with above } (inferIdent name span)
  member :
    ∀ (n : Nat) (above : List (NodeId × Form)) (base : Expr)
    (owner name : String)
    (span : Span), view.depth < n → base.identName? = some owner →
      known.member above owner name = true →
        Voiced n { view with above } (inferMember base name span)
  module : ∀ owner : String, known.module owner = true →
    program.collect.tree.namesModule view.scope owner = true

theorem View.Settles.inside (h : view.Settles known) (node : NodeId × Form) :
    (view.inside node).Settles known :=
  ⟨h.name, h.member, h.module⟩

theorem Expr.namesModule_of_calledAsValue {callee : Expr}
    (hknown : view.Settles known) (hcallee : callee.calledAsValue known = true)
    (base : Expr) (name : String)
    (hkind : callee.unparen.kind = .member base name) :
    ∃ owner, base.identName? = some owner ∧
      program.collect.tree.namesModule view.scope owner = true := by
  rw [calledAsValue, hkind] at hcallee
  obtain ⟨owner, hbase, hmodule⟩ := (Option.any_eq_true _ _).mp hcallee
  exact ⟨owner, hbase, hknown.module owner hmodule⟩

theorem exprKey_run (expr : Expr) (judge : Judge) (s : Session) :
    exprKey expr judge s = (⟨s.module, expr.id, expr.kind.form⟩, s) := rfl

theorem remembered?_run (key : ExprKey) (judge : Judge) (s : Session) :
    remembered? key judge s = (s.cache.get? key, s) := rfl

theorem withInFlight_run (key : ExprKey) (rule : Rule α) (judge : Judge)
    (s : Session) : withInFlight key rule judge s =
      let run := rule judge { s with inFlight := key :: s.inFlight }
      (run.1, { run.2 with inFlight := run.2.inFlight.erase key }) :=
  rfl

theorem isInFlight_run (key : ExprKey) (judge : Judge) (s : Session) :
    isInFlight key judge s = (s.inFlight.contains key, s) := rfl

theorem voiced_inferExpr_of_kind {expr : Expr}
    (hnew : (expr.id, expr.kind.form) ∉ view.above)
    (hkind : Voiced n (view.inside (expr.id, expr.kind.form))
      (inferKind expr)) :
    Voiced n view (inferExpr expr) where
  answers s hs hclean := by
    unfold inferExpr at hclean ⊢
    rw [bind_run, exprKey_run] at hclean ⊢
    dsimp only at hclean ⊢
    rw [bind_run, remembered?_run] at hclean ⊢
    cases hknown : s.cache.get? ⟨s.module, expr.id, expr.kind.form⟩ with
    | some ty => rfl
    | none =>
      rw [hknown] at hclean
      dsimp only at hclean ⊢
      rw [bind_run, isInFlight_run] at hclean ⊢
      have hbusy : s.inFlight.contains ⟨s.module, expr.id, expr.kind.form⟩ =
          false := by
        rw [Bool.eq_false_iff]
        intro hmem
        exact hnew (hs.inFlight _ (List.contains_iff_mem.mp hmem))
      rw [hbusy] at hclean ⊢
      rw [if_neg Bool.false_ne_true, bind_run] at hclean ⊢
      have hfound := (hkind.withSpan expr.span).answers _
        (hs.infer ⟨s.module, expr.id, expr.kind.form⟩)
      rw [withInFlight_run] at hclean ⊢
      generalize withSpan expr.span (inferKind expr) (Judge.limited n) _ = run
        at hclean hfound ⊢
      obtain ⟨_ | ty, t⟩ := run
      · exact hfound hclean
      · rfl

mutual

/-- An expression that can be answered has a type unless an error is reported,
if the judge is deeper than the expression and what is left to unfold.  So has
what its parentheses hold. -/
theorem voiced_both {n : Nat} {view : View program}
    (hknown : view.Settles known) (expr : Expr) (hlegal : expr.Legal program)
    (hanswer : expr.answerable known view.above = true)
    (hdepth : view.depth + expr.size ≤ n) :
    Voiced n view (inferExpr expr) ∧
      Voiced n view (inferExpr expr.unparen) := by
  obtain ⟨id, span, kind⟩ := expr
  simp only [Expr.answerable, Bool.and_eq_true, Bool.not_eq_true'] at hanswer
  rw [Expr.size] at hdepth
  have hinside := hknown.inside (id, kind.form)
  have hself : Voiced n view (inferExpr ⟨id, span, kind⟩) := by
    apply voiced_inferExpr_of_kind
    · intro hmem
      rw [List.contains_iff_mem.mpr hmem] at hanswer
      cases hanswer.1
    · exact voiced_inferKind hinside kind id span hlegal.kind hanswer.2 hdepth
  exact ⟨hself, voiced_unparen hinside kind id span hlegal.kind hanswer.2
    hdepth hself⟩

theorem voiced_unparen {n : Nat} {view : View program} {node : NodeId × Form}
    (hknown : (view.inside node).Settles known) (kind : ExprKind) (id : NodeId)
    (span : Span)
    (hlegal : kind.Suits program.standard.toRegime Place.outside id)
    (hanswer : kind.answerable known (view.inside node).above = true)
    (hdepth : view.depth + (kind.size + 1) ≤ n)
    (hself : Voiced n view (inferExpr ⟨id, span, kind⟩)) :
    Voiced n view (inferExpr (Expr.unparen ⟨id, span, kind⟩)) := by
  cases kind with
  | paren inner =>
    simp only [ExprKind.answerable] at hanswer
    simp only [ExprKind.size] at hdepth
    have hsize : (view.inside node).depth + inner.size ≤ n := by
      show view.depth + inner.size ≤ n
      omega
    exact (voiced_both hknown inner hlegal hanswer hsize).2.outside
  | _ => exact hself

theorem voiced_inferKind {n : Nat} {view : View program}
    (hknown : view.Settles known) (kind : ExprKind) (id : NodeId) (span : Span)
    (hlegal : kind.Suits program.standard.toRegime Place.outside id)
    (hanswer : kind.answerable known view.above = true)
    (hdepth : view.depth + (kind.size + 1) ≤ n) :
    Voiced n view (inferKind ⟨id, span, kind⟩) := by
  obtain ⟨m, rfl⟩ : ∃ m, n = m + 1 := ⟨n - 1, by omega⟩
  have hroom : view.room < m + 1 := by
    have hle := view.room_le_depth
    omega
  cases kind with
  | literal literal =>
    simp only [ExprKind.answerable] at hanswer
    simp only [ExprKind.size] at hdepth
    exact voiced_literal hknown literal span hlegal hanswer (by omega)
  | paren inner | tryExpr inner =>
    simp only [ExprKind.answerable] at hanswer
    simp only [ExprKind.size] at hdepth
    exact (Asked.ofExpr hlegal
      (voiced_both hknown inner hlegal hanswer (by omega)).1).toVoiced
  | tuple fields =>
    simp only [ExprKind.answerable] at hanswer
    simp only [ExprKind.size] at hdepth
    exact voiced_inferTuple
      (asked_exprs hknown fields hlegal hanswer (by omega))
  | object name fields =>
    simp only [ExprKind.answerable, Bool.or_eq_true] at hanswer
    simp only [ExprKind.size] at hdepth
    apply voiced_inferObject hroom
      ((ObjectField.suitAll_iff_forall fields).mp hlegal)
    rintro rfl
    exact asked_fields hknown fields hlegal
      (hanswer.resolve_left (by simp)) (by omega)
  | type ty => exact (asked_resolveTy hroom ty hlegal).map _
  | sizeOf operand => exact .after (.inferSizeOf hlegal) fun _ _ => .answer _
  | range start stop inclusive =>
    obtain ⟨hstart, hstop⟩ := hlegal
    refine .after (.forEach fun bound hbound => .checkBound ?_)
      fun _ _ => .answer _
    rw [List.mem_append, Option.mem_toList, Option.mem_toList] at hbound
    rcases hbound with hbound | hbound
    · exact (Expr.suitsOpt_iff_forall start).mp hstart bound hbound
    · exact (Expr.suitsOpt_iff_forall stop).mp hstop bound hbound
  | ifExpr condition thenBranch elseBranch =>
    obtain ⟨hcondition, hthen, helse⟩ := hlegal
    refine .after (.checkIf hcondition hthen ?_) fun _ _ => .answer _
    exact (Stmt.suitsOpt_iff_forall elseBranch).mp helse
  | matchExpr subject cases default =>
    obtain ⟨hsubject, hcases, hdefault⟩ := hlegal
    refine .after (.checkMatch hsubject ?_ ?_) fun _ _ => .answer _
    · exact (MatchCase.suitAll_iff_forall cases).mp hcases
    · exact (Stmt.suitsOpt_iff_forall default).mp hdefault
  | unreachable => exact .answer _
  | binary op left right =>
    simp only [ExprKind.answerable, Bool.and_eq_true, bne_iff_ne] at hanswer
    simp only [ExprKind.size] at hdepth
    have hleft : Voiced m view _ ∧ _ :=
      voiced_both hknown left hlegal.1 hanswer.1.2 (by omega)
    have hright : Voiced m view _ ∧ _ :=
      voiced_both hknown right hlegal.2 hanswer.2 (by omega)
    unfold inferKind
    dsimp only
    rw [if_neg (by simpa using hanswer.1.1)]
    exact voiced_inferBinary hanswer.1.1 (.ofExpr hlegal.1 hleft.1)
      (.ofExpr hlegal.2 hright.1)
  | unary op operand =>
    simp only [ExprKind.answerable] at hanswer
    simp only [ExprKind.size] at hdepth
    apply voiced_inferUnary hlegal
    exact .ofExpr hlegal
      (voiced_both hknown operand hlegal hanswer (by omega)).1
  | index base index =>
    simp only [ExprKind.answerable, Bool.and_eq_true] at hanswer
    simp only [ExprKind.size] at hdepth
    apply voiced_inferIndex hlegal.2
    · exact .ofExpr hlegal.1
        (voiced_both hknown base hlegal.1 hanswer.1 (by omega)).1
    · exact .ofExpr hlegal.2
        (voiced_both hknown index hlegal.2 hanswer.2 (by omega)).1
  | increment operand | decrement operand =>
    simp only [ExprKind.answerable] at hanswer
    simp only [ExprKind.size] at hdepth
    apply voiced_inferStep
    exact .ofExpr hlegal
      (voiced_both hknown operand hlegal hanswer (by omega)).1
  | deref operand =>
    simp only [ExprKind.answerable] at hanswer
    simp only [ExprKind.size] at hdepth
    apply voiced_inferDeref
    exact .ofExpr hlegal
      (voiced_both hknown operand hlegal hanswer (by omega)).1
  | cast operand target =>
    simp only [ExprKind.answerable] at hanswer
    simp only [ExprKind.size] at hdepth
    apply voiced_inferCast hroom hlegal.2
    exact .ofExpr hlegal.1
      (voiced_both hknown operand hlegal.1 hanswer (by omega)).1
  | typeOf operand =>
    simp only [ExprKind.answerable] at hanswer
    simp only [ExprKind.size] at hdepth
    have hoperand : Voiced m view _ ∧ _ :=
      voiced_both hknown operand hlegal hanswer (by omega)
    exact (Asked.ofExpr hlegal hoperand.1).map _
  | orElse left right =>
    simp only [ExprKind.answerable, Bool.and_eq_true] at hanswer
    simp only [ExprKind.size] at hdepth
    apply voiced_inferOrElse
    · exact .ofExpr hlegal.1
        (voiced_both hknown left hlegal.1 hanswer.1 (by omega)).1
    · exact .ofExpr hlegal.2
        (voiced_both hknown right hlegal.2 hanswer.2 (by omega)).1
  | catchExpr operand binding handler =>
    simp only [ExprKind.answerable] at hanswer
    simp only [ExprKind.size] at hdepth
    apply voiced_inferCatch
    · exact .ofExpr hlegal.1
        (voiced_both hknown operand hlegal.1 hanswer (by omega)).1
    · exact .checkHandler hlegal.2
  | ident name =>
    simp only [ExprKind.answerable] at hanswer
    exact hknown.name (m + 1) view.above name span (by omega) hanswer
  | call callee args =>
    have hargs := (Expr.suitAll_iff_forall args).mp hlegal.2
    simp only [ExprKind.answerable, Bool.or_eq_true] at hanswer
    simp only [ExprKind.size] at hdepth
    rcases hanswer with hbuiltin | hanswer
    · exact voiced_inferCall_of_builtin hargs hbuiltin
    · rw [Bool.and_eq_true] at hanswer
      apply voiced_inferCall
        (Expr.namesModule_of_calledAsValue hknown hanswer.2) hargs
      apply Asked.ofExpr hlegal.1.unparen
      exact (voiced_both hknown callee hlegal.1 hanswer.1 (by omega)).2
  | member base name =>
    simp only [ExprKind.answerable] at hanswer
    obtain ⟨owner, hbase, hmember⟩ := (Option.any_eq_true _ _).mp hanswer
    exact hknown.member (m + 1) view.above base owner name span (by omega)
      hbase hmember

theorem voiced_literal {m : Nat} {view : View program}
    (hknown : view.Settles known) (literal : Literal) (span : Span)
    (hlegal : literal.Suits program.standard.toRegime Place.outside)
    (hanswer : literal.answerable known view.above = true)
    (hdepth : view.depth + literal.size ≤ m) :
    Voiced (m + 1) view (inferLiteral literal span) := by
  apply voiced_inferLiteral
  cases literal with
  | array elements =>
    intro first rest heq
    have helements := Literal.array.inj heq
    refine ⟨asked_first hknown elements hlegal hanswer hdepth
      first (helements ▸ rfl), ?_⟩
    intro other hother
    exact (Expr.suitAll_iff_forall elements).mp hlegal other
      (helements ▸ .tail _ hother)
  | _ => exact fun _ _ heq => nomatch heq

theorem asked_first {m : Nat} {view : View program}
    (hknown : view.Settles known) (exprs : List Expr)
    (hlegal : Expr.SuitAll program.standard.toRegime Place.outside exprs)
    (hanswer : Expr.firstAnswerable known view.above exprs = true)
    (hdepth : view.depth + Expr.sizeAll exprs ≤ m) :
    ∀ first, exprs.head? = some first → Asked (m + 1) view (askType first) := by
  cases exprs with
  | nil => exact fun _ heq => nomatch heq
  | cons expr rest =>
    rintro first ⟨⟩
    simp only [Expr.sizeAll] at hdepth
    exact .ofExpr hlegal.1
      (voiced_both hknown expr hlegal.1 hanswer (by omega)).1

theorem asked_exprs {m : Nat} {view : View program}
    (hknown : view.Settles known) (exprs : List Expr)
    (hlegal : Expr.SuitAll program.standard.toRegime Place.outside exprs)
    (hanswer : Expr.allAnswerable known view.above exprs = true)
    (hdepth : view.depth + Expr.sizeAll exprs ≤ m) :
    ∀ expr ∈ exprs, expr.Legal program ∧ Asked (m + 1) view (askType expr) := by
  cases exprs with
  | nil => exact fun _ hmem => (List.not_mem_nil hmem).elim
  | cons expr rest =>
    simp only [Expr.allAnswerable, Bool.and_eq_true] at hanswer
    simp only [Expr.sizeAll] at hdepth
    rw [List.forall_mem_cons]
    constructor
    · exact ⟨hlegal.1,
        .ofExpr hlegal.1
        (voiced_both hknown expr hlegal.1 hanswer.1 (by omega)).1⟩
    · exact asked_exprs hknown rest hlegal.2 hanswer.2 (by omega)

theorem asked_fields {m : Nat} {view : View program}
    (hknown : view.Settles known) (fields : List ObjectField)
    (hlegal : ObjectField.SuitAll program.standard.toRegime
      Place.outside fields)
    (hanswer : ObjectField.allAnswerable known view.above fields = true)
    (hdepth : view.depth + ObjectField.sizeAll fields ≤ m) :
    ∀ field ∈ fields, Asked (m + 1) view (askType field.value) := by
  cases fields with
  | nil => exact fun _ hmem => (List.not_mem_nil hmem).elim
  | cons field rest =>
    obtain ⟨name, value, span⟩ := field
    simp only [ObjectField.allAnswerable, Bool.and_eq_true] at hanswer
    simp only [ObjectField.sizeAll] at hdepth
    rw [List.forall_mem_cons]
    constructor
    · exact .ofExpr hlegal.1
        (voiced_both hknown value hlegal.1 hanswer.1 (by omega)).1
    · exact asked_fields hknown rest hlegal.2 hanswer.2 (by omega)

end

theorem asked_askType {expr : Expr} (hknown : view.Settles known)
    (hlegal : expr.Legal program)
    (hanswer : expr.answerable known view.above = true)
    (hdepth : view.depth + (expr.size + 1) ≤ n) :
    Asked n view (askType expr) := by
  obtain ⟨m, rfl⟩ : ∃ m, n = m + 1 := ⟨n - 1, by omega⟩
  exact .ofExpr hlegal (voiced_both hknown expr hlegal hanswer (by omega)).1

end StaticCheck
