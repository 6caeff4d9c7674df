import StaticCheck.Proofs.Containment
import StaticCheck.Proofs.Pass

/-!
# What an accepted program was checked for

A failing statement does not stop a pass, and what a pass leaves out it reports.
So if a pass ends without an error, every statement of a module, of a block, of
a loop and of a function was checked on its way, in the scope that was made for
it.  Statements inside expressions are no part of this: an expression that has
no type yet ends the check of the expression around it without a report.
-/

namespace StaticCheck

open Rule

variable {α β γ : Type} {policy : Policy} {place : Place}
variable {s : Session} {span : Span} {scope : ScopeId} {name : String}
    {stmt : Stmt} {stmts : List Stmt} {id : NodeId}

structure Session.Leads (policy : Policy) (a b : Session) : Prop where
  tree : a.tree.Grows b.tree
  keeps : a.tree.Keeps policy b.tree
  inFlight : b.inFlight = a.inFlight
  unfolding : b.unfolding = a.unfolding
  diagnostics : a.diagnostics.items <+: b.diagnostics.items

def Session.Clean (s : Session) : Prop :=
  ∀ report ∈ s.diagnostics.items, report.isError = false

namespace Session

variable {a b c : Session}

theorem Progress.leads (h : a.Progress b)
    (hkeeps : a.tree.Keeps policy b.tree) : a.Leads policy b where
  tree := h.tree.grows
  keeps := hkeeps
  inFlight := h.inFlight
  unfolding := h.unfolding
  diagnostics := h.diagnostics

theorem Step.leads [Answer α] {result : α × Session}
    (h : a.Step policy place result) : a.Leads policy result.2 := by
  exact h.advances.toProgress.leads h.keeps

namespace Leads

theorem refl (s : Session) : s.Leads policy s := by
  exact (Progress.refl s).leads (.refl _)

theorem trans (hab : a.Leads policy b) (hbc : b.Leads policy c) :
    a.Leads policy c where
  tree := hab.tree.trans hbc.tree
  keeps := hab.keeps.trans hbc.keeps
  inFlight := hbc.inFlight.trans hab.inFlight
  unfolding := hbc.unfolding.trans hab.unfolding
  diagnostics := hab.diagnostics.trans hbc.diagnostics

theorem enter (s : Session) (scope : ScopeId) :
    s.Leads policy { s with tree := s.tree.enter scope } where
  tree := { ScopeTree.Grows.refl s.tree with }
  keeps := ⟨fun _ _ => rfl, fun _ _ _ _ _ h => h⟩
  inFlight := rfl
  unfolding := rfl
  diagnostics := List.prefix_rfl

theorem not_clean {finding : Finding}
    (h : { a with diagnostics := a.diagnostics.push .error finding }.Leads
      policy b) :
    ¬b.Clean := by
  intro hclean
  have hreport := hclean ⟨finding, .error⟩
    (h.diagnostics.subset (List.mem_append_right _ (.head _)))
  cases hreport

theorem clean (h : a.Leads policy b) (hclean : b.Clean) : a.Clean := by
  intro report hreport
  exact hclean report (h.diagnostics.subset hreport)

section Listed

variable {loops : List (String × NodeId)} {id : SymbolId}

theorem keepsType (h : a.Leads (.listed loops) b)
    (hfree : a.tree.NoLoopBinds loops id) : a.tree.KeepsType b.tree id := by
  exact h.keeps.types loops rfl id hfree

theorem noLoopBinds_iff (h : a.Leads (.listed loops) b) :
    b.tree.NoLoopBinds loops id ↔ a.tree.NoLoopBinds loops id := by
  unfold ScopeTree.NoLoopBinds
  simp only [h.keeps.loopVariable?_eq]

end Listed

end Leads
end Session

theorem Composed.step [Found α] {rule : Rule α}
    (h : Composed policy place rule) (n : Nat) (hs : s.Within policy place) :
    s.Step policy place (rule (Judge.limited n) s) := by
  exact h.preserves (Judge.limited_preserves n) s hs

theorem Composed.leads [Found α] {rule : Rule α}
    (h : Composed .free .outside rule) (n : Nat) (s : Session) :
    s.Leads .free (rule (Judge.limited n) s).2 := by
  exact (h.step n s.within_free).leads

/-!
## Parts of a run
-/

/-- Run from `s`, the rule runs `part` on its way, in a session with the
property `there`. -/
def Passes (policy : Policy) (n : Nat) (rule : Rule α) (s : Session)
    (part : Rule β) (there : Session → Prop) : Prop :=
  ∃ t, there t ∧ s.Leads policy t ∧
    (part (Judge.limited n) t).2.Leads policy (rule (Judge.limited n) s).2

structure Session.At (policy : Policy) (place : Place) (scope : ScopeId)
    (s : Session) : Prop where
  current : s.tree.current = scope
  within : s.Within policy place

namespace Passes

variable {n : Nat} {rule : Rule α} {part : Rule β} {s : Session}
    {there : Session → Prop}

theorem self (hthere : there s) : Passes policy n rule s rule there :=
  ⟨s, hthere, .refl s, .refl _⟩

theorem trans {detail : Rule γ} {inside : Session → Prop}
    (hpart : Passes policy n rule s part there)
    (hdetail : ∀ t, s.Leads policy t → there t →
      Passes policy n part t detail inside) :
    Passes policy n rule s detail inside := by
  obtain ⟨t, hthere, hbefore, hafter⟩ := hpart
  obtain ⟨u, hinside, hbeforeDetail, hafterDetail⟩ := hdetail t hbefore hthere
  exact ⟨u, hinside, hbefore.trans hbeforeDetail, hafterDetail.trans hafter⟩

theorem not_clean {problem : Problem}
    (h : Passes policy n rule s (report problem span) there) :
    ¬(rule (Judge.limited n) s).2.Clean := by
  obtain ⟨t, -, -, hafter⟩ := h
  exact hafter.not_clean

theorem bind_left [Answer α] [Found γ] {next : α → Rule γ}
    (hpart : Passes policy n rule s part there)
    (hrule : s.Step policy place (rule (Judge.limited n) s))
    (hnext : ∀ a, Obeys policy a → Composed policy place (next a)) :
    Passes policy n (rule >>= next) s part there := by
  obtain ⟨t, hthere, hbefore, hafter⟩ := hpart
  exact ⟨t, hthere, hbefore,
    hafter.trans ((hnext _ hrule.answer).step n hrule.within).leads⟩

theorem bind_right {next : α → Rule γ}
    (hrule : s.Leads policy (rule (Judge.limited n) s).2)
    (hpart : Passes policy n (next (rule (Judge.limited n) s).1)
      (rule (Judge.limited n) s).2 part there) :
      Passes policy n (rule >>= next) s part there := by
  obtain ⟨t, hthere, hbefore, hafter⟩ := hpart
  exact ⟨t, hthere, hrule.trans hbefore, hafter⟩

theorem bind_tree {next : ScopeTree → Rule α}
    (hpart : Passes policy n (next s.tree) s part there) :
    Passes policy n (Rule.tree >>= next) s part there :=
  .bind_right (.refl s) hpart

theorem bracket {whole : Rule γ} {inner : Session}
    (hpart : Passes policy n rule inner part there)
    (hbefore : s.Leads policy inner)
    (hafter : (rule (Judge.limited n) inner).2.Leads policy
      (whole (Judge.limited n) s).2) :
    Passes policy n whole s part there := by
  obtain ⟨t, hthere, hstart, hend⟩ := hpart
  exact ⟨t, hthere, hbefore.trans hstart, hend.trans hafter⟩

theorem withScope
    (hpart : Passes policy n rule { s with tree := s.tree.enter scope } part
      there) : Passes policy n (withScope scope rule) s part there := by
  exact hpart.bracket (.enter s scope) (.enter _ _)

theorem withSpan
    (hpart : Passes policy n rule { s with context := s.context.pushSpan span }
      part there) :
    Passes policy n (withSpan span rule) s part there := by
  exact hpart.bracket { Session.Leads.refl s with }
    { Session.Leads.refl _ with }

theorem withLoop
    (hpart : Passes policy n rule { s with context := s.context.enterLoop }
      part there) :
    Passes policy n (withLoop rule) s part there := by
  exact hpart.bracket { Session.Leads.refl s with }
    { Session.Leads.refl _ with }

theorem withDeclaration (hpart : Passes policy n rule
      { s with context := s.context.pushDeclaration name } part there) :
    Passes policy n (withDeclaration name rule) s part there := by
  exact hpart.bracket { Session.Leads.refl s with }
    { Session.Leads.refl _ with }

theorem withFrame {frame : Frame}
    (hpart : Passes policy n rule
      { s with frame := some frame, context := s.context.setLoopDepth 0 }
      part there) :
    Passes policy n (withFrame frame rule) s part there := by
  exact hpart.bracket { Session.Leads.refl s with }
    { Session.Leads.refl _ with }

theorem forEach {rule : γ → Rule Unit} {items : List γ}
    (hs : s.Within policy place)
    (hrule : ∀ a ∈ items, Composed policy place (rule a)) {a : γ}
    (ha : a ∈ items) :
    Passes policy n (forEach rule items) s (rule a) fun t =>
      s.Advances t ∧ t.Within policy place := by
  induction items generalizing s with
  | nil => cases ha
  | cons first rest ih =>
    rw [List.forall_mem_cons] at hrule
    have hfirst := hrule.1.step n hs
    rcases List.mem_cons.mp ha with rfl | ha
    · refine .bind_left (.self ⟨.refl s, hs⟩) hfirst fun _ _ => ?_
      exact .forEach hrule.2
    · obtain ⟨t, ⟨hadvances, hwithin⟩, hpasses⟩ := ih hfirst.within hrule.2 ha
      exact .bind_right hfirst.leads
        ⟨t, ⟨hfirst.advances.trans hadvances, hwithin⟩, hpasses⟩

end Passes

/-!
## Statements and the bodies inside them
-/

/-- The lists of statements that a statement holds outside of expressions, each
with the node that its scope is bound to. -/
def Stmt.bodies (stmt : Stmt) : List (NodeId × List Stmt) :=
  match stmt.kind with
  | .block block | .whileLoop _ block | .forLoop _ _ block =>
    [(block.id, block.body)]
  | .func decl => [(decl.id, decl.body.body)]
  | .struct decl => decl.methods.map fun method => (method.id, method.body.body)
  | .enum decl => decl.methods.map fun method => (method.id, method.body.body)
  | _ => []

theorem Stmt.size_le_sizeAll (h : stmt ∈ stmts) :
    stmt.size ≤ Stmt.sizeAll stmts := by
  induction stmts with
  | nil => cases h
  | cons first rest ih =>
    rw [Stmt.sizeAll]
    rcases List.mem_cons.mp h with rfl | h
    · omega
    · have := ih h
      omega

theorem FuncDecl.body_size_lt (func : FuncDecl) :
    Stmt.sizeAll func.body.body < func.size := by
  obtain ⟨_, _, _, params, result, _, ⟨_, body, _⟩, _⟩ := func
  show Stmt.sizeAll body < Slot.sizeAll params + Ty.sizeOpt result +
    Stmt.sizeAll body + 1
  omega

theorem FuncDecl.body_size_lt_sizeAll {func : FuncDecl} {funcs : List FuncDecl}
    (h : func ∈ funcs) :
    Stmt.sizeAll func.body.body < FuncDecl.sizeAll funcs := by
  induction funcs with
  | nil => cases h
  | cons first rest ih =>
    rw [FuncDecl.sizeAll]
    rcases List.mem_cons.mp h with rfl | h
    · have := func.body_size_lt
      omega
    · have := ih h
      omega

theorem Stmt.size_lt_of_mem_bodies {outer : Stmt} {body : NodeId × List Stmt}
    (hbody : body ∈ outer.bodies) (hstmt : stmt ∈ body.2) :
    stmt.size < outer.size := by
  have hall := Stmt.size_le_sizeAll hstmt
  obtain ⟨id, span, kind⟩ := outer
  suffices hkind : Stmt.sizeAll body.2 ≤ kind.size from
    Nat.lt_succ_of_le (hall.trans hkind)
  cases kind with
  | block block =>
    cases List.mem_singleton.mp hbody
    cases block
    exact Nat.le_refl _
  | whileLoop _ block | forLoop _ _ block =>
    cases List.mem_singleton.mp hbody
    cases block
    exact Nat.le_add_left _ _
  | func decl =>
    cases List.mem_singleton.mp hbody
    exact decl.body_size_lt.le
  | struct decl | enum decl =>
    obtain ⟨method, hmethod, rfl⟩ := List.mem_map.mp hbody
    have hmethods := (FuncDecl.body_size_lt_sizeAll hmethod).le
    cases decl
    exact hmethods.trans (Nat.le_add_left _ _)
  | _ => exact (List.not_mem_nil hbody).elim

/-- How far questions can lead away from a statement: to the initializer of one
symbol after the other, each no larger than the program. -/
def Session.reach (s : Session) : Nat :=
  s.tree.symbols.size * (s.program.size + 1)

theorem Session.reach_le_depth (s : Session) :
    s.reach + s.program.size ≤ s.depth 0 := by
  unfold Session.depth Session.reach
  dsimp only
  generalize hparts : s.program.size + 0 + s.tree.symbols.size + 16 = parts
  have hsymbols : s.tree.symbols.size + 1 ≤ parts := by omega
  have hprogram : s.program.size + 1 ≤ parts := by omega
  calc s.tree.symbols.size * (s.program.size + 1) + s.program.size
      ≤ (s.tree.symbols.size + 1) * (s.program.size + 1) := by
        rw [Nat.succ_mul]
        omega
    _ ≤ parts * parts := Nat.mul_le_mul hsymbols hprogram
    _ ≤ parts * parts * parts := Nat.le_mul_of_pos_right _ (by omega)

section Statements

variable {n : Nat} {s : Session}

theorem declaredSymbol_run {id : SymbolId} (span : Span) (judge : Judge)
    (hname : s.tree.lookupLocal s.tree.current name = some id) :
    declaredSymbol name span judge s = (.ok id, s) := by
  unfold declaredSymbol
  rw [bind_tree, bind_lookupLocal, hname]
  rfl

theorem checkStatements_cons (first : Stmt) (rest : List Stmt) :
    checkStatements (first :: rest) =
      (askValid first >>= reportFailure) >>= fun _ =>
      if first.alwaysExits then Rule.forEach skipUnreachable rest
      else checkStatements rest := rfl

theorem composed_skipUnreachable (stmt : Stmt) :
    Composed policy place (skipUnreachable stmt) := by
  exact .andThen Composed.report .declareBound

theorem composed_following (first : Stmt) {rest : List Stmt}
    (hrest : ∀ stmt ∈ rest, stmt.Suits policy.regime place) :
    Composed policy place
      (if first.alwaysExits then Rule.forEach skipUnreachable rest
        else checkStatements rest) := by
  exact .ite (.forEach fun stmt _ => composed_skipUnreachable stmt)
    (.checkStatements hrest)

theorem not_clean_of_skipped (hstmt : stmt ∈ stmts) :
    ¬(Rule.forEach skipUnreachable stmts (Judge.limited n) s).2.Clean := by
  have hskip : Passes .free n (Rule.forEach skipUnreachable stmts) s
      (skipUnreachable stmt) fun t => s.Advances t ∧ t.Within .free .outside :=
    .forEach s.within_free (fun stmt _ => composed_skipUnreachable stmt) hstmt
  have hreport : Passes .free n (Rule.forEach skipUnreachable stmts) s
      (report .unreachableCode stmt.span) fun _ => True := by
    refine hskip.trans fun t _ ht => ?_
    have hstep :=
      Composed.step (.report : Composed _ _ (report .unreachableCode stmt.span))
        n ht.2
    exact .bind_left (.self trivial) hstep fun _ _ => .declareBound
  exact hreport.not_clean

theorem ok_of_reportFailure {rule : Rule (Except Finding Unit)}
    (hclean : ((rule >>= reportFailure) (Judge.limited n) s).2.Clean) :
    (rule (Judge.limited n) s).1 = .ok () := by
  rw [bind_run] at hclean
  cases hresult : (rule (Judge.limited n) s).1 with
  | ok u => rfl
  | error finding =>
    rw [hresult] at hclean
    exact absurd hclean
      (Session.Leads.refl _ : Session.Leads .free _ _).not_clean

/-- A list of statements that ends without an error has checked all of them,
without a failure: what comes after a statement that always leaves the list is
reported. -/
theorem passes_checkStatements (hs : s.Within policy place)
    (hstmts : ∀ stmt ∈ stmts, stmt.Suits policy.regime place)
    (hstmt : stmt ∈ stmts)
    (hclean : (checkStatements stmts (Judge.limited n) s).2.Clean) :
    Passes policy n (checkStatements stmts) s (askValid stmt) fun t =>
      s.Advances t ∧ t.Within policy place ∧
      (askValid stmt (Judge.limited n) t).1 = .ok () := by
  induction stmts generalizing s with
  | nil => cases hstmt
  | cons first rest ih =>
    rw [List.forall_mem_cons] at hstmts
    have hasked : Composed policy place (askValid first) :=
      .askValid hstmts.1
    have hfirst : Composed policy place (askValid first >>= reportFailure) :=
      .bind hasked fun result _ => Composed.reportFailure result
    have hstep := hfirst.step n hs
    have hfollowing := composed_following first hstmts.2
    rw [checkStatements_cons] at hclean ⊢
    rw [bind_run] at hclean
    rcases List.mem_cons.mp hstmt with rfl | hstmt
    -- A failure of the statement would have been reported right after it.
    · have hok :=
        ok_of_reportFailure
          ((hfollowing.step n hstep.within).leads.clean hclean)
      refine .bind_left ?_ hstep fun _ _ => hfollowing
      exact .bind_left (.self ⟨.refl s, hs, hok⟩) (hasked.step n hs)
        fun result _ => .reportFailure result
    · refine .bind_right hstep.leads ?_
      by_cases hexits : first.alwaysExits = true
      · rw [if_pos hexits] at hclean
        exact (not_clean_of_skipped hstmt hclean).elim
      · rw [if_neg hexits] at hclean ⊢
        obtain ⟨t, ⟨hlater, hthere⟩, hpasses⟩ :=
          ih hstep.within hstmts.2 hstmt hclean
        exact ⟨t, ⟨hstep.advances.trans hlater, hthere⟩, hpasses⟩

theorem Session.Within.enter (h : s.Within policy place) (scope : ScopeId) :
    { s with tree := s.tree.enter scope }.At policy place scope :=
  ⟨rfl, h.setTree h.symbols⟩

theorem passes_checkBlock {block : Block} (hs : s.Within policy place)
    (hblock : ∀ stmt ∈ block.body, stmt.Suits policy.regime place)
    (hscope : s.tree.nodeScope? block.id = some scope) :
    Passes policy n (checkBlock block) s (checkStatements block.body)
      (·.At policy place scope) := by
  have hbody : Composed policy place
      (withScope scope (checkStatements block.body)) :=
    .withScope (.checkStatements hblock)
  refine .bind_tree ?_
  rw [hscope]
  exact .bind_left (.withScope (.self (hs.enter scope))) (hbody.step n hs)
    fun _ _ => .ok

theorem passes_checkFunction {func : FuncDecl} {owner : Option ScopeId}
    (hs : s.Within policy place) (hfunc : func.Suits policy.regime place)
    (hscope : s.tree.nodeScope? func.id = some scope) :
    Passes policy n (checkFunction func owner) s
      (checkStatements func.body.body) (·.At policy .inFunction scope) := by
  obtain ⟨hparams, hresult, hbody, hnames⟩ :=
    func.suits_iff_opens.mp hfunc scope
  have hdeclare : Composed policy place (declareFunction func.name) :=
    .declareFunction
  have hopen : Composed policy place
      (Rule.withScope scope (openFrame func scope owner)) :=
    .withScope (.openFrame hparams hresult hnames)
  have hdeclared := hdeclare.step n hs
  have hopened := hopen.step n hdeclared.within
  refine .bind_tree ?_
  rw [hscope]
  refine .bind_right hdeclared.leads (.bind_right hopened.leads ?_)
  generalize Rule.withScope scope (openFrame func scope owner)
    (Judge.limited n) _ = opened at hopened ⊢
  obtain ⟨frame, t⟩ := opened
  have hinside : Composed policy .inFunction
      (Rule.withScope scope (checkStatements func.body.body)) :=
    .withScope (.checkStatements hbody)
  have hwalk := Preserves.withFrame hopened.answer
    (hinside.preserves (Judge.limited_preserves n)) t hopened.within
  have hinner : { t with
      frame := some frame, context := t.context.setLoopDepth 0 }.Within policy
        .inFunction :=
    { symbols := hopened.within.symbols
      cache := hopened.within.cache
      expectations := hopened.within.expectations
      frame := fun _ => meets_some.mpr hopened.answer }
  refine .bind_left (.withFrame (.withScope (.self (hinner.enter scope))))
    hwalk fun walked _ => ?_
  obtain ⟨_ | finished, _⟩ := walked
  · exact .fails trivial
  · exact .ite (.andThen Composed.report .ok) .ok

theorem Session.Within.enterLoop (h : s.Within policy place) :
    { s with context := s.context.enterLoop }.Within policy
      place.enterLoop := by
  exact { h with frame := fun hplace => h.frame fun hclosed =>
      Place.enterLoop_eq_inFunction.mp (hplace hclosed) }

theorem passes_checkWhile {condition : Expr} {body : Block}
    (hs : s.Within policy place)
    (hcondition : condition.Suits policy.regime place)
    (hbody : ∀ stmt ∈ body.body, stmt.Suits policy.regime place.enterLoop)
    (hscope : s.tree.nodeScope? body.id = some scope) :
    Passes policy n (checkWhile condition body) s (checkStatements body.body)
      (·.At policy place.enterLoop scope) := by
  have hstep := Composed.step (.checkCondition hcondition) n hs
  refine .bind_right hstep.leads
    (.withLoop (passes_checkBlock hstep.within.enterLoop hbody ?_))
  rw [← hscope]
  exact hstep.leads.tree.nodeScope?_eq _

theorem passes_checkFor {binding : String} {iterable : Expr} {body : Block}
    (hs : s.Within policy place)
    (hloop : ∀ loops, policy = .listed loops → (binding, body.id) ∈ loops)
    (hiterable : iterable.Suits policy.regime place)
    (hbody : ∀ stmt ∈ body.body, stmt.Suits policy.regime place.enterLoop)
    (hscope : s.tree.nodeScope? body.id = some scope) :
    Passes policy n (checkFor binding iterable body) s
      (checkStatements body.body) (·.At policy place.enterLoop scope) := by
  have hstep := Composed.step (.elementType hiterable) n hs
  refine .bind_right hstep.leads (.bind_tree ?_)
  have hinner :
      (elementType iterable (Judge.limited n) s).2.tree.nodeScope? body.id =
      some scope := by
    rw [← hscope]
    exact hstep.leads.tree.nodeScope?_eq _
  generalize elementType iterable (Judge.limited n) s = walked at hstep hinner ⊢
  rw [hinner]
  have hbound := Composed.step (.bindLoop hloop (fits_of_obeys hstep.answer)) n
    hstep.within
  refine .bind_right hbound.leads
    (.withLoop (passes_checkBlock hbound.within.enterLoop hbody ?_))
  rw [← hinner]
  exact hbound.leads.tree.nodeScope?_eq _

theorem composed_checkMethod (scope : ScopeId) {method : FuncDecl}
    (hmethod : method.Suits policy.regime place) :
    Composed policy place (checkMethod scope method) := by
  exact .bind (.checkFunction hmethod) fun result _ =>
    Composed.reportFailure result

theorem passes_checkMembers
    {methods : List FuncDecl} {members : ScopeId → Option SymbolId → Rule Unit}
    (hs : s.Within policy place)
    (hmembers : ∀ scope declared, Composed policy place
      (members scope declared))
    (hmethods : ∀ method ∈ methods, method.Suits policy.regime place)
    (hscope : s.tree.nodeScope? id = some scope) :
    Passes policy n (checkMembers id name span methods members) s
      (do members scope (typeOfMembers? scope name (Judge.limited n) s).1
          Rule.forEach (checkMethod scope) methods)
      (·.At policy place scope) := by
  have howner :=
    Composed.step (.typeOfMembers? : Composed _ _ (typeOfMembers? scope name)) n
      hs
  have hinside (declared : Option SymbolId) : Composed policy place
      (withScope scope do
      members scope declared
      Rule.forEach (checkMethod scope) methods) :=
    .withScope (.andThen (hmembers scope declared)
      (.forEach fun method hmethod => composed_checkMethod scope
        (hmethods method hmethod)))
  refine .bind_tree ?_
  rw [hscope]
  refine .bind_right howner.leads ?_
  exact .bind_left (.withScope (.self (howner.within.enter scope)))
    ((hinside _).step n howner.within) fun _ _ => .ok

theorem nodeScope?_of_checkMembers
    {methods : List FuncDecl} {members : ScopeId → Option SymbolId → Rule Unit}
    {judge : Judge}
    (hok : (checkMembers id name span methods members judge s).1 = .ok ()) :
    ∃ scope, s.tree.nodeScope? id = some scope := by
  cases hscope : s.tree.nodeScope? id with
  | some scope => exact ⟨scope, rfl⟩
  | none =>
    unfold checkMembers at hok
    rw [bind_tree, hscope] at hok
    cases hok

theorem passes_method {methods : List FuncDecl}
    {members : ScopeId → Option SymbolId → Rule Unit}
    (hs : s.Within policy place)
    (hmembers : ∀ scope declared, Composed policy place
      (members scope declared))
    (hmethods : ∀ method ∈ methods, method.Suits policy.regime place)
    (hscope : s.tree.nodeScope? id = some scope) {method : FuncDecl}
    (hmethod : method ∈ methods) :
    Passes policy n (checkMembers id name span methods members) s
      (checkFunction method (some scope)) (·.At policy place scope) := by
  refine (passes_checkMembers hs hmembers hmethods hscope).trans
    fun t _ hthere => ?_
  have hmember :=
    (hmembers scope (typeOfMembers? scope name (Judge.limited n) s).1).step n
    hthere.within
  refine .bind_right hmember.leads ?_
  refine (Passes.forEach hmember.within (fun method hmethod =>
    composed_checkMethod scope (hmethods method hmethod)) hmethod).trans
      fun u _ hu => ?_
  have hcurrent : u.tree.current = scope := by
    rw [hu.1.tree.current, hmember.advances.tree.current]
    exact hthere.current
  have hfunction : Composed policy place (checkFunction method (some scope)) :=
    .checkFunction (hmethods method hmethod)
  exact .bind_left (.self ⟨hcurrent, hu.2⟩) (hfunction.step n hu.2)
    fun result _ => .reportFailure result

theorem composed_fields {decl : StructDecl}
    (hfields : Slot.SuitAll policy.regime place decl.fields) (scope : ScopeId)
    (declared : Option SymbolId) :
    Composed policy place
      (Rule.forEach (checkStructField scope declared decl.name)
        decl.fields) := by
  refine .forEach fun field hfield => ?_
  have hslot := (Slot.suitAll_iff_forall decl.fields).mp hfields field hfield
  exact Composed.checkStructField hslot.1 hslot.2

theorem composed_payloads {decl : EnumDecl}
    (hvariants : VariantDecl.SuitAll policy.regime decl.variants)
    (declared : Option SymbolId) :
    Composed policy place
      (Rule.forEach (checkPayload declared decl.name) decl.variants) := by
  rw [VariantDecl.suitAll_iff_meets] at hvariants
  exact .forEach fun variant hvariant =>
    .checkPayload (hvariants variant hvariant)

theorem StructDecl.suits_iff {decl : StructDecl} :
    (Stmt.mk id span (.struct decl)).Suits policy.regime place ↔
      Slot.SuitAll policy.regime place decl.fields ∧
        ∀ method ∈ decl.methods, method.Suits policy.regime place := by
  obtain ⟨_, _, _, fields, methods, _⟩ := decl
  refine Policy.opens_iff fun _ => and_congr_right' ?_
  exact (and_iff_left fun _ _ => trivial).trans
    (FuncDecl.suitAll_iff_forall methods)

theorem EnumDecl.suits_iff {decl : EnumDecl} :
    (Stmt.mk id span (.enum decl)).Suits policy.regime place ↔
      VariantDecl.SuitAll policy.regime decl.variants ∧
        ∀ method ∈ decl.methods, method.Suits policy.regime place := by
  obtain ⟨_, _, _, variants, methods, _⟩ := decl
  exact Policy.opens_iff fun _ =>
    and_congr_right' (FuncDecl.suitAll_iff_forall methods)

theorem LetDecl.suits_iff {decl : LetDecl} :
    (Stmt.mk id span (.letDecl decl)).Suits policy.regime place ↔
      Obeys policy decl.ty ∧ ∀ value ∈ decl.value,
      value.Suits policy.regime place := by
  obtain ⟨_, _, _, ty, value⟩ := decl
  refine (and_iff_right ⟨trivial, trivial⟩).trans ?_
  exact and_congr (Ty.suitsOpt_iff_meets ty) (Expr.suitsOpt_iff_forall value)

theorem DefDecl.suits_iff {decl : DefDecl} :
    (Stmt.mk id span (.defDecl decl)).Suits policy.regime place ↔
      Obeys policy decl.ty ∧ decl.value.Suits policy.regime place := by
  obtain ⟨_, _, ty, value⟩ := decl
  exact (and_iff_right ⟨trivial, trivial⟩).trans
    (and_congr_left' (Ty.suitsOpt_iff_meets ty))

theorem FuncDecl.body_suits {decl : FuncDecl}
    (h : decl.Suits policy.regime place) :
    ∀ stmt ∈ decl.body.body, stmt.Suits policy.regime .inFunction := by
  exact (decl.suits_iff_opens.mp h ⟨0⟩).2.2.1

/-- Every body inside a statement that is checked without a failure is checked
in its own scope. -/
theorem passes_body (hs : s.Within policy place)
    (hstmt : stmt.Suits policy.regime place)
    (hok : (validateStmt stmt (Judge.limited n) s).1 = .ok ())
    {body : NodeId × List Stmt} (hbody : body ∈ stmt.bodies)
    (hscope : s.tree.nodeScope? body.1 = some scope) :
    ∃ inner, (∀ inside ∈ body.2, inside.Suits policy.regime inner) ∧
      Passes policy n (validateStmt stmt) s (checkStatements body.2)
        (·.At policy inner scope) := by
  obtain ⟨id, span, kind⟩ := stmt
  have hspan : { s with context := s.context.pushSpan span }.Within
    policy place :=
    hs.setContext hs.expectations
  cases kind with
  | block block =>
    cases List.mem_singleton.mp hbody
    obtain ⟨blockId, body, blockSpan⟩ := block
    have hall := (Stmt.suitAll_iff_forall body).mp (hstmt scope)
    exact ⟨place, hall, .withSpan (passes_checkBlock hspan hall hscope)⟩
  | whileLoop condition block =>
    cases List.mem_singleton.mp hbody
    obtain ⟨blockId, body, blockSpan⟩ := block
    obtain ⟨hcondition, hloop⟩ := hstmt
    have hall := (Stmt.suitAll_iff_forall body).mp (hloop scope)
    exact ⟨_, hall, .withSpan (passes_checkWhile hspan hcondition hall hscope)⟩
  | forLoop binding iterable block =>
    cases List.mem_singleton.mp hbody
    obtain ⟨blockId, body, blockSpan⟩ := block
    obtain ⟨hlisted, hiterable, hloop⟩ := hstmt
    have hall := (Stmt.suitAll_iff_forall body).mp (hloop scope)
    exact ⟨_, hall,
      .withSpan (passes_checkFor hspan hlisted hiterable hall hscope)⟩
  | func decl =>
    cases List.mem_singleton.mp hbody
    exact ⟨_, decl.body_suits hstmt,
      .withSpan (passes_checkFunction hspan hstmt hscope)⟩
  | struct decl =>
    obtain ⟨method, hmethod, rfl⟩ := List.mem_map.mp hbody
    obtain ⟨owner, howner⟩ := nodeScope?_of_checkMembers hok
    obtain ⟨hfields, hmethods⟩ := StructDecl.suits_iff.mp hstmt
    refine ⟨_, method.body_suits (hmethods method hmethod), .withSpan ?_⟩
    refine (passes_method hspan (composed_fields hfields) hmethods howner
      hmethod).trans ?_
    intro t ht hthere
    refine passes_checkFunction hthere.within (hmethods method hmethod) ?_
    exact (ht.tree.nodeScope?_eq _).trans hscope
  | enum decl =>
    obtain ⟨method, hmethod, rfl⟩ := List.mem_map.mp hbody
    obtain ⟨owner, howner⟩ := nodeScope?_of_checkMembers hok
    obtain ⟨hvariants, hmethods⟩ := EnumDecl.suits_iff.mp hstmt
    refine ⟨_, method.body_suits (hmethods method hmethod), .withSpan ?_⟩
    refine (passes_method hspan (fun _ => composed_payloads hvariants)
      hmethods howner hmethod).trans ?_
    intro t ht hthere
    refine passes_checkFunction hthere.within (hmethods method hmethod) ?_
    exact (ht.tree.nodeScope?_eq _).trans hscope
  | _ => exact (List.not_mem_nil hbody).elim

end Statements

/-!
## A whole pass
-/

/-- The statement stands in the scope, outside of any expression. -/
inductive Program.Stands (program : Program) (tree : ScopeTree) :
    ScopeId → Stmt → Prop
  | top {module : Module} {scope : ScopeId} {stmt : Stmt}
      (hmodule : module ∈ program.modules)
      (hscope : tree.nodeScope? module.id = some scope)
      (hstmt : stmt ∈ module.body) :
      Stands program tree scope stmt
  | inside {around scope : ScopeId} {outer stmt : Stmt}
      {body : NodeId × List Stmt}
      (houter : Stands program tree around outer) (hbody : body ∈ outer.bodies)
      (hscope : tree.nodeScope? body.1 = some scope) (hstmt : stmt ∈ body.2) :
      Stands program tree scope stmt

/-- The pass over `s` checks the statement in the scope, with a judge that is
deep enough. -/
def Session.Visits (policy : Policy) (s : Session) (scope : ScopeId)
    (stmt : Stmt) : Prop :=
  ∃ (n : Nat) (t : Session) (place : Place), s.reach + stmt.size ≤ n ∧
    stmt.Suits policy.regime place ∧ t.At policy place scope ∧
    s.Leads policy t ∧
    (validateStmt stmt (Judge.limited n) t).1 = .ok () ∧
    (validateStmt stmt (Judge.limited n) t).2.Leads policy (Check.checked s)

def Program.Allowed (policy : Policy) (program : Program) : Prop :=
  ∀ module ∈ program.modules, ∀ stmt ∈ module.body,
    stmt.Suits policy.regime .outside

namespace Check

theorem module_step {module : Module} (hs : s.Within policy .outside)
    (hmodule : ∀ stmt ∈ module.body, stmt.Suits policy.regime .outside)
    (index : Nat) :
    (Check.module index module s).2.Within policy .outside ∧
      s.Leads policy (Check.module index module s).2 := by
  let start : Session := { s with module := index }
  have hprogress := Check.module_progress index module s
  suffices hstep : (Check.module index module s).2.Within policy .outside ∧
      s.tree.Keeps policy (Check.module index module s).2.tree from
    ⟨hstep.1, hprogress.leads hstep.2⟩
  show (reportFailure
    (checkModule module (Judge.limited (start.depth 0)) start).1 _
      (checkModule module (Judge.limited (start.depth 0)) start).2).2.Within
      policy .outside ∧
    s.tree.Keeps policy
      (reportFailure
        (checkModule module (Judge.limited (start.depth 0)) start).1 _
        (checkModule module (Judge.limited (start.depth 0)) start).2).2.tree
  cases hscope : start.tree.nodeScope? module.id with
  | none =>
    rw [checkModule_of_none _ hscope]
    exact ⟨{ hs with }, .refl _⟩
  | some scope =>
    rw [checkModule_of_scope _ hscope]
    have hbody : Composed policy .outside
        (withScope scope (checkStatements module.body)) :=
      .withScope (.checkStatements hmodule)
    have hopened : { start with
        context := start.context.setModule module.name module.path }.Within
          policy .outside :=
      { hs with }
    have hstep := hbody.step (start.depth 0) hopened
    exact ⟨hstep.within, hstep.keeps⟩

theorem modules_step {modules : List Module} (hs : s.Within policy .outside)
    (hmodules : ∀ module ∈ modules, ∀ stmt ∈ module.body,
      stmt.Suits policy.regime .outside)
    (index : Nat) : s.Leads policy (Check.modules index modules s).2 := by
  induction modules generalizing index s with
  | nil => exact .refl s
  | cons first rest ih =>
    rw [List.forall_mem_cons] at hmodules
    obtain ⟨hwithin, hleads⟩ := module_step hs hmodules.1 index
    exact hleads.trans (ih hwithin hmodules.2 (index + 1))

theorem modules_pass {modules : List Module} (hs : s.Within policy .outside)
    (hmodules : ∀ module ∈ modules, ∀ stmt ∈ module.body,
      stmt.Suits policy.regime .outside)
    {module : Module} (hmodule : module ∈ modules) (index : Nat)
    (hscope : s.tree.nodeScope? module.id = some scope) :
    ∃ (n : Nat) (t : Session), s.reach + s.program.size ≤ n ∧
      t.At policy .outside scope ∧ s.Leads policy t ∧
      (checkStatements module.body (Judge.limited n) t).2.Leads policy
        (Check.modules index modules s).2 := by
  induction modules generalizing index s with
  | nil => cases hmodule
  | cons first rest ih =>
    rw [List.forall_mem_cons] at hmodules
    obtain ⟨hwithin, hleads⟩ := module_step hs hmodules.1 index
    rw [Check.modules_cons]
    rcases List.mem_cons.mp hmodule with rfl | hmodule
    · let start : Session := { s with module := index }
      have hopened : { start with
          context := start.context.setModule module.name module.path }.Within
            policy .outside :=
        { hs with }
      have hwalk : Passes policy (start.depth 0)
          (withScope scope (checkStatements module.body))
          { start with
            context := start.context.setModule module.name module.path }
          (checkStatements module.body) (·.At policy .outside scope) :=
        .withScope (.self (hopened.enter scope))
      obtain ⟨t, hthere, hbefore, hafter⟩ := hwalk
      refine ⟨start.depth 0, t, start.reach_le_depth, hthere, ?_, ?_⟩
      · exact { hbefore with }
      · refine hafter.trans
          (.trans ?_ (modules_step hwithin hmodules.2 (index + 1)))
        show Session.Leads _ _ (reportFailure
          (checkModule module (Judge.limited (start.depth 0)) start).1 _
          (checkModule module (Judge.limited (start.depth 0)) start).2).2
        rw [checkModule_of_scope _
          (show start.tree.nodeScope? module.id = some scope from hscope)]
        exact .refl _
    · obtain ⟨n, t, hdepth, hthere, hbefore, hafter⟩ :=
        ih hwithin hmodules.2 hmodule (index + 1)
          (by rw [← hscope]; exact hleads.tree.nodeScope?_eq _)
      rw [Session.reach,
        (Check.module_progress index
          first s).program, hleads.tree.size] at hdepth
      exact ⟨n, t, hdepth, hthere, hleads.trans hbefore, hafter⟩

end Check

theorem Session.visits_of_checkStatements {t : Session} {n : Nat}
    (hclean : (Check.checked s).Clean) (hbefore : s.Leads policy t)
    (hthere : t.At policy place scope)
    (hstmts : ∀ stmt ∈ stmts, stmt.Suits policy.regime place)
    (hafter : (checkStatements stmts (Judge.limited n) t).2.Leads policy
      (Check.checked s))
    (hstmt : stmt ∈ stmts) (hsize : s.reach + stmt.size < n) :
    s.Visits policy scope stmt := by
  obtain ⟨u, ⟨hadvances, hwithin, hok⟩, hstart, hend⟩ :=
    passes_checkStatements hthere.within hstmts hstmt (hafter.clean hclean)
  cases n with
  | zero => exact absurd hsize (Nat.not_lt_zero _)
  | succ n =>
    refine ⟨n, u, place, Nat.le_of_lt_succ hsize, hstmts stmt hstmt,
      ⟨?_, hwithin⟩, hbefore.trans hstart, hok, hend.trans hafter⟩
    exact hadvances.tree.current.trans hthere.current

theorem Session.visits_of_stands (hs : s.Within policy .outside)
    (hallowed : s.program.Allowed policy) (hclean : (Check.checked s).Clean)
    (h : s.program.Stands s.tree scope stmt) : s.Visits policy scope stmt := by
  induction h with
  | top hmodule hscope hstmt =>
    obtain ⟨n, t, hdepth, hthere, hbefore, hafter⟩ :=
      Check.modules_pass hs hallowed hmodule 0 hscope
    refine visits_of_checkStatements hclean hbefore hthere (hallowed _ hmodule)
      hafter hstmt ?_
    have hsize := Stmt.size_le_sizeAll hstmt
    have hbody := Program.body_size_lt hmodule
    omega
  | inside _ hbody hscope hstmt ih =>
    obtain ⟨n, t, outer, hsize, houter, hthere, hbefore, hok, hafter⟩ := ih
    have hinner := (hbefore.tree.nodeScope?_eq _).trans hscope
    obtain ⟨inner, hall, u, hinside, hstart, hend⟩ :=
      passes_body hthere.within houter hok hbody hinner
    refine visits_of_checkStatements hclean (hbefore.trans hstart) hinside hall
      (hend.trans hafter) hstmt ?_
    have hlt := Stmt.size_lt_of_mem_bodies hbody hstmt
    omega

theorem Program.allowed_loops (program : Program) :
    program.Allowed (.listed program.loops) := by
  intro module hmodule
  refine (Stmt.suitAll_iff_forall module.body).mp ?_
  exact (Stmt.suitAll_iff module.body).mpr (program.limits_hold hmodule).allowed

theorem Check.checked_clean_of_handle (h : (Check.handle s).1 = true)
    (hstart : s.passStart = 0) : (Check.checked s).Clean := by
  have hkept := (Check.checked_progress s).passStart
  rw [Check.handle_eq, hkept, hstart] at h
  have hcount : (Check.checked s).diagnostics.items.countP Diagnostic.isError =
      0 :=
    eq_of_beq h
  exact fun report hreport =>
    Bool.eq_false_iff.mpr (List.countP_eq_zero.mp hcount report hreport)

/-- A first pass without an error has checked every statement outside of
expressions, and all along a symbol that no loop of the program binds keeps its
type. -/
theorem Program.visits_of_stands {program : Program} {options : Options}
    {evaluator : Evaluator}
    (hclean :
      (Check.checked
        ((Session.new program options).withEvaluator evaluator)).Clean)
    (h : program.Stands program.collect.tree scope stmt) :
    ((Session.new program options).withEvaluator evaluator).Visits
      (.listed program.loops) scope stmt := by
  refine Session.visits_of_stands ?_ program.allowed_loops hclean h
  exact Session.new_within_of_obeys evaluator fun id =>
    (Symbol.Fits.of_tree program id).obeys

end StaticCheck
