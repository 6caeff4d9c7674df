import StaticCheck.Proofs.Visits

/-!
# Cycles of types in accepted programs

A struct, enum or alias is searched for itself when its declaration is checked.
A program that a first pass accepts has therefore no definition that holds
itself by value through definitions that stand outside of expressions and that
no loop binds, unless two aliases of structs or enums lie on the way.  With two
such aliases, or with a definition inside an expression, a cycle can stay
unnoticed.
-/

namespace StaticCheck

open Rule

variable {α : Type} {n : Nat} {s : Session} {id : SymbolId} {scope : ScopeId}
variable {ty : Ty} {span : Span} {members : ScopeId} {policy : Policy}
    {place : Place}

/-!
## Searches on the way
-/

theorem Session.Step.lies [Answer α] {result : α × Session}
    (h : s.Step policy place result) (hs : s.At policy place scope) :
    result.2.At policy place scope := by
  exact ⟨h.advances.tree.current.trans hs.current, h.within⟩

theorem Passes.not_contains {rule : Rule α} {β : Type} [Found β]
    {next : Bool → Rule β}
    (h : Passes policy n rule s (containsType id ty >>= next)
      (·.At policy place scope))
    (hnext : ∀ found, Composed policy place (next found))
    (hreport : ∀ t : Session, t.Within policy place →
      ¬(next true (Judge.limited n) t).2.Clean)
    (hclean : (rule (Judge.limited n) s).2.Clean) :
    ∃ t : Session, s.Leads policy t ∧
      t.Leads policy (rule (Judge.limited n) s).2 ∧
      t.tree.contains id t.unfolding scope ty = false := by
  obtain ⟨t, hthere, hbefore, hafter⟩ := h
  have hrun : (containsType id ty >>= next) (Judge.limited n) t =
      next (t.tree.contains id t.unfolding t.tree.current ty)
        (Judge.limited n) t := rfl
  rw [hrun, hthere.current] at hafter
  -- Had the search found something, its report would still be there at the end.
  refine ⟨t, hbefore, ((hnext _).step n hthere.within).leads.trans hafter,
    Bool.eq_false_iff.mpr fun hfound => ?_⟩
  rw [hfound] at hafter
  exact hreport t hthere.within (hafter.clean hclean)

theorem typeOfMembers?_eq {name : String} (judge : Judge)
    (hparent : s.tree.parent? members = some scope)
    (hname : s.tree.lookupLocal scope name = some id)
    (hmembers : (s.tree.symbol id).info.scope = some members) :
    (typeOfMembers? members name judge s).1 = some id := by
  unfold typeOfMembers?
  rw [bind_tree, hparent]
  dsimp only
  rw [hname]
  dsimp only
  rw [hmembers, if_pos (beq_self_eq_true _)]
  rfl

theorem passes_reportCycle_of_field {declared : Option SymbolId}
    {owner : String} {field : Slot} (hthere : s.At policy place scope)
    (hty : Obeys policy field.ty)
    (hdefault : ∀ value ∈ field.default, value.Suits policy.regime place) :
    Passes policy n (checkStructField scope declared owner field) s
      (reportCycle declared field.ty owner field.span)
      (·.At policy place scope) := by
  have hcycle : Composed policy place
      (reportCycle declared field.ty owner field.span) :=
    .reportCycle
  have hrest (cyclic : Bool) : Composed policy place (do
      if cyclic then return ()
      checkFieldType scope field) :=
    .ite (.answer ()) (Composed.checkFieldType hty hdefault)
  have hwarn : Composed policy place
      (report (.mutabilityMismatch field.name "static fields cannot be mutable")
        field.span) :=
    .report
  unfold checkStructField
  split
  · have hstep := hwarn.step n hthere.within
    refine .bind_right hstep.leads (.bind_left (.self ?_) ?_ fun cyclic _ =>
      hrest cyclic)
    · exact hstep.lies hthere
    · exact hcycle.step n hstep.within
  · exact .bind_left (.self hthere) (hcycle.step n hthere.within)
      fun cyclic _ => hrest cyclic

theorem passes_reportCycle_of_payload {declared : Option SymbolId}
    {owner : String} {variant : VariantDecl} {payload : Ty}
    (hpayload : variant.payload = some payload)
    (hthere : s.At policy place scope) (hty : Obeys policy variant.payload) :
    Passes policy n (checkPayload declared owner variant) s
      (reportCycle declared payload owner variant.span)
      (·.At policy place scope) := by
  have hcycle : Composed policy place
      (reportCycle declared payload owner variant.span) :=
    .reportCycle
  have hrest (cyclic : Bool) : Composed policy place (do
      if cyclic then return ()
      discard (resolveType payload variant.span)) :=
    .ite (.answer ()) (.discard (.resolveType (hty payload hpayload)))
  unfold checkPayload
  rw [hpayload]
  exact .bind_left (.self hthere) (hcycle.step n hthere.within) fun cyclic _ =>
    hrest cyclic

theorem Passes.not_reportCycle {rule : Rule α} {name : String}
    (h : Passes policy n rule s (reportCycle (some id) ty name span)
      (·.At policy place scope))
    (hclean : (rule (Judge.limited n) s).2.Clean) :
    ∃ t : Session, s.Leads policy t ∧
      t.Leads policy (rule (Judge.limited n) s).2 ∧
      t.tree.contains id t.unfolding scope ty = false := by
  have hreport : Composed policy place
      (report (.circularTypeDependency name) span) := .report
  refine Passes.not_contains h (fun found => ?_) (fun t ht => ?_) hclean
  · exact .ite (.andThen hreport (.answer true)) (.answer false)
  · exact (Session.Leads.refl _ : Session.Leads policy _ _).not_clean (a := t)

/-!
## Definitions and their declarations
-/

/-- The statement, which stands in `scope`, declares the type definition
`id`. -/
inductive ScopeTree.Declares (tree : ScopeTree) (scope : ScopeId)
    (id : SymbolId) : Stmt → Prop
  | struct {stmt : Stmt} {decl : StructDecl} {members : ScopeId}
      (hkind : stmt.kind = .struct decl)
      (hnode : tree.nodeScope? decl.id = some members)
      (hparent : tree.parent? members = some scope)
      (hname : tree.lookupLocal scope decl.name = some id)
      (hmembers : (tree.symbol id).info.scope = some members)
      (hwritten : (tree.symbol id).written = decl.fields.map (·.ty)) :
      Declares tree scope id stmt
  | enum {stmt : Stmt} {decl : EnumDecl} {members : ScopeId}
      (hkind : stmt.kind = .enum decl)
      (hnode : tree.nodeScope? decl.id = some members)
      (hparent : tree.parent? members = some scope)
      (hname : tree.lookupLocal scope decl.name = some id)
      (hmembers : (tree.symbol id).info.scope = some members)
      (hwritten : (tree.symbol id).written =
        decl.variants.filterMap (·.payload)) :
      Declares tree scope id stmt
  | typeAlias {stmt : Stmt} {decl : DefDecl} {ty : Ty}
      (hkind : stmt.kind = .defDecl decl) (hvalue : decl.value.kind = .type ty)
      (hset : ∀ names, ty ≠ .errors names)
      (hname : tree.lookupLocal scope decl.name = some id)
      (hscope : (tree.symbol id).innerScope = scope)
      (hwritten : (tree.symbol id).written = [ty]) :
      Declares tree scope id stmt

section Declared

variable (hs : s.Within policy place)

include hs

theorem passes_field {decl : StructDecl}
    (hnode : s.tree.nodeScope? decl.id = some members)
    (hdeclared : (typeOfMembers? members decl.name (Judge.limited n) s).1 =
      some id)
    (hfields : Slot.SuitAll policy.regime place decl.fields)
    (hmethods : ∀ method ∈ decl.methods, method.Suits policy.regime place)
    {field : Slot} (hfield : field ∈ decl.fields) :
    Passes policy n (checkStruct decl) s
      (reportCycle (some id) field.ty decl.name field.span)
      (·.At policy place members) := by
  have hslots := (Slot.suitAll_iff_forall decl.fields).mp hfields
  refine (passes_checkMembers hs (composed_fields hfields) hmethods hnode).trans
    fun t _ hthere => ?_
  rw [hdeclared]
  have hwalk :
      Passes policy n
      (forEach (checkStructField members (some id) decl.name) decl.fields)
      t (checkStructField members (some id) decl.name field)
      fun u => t.Advances u ∧ u.Within policy place :=
    .forEach hthere.within (fun field hfield =>
      Composed.checkStructField (hslots field hfield).1 (hslots field hfield).2)
        hfield
  refine .bind_left (hwalk.trans fun u _ hu => ?_)
    ((composed_fields hfields members (some id)).step n hthere.within)
    fun _ _ =>
      .forEach fun method hmethod => composed_checkMethod members
        (hmethods method hmethod)
  exact passes_reportCycle_of_field
    ⟨hu.1.tree.current.trans hthere.current, hu.2⟩
    (hslots field hfield).1 (hslots field hfield).2

theorem passes_payload {decl : EnumDecl}
    (hnode : s.tree.nodeScope? decl.id = some members)
    (hdeclared : (typeOfMembers? members decl.name (Judge.limited n) s).1 =
      some id)
    (hvariants : VariantDecl.SuitAll policy.regime decl.variants)
    (hmethods : ∀ method ∈ decl.methods, method.Suits policy.regime place)
    {variant : VariantDecl} (hvariant : variant ∈ decl.variants) {payload : Ty}
    (hpayload : variant.payload = some payload) :
    Passes policy n (checkEnum decl) s
      (reportCycle (some id) payload decl.name variant.span)
      (·.At policy place members) := by
  have hpayloads := (VariantDecl.suitAll_iff_meets decl.variants).mp hvariants
  refine (passes_checkMembers hs (fun _ => composed_payloads hvariants) hmethods
    hnode).trans fun t _ hthere => ?_
  rw [hdeclared]
  have hwalk :
      Passes policy n (forEach (checkPayload (some id) decl.name) decl.variants)
      t
      (checkPayload (some id) decl.name variant)
      fun u => t.Advances u ∧ u.Within policy place :=
    .forEach hthere.within (fun variant hvariant =>
      .checkPayload (hpayloads variant hvariant)) hvariant
  refine .bind_left (hwalk.trans fun u _ hu => ?_)
    ((composed_payloads hvariants (some id)).step n hthere.within) fun _ _ =>
      .forEach fun method hmethod => composed_checkMethod members
        (hmethods method hmethod)
  exact passes_reportCycle_of_payload hpayload
    ⟨hu.1.tree.current.trans hthere.current, hu.2⟩ (hpayloads variant hvariant)

theorem passes_alias {decl : DefDecl}
    (hvalue : decl.value.kind = .type ty) (hset : ∀ names, ty ≠ .errors names)
    (hname : s.tree.lookupLocal s.tree.current decl.name = some id)
    (hty : Obeys policy decl.ty)
    (hallowed : decl.value.Suits policy.regime place) :
    Passes policy n (checkDef decl span) s (checkAlias id decl.name ty span)
      (·.At policy place s.tree.current) := by
  have hdeclared := declaredSymbol_run span (Judge.limited n) hname
  have hdefined : Composed policy place
      (withDeclaration decl.name (checkDefined id decl span)) :=
    .withDeclaration (.checkDefined (fun _ h => h.elim) hty hallowed)
  refine .bind_right ?_ ?_
  · rw [hdeclared]
    exact .refl s
  · rw [hdeclared]
    refine .bind_left (.withDeclaration ?_) (hdefined.step n hs)
      fun _ _ => .andThen .declareChecked .ok
    unfold checkDefined
    rw [hvalue]
    cases ty with
    | errors names => exact (hset names rfl).elim
    | _ => exact .self ⟨rfl, hs.setContext hs.expectations⟩

end Declared

theorem Symbol.innerScope_eq_of_scope {symbol : Symbol}
    (h : symbol.info.scope = some members) : symbol.innerScope = members := by
  rw [Symbol.innerScope, h]
  rfl

namespace ScopeTree

theorem Grows.parent?_eq {a b : ScopeTree} (h : a.Grows b) (scope : ScopeId) :
    b.parent? scope = a.parent? scope := by
  simp only [parent?, h.scope_eq]

theorem Declares.later {a b : ScopeTree} {stmt : Stmt}
    (hdeclares : a.Declares scope id stmt) (h : a.Grows b)
    (hkeeps : a.KeepsType b id) (hgrounded : (a.symbol id).Grounded)
    (htype : (a.symbol id).isTypeName = true) : b.Declares scope id stmt := by
  have hinfo := (h.symbols id).info_eq
  have hsame := h.written_eq hkeeps hgrounded htype
  cases hdeclares with
  | struct hkind hnode hparent hname hmembers hwritten =>
    refine .struct hkind ((h.nodeScope?_eq _).trans hnode)
      ((h.parent?_eq _).trans hparent)
      ((h.lookupLocal_eq _ _).trans hname) ?_ (hsame.trans hwritten)
    rwa [hinfo]
  | enum hkind hnode hparent hname hmembers hwritten =>
    refine .enum hkind ((h.nodeScope?_eq _).trans hnode)
      ((h.parent?_eq _).trans hparent)
      ((h.lookupLocal_eq _ _).trans hname) ?_ (hsame.trans hwritten)
    rwa [hinfo]
  | typeAlias hkind hvalue hset hname hscope hwritten =>
    exact .typeAlias hkind hvalue hset ((h.lookupLocal_eq _ _).trans hname)
      ((h.innerScope_eq _).trans hscope) (hsame.trans hwritten)

end ScopeTree

theorem searched_of_declares {stmt : Stmt}
    (hdeclares : s.tree.Declares scope id stmt) (hs : s.At policy place scope)
    (hstmt : stmt.Suits policy.regime place)
    (hclean : (validateStmt stmt (Judge.limited n) s).2.Clean)
    (hty : ty ∈ (s.tree.symbol id).written) :
    ∃ t : Session, s.Leads policy t ∧
      t.Leads policy (validateStmt stmt (Judge.limited n) s).2 ∧
      t.tree.contains id t.unfolding (s.tree.symbol id).innerScope ty =
      false := by
  obtain ⟨stmtId, span, kind⟩ := stmt
  have hspan : { s with context := s.context.pushSpan span }.Within
    policy place :=
    hs.within.setContext hs.within.expectations
  cases hdeclares with
  | @struct decl members hkind hnode hparent hname hmembers hwritten =>
    cases hkind
    rw [hwritten] at hty
    obtain ⟨field, hfield, rfl⟩ := List.mem_map.mp hty
    rw [Symbol.innerScope_eq_of_scope hmembers]
    obtain ⟨hfields, hmethods⟩ := StructDecl.suits_iff.mp hstmt
    have hpasses : Passes policy n (validateStmt ⟨stmtId, span, .struct decl⟩) s
        (reportCycle (some id) field.ty decl.name field.span)
        (·.At policy place members) := by
      refine .withSpan (passes_field hspan ?_ ?_ hfields hmethods hfield)
      exacts [hnode, typeOfMembers?_eq _ hparent hname hmembers]
    exact hpasses.not_reportCycle hclean
  | @enum decl members hkind hnode hparent hname hmembers hwritten =>
    cases hkind
    rw [hwritten] at hty
    obtain ⟨variant, hvariant, hpayload⟩ := List.mem_filterMap.mp hty
    rw [Symbol.innerScope_eq_of_scope hmembers]
    obtain ⟨hvariants, hmethods⟩ := EnumDecl.suits_iff.mp hstmt
    have hpasses : Passes policy n (validateStmt ⟨stmtId, span, .enum decl⟩) s
        (reportCycle (some id) ty decl.name variant.span)
        (·.At policy place members) := by
      refine .withSpan
        (passes_payload hspan ?_ ?_ hvariants hmethods hvariant hpayload)
      exacts [hnode, typeOfMembers?_eq _ hparent hname hmembers]
    exact hpasses.not_reportCycle hclean
  | @typeAlias decl _ hkind hvalue hset hname hscope hwritten =>
    cases hkind
    rw [hwritten] at hty
    cases List.mem_singleton.mp hty
    obtain rfl := hs.current
    rw [hscope]
    obtain ⟨hannotated, hallowed⟩ := DefDecl.suits_iff.mp hstmt
    have hpasses : Passes policy n (validateStmt ⟨stmtId, span, .defDecl decl⟩)
        s
        (checkAlias id decl.name ty span) (·.At policy place s.tree.current) :=
      .withSpan (passes_alias hspan hvalue hset hname hannotated hallowed)
    refine hpasses.not_contains (fun found => ?_) (fun t _ => ?_) hclean
    · exact .ite Composed.report (.discard (.resolveType (Ty.meets_named _)))
    · exact (Session.Leads.refl _ : Session.Leads policy _ _).not_clean (a := t)

/-- In a pass without an error every definition declared outside of expressions
is cleared, if no loop binds it. -/
theorem cleared_of_declares {program : Program} {options : Options}
    {evaluator : Evaluator} {stmt : Stmt}
    (hs : s = (Session.new program options).withEvaluator evaluator)
    (hclean : (Check.checked s).Clean)
    (hfree : program.collect.tree.NoLoopBinds program.loops id)
    (hstands : program.Stands program.collect.tree scope stmt)
    (hdeclares : program.collect.tree.Declares scope id stmt) :
    ScopeTree.Cleared (program.collect.tree.NoLoopBinds program.loops)
      program.collect.tree (Check.checked s).tree id := by
  subst hs
  have hgrounded := Symbol.Grounded.of_tree program id
  obtain ⟨n, t, place, -, hstmt, hthere, hbefore, -, hafter⟩ :=
    Program.visits_of_stands hclean hstands
  have hall :=
    hbefore.trans (Composed.step (.validateStmt hstmt) n hthere.within).leads
  have hend := hall.trans hafter
  intro htype ty hty
  have hname := htype
  rw [hend.tree.isTypeName_eq] at hname
  rw [hend.tree.written_eq (hend.keepsType hfree) hgrounded hname,
    ← hbefore.tree.written_eq (hbefore.keepsType hfree) hgrounded hname] at hty
  have hlater :=
    hdeclares.later hbefore.tree (hbefore.keepsType hfree) hgrounded hname
  obtain ⟨u, hstart, hrest, hnone⟩ :=
    searched_of_declares hlater hthere hstmt (hafter.clean hclean) hty
  have hfirst := hbefore.trans hstart
  have hlast := hrest.trans hafter
  refine ⟨u.tree, hfirst.tree, hlast.tree, fun other hother => ?_, ?_⟩
  · exact ⟨hfirst.keepsType hother,
      hlast.keepsType (hfirst.noLoopBinds_iff.mpr hother)⟩
  · rw [hfirst.unfolding, hbefore.tree.innerScope_eq] at hnone
    rwa [hend.tree.innerScope_eq]

/-!
## The verdict on cycles
-/

def Program.DeclaresType (program : Program) (id : SymbolId) : Prop :=
  ∃ scope stmt, program.Stands program.collect.tree scope stmt ∧
    program.collect.tree.Declares scope id stmt

/-- If the first pass over a program accepts it, a definition that holds itself
by value does so through a definition inside an expression, through one that a
loop binds, or through two different aliases of structs or enums. -/
theorem accepted_cycles_pass_two_aliases
    (program : Program)
    (options : Options)
    (evaluator : Evaluator)
    (through : SymbolId → Prop)
    (hdeclared : ∀ id, through id → program.DeclaresType id)
    (hfree : ∀ id, through id →
      program.collect.tree.NoLoopBinds program.loops id) :
    let verdict :=
      Check.handle ((Session.new program options).withEvaluator evaluator)
    (∀ p q, through p → through q →
      (verdict.2.tree.symbol p).isRecordedAlias = true →
      (verdict.2.tree.symbol q).isRecordedAlias = true → p = q) →
    verdict.1 = true →
    ∀ id,
    ¬Relation.TransGen (fun x y => through x ∧ verdict.2.tree.Holds x y) id
    id := by
  intro verdict hsingle haccepted id
  have hclean := Check.checked_clean_of_handle haccepted rfl
  refine ScopeTree.not_on_cycle_of_cleared (Symbol.Grounded.of_tree program)
    ?_ hsingle id
  intro id hid
  obtain ⟨scope, stmt, hstands, hdeclares⟩ := hdeclared id hid
  refine (cleared_of_declares rfl hclean (hfree id hid) hstands hdeclares).mono
    hfree

def declareStruct (node : Nat) (name field : String) (ty : Ty) : Stmt :=
  ⟨⟨node⟩, .none, .struct
    ⟨⟨node + 1⟩, name, .priv, [⟨field, ty, .pub, true, none, .none⟩], [],
      .none⟩⟩

def declareAlias (node : Nat) (name member : String) (ty : Ty) : Stmt :=
  ⟨⟨node⟩, .none, .defDecl ⟨name, .priv, none,
    ⟨⟨node + 1⟩, .none, .type (.struct ⟨anonymousName, [⟨member, ty⟩], none⟩)⟩⟩⟩

def declareUnset (node : Nat) (name : String) (ty : Ty) : Stmt :=
  ⟨⟨node⟩, .none, .letDecl ⟨name, .priv, false, some ty,
    some ⟨⟨node + 1⟩, .none, .literal .undefined⟩⟩⟩

def brokenRing : Program :=
  soleModule
    [declareStruct 1 "A" "p" (.named "P"), declareAlias 3 "P" "b" (.named "B"),
      declareStruct 5 "B" "a" (.pointer (.named "A") false)]

theorem brokenRing_declaresType : ∀ id ∈ [(⟨0⟩ : SymbolId), ⟨2⟩, ⟨3⟩],
    brokenRing.DeclaresType id := by
  have hscope : brokenRing.collect.tree.nodeScope? ⟨0⟩ = some ⟨1⟩ := by
    decide +kernel
  have hfirst : brokenRing.collect.tree.nodeScope? ⟨2⟩ = some ⟨2⟩ := by
    decide +kernel
  have hthird : brokenRing.collect.tree.nodeScope? ⟨6⟩ = some ⟨3⟩ := by
    decide +kernel
  have htop : ∀ stmt ∈ brokenRing.modules.flatMap (·.body),
      brokenRing.Stands brokenRing.collect.tree ⟨1⟩ stmt :=
    fun stmt hstmt =>
      .top (.head _) hscope (by simpa [brokenRing, soleModule] using hstmt)
  simp only [List.forall_mem_cons, List.not_mem_nil, false_implies,
    implies_true, and_true]
  refine ⟨⟨⟨1⟩, _, htop _ (.head _), .struct rfl hfirst ?_ ?_ ?_ rfl⟩,
    ⟨⟨1⟩, _, htop _ (.tail _ (.head _)),
      .typeAlias rfl rfl (by simp) ?_ ?_ rfl⟩,
    ⟨⟨1⟩, _, htop _ (.tail _ (.tail _ (.head _))),
      .struct rfl hthird ?_ ?_ ?_ rfl⟩⟩
  all_goals decide +kernel

/-- The ring has one alias of a struct, and the pass that accepts it vouches for
all of it. -/
theorem accepted_cycles_pass_two_aliases_of_ring :
    let verdict :=
      Check.handle ((Session.new brokenRing {}).withEvaluator .literal)
    let ring : List SymbolId := [⟨0⟩, ⟨2⟩, ⟨3⟩]
    verdict.1 = true ∧ (verdict.2.tree.symbol ⟨2⟩).isRecordedAlias = true ∧
      verdict.2.tree.Holds ⟨0⟩ ⟨2⟩ ∧ verdict.2.tree.Holds ⟨2⟩ ⟨3⟩ ∧
      ∀ id,
      ¬Relation.TransGen (fun x y => x ∈ ring ∧ verdict.2.tree.Holds x y) id
      id := by
  intro verdict ring
  have haccepted : verdict.1 = true := by decide +kernel
  have hsingle : ∀ p ∈ ring, ∀ q ∈ ring,
      (verdict.2.tree.symbol p).isRecordedAlias = true →
      (verdict.2.tree.symbol q).isRecordedAlias = true → p = q := by
        decide +kernel
  refine ⟨haccepted, by decide +kernel, by decide +kernel, by
    decide +kernel, ?_⟩
  have hfree : ∀ id ∈ ring,
      brokenRing.collect.tree.NoLoopBinds brokenRing.loops id := by
        decide +kernel
  exact accepted_cycles_pass_two_aliases brokenRing {} .literal (· ∈ ring)
    brokenRing_declaresType hfree (fun p q hp hq => hsingle p hp q hq) haccepted

/-- A ring of two structs and two aliases.  Both aliases are recorded before the
ring is searched, and the members that are recorded no longer name what they
hold. -/
def unnoticedRing : Program :=
  soleModule [declareUnset 1 "v" (.named "P"), declareUnset 3 "w" (.named "R"),
    declareAlias 5 "P" "b" (.named "B"), declareAlias 7 "R" "a" (.named "A"),
    declareStruct 9 "A" "p" (.named "P"), declareStruct 11 "B" "r" (.named "R")]

/-- A struct that holds itself by value through two aliases is accepted. -/
theorem accepted_cycle_of_two_aliases :
    let verdict :=
      Check.handle ((Session.new unnoticedRing {}).withEvaluator .literal)
    verdict.1 = true ∧ verdict.2.diagnostics.items = [] ∧
      Relation.TransGen verdict.2.tree.Holds ⟨4⟩ ⟨4⟩ := by
  intro verdict
  refine ⟨by decide +kernel, by decide +kernel, ?_⟩
  have hstruct : verdict.2.tree.Holds ⟨4⟩ ⟨2⟩ := by decide +kernel
  have halias : verdict.2.tree.Holds ⟨2⟩ ⟨6⟩ := by decide +kernel
  have hother : verdict.2.tree.Holds ⟨6⟩ ⟨3⟩ := by decide +kernel
  have hback : verdict.2.tree.Holds ⟨3⟩ ⟨4⟩ := by decide +kernel
  exact .head hstruct (.head halias (.head hother (.single hback)))

end StaticCheck
