import StaticCheck.Proofs.Inferences
import StaticCheck.Proofs.Resolution

/-!
# Two ways to fold a number

An operation on integer literals is carried out twice: by the evaluator, which
folds the expression alone, and by inference, which puts the value into the
type.  An overflow, a division by zero or a numeral out of range is the absence
of a value for the one and a comptime integer of unknown value for the other.
Here it is shown that they find the same.
-/

namespace StaticCheck

open Rule

variable {s t : Session} {expr : Expr} {judge : Judge}

theorem inferExpecting_of_run {expected answer : Option Ty}
    (h : askType expr judge
      { s with context := s.context.pushExpected expected } = (answer, t)) :
    inferExpecting expr expected judge s =
      (answer, { t with context := t.context.popExpected }) := by
  exact congrArg (fun result : Option Ty × Session =>
    (result.1,
      ({ result.2 with context := result.2.context.popExpected } : Session))) h

/-!
## What an inference leaves behind
-/

/-- An inference of the expressions leads from `s` to `t`: only their types are
remembered anew. -/
structure Session.Fills (s t : Session) (terms : List Expr) : Prop where
  module : t.module = s.module
  inFlight : t.inFlight = s.inFlight
  remembered : ∀ key ty, t.cache.get? key = some ty →
    s.cache.get? key = some ty ∨ key ∈ terms.map s.key

namespace Session

variable {terms more : List Expr} {term : Expr}

theorem key_eq_of_module (h : t.module = s.module) (expr : Expr) :
    t.key expr = s.key expr := by
  simp only [key, h]

theorem id_eq_of_key (h : s.key expr = s.key term) : expr.id = term.id :=
  congrArg ExprKey.node h

theorem Fills.refl (s : Session) : s.Fills s [] where
  module := rfl
  inFlight := rfl
  remembered _ _ h := .inl h

theorem Fills.trans {u : Session} (hfirst : s.Fills t terms)
    (hsecond : t.Fills u more) : s.Fills u (terms ++ more) where
  module := hsecond.module.trans hfirst.module
  inFlight := hsecond.inFlight.trans hfirst.inFlight
  remembered key ty h := by
    rw [List.map_append, List.mem_append]
    rcases hsecond.remembered key ty h with hkept | hkey
    · rcases hfirst.remembered key ty hkept with hold | hterm
      · exact .inl hold
      · exact .inr (.inl hterm)
    · right; right
      rwa [List.map_congr_left fun term _ => key_eq_of_module hfirst.module
        term] at hkey

theorem Fills.closed (h : (s.opened expr).Fills t terms) (answer : Option Ty) :
    s.Fills (t.closed (s.key expr) answer) (expr :: terms) where
  module := h.module
  inFlight := by
    show t.inFlight.erase (s.key expr) = s.inFlight
    rw [h.inFlight]
    exact List.erase_cons_head ..
  remembered key ty hget := by
    by_cases hself : key = s.key expr
    · exact .inr (hself ▸ List.mem_cons_self)
    · have hkept : t.cache.get? key = some ty := by
        cases answer with
        | none => exact hget
        | some found => exact TypeCache.get?_of_insert hself hget
      rcases h.remembered key ty hkept with hold | hterm
      · exact .inl hold
      · exact .inr (List.mem_cons_of_mem _ hterm)

theorem IsNew.after (hnew : s.IsNew term) (h : s.Fills t terms)
    (hid : term.id ∉ terms.map Expr.id) : t.IsNew term where
  remembered := by
    unfold remembered?
    rw [key_eq_of_module h.module]
    cases hget : t.cache.get? (s.key term) with
    | none => rfl
    | some ty =>
      rcases h.remembered _ _ hget with hold | hterm
      · exact hold.symm.trans hnew.remembered
      · obtain ⟨other, hmem, hkey⟩ := List.mem_map.mp hterm
        exact absurd (List.mem_map.mpr ⟨other, hmem, id_eq_of_key hkey⟩) hid
  inFlight := by
    rw [key_eq_of_module h.module, h.inFlight]
    exact hnew.inFlight

theorem IsNew.inContext (hnew : s.IsNew term) (context : Context) :
    { s with context := context }.IsNew term := by
  exact ⟨hnew.remembered, hnew.inFlight⟩

theorem IsNew.opened (hnew : s.IsNew term) (hid : term.id ≠ expr.id) :
    (s.opened expr).IsNew term where
  remembered := hnew.remembered
  inFlight := by
    have hkey : (s.key term == s.key expr) = false :=
      beq_eq_false_iff_ne.mpr fun h => hid (id_eq_of_key h)
    show (s.key expr :: s.inFlight).contains (s.key term) = false
    rw [List.contains_cons, hkey, Bool.false_or]
    exact hnew.inFlight

end Session

/-!
## Arithmetic on literals
-/

def UnaryOp.isSign : UnaryOp → Bool
  | .plus | .minus => true
  | _ => false

def BinaryOp.isArithmetic : BinaryOp → Bool
  | .add | .sub | .mul | .div | .rem | .pow | .bitAnd | .bitOr | .bitXor => true
  | _ => false

def Expr.isArithmetic : Expr → Bool
  | ⟨_, _, .literal (.int _)⟩ => true
  | ⟨_, _, .paren inner⟩ => inner.isArithmetic
  | ⟨_, _, .unary op operand⟩ => op.isSign && operand.isArithmetic
  | ⟨_, _, .binary op left right⟩ =>
    op.isArithmetic && (left.isArithmetic && right.isArithmetic)
  | _ => false

def Expr.terms : Expr → List Expr
  | ⟨id, span, .paren inner⟩ => ⟨id, span, .paren inner⟩ :: inner.terms
  | ⟨id, span, .unary op operand⟩ =>
    ⟨id, span, .unary op operand⟩ :: operand.terms
  | ⟨id, span, .binary op left right⟩ =>
    ⟨id, span, .binary op left right⟩ :: (left.terms ++ right.terms)
  | expr => [expr]

namespace Value

theorem int?_map_int (value : Option Int) :
    (value.map int).bind int? = value := by
  cases value with
  | _ => rfl

theorem int?_floatOp? (op : BinaryOp) (a b : Float) :
    (floatOp? op a b).bind int? = none := by
  cases op with
  | div =>
    unfold floatOp?
    dsimp only
    split
    · rfl
    · rfl
  | _ => rfl

theorem int?_logic? (op : BinaryOp) (a b : Bool) :
    ((logic? op a b).map bool).bind int? = none := by
  cases logic? op a b with
  | _ => rfl

theorem int?_binary? {op : BinaryOp} (hop : op.isArithmetic = true)
    (left right : Value) : (binary? op left right).bind int? =
      left.int?.bind fun a => right.int?.bind fun b => arithmetic? op a b := by
  cases left with
  | int a =>
    cases right with
    | int b =>
      have hcompare : intComparison? op a b = none := by
        cases op with
        | add | sub | mul | div | rem | pow | bitAnd | bitOr | bitXor => rfl
        | _ => cases hop
      simp only [binary?, hcompare, int?_map_int]
      rfl
    | float b => exact int?_floatOp? op _ _
    | bool b => rfl
  | float a =>
    cases right with
    | int b => exact int?_floatOp? op _ _
    | float b => exact int?_floatOp? op _ _
    | bool b => rfl
  | bool a =>
    cases right with
    | bool b => exact int?_logic? op a b
    | int b => rfl
    | float b => rfl

end Value

namespace Evaluator

theorem literal_foldInt (expr : Expr) :
    literal.foldInt expr = expr.fold?.bind Value.int? := by
  have hadapt : (fun value => adapt value none) = id := by
    funext value
    cases value with
    | _ => rfl
  show (expr.fold?.map fun value => adapt value none).bind Value.int? = _
  rw [hadapt, Option.map_id]
  rfl

variable {id : NodeId} {span : Span}

theorem literal_foldInt_int (text : String) :
    literal.foldInt ⟨id, span, .literal (.int text)⟩ =
      Numeral.literal? text := by
  exact (literal_foldInt _).trans (Value.int?_map_int _)

theorem literal_foldInt_plus (operand : Expr) :
    literal.foldInt ⟨id, span, .unary .plus operand⟩ =
      literal.foldInt operand := by
  rw [literal_foldInt, literal_foldInt]
  show (operand.fold?.bind (Value.unary? .plus)).bind Value.int? = _
  cases operand.fold? with
  | _ => rfl

theorem literal_foldInt_minus (operand : Expr) :
    literal.foldInt ⟨id, span, .unary .minus operand⟩ =
      (literal.foldInt operand).bind Wide.neg? := by
  rw [literal_foldInt, literal_foldInt]
  show (operand.fold?.bind (Value.unary? .minus)).bind Value.int? = _
  cases operand.fold? with
  | none => rfl
  | some value =>
    cases value with
    | int n => exact Value.int?_map_int _
    | float | bool => rfl

theorem literal_foldInt_binary {op : BinaryOp} (hop : op.isArithmetic = true)
    (left right : Expr) :
    literal.foldInt ⟨id, span, .binary op left right⟩ =
      (literal.foldInt left).bind fun a =>
        (literal.foldInt right).bind fun b => Value.arithmetic? op a b := by
  rw [literal_foldInt, literal_foldInt, literal_foldInt]
  show (left.fold?.bind fun a => right.fold?.bind fun b =>
    Value.binary? op a b).bind Value.int? = _
  cases left.fold? with
  | none => rfl
  | some a =>
    cases right.fold? with
    | none =>
      show none = a.int?.bind fun _ => none
      rw [Option.bind_fun_none]
    | some b => exact Value.int?_binary? hop a b

end Evaluator

/-!
## The types of operations
-/

section Operations

variable {span : Span} {leftExpr rightExpr : Expr}

theorem inferOperation_of_comptime {op : BinaryOp}
    (hop : op.isArithmetic = true) (left right : Option Int) :
    inferOperation op leftExpr rightExpr (.comptimeInt left)
      (.comptimeInt right) span judge s =
      (some (.comptimeInt (left.bind fun a => right.bind fun b =>
        Value.arithmetic? op a b)), s) := by
  cases op with
  | add | sub | mul | div | rem | pow | bitAnd | bitOr | bitXor =>
    cases left with
    | none => rfl
    | some a =>
      cases right with
      | none => rfl
      | some b => rfl
  | _ => cases hop

theorem normalize_comptimeInt (value : Option Int) :
    normalize (.comptimeInt value) judge s = (.comptimeInt value, s) :=
  normalize_of_canonical rfl

end Operations

/-!
## The agreement
-/

theorem askType_of_form {ty : Ty} {terms : List Expr} {n : Nat}
    (hnew : s.IsNew expr)
    (hkind : inferKind expr (Judge.limited n) (s.opened expr) = (some ty, t))
    (hfills : (s.opened expr).Fills t terms) :
    ∃ u, askType expr (Judge.limited (n + 1)) s = (some ty, u) ∧
      s.Fills u (expr :: terms) := by
  exact ⟨_, inferExpr_of_new hnew hkind, hfills.closed _⟩

theorem opened_parts {parts : List Expr}
    (hids : ((expr :: parts).map Expr.id).Nodup)
    (hnew : ∀ term ∈ expr :: parts, s.IsNew term) :
    (parts.map Expr.id).Nodup ∧ ∀ term ∈ parts, (s.opened expr).IsNew term := by
  obtain ⟨hhead, hrest⟩ := List.nodup_cons.mp hids
  refine ⟨hrest, fun term hterm => ?_⟩
  apply (hnew term (List.mem_cons_of_mem _ hterm)).opened
  intro hid
  exact hhead (hid ▸ List.mem_map_of_mem hterm)

theorem askType_of_int {id : NodeId} {span : Span} {text : String} {n : Nat}
    (hnew : s.IsNew ⟨id, span, .literal (.int text)⟩) :
    ∃ t, askType ⟨id, span, .literal (.int text)⟩ (Judge.limited (n + 1)) s =
        (some (.comptimeInt (Numeral.literal? text)), t) ∧
      s.Fills t [⟨id, span, .literal (.int text)⟩] := by
  have hrun : ∃ t, inferLiteral (.int text) span (Judge.limited n)
        (s.opened ⟨id, span, .literal (.int text)⟩) =
        (some (.comptimeInt (Numeral.literal? text)), t) ∧
      (s.opened ⟨id, span, .literal (.int text)⟩).Fills t [] := by
    unfold inferLiteral
    dsimp only
    cases Numeral.literal? text with
    | none => exact ⟨_, rfl, rfl, rfl, fun _ _ h => .inl h⟩
    | some value => exact ⟨_, rfl, Session.Fills.refl _⟩
  obtain ⟨t, hrun, hfills⟩ := hrun
  exact askType_of_form hnew hrun hfills

theorem inferUnary_of_operand {op : UnaryOp} (hop : op.isSign = true)
    {operand : Expr} {id : NodeId} {span : Span}
    (hrun : askType operand judge s =
      (some (.comptimeInt (Evaluator.literal.foldInt operand)), t)) :
    inferUnary op operand span judge s =
      (some (.comptimeInt
        (Evaluator.literal.foldInt ⟨id, span, .unary op operand⟩)), t) := by
  unfold inferUnary
  cases op with
  | plus =>
    rw [Evaluator.literal_foldInt_plus]
    refine (bind_of_run hrun).trans ?_
    exact bind_of_run (normalize_comptimeInt _)
  | minus =>
    rw [Evaluator.literal_foldInt_minus]
    refine (bind_of_run hrun).trans ?_
    exact bind_of_run (normalize_comptimeInt _)
  | _ => cases hop

theorem inferKind_binary {op : BinaryOp} (hop : op.isArithmetic = true)
    {left right : Expr} {id : NodeId} {span : Span} :
    inferKind ⟨id, span, .binary op left right⟩ =
      inferBinary op left right span := by
  cases op with
  | add | sub | mul | div | rem | pow | bitAnd | bitOr | bitXor => rfl
  | _ => cases hop

theorem inferBinary_of_operands {op : BinaryOp} (hop : op.isArithmetic = true)
    {left right : Expr} {span : Span} {a b : Option Int}
    {leftTerms rightTerms : List Expr}
    (hleft : ∀ s, (∀ term ∈ leftTerms, s.IsNew term) →
      ∃ t, askType left judge s =
      (some (.comptimeInt a), t) ∧ s.Fills t leftTerms)
    (hright : ∀ s, (∀ term ∈ rightTerms, s.IsNew term) →
      ∃ t, askType right judge s =
      (some (.comptimeInt b), t) ∧ s.Fills t rightTerms)
    (hids : ∀ term ∈ rightTerms, term.id ∉ leftTerms.map Expr.id)
    (hnew : ∀ term ∈ leftTerms ++ rightTerms, s.IsNew term) :
    ∃ t, inferBinary op left right span judge s =
        (some (.comptimeInt
          (a.bind fun x => b.bind fun y => Value.arithmetic? op x y)), t) ∧
      s.Fills t (leftTerms ++ rightTerms) := by
  obtain ⟨t, hrunLeft, hfillsLeft⟩ :=
    hleft { s with context := s.context.pushExpected none } fun term hterm =>
      (hnew term (List.mem_append_left _ hterm)).inContext _
  have hfirst : s.Fills t leftTerms := { hfillsLeft with }
  have hnewRight : ∀ term ∈ rightTerms, t.IsNew term := fun term hterm =>
    (hnew term (List.mem_append_right _ hterm)).after hfirst (hids term hterm)
  obtain ⟨u, hrunRight, hfillsRight⟩ :=
    hright { t with context := t.context.popExpected.pushExpected none }
      fun term hterm =>
      (hnewRight term hterm).inContext _
  have hsecond : t.Fills u rightTerms := { hfillsRight with }
  refine ⟨{ u with context := u.context.popExpected }, ?_, ?_⟩
  · unfold inferBinary
    rw [bind_of_run (inferExpecting_of_run hrunLeft)]
    dsimp only
    rw [bind_of_run (inferExpecting_of_run hrunRight)]
    dsimp only
    rw [bind_of_run (normalize_comptimeInt a),
      bind_of_run (normalize_comptimeInt b)]
    exact inferOperation_of_comptime hop a b
  · exact { hfirst.trans hsecond with }

theorem askType_of_arithmetic (expr : Expr)
    (hform : expr.isArithmetic = true) (n : Nat) (hsize : expr.size ≤ n)
    (s : Session) (hids : (expr.terms.map Expr.id).Nodup)
    (hnew : ∀ term ∈ expr.terms, s.IsNew term) :
    ∃ t, askType expr (Judge.limited n) s =
        (some (.comptimeInt (Evaluator.literal.foldInt expr)), t) ∧
        s.Fills t expr.terms := by
  obtain ⟨id, span, kind⟩ := expr
  obtain ⟨m, rfl⟩ : ∃ m, n =
    m + 1 := Nat.exists_eq_succ_of_ne_zero (Nat.pos_iff_ne_zero.mp
    (Nat.lt_of_lt_of_le (Nat.succ_pos _) hsize))
  have hdepth := Nat.le_of_succ_le_succ hsize
  cases kind with
  | literal literal =>
    cases literal with
    | int text =>
      rw [Evaluator.literal_foldInt_int]
      refine askType_of_int ?_
      exact hnew _ List.mem_cons_self
    | _ => cases hform
  | paren inner =>
    obtain ⟨hids, hinner⟩ := opened_parts hids hnew
    obtain ⟨t, hrun, hfills⟩ :=
      askType_of_arithmetic inner hform m hdepth _ hids hinner
    exact askType_of_form (hnew _ List.mem_cons_self) hrun hfills
  | unary op operand =>
    obtain ⟨hop, hform⟩ := Bool.and_eq_true_iff.mp hform
    obtain ⟨hids, hoperand⟩ := opened_parts hids hnew
    obtain ⟨t, hrun, hfills⟩ :=
      askType_of_arithmetic operand hform m hdepth _ hids hoperand
    refine askType_of_form (hnew _ List.mem_cons_self) ?_ hfills
    exact inferUnary_of_operand hop hrun
  | binary op left right =>
    obtain ⟨hop, hforms⟩ := Bool.and_eq_true_iff.mp hform
    obtain ⟨hformLeft, hformRight⟩ := Bool.and_eq_true_iff.mp hforms
    obtain ⟨hids, hparts⟩ := opened_parts hids hnew
    rw [List.map_append] at hids
    obtain ⟨hidsLeft, hidsRight, hapart⟩ := List.nodup_append'.mp hids
    have hsizes : left.size + right.size ≤ m := hdepth
    obtain ⟨t, hrun, hfills⟩ := inferBinary_of_operands hop
      (fun s => askType_of_arithmetic left hformLeft m (by omega) s hidsLeft)
      (fun s => askType_of_arithmetic right hformRight m (by omega) s hidsRight)
      (fun term hterm hleft => hapart hleft (List.mem_map_of_mem hterm)) hparts
    rw [Evaluator.literal_foldInt_binary hop]
    refine askType_of_form (hnew _ List.mem_cons_self) ?_ hfills
    rwa [inferKind_binary hop]
  | _ => cases hform

theorem Session.size_le_depth (s : Session) (size : Nat) :
    size ≤ s.depth size := by
  have hparts := s.parts_le_depth size
  omega

/-- Inference and folding agree on arithmetic on integer literals: the type
found is that of the comptime integer whose value the evaluator finds, and of
unknown value where the evaluator finds none. -/
theorem infer_of_arithmetic_eq_foldInt
    (s : Session)
    (expr : Expr)
    (hform : expr.isArithmetic = true)
    (hids : (expr.terms.map Expr.id).Nodup)
    (hnew : ∀ term ∈ expr.terms, s.IsNew term) :
    (Check.infer expr s).1 =
      some (.comptimeInt (Evaluator.literal.foldInt expr)) := by
  have hdepth : expr.size ≤ s.depth expr.size + 1 :=
    Nat.le_succ_of_le (s.size_le_depth _)
  obtain ⟨t, hrun, -⟩ := askType_of_arithmetic expr hform _ hdepth s hids hnew
  exact congrArg Prod.fst hrun

def belowZero (term : Expr) : Expr :=
  ⟨⟨1⟩, .none, .binary .sub
    ⟨⟨2⟩, .none, .paren ⟨⟨3⟩, .none, .unary .minus
      ⟨⟨4⟩, .none, .literal (.int "170141183460469231731687303715884105727")⟩⟩⟩
      term⟩

/-- The least integer is reached, one less is out of range, and a text that is
no numeral has no value. -/
theorem infer_of_arithmetic_eq_foldInt_at_limits :
    (["1", "2", "0b12"].map fun text =>
      (Check.infer (belowZero ⟨⟨5⟩, .none, .literal (.int text)⟩)
        (Session.new (soleModule []) {})).1) =
      [some (.comptimeInt (some (-170141183460469231731687303715884105728))),
        some (.comptimeInt none), some (.comptimeInt none)] := by
  have hagree : ∀ text,
      (Check.infer (belowZero ⟨⟨5⟩, .none, .literal (.int text)⟩)
        (Session.new (soleModule []) {})).1 =
      some (.comptimeInt (Evaluator.literal.foldInt
        (belowZero ⟨⟨5⟩, .none, .literal (.int text)⟩))) := by
    intro text
    refine infer_of_arithmetic_eq_foldInt _ _ rfl
      (by simp [belowZero, Expr.terms]) ?_
    intro term hterm
    exact ⟨rfl, rfl⟩
  have hfolds : (["1", "2", "0b12"].map fun text => Evaluator.literal.foldInt
        (belowZero ⟨⟨5⟩, .none, .literal (.int text)⟩)) =
      [some (-170141183460469231731687303715884105728), none, none] := by
    decide +kernel
  rw [List.map_congr_left fun text _ => hagree text]
  exact congrArg (List.map fun value => some (Ty.comptimeInt value)) hfolds

end StaticCheck
