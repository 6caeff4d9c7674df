import StaticCheck.Proofs.Inferences
import Mathlib.Data.Int.Bitwise

/-!
# Known values

The type of a comptime integer may carry its value.  Here it is shown where the
value of an operation comes from: it is computed from those of the operands, as
they are found where the operation is inferred.  There are two exceptions.  The
complement passes the value of its operand on, and a shift by an amount that is
not known passes on that of its left operand.
-/

namespace StaticCheck

open Rule

/-!
## What the operators compute
-/

def Wide.InRange (n : Int) : Prop := least ≤ n ∧ n ≤ greatest

/-- The operator gives `n` for `a` and `b`: by exact arithmetic, where a
quotient is rounded toward zero, or by the bits of two's complement. -/
def BinaryOp.Computes (op : BinaryOp) (a b n : Int) : Prop :=
  match op with
  | .add => n = a + b
  | .sub => n = a - b
  | .mul => n = a * b
  | .div => b ≠ 0 ∧ n = a.tdiv b
  | .rem => b ≠ 0 ∧ n = a.tmod b
  | .pow => 0 ≤ b ∧ n = a ^ b.toNat
  | .bitAnd =>
    Wide.InRange n ∧ ∀ k < 128, n.testBit k = (a.testBit k && b.testBit k)
  | .bitOr =>
    Wide.InRange n ∧ ∀ k < 128, n.testBit k = (a.testBit k || b.testBit k)
  | .bitXor =>
    Wide.InRange n ∧ ∀ k < 128, n.testBit k = (a.testBit k ^^ b.testBit k)
  | .shiftLeft =>
    0 ≤ b ∧ b < 128 ∧ Wide.InRange n ∧ 2 ^ 128 ∣ n - a * 2 ^ b.toNat
  | .shiftRight => 0 ≤ b ∧ b < 128 ∧ n = a / 2 ^ b.toNat
  | _ => False

namespace Wide

variable {a b n : Int} {k : Nat}

theorem eq_of_within (h : within a = some n) : n = a := by
  unfold within at h
  split at h
  · exact (Option.some.inj h).symm
  · cases h

theorem of_amount? (h : amount? a = some k) : 0 ≤ a ∧ k = a.toNat := by
  unfold amount? at h
  split at h
  · next hrange => exact ⟨hrange.1, (Option.some.inj h).symm⟩
  · cases h

theorem of_div? (h : div? a b = some n) : b ≠ 0 ∧ n = a.tdiv b := by
  unfold div? at h
  split at h
  · cases h
  · next hzero => exact ⟨hzero, eq_of_within h⟩

theorem of_rem? (h : rem? a b = some n) : b ≠ 0 ∧ n = a.tmod b := by
  obtain ⟨quotient, hquotient, rfl⟩ := Option.map_eq_some_iff.mp h
  exact ⟨(of_div? hquotient).1, rfl⟩

theorem pow_of_natAbs_le_one (hbase : a.natAbs ≤ 1) (hk : k ≠ 0) :
    a ^ k = if k % 2 = 0 then a * a else a := by
  have hcases : a = 0 ∨ a = 1 ∨ a = -1 := by omega
  rcases hcases with rfl | rfl | rfl
  · simp [hk]
  · simp
  · by_cases heven : Even k
    · simp [heven, Nat.even_iff.mp heven]
    · have hodd := Nat.not_even_iff_odd.mp heven
      simp [hodd, Nat.odd_iff.mp hodd]

theorem of_pow? (h : pow? a b = some n) : 0 ≤ b ∧ n = a ^ b.toNat := by
  obtain ⟨exponent, hamount, hpow⟩ := Option.bind_eq_some_iff.mp h
  obtain ⟨hsign, rfl⟩ := of_amount? hamount
  refine ⟨hsign, ?_⟩
  by_cases hsmall : b.toNat < 128
  · rw [if_pos hsmall] at hpow
    exact eq_of_within hpow
  rw [if_neg hsmall] at hpow
  by_cases hbase : a.natAbs ≤ 1
  · rw [if_pos hbase] at hpow
    rw [pow_of_natAbs_le_one hbase (by omega)]
    exact (Option.some.inj hpow).symm
  · rw [if_neg hbase] at hpow
    cases hpow

theorem inRange_toInt (bits : BitVec 128) : InRange bits.toInt := by
  have hlow := bits.le_toInt
  have hhigh := bits.toInt_lt
  simp only [InRange, least, greatest, pow2, Nat.pow_eq] at *
  omega

theorem getLsbD_ofInt (a : Int) (hk : k < 128) :
    (BitVec.ofInt 128 a).getLsbD k = a.testBit k := by
  cases a with
  | ofNat m =>
    simp [Int.testBit, BitVec.getLsbD_ofNat, -BitVec.getLsbD_eq_getElem, hk]
  | negSucc m =>
    simp [Int.testBit, BitVec.ofInt_negSucc_eq_not_ofNat, BitVec.getLsbD_ofNat,
      -BitVec.getLsbD_eq_getElem, hk]

theorem testBit_toInt (bits : BitVec 128) (hk : k < 128) :
    bits.toInt.testBit k = bits.getLsbD k := by
  rw [← getLsbD_ofInt _ hk, BitVec.ofInt_toInt]

theorem testBit_bitAnd (hk : k < 128) :
    (bitAnd a b).testBit k = (a.testBit k && b.testBit k) := by
  rw [bitAnd, testBit_toInt _ hk, BitVec.getLsbD_and, getLsbD_ofInt a hk,
    getLsbD_ofInt b hk]

theorem testBit_bitOr (hk : k < 128) :
    (bitOr a b).testBit k = (a.testBit k || b.testBit k) := by
  rw [bitOr, testBit_toInt _ hk, BitVec.getLsbD_or, getLsbD_ofInt a hk,
    getLsbD_ofInt b hk]

theorem testBit_bitXor (hk : k < 128) :
    (bitXor a b).testBit k = (a.testBit k ^^ b.testBit k) := by
  rw [bitXor, testBit_toInt _ hk, BitVec.getLsbD_xor, getLsbD_ofInt a hk,
    getLsbD_ofInt b hk]

theorem inRange_bmod (a : Int) : InRange (a.bmod (pow2 128)) := by
  have hlow := Int.le_bmod (x := a) (m := pow2 128) (by decide)
  have hhigh := Int.bmod_lt (x := a) (m := pow2 128) (by decide)
  simp only [InRange, least, greatest, pow2, Nat.pow_eq] at *
  omega

theorem of_shiftLeft? (h : shiftLeft? a b = some n) :
    0 ≤ b ∧ b < 128 ∧ InRange n ∧ 2 ^ 128 ∣ n - a * 2 ^ b.toNat := by
  obtain ⟨shift, hamount, hshift⟩ := Option.bind_eq_some_iff.mp h
  obtain ⟨hsign, rfl⟩ := of_amount? hamount
  by_cases hsmall : b.toNat < 128
  · rw [if_pos hsmall] at hshift
    cases hshift
    refine ⟨hsign, by omega, inRange_bmod _, ?_⟩
    have hdvd :=
      Int.dvd_bmod_sub_self (x := a * (pow2 b.toNat : Int)) (m := pow2 128)
    simpa [pow2] using hdvd
  · rw [if_neg hsmall] at hshift
    cases hshift

theorem of_shiftRight? (h : shiftRight? a b = some n) :
    0 ≤ b ∧ b < 128 ∧ n = a / 2 ^ b.toNat := by
  obtain ⟨shift, hamount, hshift⟩ := Option.bind_eq_some_iff.mp h
  obtain ⟨hsign, rfl⟩ := of_amount? hamount
  by_cases hsmall : b.toNat < 128
  · rw [if_pos hsmall] at hshift
    cases hshift
    refine ⟨hsign, by omega, ?_⟩
    rw [Int.shiftRight_eq_div_pow]
    norm_cast
  · rw [if_neg hsmall] at hshift
    cases hshift

end Wide

theorem BinaryOp.computes_of_arithmetic? {op : BinaryOp} {a b n : Int}
    (h : Value.arithmetic? op a b = some n) : op.Computes a b n := by
  cases op with
  | add | sub | mul => exact Wide.eq_of_within h
  | div => exact Wide.of_div? h
  | rem => exact Wide.of_rem? h
  | pow => exact Wide.of_pow? h
  | shiftLeft => exact Wide.of_shiftLeft? h
  | shiftRight => exact Wide.of_shiftRight? h
  | bitAnd =>
    cases h
    exact ⟨Wide.inRange_toInt _, fun _ => Wide.testBit_bitAnd⟩
  | bitOr =>
    cases h
    exact ⟨Wide.inRange_toInt _, fun _ => Wide.testBit_bitOr⟩
  | bitXor =>
    cases h
    exact ⟨Wide.inRange_toInt _, fun _ => Wide.testBit_bitXor⟩
  | _ => cases h

/-!
## Operands
-/

/-- The types of the operands of an operation, in normal form, as they are found
where the operation is inferred. -/
def Rule.operandTypes : ExprKind → Rule (Option (List Ty))
  | .unary _ operand => do
    let some ty ← askType operand | return none
    return some [← normalize ty]
  | .binary _ left right => do
    let some left ← inferExpecting left none | return none
    let some right ← inferExpecting right none | return none
    let left ← normalize left
    let right ← normalize right
    return some [left, right]
  | _ => return none

section Operands

variable {judge : Judge} {s : Session} {span : Span} {n : Int}

theorem of_require {ty : Ty} {expected : String} {holds : Ty → Bool}
    {next : Rule (Option Ty)} {found : Ty}
    (h : ((do
      if !(← require ty span expected holds) then return none
      next : Rule (Option Ty)) judge s).1 = some found) :
      (next judge s).1 = some found := by
  cases hholds : holds ty with
  | true =>
    have hrun : require ty span expected holds judge s = (true, s) := by
      unfold require
      rw [hholds]
      rfl
    rwa [bind_of_run hrun] at h
  | false =>
    have hrun : ∃ t, require ty span expected holds judge s = (false, t) := by
      unfold require
      rw [hholds]
      exact ⟨_, rfl⟩
    obtain ⟨t, hrun⟩ := hrun
    rw [bind_of_run hrun] at h
    cases h

theorem Ty.comptimeInt_inj {a b : Option Int}
    (h : Ty.comptimeInt a = .comptimeInt b) : a = b := by
  injection h with h
  injection h

theorem Ty.of_negated {ty : Ty} (h : ty.negated = .comptimeInt (some n)) :
    ∃ a, ty.knownInt? = some a ∧ n = -a := by
  unfold Ty.negated at h
  split at h
  · next value =>
      obtain ⟨a, rfl, hneg⟩ := Option.bind_eq_some_iff.mp (Ty.comptimeInt_inj h)
      exact ⟨a, rfl, Wide.eq_of_within hneg⟩
  · cases h
  · next hother _ => exact absurd h (hother _)

theorem promote_ne_known (left right : Ty) :
    promote left right ≠ .comptimeInt (some n) := by
  have hunparen : ∀ ty : Ty, ty.isComptime = false →
      ty.unparen ≠ .comptimeInt (some n) := by
    intro ty hty heq
    rw [Ty.isComptime, Ty.prim?, heq] at hty
    cases hty
  intro h
  unfold promote at h
  split at h
  · split at h
    · cases h
    · cases h
  · next hright => exact hunparen right hright h
  · next hleft _ => exact hunparen left hleft h
  · split at h
    · cases h
    · cases h

theorem inferUnary_known {op : UnaryOp} {operand : Expr}
    (h : (inferUnary op operand span judge s).1 = some (.comptimeInt (some n)))
    (hop : op = .plus ∨ op = .minus ∨ op = .bitNot) :
    ∃ ty a, (operandTypes (.unary op operand) judge s).1 = some [ty] ∧
      ty.knownInt? = some a ∧ n = if op = .minus then -a else a := by
  unfold inferUnary at h
  unfold operandTypes
  dsimp only
  rw [if_neg (by rcases hop with rfl | rfl | rfl <;> decide)] at h
  rcases htype : askType operand judge s with ⟨_ | ty, t⟩
  · rw [bind_of_run htype] at h
    cases h
  rw [bind_of_run htype] at h ⊢
  rcases hnormal : normalize ty judge t with ⟨normal, u⟩
  dsimp only at h ⊢
  rw [bind_of_run hnormal] at h ⊢
  rcases hop with rfl | rfl | rfl
  · cases of_require h
    exact ⟨_, n, rfl, rfl, rfl⟩
  · obtain ⟨a, hknown, rfl⟩ := Ty.of_negated (Option.some.inj (of_require h))
    exact ⟨normal, a, rfl, hknown, rfl⟩
  · cases of_require h
    exact ⟨_, n, rfl, rfl, rfl⟩

theorem foldTypes_getD_known {op : BinaryOp} {left right other : Ty}
    (h : (foldTypes op left right).getD other = .comptimeInt (some n)) :
    (∃ a b, left.knownInt? = some a ∧ right.knownInt? = some b ∧
      op.Computes a b n) ∨ other = .comptimeInt (some n) ∧
      (left.knownInt? = none ∨ right.knownInt? = none) := by
  unfold foldTypes at h
  cases hleft : left.knownInt? with
  | none =>
    rw [hleft] at h
    exact .inr ⟨h, .inl rfl⟩
  | some a =>
    cases hright : right.knownInt? with
    | none =>
      rw [hleft, hright] at h
      exact .inr ⟨h, .inr rfl⟩
    | some b =>
      rw [hleft, hright] at h
      exact .inl
        ⟨a, b, rfl, rfl,
          BinaryOp.computes_of_arithmetic? (Ty.comptimeInt_inj h)⟩

theorem inferConcat_ne_known {leftExpr rightExpr : Expr} {left right : Ty} :
    (inferConcat leftExpr rightExpr left right span judge s).1 ≠
      some (.comptimeInt (some n)) := by
  intro h
  unfold inferConcat at h
  dsimp only at h
  split at h
  · cases h
  · cases h

theorem foldTypes_promote_known {op : BinaryOp} {left right : Ty}
    (h : (foldTypes op left right).getD (promote left right) =
      .comptimeInt (some n)) :
    ∃ a b, left.knownInt? = some a ∧ right.knownInt? = some b ∧
      op.Computes a b n := by
  rcases foldTypes_getD_known h with hfolded | ⟨hother, -⟩
  · exact hfolded
  · exact absurd hother (promote_ne_known left right)

theorem inferOperation_known {op : BinaryOp} {leftExpr rightExpr : Expr}
    {left right : Ty}
    (h : (inferOperation op leftExpr rightExpr left right span judge s).1 =
      some (.comptimeInt (some n))) :
    (∃ a b, left.knownInt? = some a ∧ right.knownInt? = some b ∧
      op.Computes a b n) ∨ op.opClass = .shift ∧ left.knownInt? = some n ∧
      right.knownInt? = none := by
  unfold inferOperation at h
  cases hclass : op.opClass with
  | additive | multiplicative | power =>
    rw [hclass] at h
    dsimp only at h
    split at h
    · exact absurd h inferConcat_ne_known
    · exact .inl
        (foldTypes_promote_known (Option.some.inj (of_require (of_require h))))
  | shift =>
    rw [hclass] at h
    rcases foldTypes_getD_known
      (Option.some.inj (of_require (of_require h))) with
      hfolded | ⟨rfl, hunknown⟩
    · exact .inl hfolded
    · refine .inr ⟨rfl, rfl, hunknown.resolve_left nofun⟩
  | bitwise =>
    rw [hclass] at h
    exact .inl
      (foldTypes_promote_known (Option.some.inj (of_require (of_require h))))
  | equality | relational =>
    rw [hclass] at h
    dsimp only at h
    split at h
    · cases h
    · cases h
  | logical =>
    rw [hclass] at h
    have hbool : some Ty.bool = some (.comptimeInt (some n)) := h
    cases hbool
  | assignment =>
    rw [hclass] at h
    cases h

theorem inferBinary_known {op : BinaryOp} {leftExpr rightExpr : Expr}
    (h : (inferBinary op leftExpr rightExpr span judge s).1 =
      some (.comptimeInt (some n))) :
    ∃ left right,
      (operandTypes (.binary op leftExpr rightExpr) judge s).1 =
      some [left, right] ∧
      ((∃ a b, left.knownInt? = some a ∧ right.knownInt? = some b ∧
        op.Computes a b n) ∨ op.opClass = .shift ∧ left.knownInt? = some n ∧
        right.knownInt? = none) := by
  unfold inferBinary at h
  unfold operandTypes
  dsimp only
  rcases hleft : inferExpecting leftExpr none judge s with ⟨_ | left, t⟩
  · rw [bind_of_run hleft] at h
    cases h
  rw [bind_of_run hleft] at h ⊢
  dsimp only at h ⊢
  rcases hright : inferExpecting rightExpr none judge t with ⟨_ | right, u⟩
  · rw [bind_of_run hright] at h
    cases h
  rw [bind_of_run hright] at h ⊢
  dsimp only at h ⊢
  rcases hnormalLeft : normalize left judge u with ⟨normalLeft, v⟩
  rw [bind_of_run hnormalLeft] at h ⊢
  rcases hnormalRight : normalize right judge v with ⟨normalRight, w⟩
  rw [bind_of_run hnormalRight] at h ⊢
  refine ⟨normalLeft, normalRight, rfl, ?_⟩
  split at h
  · cases h
  · exact inferOperation_known h

end Operands

/-!
## The value of an operation
-/

def ExprKind.isOperation : ExprKind → Bool
  | .unary op _ => op = .plus || op = .minus || op = .bitNot
  | .binary op _ _ => op.opClass ≠ .assignment
  | _ => false

namespace Inference

/-- The values of the operands in the inference of an operation, each as far as
it is known. -/
def operandValues (i : Inference) : Option (List (Option Int)) :=
  (operandTypes i.expr.kind (Judge.limited i.depth)
    (i.session.opened i.expr)).1.map (List.map Ty.knownInt?)

def Computes (i : Inference) (n : Int) : Prop :=
  match i.expr.kind with
  | .unary .plus _ => i.operandValues = some [some n]
  | .unary .minus _ => ∃ a, i.operandValues = some [some a] ∧ n = -a
  -- The complement is not taken.
  | .unary .bitNot _ => i.operandValues = some [some n]
  | .binary op _ _ =>
    (∃ a b, i.operandValues = some [some a, some b] ∧ op.Computes a b n) ∨
      -- A shift by an unknown amount is not carried out.
      op.opClass = .shift ∧ i.operandValues = some [some n, none]
  | _ => False

theorem Computes.of_result {i : Inference} {n : Int}
    (hform : i.expr.kind.isOperation = true)
    (h : i.result.1 = some (.comptimeInt (some n))) : i.Computes n := by
  obtain ⟨depth, ⟨id, span, kind⟩, s⟩ := i
  cases kind with
  | unary op operand =>
    have hop : op = .plus ∨ op = .minus ∨ op = .bitNot := by
      simpa [ExprKind.isOperation, or_assoc] using hform
    obtain ⟨ty, a, htypes, hknown, hn⟩ := inferUnary_known h hop
    have hvalues : operandValues ⟨depth, ⟨id, span, .unary op operand⟩, s⟩ =
        some [some a] := by
      rw [operandValues, htypes, ← hknown]
      rfl
    rcases hop with rfl | rfl | rfl
    · cases hn
      exact hvalues
    · exact ⟨a, hvalues, hn⟩
    · cases hn
      exact hvalues
  | binary op left right =>
    have hop : op.opClass ≠ .assignment := by
      simpa [ExprKind.isOperation] using hform
    have hrun : (inferBinary op left right span (Judge.limited depth)
        (s.opened ⟨id, span, .binary op left right⟩)).1 =
        some (.comptimeInt (some n)) := by
      rw [← h, result, inferKind]
      dsimp only
      rw [if_neg (by simpa using hop)]
    obtain ⟨leftTy, rightTy, htypes, hvalue⟩ := inferBinary_known hrun
    have hvalues : operandValues ⟨depth, ⟨id, span, .binary op left right⟩, s⟩ =
        some [leftTy.knownInt?, rightTy.knownInt?] := by
      rw [operandValues, htypes]
      rfl
    rcases hvalue with ⟨a, b, hleft, hright, hcomputes⟩
      | ⟨hshift, hleft, hright⟩
    · rw [hleft, hright] at hvalues
      exact .inl ⟨a, b, hvalues, hcomputes⟩
    · rw [hleft, hright] at hvalues
      exact .inr ⟨hshift, hvalues⟩
  | _ => cases hform

end Inference

/-- Known values are computed.  In a session with the log of the inferences that
led to it, let the type of an operation be a comptime integer of known value.
Then that value was computed from those of the operands in an inference of the
operation: the one that is carried out now or, if the type was remembered, one
in the log.  No other expression has been inferred under the same key. -/
theorem inferred_value_is_computed
    {program : Program}
    {options : Options}
    {evaluator : Evaluator}
    {log : Inference → Prop}
    {s : Session}
    (hs : ((Session.new program options).withEvaluator evaluator).Traced log s)
    {expr : Expr}
    (hform : expr.kind.isOperation = true)
    (hown : ∀ i, log i → i.session.key i.expr = s.key expr → i.expr = expr)
    {n : Int}
    (hvalue : (Check.infer expr s).1 = some (.comptimeInt (some n))) :
    ∃ i : Inference, (i = ⟨s.depth expr.size, expr, s⟩ ∨ log i) ∧
      i.expr = expr ∧ i.Computes n := by
  rcases inferExpr_cases s expr (Judge.limited (s.depth expr.size)) with
    ⟨ty, hremembered, hrun⟩ | hrun | hnew
  · have hty : ty = .comptimeInt (some n) :=
      Option.some.inj ((congrArg Prod.fst hrun).symm.trans hvalue)
    have hstart : ∀ key ty,
        ¬((Session.new program options).withEvaluator evaluator).cache.Records
        key ty := by
      rintro key ty (hentry | ⟨journal, hjournal, -⟩)
      · cases hentry
      · cases hjournal
    obtain ⟨i, hi, hfinds⟩ :=
      hs.finds hstart (TypeCache.records_of_get? hremembered)
    have hexpr : i.expr = expr := hown i hi hfinds.key_eq
    refine ⟨i, .inr hi, hexpr, .of_result (hexpr ▸ hform) (hty ▸ hfinds.answer)⟩
  · exact absurd ((congrArg Prod.fst hrun).symm.trans hvalue) nofun
  · refine ⟨⟨s.depth expr.size, expr, s⟩, .inl rfl, rfl, .of_result hform ?_⟩
    rcases hkind : inferKind expr (Judge.limited (s.depth expr.size))
      (s.opened expr) with
      ⟨answer, t⟩
    have hanswer := congrArg Prod.fst (inferExpr_of_new hnew hkind)
    exact (congrArg Prod.fst hkind).trans (hanswer.symm.trans hvalue)

instance (answer : Option Ty) (p : Prim) :
    Decidable (answer = some (.prim p)) :=
  match answer with
  | some (.prim q) => decidable_of_iff (q = p) (by simp)
  | none | some (.named _) | some (.pointer ..) | some (.optional _)
  | some (.array ..)
  | some (.tuple _) | some (.struct _) | some (.enum _) | some (.errors _)
  | some (.union _)
  | some (.function ..) | some (.paren _) => isFalse nofun

def numeral (id : Nat) (text : String) : Expr :=
  ⟨⟨id⟩, .none, .literal (.int text)⟩

def shiftedOut : Expr :=
  ⟨⟨1⟩, .none, .binary .shiftLeft (numeral 2 "3") (numeral 3 "127")⟩

theorem inferred_value_is_computed_of_shift :
    (Check.infer shiftedOut
      ((Session.new (soleModule []) {}).withEvaluator .literal)).1 =
      some (.comptimeInt (some (-170141183460469231731687303715884105728))) ∧
      ∃ i : Inference, i.expr = shiftedOut ∧
        i.Computes (-170141183460469231731687303715884105728) := by
  have hvalue :
      (Check.infer shiftedOut
        ((Session.new (soleModule []) {}).withEvaluator .literal)).1 =
        some (.comptimeInt
          (some (-170141183460469231731687303715884105728))) := by
    decide +kernel
  obtain ⟨i, -, hexpr, hcomputes⟩ :=
    inferred_value_is_computed .start rfl nofun hvalue
  exact ⟨hvalue, i, hexpr, hcomputes⟩

/-- The complement of five is minus six, but its type has the value five; and a
shift by a number that is too large to be known has the value of its left
operand. -/
theorem complement_and_unknown_shift_keep_the_value :
    Wide.bitNot 5 = -6 ∧
      (Check.infer ⟨⟨1⟩, .none, .unary .bitNot (numeral 2 "5")⟩
        (Session.new (soleModule []) {})).1 = some (.comptimeInt (some 5)) ∧
      (Check.infer ⟨⟨1⟩, .none, .binary .add
          (numeral 2 "170141183460469231731687303715884105727") (numeral 3 "1")⟩
        (Session.new (soleModule []) {})).1 = some (.comptimeInt none) ∧
      (Check.infer
        ⟨⟨4⟩, .none, .binary .shiftLeft
          (numeral 5 "1")
          ⟨⟨1⟩, .none,
            .binary .add (numeral 2 "170141183460469231731687303715884105727")
            (numeral 3 "1")⟩⟩
        (Session.new (soleModule []) {})).1 = some (.comptimeInt (some 1)) := by
  decide +kernel

end StaticCheck
