import StaticCheck.Proofs.KnownValues
import StaticCheck.Proofs.Literals

/-!
# Folding against unbounded integers

An expression of integer literals has a value over the unbounded integers, and
its folding is that value or nothing: an operation that leaves 128 bits is not
folded.  The one exception is a shift to the left, which is folded to the bits
that remain.  What holds of folding in general therefore has the meaning of that
shift for a parameter.
-/

namespace StaticCheck

/-!
## The meaning of expressions
-/

/-- The operator gives `n` for `a` and `b` over the unbounded integers, with
bits in two's complement, where `shift a k` is `a` shifted to the left by
`k`. -/
def BinaryOp.Gives (shift : Int → Nat → Int) (op : BinaryOp) (a b n : Int) :
    Prop :=
  match op with
  | .add => n = a + b
  | .sub => n = a - b
  | .mul => n = a * b
  | .div => b ≠ 0 ∧ n = a.tdiv b
  | .rem => b ≠ 0 ∧ n = a.tmod b
  | .pow => 0 ≤ b ∧ n = a ^ b.toNat
  | .bitAnd => ∀ k, n.testBit k = (a.testBit k && b.testBit k)
  | .bitOr => ∀ k, n.testBit k = (a.testBit k || b.testBit k)
  | .bitXor => ∀ k, n.testBit k = (a.testBit k ^^ b.testBit k)
  | .shiftLeft => 0 ≤ b ∧ n = shift a b.toNat
  | .shiftRight => 0 ≤ b ∧ n = a / 2 ^ b.toNat
  | _ => False

def BinaryOp.isIntegral : BinaryOp → Bool
  | .shiftLeft | .shiftRight => true
  | op => op.isArithmetic

def UnaryOp.isIntegral : UnaryOp → Bool
  | .plus | .minus | .bitNot => true
  | _ => false

namespace Expr

/-- The expression is built by the operators on integers from literals that
spell integers. -/
inductive IsIntegral : Expr → Prop
  | literal {id : NodeId} {span : Span} {radix : Radix} {negative : Bool}
      {n : Nat} {text : String}
      (h : Numeral.Spells radix negative n text) :
      IsIntegral ⟨id, span, .literal (.int text)⟩
  | paren {id : NodeId} {span : Span} {inner : Expr} (h : IsIntegral inner) :
      IsIntegral ⟨id, span, .paren inner⟩
  | unary {id : NodeId} {span : Span} {op : UnaryOp} {operand : Expr}
      (hop : op.isIntegral = true)
      (h : IsIntegral operand) : IsIntegral ⟨id, span, .unary op operand⟩
  | binary {id : NodeId} {span : Span} {op : BinaryOp} {left right : Expr}
      (hop : op.isIntegral = true) (hleft : IsIntegral left)
      (hright : IsIntegral right) :
      IsIntegral ⟨id, span, .binary op left right⟩

/-- The value of the expression over the unbounded integers, where `shift a k`
is `a` shifted to the left by `k`. -/
inductive Denotes (shift : Int → Nat → Int) : Expr → Int → Prop
  | literal {id : NodeId} {span : Span} {radix : Radix} {negative : Bool}
      {n : Nat} {text : String} (h : Numeral.Spells radix negative n text) :
      Denotes shift ⟨id, span, .literal (.int text)⟩
      (if negative then -n else n)
  | paren {id : NodeId} {span : Span} {inner : Expr} {n : Int}
      (h : Denotes shift inner n) : Denotes shift ⟨id, span, .paren inner⟩ n
  | plus {id : NodeId} {span : Span} {operand : Expr} {n : Int}
      (h : Denotes shift operand n) :
      Denotes shift ⟨id, span, .unary .plus operand⟩ n
  | minus {id : NodeId} {span : Span} {operand : Expr} {n : Int}
      (h : Denotes shift operand n) :
      Denotes shift ⟨id, span, .unary .minus operand⟩ (-n)
  | complement {id : NodeId} {span : Span} {operand : Expr} {a n : Int}
      (h : Denotes shift operand a) (hbits : ∀ k, n.testBit k = !a.testBit k) :
      Denotes shift ⟨id, span, .unary .bitNot operand⟩ n
  | binary {id : NodeId} {span : Span} {op : BinaryOp} {left right : Expr}
      {a b n : Int}
      (hleft : Denotes shift left a) (hright : Denotes shift right b)
      (hop : op.Gives shift a b n) :
      Denotes shift ⟨id, span, .binary op left right⟩ n

end Expr

def Wide.exactShift (a : Int) (k : Nat) : Int := a * 2 ^ k

def Wide.wrappedShift (a : Int) (k : Nat) : Int := (a * 2 ^ k).bmod (2 ^ 128)

/-!
## Operations on integers in range
-/

namespace Wide

variable {a b n : Int} {k : Nat}

theorem inRange_iff : InRange a ↔ -2 ^ 127 ≤ a ∧ a < 2 ^ 127 := by
  simp only [InRange, least, greatest, pow2, Nat.pow_eq]
  omega

theorem inRange_of_within (h : within a = some n) : InRange n := by
  unfold within at h
  split at h
  · next hrange => exact Option.some.inj h ▸ hrange
  · cases h

theorem bmod_of_inRange (h : InRange a) : a.bmod (2 ^ 128) = a := by
  rw [inRange_iff] at h
  apply Int.bmod_eq_of_le
  · omega
  · omega

theorem testBit_of_inRange (h : InRange a) (hk : 127 ≤ k) :
    a.testBit k = a.testBit 127 := by
  rw [inRange_iff] at h
  have hfalse : ∀ m : Nat, m < 2 ^ 127 → m.testBit k = m.testBit 127 := by
    intro m hm
    rw [Nat.testBit_lt_two_pow hm,
      Nat.testBit_lt_two_pow
      (hm.trans_le (Nat.pow_le_pow_right (by decide) hk))]
  cases a with
  | ofNat m => exact hfalse m (Int.ofNat_lt.mp h.2)
  | negSucc m => exact congrArg (!·) (hfalse m (by omega))

theorem testBit_of_lt {combine : Bool → Bool → Bool} (ha : InRange a)
    (hb : InRange b) (hn : InRange n)
    (hbits : ∀ k < 128, n.testBit k = combine (a.testBit k) (b.testBit k))
    (k : Nat) :
    n.testBit k = combine (a.testBit k) (b.testBit k) := by
  by_cases hk : k < 128
  · exact hbits k hk
  · have hlast : 127 ≤ k := by omega
    rw [testBit_of_inRange hn hlast, testBit_of_inRange ha hlast,
      testBit_of_inRange hb hlast]
    exact hbits 127 (by decide)

theorem testBit_bitNot (a : Int) (k : Nat) :
    (bitNot a).testBit k = !a.testBit k := by
  have hlnot : bitNot a = a.lnot := by
    cases a with
    | _ =>
      simp only [bitNot, Int.lnot, Int.ofNat_eq_natCast, Int.negSucc_eq]; omega
  rw [hlnot, Int.testBit_lnot]

theorem inRange_bitNot (ha : InRange a) : InRange (bitNot a) := by
  rw [inRange_iff] at *
  simp only [bitNot]
  omega

theorem inRange_tmod (ha : InRange a) : InRange (a.tmod b) := by
  rw [inRange_iff] at *
  have habs : (a.tmod b).natAbs ≤ a.natAbs := by
    rw [Int.natAbs_tmod]
    exact Nat.mod_le _ _
  rcases Int.le_total 0 a with hsign | hsign
  · have := Int.tmod_nonneg b hsign
    omega
  · have := Int.tmod_nonneg b (Int.neg_nonneg.mpr hsign)
    rw [Int.neg_tmod] at this
    omega

theorem inRange_pow? (ha : InRange a) (h : pow? a b = some n) : InRange n := by
  obtain ⟨exponent, -, hpow⟩ := Option.bind_eq_some_iff.mp h
  split at hpow
  · exact inRange_of_within hpow
  · split at hpow
    · next hbase =>
        have hsquare : InRange (a * a) := by
          have hcases : a = 0 ∨ a = 1 ∨ a = -1 := by omega
          rw [inRange_iff]
          rcases hcases with rfl | rfl | rfl
          · decide
          · decide
          · decide
        rw [← Option.some.inj hpow]
        split
        · exact hsquare
        · exact ha
    · cases hpow

theorem inRange_shiftRight? (ha : InRange a) (h : shiftRight? a b = some n) :
    InRange n := by
  obtain ⟨-, -, rfl⟩ := of_shiftRight? h
  rw [inRange_iff] at *
  have hpos : (0 : Int) < 2 ^ b.toNat := Int.pow_pos (by decide)
  rw [Int.le_ediv_iff_mul_le hpos, Int.ediv_lt_iff_lt_mul hpos]
  omega

theorem eq_wrappedShift_of_shiftLeft? (h : shiftLeft? a b = some n) :
    n = wrappedShift a b.toNat := by
  obtain ⟨shift, hamount, hshift⟩ := Option.bind_eq_some_iff.mp h
  obtain ⟨-, rfl⟩ := of_amount? hamount
  split at hshift
  · cases hshift
    simp [wrappedShift, pow2]
  · cases hshift

theorem inRange_arithmetic? {op : BinaryOp} (ha : InRange a)
    (h : Value.arithmetic? op a b = some n) : InRange n := by
  cases op with
  | add | sub | mul => exact inRange_of_within h
  | div =>
    unfold Value.arithmetic? div? at h
    dsimp only at h
    split at h
    · cases h
    · exact inRange_of_within h
  | rem =>
    obtain ⟨quotient, -, rfl⟩ := Option.map_eq_some_iff.mp h
    exact inRange_tmod ha
  | pow => exact inRange_pow? ha h
  | shiftLeft => exact (of_shiftLeft? h).2.2.1
  | shiftRight => exact inRange_shiftRight? ha h
  | bitAnd | bitOr | bitXor =>
    cases h
    exact inRange_toInt _
  | _ => cases h

end Wide

theorem Numeral.Spells.of_literal? {radix : Radix} {negative : Bool} {m : Nat}
    {text : String} {n : Int} (h : Spells radix negative m text)
    (hread : literal? text = some n) :
    n = (if negative then -(m : Int) else m) ∧ Wide.InRange n := by
  rw [literal?_of_spells h] at hread
  obtain ⟨value, hvalue, rfl⟩ := Option.map_eq_some_iff.mp hread
  have hrange := Wide.inRange_of_within hvalue
  obtain rfl := Wide.eq_of_within hvalue
  refine ⟨rfl, ?_⟩
  cases negative with
  | false => exact hrange
  | true =>
    rw [Wide.inRange_iff] at hrange ⊢
    omega

section Operations

variable {shift : Int → Nat → Int} {op : BinaryOp} {a b n : Int}

theorem BinaryOp.gives_of_arithmetic? (ha : Wide.InRange a)
    (hb : Wide.InRange b)
    (hshift : op = .shiftLeft → 0 ≤ b → Wide.wrappedShift a b.toNat =
      shift a b.toNat)
    (h : Value.arithmetic? op a b = some n) : op.Gives shift a b n := by
  have hcomputes := BinaryOp.computes_of_arithmetic? h
  cases op with
  | add | sub | mul | div | rem | pow => exact hcomputes
  | shiftRight => exact ⟨hcomputes.1, hcomputes.2.2⟩
  | bitAnd => exact Wide.testBit_of_lt ha hb hcomputes.1 hcomputes.2
  | bitOr => exact Wide.testBit_of_lt ha hb hcomputes.1 hcomputes.2
  | bitXor => exact Wide.testBit_of_lt ha hb hcomputes.1 hcomputes.2
  | shiftLeft =>
    exact ⟨hcomputes.1,
      (Wide.eq_wrappedShift_of_shiftLeft? h).trans (hshift rfl hcomputes.1)⟩
  | _ => exact hcomputes

namespace Value

theorem of_binary? {left right : Value}
    (h : binary? op left right = some (.int n)) :
    ∃ a b, left = .int a ∧ right = .int b ∧ arithmetic? op a b = some n := by
  have hfloat : ∀ x y, floatOp? op x y ≠ some (.int n) := by
    intro x y hxy
    have hnone := int?_floatOp? op x y
    rw [hxy] at hnone
    cases hnone
  cases left with
  | int a =>
    cases right with
    | int b =>
      unfold binary? at h
      dsimp only at h
      split at h
      · cases h
      · obtain ⟨m, hm, hmn⟩ := Option.map_eq_some_iff.mp h
        cases hmn
        exact ⟨a, b, rfl, rfl, hm⟩
    | float b => exact absurd h (hfloat _ _)
    | bool b => cases h
  | float a =>
    cases right with
    | int b => exact absurd h (hfloat _ _)
    | float b => exact absurd h (hfloat _ _)
    | bool b => cases h
  | bool a =>
    cases right with
    | bool b =>
      obtain ⟨m, -, hm⟩ := Option.map_eq_some_iff.mp h
      cases hm
    | int b => cases h
    | float b => cases h

theorem of_unary? {op : UnaryOp} {value : Value}
    (h : unary? op value = some (.int n)) :
    ∃ a, value = .int a ∧
      (op = .plus ∧ n = a ∨ op = .minus ∧ Wide.neg? a = some n ∨ op = .bitNot ∧
        n = Wide.bitNot a) := by
  cases op with
  | plus =>
    cases h
    exact ⟨n, rfl, .inl ⟨rfl, rfl⟩⟩
  | minus =>
    cases value with
    | int a =>
      obtain ⟨m, hm, hmn⟩ := Option.map_eq_some_iff.mp h
      cases hmn
      exact ⟨a, rfl, .inr (.inl ⟨rfl, hm⟩)⟩
    | float | bool => cases h
  | bitNot =>
    cases value with
    | int a =>
      cases h
      exact ⟨a, rfl, .inr (.inr ⟨rfl, rfl⟩)⟩
    | float | bool => cases h
  | _ =>
    cases value with
    | _ => cases h

end Value

end Operations

/-!
## Folding
-/

namespace Expr

variable {shift : Int → Nat → Int} {expr : Expr} {n : Int}

/-- A folded value is in range, and it is the one that the expression denotes if
the shifts to the left in it are what `shift` says. -/
theorem IsIntegral.denotes_of_fold? (hform : expr.IsIntegral)
    (hshift : ∀ term ∈ expr.terms, ∀ left right, term.kind =
      .binary .shiftLeft left right → ∀ a b, left.Denotes shift a →
      right.Denotes shift b → 0 ≤ b → Wide.wrappedShift a b.toNat =
      shift a b.toNat)
    (hfold : expr.fold? = some (.int n)) :
    Wide.InRange n ∧ expr.Denotes shift n := by
  induction hform generalizing n with
  | literal hspells =>
    obtain ⟨m, hread, hm⟩ := Option.map_eq_some_iff.mp hfold
    cases hm
    obtain ⟨rfl, hrange⟩ := hspells.of_literal? hread
    exact ⟨hrange, .literal hspells⟩
  | paren _ ih =>
    obtain ⟨hrange, hdenotes⟩ :=
      ih (fun term hterm => hshift term (.tail _ hterm)) hfold
    exact ⟨hrange, .paren hdenotes⟩
  | unary hop _ ih =>
    obtain ⟨value, hvalue, hunary⟩ := Option.bind_eq_some_iff.mp hfold
    obtain ⟨a, rfl, hcases⟩ := Value.of_unary? hunary
    obtain ⟨hrange, hdenotes⟩ :=
      ih (fun term hterm => hshift term (.tail _ hterm)) hvalue
    rcases hcases with ⟨rfl, rfl⟩ | ⟨rfl, hneg⟩ | ⟨rfl, rfl⟩
    · exact ⟨hrange, .plus hdenotes⟩
    · obtain rfl := Wide.eq_of_within hneg
      exact ⟨Wide.inRange_of_within hneg, .minus hdenotes⟩
    · exact ⟨Wide.inRange_bitNot hrange,
        .complement hdenotes (Wide.testBit_bitNot a)⟩
  | binary hop _ _ ihleft ihright =>
    obtain ⟨left, hleft, hrest⟩ := Option.bind_eq_some_iff.mp hfold
    obtain ⟨right, hright, hbinary⟩ := Option.bind_eq_some_iff.mp hrest
    obtain ⟨a, b, rfl, rfl, harithmetic⟩ := Value.of_binary? hbinary
    obtain ⟨ha, hdenotesLeft⟩ := ihleft (fun term hterm =>
      hshift term (.tail _ (List.mem_append_left _ hterm))) hleft
    obtain ⟨hb, hdenotesRight⟩ := ihright (fun term hterm =>
      hshift term (.tail _ (List.mem_append_right _ hterm))) hright
    refine ⟨Wide.inRange_arithmetic? ha harithmetic,
      .binary hdenotesLeft hdenotesRight ?_⟩
    refine BinaryOp.gives_of_arithmetic? ha hb ?_ harithmetic
    rintro rfl hsign
    exact hshift _ (.head _) _ _ rfl a b hdenotesLeft hdenotesRight hsign

theorem Denotes.eq_of_literal? {id : NodeId} {span : Span}
    {text : String} {m : Int}
    (h : Denotes shift ⟨id, span, .literal (.int text)⟩ n)
    (hread : Numeral.literal? text = some m) : n = m := by
  cases h with
  | literal hspells => exact (hspells.of_literal? hread).1.symm

end Expr

theorem Evaluator.fold?_of_literal_fold {expr : Expr}
    {expected : Option Ty} {n : Int}
    (h : Evaluator.literal.fold expr expected = some (.int n)) :
    expr.fold? = some (.int n) := by
  obtain ⟨value, hvalue, hadapt⟩ := Option.map_eq_some_iff.mp h
  rw [hvalue]
  unfold adapt at hadapt
  split at hadapt
  · split at hadapt
    · cases hadapt
    · rw [hadapt]
  · rw [hadapt]

/-- An expression of integer literals is folded to its value over the unbounded
integers, if every shift to the left in it keeps its value in range; otherwise
such a shift keeps the last 128 bits. -/
theorem folding_wraps_only_left_shifts
    {expr : Expr}
    {expected : Option Ty}
    {n : Int}
    (hform : expr.IsIntegral)
    (hfold : Evaluator.literal.fold expr expected = some (.int n)) :
    expr.Denotes Wide.wrappedShift n ∧
      ((∀ term ∈ expr.terms, ∀ left right, term.kind =
        .binary .shiftLeft left right → ∀ m, term.Denotes Wide.exactShift m →
        Wide.InRange m) →
        expr.Denotes Wide.exactShift n) := by
  have hfolded := Evaluator.fold?_of_literal_fold hfold
  constructor
  · exact (hform.denotes_of_fold? (fun _ _ _ _ _ _ _ _ _ _ => rfl) hfolded).2
  · intro hrange
    refine (hform.denotes_of_fold? ?_ hfolded).2
    rintro ⟨id, span, kind⟩ hterm left right rfl a b hleft hright hsign
    exact Wide.bmod_of_inRange
      (hrange _ hterm left right rfl _ (.binary hleft hright ⟨hsign, rfl⟩))

theorem Numeral.spells_decimal {n : Nat} {text : String}
    (h : text.toList ≠ [] ∧
      List.Forall₂ WritesDigit (Nat.digits 10 n).reverse text.toList)
    (hplain : text.toList.filter (· != '_') = text.toList) :
    Spells .decimal false n text := by
  exact ⟨text.toList, ⟨h.1, 0, h.2⟩, .of_filter hplain⟩

def shiftedToTheTop : Expr :=
  ⟨⟨1⟩, .none,
    .binary .bitOr
    ⟨⟨2⟩, .none, .binary .shiftLeft (numeral 3 "1") (numeral 4 "126")⟩
    (numeral 5 "5")⟩

theorem folding_wraps_only_left_shifts_at_top :
    shiftedToTheTop.IsIntegral ∧
      Evaluator.literal.fold shiftedToTheTop none = some (.int (2 ^ 126 + 5)) ∧
      shiftedToTheTop.Denotes Wide.exactShift (2 ^ 126 + 5) := by
  have hform : shiftedToTheTop.IsIntegral :=
    .binary rfl
      (.binary rfl
        (.literal (Numeral.spells_decimal (n := 1) (by decide) (by decide)))
        (.literal (Numeral.spells_decimal (n := 126) (by decide) (by decide))))
      (.literal (Numeral.spells_decimal (n := 5) (by decide) (by decide)))
  have hfold : Evaluator.literal.fold shiftedToTheTop none =
      some (.int (2 ^ 126 + 5)) := rfl
  refine ⟨hform, hfold, (folding_wraps_only_left_shifts hform hfold).2 ?_⟩
  intro term hterm left right hkind m hm
  simp only [shiftedToTheTop, numeral, Expr.terms, List.cons_append,
    List.nil_append, List.mem_cons, List.not_mem_nil, or_false] at hterm
  rcases hterm with rfl | rfl | rfl | rfl | rfl
  · cases hkind
  · cases hm with
    | binary hleft hright hop =>
      obtain rfl := hleft.eq_of_literal? (m := 1) (by decide)
      obtain rfl := hright.eq_of_literal? (m := 126) (by decide)
      rw [hop.2, Wide.inRange_iff]
      decide
  · cases hkind
  · cases hkind
  · cases hkind

theorem left_shifts_wrap :
    shiftedOut.IsIntegral ∧
      Evaluator.literal.foldInt shiftedOut = some (-2 ^ 127) ∧
      ∀ n, shiftedOut.Denotes Wide.exactShift n ↔ n = 3 * 2 ^ 127 := by
  have hthree : Numeral.Spells .decimal false 3 "3" :=
    Numeral.spells_decimal (by decide) (by decide)
  have hamount : Numeral.Spells .decimal false 127 "127" :=
    Numeral.spells_decimal (by decide) (by decide)
  refine ⟨.binary rfl (.literal hthree) (.literal hamount), by
    decide +kernel, ?_⟩
  refine fun n => ⟨fun h => ?_, ?_⟩
  · cases h with
    | binary hleft hright hop =>
      obtain rfl := hleft.eq_of_literal? (m := 3) (by decide)
      obtain rfl := hright.eq_of_literal? (m := 127) (by decide)
      exact hop.2
  · rintro rfl
    exact .binary (.literal hthree) (.literal hamount) ⟨by decide, rfl⟩

end StaticCheck
