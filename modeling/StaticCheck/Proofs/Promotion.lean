import StaticCheck.Proofs.References
import StaticCheck.Proofs.Unions

/-!
# Promotion of numbers

The type of a chain of arithmetic operations depends neither on the order of the
operands nor on how they are grouped.  Next to a sized number a comptime one
does not count.  Of sized numbers the greatest width counts; if a float is among
them, it is rounded up to the width of a builtin float, and what was rounded up
earlier is not rounded up further.
-/

namespace StaticCheck

open Rule

/-!
## Widths of floats
-/

theorem floatWidth_cases (bits : Nat) :
    bits ≤ 16 ∧ floatWidth bits = 16 ∨ 16 < bits ∧ bits ≤ 32 ∧
      floatWidth bits = 32 ∨ 32 < bits ∧ bits ≤ 64 ∧ floatWidth bits = 64 ∨
      64 < bits ∧ bits ≤ 80 ∧ floatWidth bits = 80 ∨
      80 < bits ∧ floatWidth bits = 128 := by
  simp only [floatWidth, floatWidths, List.find?]
  repeat' split
  all_goals simp_all

theorem floatWidth_max_floatWidth (m n : Nat) :
    floatWidth (max (floatWidth m) n) = floatWidth (max m n) := by
  have hpart := floatWidth_cases m
  have hwhole := floatWidth_cases (max m n)
  have hrounded := floatWidth_cases (max (floatWidth m) n)
  omega

theorem floatWidth_max_floatWidth_right (m n : Nat) :
    floatWidth (max m (floatWidth n)) = floatWidth (max m n) := by
  rw [max_comm, floatWidth_max_floatWidth, max_comm]

theorem le_floatWidth {bits : Nat} (h : bits ≤ 128) :
    bits ≤ floatWidth bits := by
  have hwidth := floatWidth_cases bits
  omega

/-!
## Comptime numbers
-/

def Prim.comptime (float : Bool) : Prim :=
  if float then .comptimeFloat else .comptimeInt none

@[simp] theorem Prim.isComptime_comptime (float : Bool) :
    (comptime float).isComptime = true := by
  cases float <;> rfl

@[simp] theorem Prim.isFloat_comptime (float : Bool) :
    (comptime float).isFloat = float := by
  cases float <;> rfl

section

variable {p q r : Prim}

theorem promote_comptime (hp : p.isComptime = true) (hq : q.isComptime = true) :
    promote (.prim p) (.prim q) =
      .prim (.comptime (p.isFloat || q.isFloat)) := by
  cases hfloat : p.isFloat || q.isFloat <;>
    simp only [promote, Ty.isComptime, Ty.isFloat, Ty.prim?, Ty.unparen,
      Option.any_some, hp, hq, hfloat] <;> rfl

theorem promote_comptime_left (hp : p.isComptime = true)
    (hq : q.isComptime = false) : promote (.prim p) (.prim q) = .prim q := by
  simp [promote, Ty.isComptime, Ty.prim?, Ty.unparen, hp, hq]

theorem promote_prim_comm (p q : Prim) :
    promote (.prim p) (.prim q) = promote (.prim q) (.prim p) := by
  have hbits : maxBits (.prim p) (.prim q) = maxBits (.prim q) (.prim p) := by
    unfold maxBits
    cases (Ty.prim p).bits? <;> cases (Ty.prim q).bits? <;> simp [max_comm]
  unfold promote
  rw [hbits, Bool.or_comm (Ty.prim p).isFloat,
    Bool.or_comm (Ty.prim p).isSigned]
  cases (Ty.prim p).isComptime <;> cases (Ty.prim q).isComptime <;> rfl

theorem promote_comptime_right (hp : p.isComptime = false)
    (hq : q.isComptime = true) : promote (.prim p) (.prim q) = .prim p := by
  rw [promote_prim_comm, promote_comptime_left hq hp]

theorem exists_sized_of_promote (hp : p.isComptime = false) (q : Prim) :
    ∃ t, promote (.prim p) (.prim q) = .prim t ∧ t.isComptime = false := by
  cases hq : q.isComptime with
  | true => exact ⟨p, promote_comptime_right hp hq, hp⟩
  | false =>
    simp only [promote, Ty.isComptime, Ty.prim?, Ty.unparen,
      Option.any_some, hp, hq]
    split
    · exact ⟨.float _, rfl, rfl⟩
    · exact ⟨.int _ _, rfl, rfl⟩

theorem promote_assoc_of_comptime (hp : p.isComptime = true) :
    promote (promote (.prim p) (.prim q)) (.prim r) =
      promote (.prim p) (promote (.prim q) (.prim r)) := by
  cases hq : q.isComptime with
  | true =>
    rw [promote_comptime hp hq]
    cases hr : r.isComptime with
    | true =>
      rw [promote_comptime hq hr, promote_comptime (by simp) hr,
        promote_comptime hp (by simp), Prim.isFloat_comptime,
        Prim.isFloat_comptime, Bool.or_assoc]
    | false =>
      rw [promote_comptime_left hq hr, promote_comptime_left (by simp) hr,
        promote_comptime_left hp hr]
  | false =>
    obtain ⟨t, ht, hsized⟩ := exists_sized_of_promote hq r
    rw [promote_comptime_left hp hq, ht, promote_comptime_left hp hsized]

/-!
## Sized numbers
-/

theorem Prim.sized_cases (hp : p.isNumeric = true)
    (hsized : p.isComptime = false) :
    (∃ signed bits, p = .int signed bits) ∨ ∃ bits, p = .float bits := by
  cases p <;> simp_all [Prim.isNumeric, Prim.isComptime]

variable (signed signed' : Bool) (m n : Nat)

theorem promote_int_int :
    promote (.int signed m) (.int signed' n) = .int (signed || signed')
      (max m n) := rfl

theorem promote_int_float :
    promote (.int signed m) (.float n) = .float (floatWidth (max m n)) := rfl

theorem promote_float_int :
    promote (.float m) (.int signed n) = .float (floatWidth (max m n)) := rfl

theorem promote_float_float :
    promote (.float m) (.float n) = .float (floatWidth (max m n)) := rfl

theorem promote_prim_assoc (hp : p.isNumeric = true) (hq : q.isNumeric = true)
    (hr : r.isNumeric = true) :
    promote (promote (.prim p) (.prim q)) (.prim r) =
      promote (.prim p) (promote (.prim q) (.prim r)) := by
  cases hpc : p.isComptime with
  | true => exact promote_assoc_of_comptime hpc
  | false =>
    cases hrc : r.isComptime with
    | true =>
      obtain ⟨t, ht, hsized⟩ := exists_sized_of_promote hpc q
      rw [ht, promote_comptime_right hsized hrc, ← ht]
      cases hqc : q.isComptime with
      | true =>
        rw [promote_comptime hqc hrc, promote_comptime_right hpc hqc,
          promote_comptime_right hpc (by simp)]
      | false => rw [promote_comptime_right hqc hrc]
    | false =>
      cases hqc : q.isComptime with
      | true =>
        rw [promote_comptime_right hpc hqc, promote_comptime_left hqc hrc]
      | false =>
        rcases p.sized_cases hp hpc with ⟨signed, m, rfl⟩ | ⟨m, rfl⟩ <;>
        rcases q.sized_cases hq hqc with ⟨signed', n, rfl⟩ | ⟨n, rfl⟩ <;>
        rcases r.sized_cases hr hrc with ⟨signed'', k, rfl⟩ | ⟨k, rfl⟩ <;>
        simp only [promote_int_int, promote_int_float, promote_float_int,
          promote_float_float, floatWidth_max_floatWidth,
          floatWidth_max_floatWidth_right,
          max_assoc, Bool.or_assoc]

end

/-!
## Operands with parentheses
-/

theorem promote_unparen_left (a b : Ty) :
    promote a.unparen b = promote a b := by
  cases a with
  | paren inner => exact promote_unparen_left inner b
  | _ => rfl

theorem promote_unparen_right (a b : Ty) :
    promote a b.unparen = promote a b := by
  cases b with
  | paren inner => exact promote_unparen_right a inner
  | _ => rfl

theorem Ty.exists_prim_of_any {ty : Ty} {test : Prim → Bool}
    (h : ty.prim?.any test = true) :
    ∃ p, ty.unparen = .prim p ∧ test p = true := by
  unfold Ty.prim? at h
  cases hty : ty.unparen with
  | prim p =>
    rw [hty] at h
    exact ⟨p, rfl, h⟩
  | _ =>
    rw [hty] at h
    cases h

/-!
## Operands and the answer
-/

def Prim.isBuiltinNumber : Prim → Bool
  | .int _ bits => 1 ≤ bits && bits ≤ Builtin.greatestIntWidth
  | .float bits => floatWidths.contains bits
  | _ => false

def Ty.isBuiltinNumber (ty : Ty) : Bool := ty.prim?.any Prim.isBuiltinNumber

theorem Prim.isBuiltinNumber_cases {p : Prim} (h : p.isBuiltinNumber = true) :
    (∃ signed bits, p = .int signed bits ∧ bits ≤ 128) ∨
      ∃ bits, p = .float bits ∧ bits ≤ 128 := by
  cases p with
  | int signed bits =>
    obtain ⟨-, hbits⟩ := Bool.and_eq_true_iff.mp h
    exact .inl ⟨signed, bits, rfl, of_decide_eq_true hbits⟩
  | float bits =>
    simp only [isBuiltinNumber, floatWidths, List.contains_eq_mem,
      decide_eq_true_eq] at h
    refine .inr ⟨bits, rfl, ?_⟩
    revert bits
    decide
  | _ => cases h

section

variable {p q t : Prim} {a : Ty} {judge : Judge}

theorem exists_accepting_of_promote (hp : p.isBuiltinNumber = true)
    (hq : q.isBuiltinNumber = true) :
    ∃ t, promote (.prim p) (.prim q) = .prim t ∧ t.isNumeric = true ∧
      t.accepts p = true := by
  rcases Prim.isBuiltinNumber_cases hp with ⟨signed, m, rfl, hm⟩
    | ⟨m, rfl, hm⟩ <;>
  rcases Prim.isBuiltinNumber_cases hq with ⟨signed', n, rfl, hn⟩ | ⟨n, rfl, hn⟩
  · exact ⟨_, rfl, rfl, decide_eq_true (le_max_left m n)⟩
  all_goals
    have hwidth : m ≤ floatWidth (max m n) :=
      (le_max_left m n).trans (le_floatWidth (max_le hm hn))
    exact ⟨_, rfl, rfl, decide_eq_true hwidth⟩

theorem accepts_of_prim_accepts (ht : t.isNumeric = true)
    (h : t.accepts p = true) :
    Accepts judge (compatible (.prim t) (.prim p)) := by
  have htrue : Accepts judge (pure (t.accepts p)) := fun _ => h
  refine accepts_of_form htrue fun hsame habsent => ?_
  unfold compatible
  rw [if_neg hsame, if_neg habsent]
  cases t with
  | int | float | comptimeInt | comptimeFloat => rfl
  | _ => cases ht

theorem tryResolve_unparen (ty : Ty) :
    tryResolve ty.unparen = tryResolve ty := by
  cases ty with
  | paren inner => exact tryResolve_unparen inner
  | _ => rfl

theorem normalize_of_unparen {s : Session} (h : a.unparen = .prim p) :
    Rule.normalize a judge s = (.prim p, s) := by
  unfold Rule.normalize
  rw [← tryResolve_unparen, h]
  rfl

theorem isCompatible_promote_left {b : Ty} (ha : a.isBuiltinNumber = true)
    (hb : b.isBuiltinNumber = true) (s : Session) :
    (isCompatible (promote a b) a none judge s).1 = true := by
  obtain ⟨p, ha, hp⟩ := Ty.exists_prim_of_any ha
  obtain ⟨q, hb, hq⟩ := Ty.exists_prim_of_any hb
  obtain ⟨t, ht, hnumeric, haccepts⟩ := exists_accepting_of_promote hp hq
  rw [← promote_unparen_left, ← promote_unparen_right, ha, hb, ht]
  unfold isCompatible
  rw [bind_of_run (normalize_of_unparen rfl),
    bind_of_run (normalize_of_unparen ha)]
  exact accepts_of_prim_accepts hnumeric haccepts s

end

theorem promote_comm {a b : Ty} (ha : a.isNumeric = true)
    (hb : b.isNumeric = true) : promote a b = promote b a := by
  obtain ⟨p, ha, -⟩ := Ty.exists_prim_of_any ha
  obtain ⟨q, hb, -⟩ := Ty.exists_prim_of_any hb
  rw [← promote_unparen_left a, ← promote_unparen_right _
    b, ← promote_unparen_left b, ← promote_unparen_right _ a, ha, hb,
    promote_prim_comm]

/-- Promotion is a join of numbers, whatever their widths and the parentheses
around them: the order of the operands does not matter, nor does their grouping.
What two numbers of the language are promoted to takes both of them. -/
theorem promotion_is_a_join
    {a b c : Ty}
    (ha : a.isNumeric = true)
    (hb : b.isNumeric = true)
    (hc : c.isNumeric = true) :
    promote a b = promote b a ∧ promote (promote a b) c =
      promote a (promote b c) ∧
    (a.isBuiltinNumber = true → b.isBuiltinNumber = true →
      ∀ (judge : Judge) (s : Session),
      (isCompatible (promote a b) a none judge s).1 = true ∧
      (isCompatible (promote a b) b none judge s).1 = true) := by
  have hcomm := promote_comm ha hb
  refine ⟨hcomm, ?_, fun hleft hright judge s =>
    ⟨isCompatible_promote_left hleft hright s, ?_⟩⟩
  · obtain ⟨p, ha, hp⟩ := Ty.exists_prim_of_any ha
    obtain ⟨q, hb, hq⟩ := Ty.exists_prim_of_any hb
    obtain ⟨r, hc, hr⟩ := Ty.exists_prim_of_any hc
    rw [← promote_unparen_left a, ← promote_unparen_right _
      b, ← promote_unparen_right _ c, ← promote_unparen_left
      a, ← promote_unparen_left b, ← promote_unparen_right _ c, ha, hb, hc]
    exact promote_prim_assoc hp hq hr
  · rw [hcomm]
    exact isCompatible_promote_left hright hleft s

/-- A float of 16 bits and an unsigned integer of 48, in either order and with a
comptime integer between or after them, make a float of 64 bits, which takes
both. -/
theorem promotion_is_a_join_of_chain :
    promote (promote (.paren (.float 16)) (.int false 48))
      (.comptimeInt (some (-3))) = promote (.paren (.float 16))
      (promote (.int false 48) (.comptimeInt (some (-3)))) ∧
      promote (.paren (.float 16)) (.int false 48) = promote (.int false 48)
      (.paren (.float 16)) ∧
      promote (.paren (.float 16)) (.int false 48) = .float 64 ∧
      (isCompatible (promote (.paren (.float 16)) (.int false 48))
        (.paren (.float 16)) none (Judge.limited 0) (Session.new ⟨[]⟩ {})).1 =
        true := by
  have hfloat : (Ty.paren (.float 16)).isNumeric = true := rfl
  have hint : (Ty.int false 48).isNumeric = true := rfl
  have hcomptime : (Ty.comptimeInt (some (-3))).isNumeric = true := rfl
  obtain ⟨hcomm, hassoc, htakes⟩ := promotion_is_a_join hfloat hint hcomptime
  exact ⟨hassoc, hcomm, rfl, (htakes (by decide) (by decide) _ _).1⟩

end StaticCheck
