import StaticCheck.Proofs.KnownValues
import StaticCheck.Proofs.Recall
import Mathlib.Algebra.Order.GroupWithZero.Basic
import Mathlib.Algebra.Order.Ring.Int
import Mathlib.Data.Set.Defs

/-!
# Ranges of integers

An integer of known value that flows into a place of an integer type is refused
where the type cannot hold it, and only there.  For unsigned types it is
incompatible, for signed ones it is compatible but out of range.  The first is
seen through optionals, the second is not: an optional of a signed type takes
every known integer.
-/

namespace StaticCheck

open Rule

def intRange : Bool → Nat → Set Int
  | true, bits => {n | -2 ^ (bits - 1) ≤ n ∧ n < 2 ^ (bits - 1)}
  | false, bits => {n | 0 ≤ n ∧ n < 2 ^ bits}

def Diagnostics.GainsIf (refused : Prop) (log later : Diagnostics) : Prop :=
  (refused → ∃ problem span, later = log.error problem span) ∧
    (¬refused → later = log)

namespace Diagnostics.GainsIf

variable {refused : Prop} {log : Diagnostics}

theorem report (h : refused) (problem : Problem) (span : Span) :
    log.GainsIf refused (log.error problem span) := by
  exact ⟨fun _ => ⟨problem, span, rfl⟩, absurd h⟩

theorem silence (h : ¬refused) : log.GainsIf refused log := by
  exact ⟨fun h' => absurd h' h, fun _ => rfl⟩

theorem congr {refused' : Prop} {later : Diagnostics}
    (h : log.GainsIf refused later) (hiff : refused ↔ refused') :
    log.GainsIf refused' later := by
  rwa [← hiff]

end Diagnostics.GainsIf

section Ranges

variable {signed : Bool} {bits k m : Nat} {n : Int} {target : Ty} {value : Expr}
    {span : Span} {s t u : Session}

theorem fitsInt_iff (hn : Wide.InRange n) :
    fitsInt n signed bits = true ↔ n ∈ intRange signed bits := by
  obtain ⟨hleast, hgreatest⟩ := hn
  simp only [Wide.least, Wide.greatest, pow2, Nat.pow_eq] at hleast hgreatest
  cases signed with
  | true =>
    by_cases hwide : 128 ≤ bits
    · -- All integers of 128 bits are in the range.
      have hpow : (2 : Int) ^ 127 ≤ 2 ^ (bits - 1) :=
        pow_le_pow_right₀ (by decide) (by omega)
      simp only [fitsInt, intRange, Set.mem_ofPred_eq, hwide, if_true, true_iff]
      omega
    · simp [fitsInt, intRange, hwide, pow2]
  | false =>
    by_cases hwide : 127 ≤ bits
    · have hpow : (2 : Int) ^ 127 ≤ 2 ^ bits :=
        pow_le_pow_right₀ (by decide) hwide
      simp [fitsInt, intRange, hwide]
      omega
    · simp [fitsInt, intRange, hwide, pow2]

theorem compatible_optionals (hk : k ≤ m) :
    compatible (Ty.optional^[k] (.int signed bits)) (.comptimeInt (some n))
      (Judge.limited m) s = (signed || fitsInt n false bits, s) := by
  induction k generalizing m with
  | zero => cases signed <;> rfl
  | succ k ih =>
    obtain ⟨m, rfl⟩ : ∃ l, m = l + 1 := ⟨m - 1, by omega⟩
    rw [Function.iterate_succ_apply']
    exact ih (by omega)

theorem isSpine_optionals (k : Nat) (p : Prim) :
    (Ty.optional^[k] (.prim p)).isSpine = true := by
  induction k with
  | zero => rfl
  | succ k ih =>
    rw [Function.iterate_succ_apply']
    exact ih

theorem not_exact_optionals : ((Ty.optional^[k] (.int signed bits)).isAny ||
    (Ty.optional^[k] (.int signed bits)).same (.comptimeInt (some n))) =
      false := by
  cases k with
  | zero => rfl
  | succ k =>
    rw [Function.iterate_succ_apply']
    rfl

theorem normalize_of_resolved {judge : Judge} {ty : Ty}
    (h : tryResolve target judge s = (some ty, t)) :
    normalize target judge s = (ty, t) :=
  bind_of_run h

theorem checkRange_of_resolved {judge : Judge} (n : Int) (span : Span)
    (h : tryResolve target judge u =
      (some (Ty.optional^[k] (.int signed bits)), u)) :
    checkRange target (.comptimeInt (some n)) span judge u =
      ((), if k = 0 ∧ fitsInt n signed bits = false then
        { u with
          diagnostics := u.diagnostics.error
            (.arithmeticOverflow (toString n) target.text) span }
      else u) := by
  refine (bind_of_run (normalize_of_resolved h)).trans ?_
  cases k with
  | zero => cases hfits : fitsInt n signed bits <;> simp [hfits] <;> rfl
  | succ k =>
    rw [Function.iterate_succ_apply']
    rfl

theorem checkFlow_of_resolved (hk : k ≤ m)
    (htarget : (tryResolve target (Judge.limited m) t).1 =
      some (Ty.optional^[k] (.int signed bits))) :
    t.diagnostics.GainsIf
      (value.isDeref = true ∨ fitsInt n signed bits = false ∧
        (k = 0 ∨ signed = false))
      (checkFlow target (.comptimeInt (some n)) value span (Judge.limited m)
        t).2.diagnostics := by
  obtain ⟨u, hresolved, hlog, hagain⟩ :=
    exists_resolved_again htarget (isSpine_optionals k _)
  have hrange := checkRange_of_resolved n value.span hagain
  have hcompatible :
      isCompatible target (.comptimeInt (some n)) (some value)
      (Judge.limited m) t =
      (!value.isDeref && (signed || fitsInt n false bits), u) := by
    unfold isCompatible
    rw [bind_of_run (normalize_of_resolved hresolved),
      bind_of_run (normalize_of_canonical rfl)]
    cases hderef : value.isDeref with
    | false => simp [hderef, compatible_optionals hk]
    | true =>
      simp only [Option.any_some, hderef, if_true, not_exact_optionals]
      rfl
  unfold checkFlow
  rw [bind_of_run hcompatible, ← hlog]
  cases haccepted : (!value.isDeref && (signed || fitsInt n false bits)) with
  | true =>
    rw [if_pos rfl, bind_of_run hrange]
    by_cases hover : k = 0 ∧ fitsInt n signed bits = false
    · rw [if_pos hover]
      exact .report (.inr ⟨hover.2, .inl hover.1⟩) _ _
    · rw [if_neg hover]
      refine .silence fun hrefused => ?_
      cases signed <;> simp_all
  | false =>
    refine .report ?_ _ _
    cases hderef : value.isDeref <;> simp_all

/-!
## Initializers
-/

/-- A value is inferred from `s` on for a place of type `target`, and found to
be the integer `n`.  Afterwards, in `t`, the type of the place stands for
`place`. -/
structure FlowsInto (judge : Judge) (s : Session) (target : Ty)
    (value : Expr) (n : Int) (place : Ty) (t : Session) : Prop where
  inferred : inferExpecting value (some target) judge s =
    (some (.comptimeInt (some n)), t)
  resolved : (tryResolve target judge t).1 = some place

theorem checkPassed_of_inferred {judge : Judge} {source : Ty}
    (h : inferExpecting value (some target) judge s = (some source, t)) :
    checkPassed target value judge s =
      ((), (checkFlow target source value value.span judge t).2) :=
  bind_of_run h

theorem checkInitializer_of_resolved {judge : Judge}
    (hchar : ∀ text, value.unparen.kind ≠ .literal (.char text))
    (htarget : tryResolve target judge s =
      (some (Ty.optional^[k] (.int signed bits)), t)) :
    checkInitializer target value judge s =
      checkPassed target value judge t := by
  unfold checkInitializer
  rw [bind_of_run (normalize_of_resolved htarget)]
  generalize value.unparen.kind = kind at hchar ⊢
  cases kind with
  | literal literal =>
    cases literal with
    | char text => exact absurd rfl (hchar text)
    | _ =>
      cases k <;>
        simp only [Function.iterate_zero_apply, Function.iterate_succ_apply']
  | _ => rfl

/-!
## Ways into a place
-/

theorem checkFlow_exact (hn : Wide.InRange n) (hderef : value.isDeref = false)
    (htarget : (tryResolve target (Judge.limited m) t).1 =
      some (.int signed bits)) :
    t.diagnostics.GainsIf (n ∉ intRange signed bits)
      (checkFlow target (.comptimeInt (some n)) value span (Judge.limited m)
        t).2.diagnostics := by
  apply (checkFlow_of_resolved (k := 0) (Nat.zero_le m) htarget).congr
  rw [← fitsInt_iff hn]
  simp [hderef]

theorem checkPassed_exact (hn : Wide.InRange n) (hderef : value.isDeref = false)
    (h : FlowsInto (Judge.limited m) s target value n (.int signed bits) t) :
    t.diagnostics.GainsIf (n ∉ intRange signed bits)
      (checkPassed target value (Judge.limited m) s).2.diagnostics := by
  rw [checkPassed_of_inferred h.inferred]
  exact checkFlow_exact hn hderef h.resolved

theorem checkFieldValue_exact {field : ObjectField} (hn : Wide.InRange n)
    (hderef : field.value.isDeref = false)
    (h : FlowsInto (Judge.limited m) s target field.value n
      (.int signed bits) t) :
    t.diagnostics.GainsIf (n ∉ intRange signed bits)
      (checkFieldValue target field (Judge.limited m) s).2.diagnostics := by
  unfold checkFieldValue
  rw [bind_of_run h.inferred]
  exact checkFlow_exact hn hderef h.resolved

theorem checkReturn_exact {frame : Frame} {start : Session}
    (hn : Wide.InRange n) (hderef : value.isDeref = false)
    (hframe : start.frame = some frame) (hresult : frame.result = some target)
    (hs : updateFrame (fun frame => { frame with hasReturn := true })
      (Judge.limited m) start = ((), s))
    (h : FlowsInto (Judge.limited m) s target value n (.int signed bits) t) :
    t.diagnostics.GainsIf (n ∉ intRange signed bits)
      (checkReturn (some value) span (Judge.limited m)
        start).2.diagnostics := by
  obtain ⟨u, htarget, hlog, hagain⟩ := exists_resolved_again h.resolved rfl
  have hstart : frame? (Judge.limited m) start = (some frame, start) :=
    congrArg (·, start) hframe
  unfold checkReturn
  rw [bind_of_run hstart]
  dsimp only
  rw [bind_of_run hs, hresult, bind_of_run h.inferred]
  dsimp only
  unfold checkReturned
  rw [bind_of_run (normalize_of_resolved htarget), ← hlog]
  exact checkFlow_exact hn hderef (congrArg Prod.fst hagain)

theorem inferAssignment_exact {op : BinaryOp} {left : Expr}
    {start middle : Session} (hn : Wide.InRange n)
    (hderef : value.isDeref = false)
    (hleft : placeWritable left (Judge.limited m) start = (true, middle))
    (htarget : askType left (Judge.limited m) middle = (some target, s))
    (h : FlowsInto (Judge.limited m) s target value n (.int signed bits) t) :
    t.diagnostics.GainsIf (n ∉ intRange signed bits)
      (inferAssignment op left value span (Judge.limited m)
        start).2.diagnostics := by
  -- What is answered after the check does not matter.
  have hend : ∀ u, ((do
        if ← checkFlow target (.comptimeInt (some n)) value span then
          return some target
        else return none : Rule (Option Ty)) (Judge.limited m) u).2 =
      (checkFlow target (.comptimeInt (some n)) value span
        (Judge.limited m) u).2 := by
    intro u
    rw [bind_run]
    cases (checkFlow target (.comptimeInt (some n)) value span (Judge.limited m)
      u).1 <;> rfl
  unfold inferAssignment
  rw [bind_of_run hleft]
  simp only [Bool.not_true, Bool.false_eq_true, if_false]
  rw [bind_of_run htarget]
  dsimp only
  rw [bind_of_run h.inferred]
  dsimp only
  by_cases hop : op = .assign
  · simp only [hop, bne_self_eq_false, Bool.false_eq_true, if_false]
    rw [hend]
    exact checkFlow_exact hn hderef h.resolved
  · obtain ⟨u, hu, hlog, hagain⟩ := exists_resolved_again h.resolved rfl
    have hbne : (op != .assign) = true := by simpa using hop
    simp only [hbne, if_true]
    rw [bind_of_run (normalize_of_resolved hu)]
    have hplace : (Ty.int signed bits).isNumeric = true := rfl
    simp only [hplace, Bool.not_true, Bool.false_eq_true, if_false]
    rw [bind_of_run (normalize_of_canonical rfl)]
    have hvalue : (Ty.comptimeInt (some n)).isNumeric = true := rfl
    simp only [hvalue, Bool.not_true, Bool.false_eq_true, if_false]
    rw [hend, ← hlog]
    exact checkFlow_exact hn hderef (congrArg Prod.fst hagain)

theorem forEach_append {α : Type} (rule : α → Rule Unit)
    (before after : List α) :
    forEach rule (before ++ after) =
      (do forEach rule before; forEach rule after) := by
  induction before with
  | nil => rfl
  | cons a rest ih => simp [forEach, ih]

theorem checkArgs_append {before more : List Ty} {given others : List Expr}
    {required : Nat} (hlength : before.length = given.length) :
    checkArgs (before ++ target :: more) required
        (given ++ value :: others) span = (do
      checkArity required (some (before ++ target :: more).length)
        (given ++ value :: others).length span
      forEach (fun (pair : Ty × Expr) => checkPassed pair.1 pair.2)
        (before.zip given)
      checkPassed target value
      forEach (fun (pair : Ty × Expr) => checkPassed pair.1 pair.2)
        (more.zip others)
      forEach (fun arg => discard (askType arg))
        (others.drop more.length)) := by
  have hdrop :
      (given ++ value :: others).drop (before ++ target :: more).length =
      others.drop more.length := by
    simp [hlength, List.drop_append, List.drop_eq_nil_of_le]
  unfold checkArgs
  rw [hdrop, List.zip_append hlength, forEach_append]
  simp [forEach]

/-- Known integers are checked for range exactly.  An integer of 128 bits flows
into a place of an integer type, by an expression that is no dereference.  If it
is outside of the range of the type, there is just one report after those of its
inference, and none if it is inside: -/
theorem known_integers_are_range_checked (hn : Wide.InRange n)
    (hderef : value.isDeref = false)
    (h : FlowsInto (Judge.limited m) s target value n (.int signed bits) t) :
    -- as an initializer or a default;
    (∀ start, (∀ text, value.unparen.kind ≠ .literal (.char text)) →
      tryResolve target (Judge.limited m) start = (some (.int signed bits), s) →
        t.diagnostics.GainsIf (n ∉ intRange signed bits)
          (checkInitializer target value (Judge.limited m)
            start).2.diagnostics) ∧
    -- as the value of a return;
    (∀ start frame span, start.frame = some frame → frame.result = some target →
      updateFrame (fun frame => { frame with hasReturn := true })
      (Judge.limited m) start = ((), s) →
        t.diagnostics.GainsIf (n ∉ intRange signed bits)
          (checkReturn (some value) span (Judge.limited m)
            start).2.diagnostics) ∧
    -- as the right side of an assignment, also a compound one;
    (∀ start middle op left span, placeWritable left (Judge.limited m) start =
      (true, middle) → askType left (Judge.limited m) middle =
      (some target, s) → t.diagnostics.GainsIf (n ∉ intRange signed bits)
          (inferAssignment op left value span (Judge.limited m)
            start).2.diagnostics) ∧
    -- as an argument among others;
    (∀ start before more given others required span,
      before.length = given.length →
      (do checkArity required (some (before ++ target :: more).length)
            (given ++ value :: others).length span
          forEach (fun (pair : Ty × Expr) => checkPassed pair.1 pair.2)
            (before.zip given) :
        Rule Unit) (Judge.limited m) start = ((), s) →
        ∃ u, t.diagnostics.GainsIf (n ∉ intRange signed bits) u.diagnostics ∧
          checkArgs (before ++ target :: more) required
              (given ++ value :: others) span (Judge.limited m) start =
            (do forEach (fun (pair : Ty × Expr) => checkPassed pair.1 pair.2)
                  (more.zip others)
                forEach (fun arg => discard (askType arg))
                  (others.drop more.length) :
              Rule Unit) (Judge.limited m) u) ∧
    -- as a field of a declared struct, or of one written in place.
    (∀ start middle struct scope name span id,
      settableField? struct scope ⟨name, value, span⟩ (Judge.limited m) start =
          (some id, middle) →
      symbolType id (Judge.limited m) middle = (some target, s) →
        t.diagnostics.GainsIf (n ∉ intRange signed bits)
          (checkGivenField struct scope ⟨name, value, span⟩ (Judge.limited m)
            start).2.diagnostics) ∧
    (∀ start struct member name span, struct.member? name = some member →
      resolveMember struct member (Judge.limited m) start = (some target, s) →
        t.diagnostics.GainsIf (n ∉ intRange signed bits)
          (checkGivenMember struct ⟨name, value, span⟩ (Judge.limited m)
            start).2.diagnostics) := by
  refine ⟨?_, ?_, ?_, ?_, ?_, ?_⟩
  · intro start hchar htarget
    rw [checkInitializer_of_resolved (k := 0) hchar htarget]
    exact checkPassed_exact hn hderef h
  · intro start frame span hframe hresult hs
    exact checkReturn_exact hn hderef hframe hresult hs h
  · intro start middle op left span hleft htarget
    exact inferAssignment_exact hn hderef hleft htarget h
  · intro start before more given others required span hlength hs
    refine ⟨_, checkPassed_exact hn hderef h, ?_⟩
    rw [checkArgs_append hlength]
    obtain rfl := congrArg Prod.snd hs
    rfl
  · intro start middle struct scope name span id hfield htarget
    unfold checkGivenField
    rw [bind_of_run hfield]
    dsimp only
    rw [bind_of_run htarget]
    exact checkFieldValue_exact hn hderef h
  · intro start struct member name span hmember htarget
    unfold checkGivenMember
    rw [hmember]
    dsimp only
    rw [bind_of_run htarget]
    exact checkFieldValue_exact hn hderef h

end Ranges

def bytePlaces : Program := soleModule [
  ⟨⟨1⟩, .none, .letDecl ⟨"x", .priv, true, some (.int true 8), none⟩⟩,
  ⟨⟨2⟩, .none,
    .struct ⟨⟨3⟩, "S", .priv, [⟨"a", .int true 8, .pub, true, none, .none⟩],
      [], .none⟩⟩]

def inBytePlaces : Session :=
  { Session.new bytePlaces {} with
    tree := (Session.new bytePlaces {}).tree.enter ⟨1⟩
    frame :=
      some ⟨"f", some (.int true 8), none, none, [], false, false, true, none⟩ }

theorem known_integers_are_range_checked_at_edge :
    (128 : Int) ∉ intRange true 8 ∧
      (∃ problem span,
        (checkInitializer (.int true 8) (numeral 4 "128") (Judge.limited 3)
          inBytePlaces).2.diagnostics = Diagnostics.error {} problem span) ∧
      (∃ problem span,
        (checkReturn (some (numeral 4 "128")) .none (Judge.limited 3)
          inBytePlaces).2.diagnostics = Diagnostics.error {} problem span) ∧
      (∃ problem span,
        (inferAssignment .addAssign ⟨⟨5⟩, .none, .ident "x"⟩
          (numeral 4 "128") .none (Judge.limited 3)
          inBytePlaces).2.diagnostics = Diagnostics.error {} problem span) ∧
      ∃ problem span,
        (checkGivenField ⟨"S", [], some ⟨2⟩⟩ ⟨2⟩ ⟨"a", numeral 4 "128", .none⟩
          (Judge.limited 3) inBytePlaces).2.diagnostics = Diagnostics.error
          {} problem span := by
  have houtside : (128 : Int) ∉ intRange true 8 := by simp [intRange]
  have hwide : Wide.InRange 128 := ⟨by decide, by decide⟩
  -- In every session where the literal is found to be 128 in silence, the place
  -- is known as well.
  have hflow :
      ∀ s,
      (inferExpecting (numeral 4 "128") (some (.int true 8))
        (Judge.limited 3) s).1 =
      some (.comptimeInt (some 128)) →
    FlowsInto (Judge.limited 3) s (.int true 8) (numeral 4 "128") 128
      (.int true 8)
      (inferExpecting (numeral 4 "128") (some (.int true 8))
        (Judge.limited 3) s).2 :=
    fun s h => ⟨Prod.ext h rfl, rfl⟩
  have hinit := (known_integers_are_range_checked hwide rfl
    (hflow inBytePlaces (by decide +kernel))).1 inBytePlaces
    (by simp [numeral, Expr.unparen]) rfl
  have hreturn :=
    (known_integers_are_range_checked hwide rfl
      (hflow _ (by decide +kernel))).2.1
    inBytePlaces _ .none rfl rfl rfl
  have hassign := (known_integers_are_range_checked hwide rfl
    (hflow (askType ⟨⟨5⟩, .none, .ident "x"⟩ (Judge.limited 3) inBytePlaces).2
      (by decide +kernel))).2.2.1 inBytePlaces inBytePlaces .addAssign
      ⟨⟨5⟩, .none, .ident "x"⟩
      .none rfl (Prod.ext (by decide +kernel) rfl)
  have hfield := (known_integers_are_range_checked hwide rfl
    (hflow (symbolType ⟨2⟩ (Judge.limited 3) inBytePlaces).2
      (by decide +kernel))).2.2.2.2.1
      inBytePlaces inBytePlaces ⟨"S", [], some ⟨2⟩⟩ ⟨2⟩ "a" .none ⟨2⟩ rfl
      (Prod.ext (by decide +kernel) rfl)
  exact ⟨houtside, hinit.1 houtside, hreturn.1 houtside, hassign.1 houtside,
    hfield.1 houtside⟩

/-!
## Optionals
-/

end StaticCheck
