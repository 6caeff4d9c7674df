import StaticCheck.Proofs.Certified.Statements
import StaticCheck.Proofs.PolicyParts

/-!
# The rules under a policy

A rule is composed under a policy if it is certified for the regime of the
policy: what is asked about stays within the policy, and the function or the
loop around is looked at only where the place is known to have one.  What
checking preserves is proved once for each kind of step instead of for each
rule.
-/

namespace StaticCheck

open Rule

/-- The rule is a composition of steps that the policy allows at a place. -/
abbrev Composed (policy : Policy) (place : Place) {α : Type} [Found α]
    (rule : Rule α) : Prop :=
  Attested policy.regime.loose place rule

section

variable {policy : Policy} {place : Place} {α : Type} [Found α]

theorem fits_of_obeys {a : α} (h : Obeys policy a) :
    Fits policy.regime.loose a :=
  fits_loose.mpr h

theorem fits_free (a : α) : Fits Policy.free.regime.loose a :=
  fits_of_obeys (Answer.free a)

theorem Policy.describes {tree : ScopeTree} (htree : Obeys policy tree) :
    policy.regime.Describes place tree where
  symbols id := htree id
  opened hinside _ := hinside _
  unopened _ _ := trivial
  undeclared _ _ := trivial
  here := ⟨place, rfl⟩
  assigned _ _ _ _ hpledged := hpledged.elim

namespace Composed

theorem report {problem : Problem} {span : Span} :
    Composed policy place (Rule.report problem span) := by
  cases problem with
  | internalError message =>
    have hinternal : Composed policy place
        (reportInternal ⟨.internalError message, span⟩) :=
      .reportInternal trivial
    exact hinternal
  | _ => exact Attested.report rfl

theorem reportFailure (result : Except Finding Unit) :
    Composed policy place (Rule.reportFailure result) := by
  exact Attested.reportFailure ⟨fun _ => trivial, fun _ => trivial⟩

theorem recordField {scope : ScopeId} {field : Slot} {ty : Ty}
    (hty : Fits policy.regime.loose ty) :
    Composed policy place (Rule.recordField scope field ty) := by
  have hfield : Attested policy.regime.loose (policy.regime.enter scope place)
      (Rule.recordField scope field ty) := .recordField hty trivial
  exact hfield

theorem checkFieldType {scope : ScopeId} {field : Slot}
    (hty : Obeys policy field.ty)
    (hdefault : ∀ value ∈ field.default, value.Suits policy.regime place) :
    Composed policy place (Rule.checkFieldType scope field) := by
  have hfield : Attested policy.regime.loose (policy.regime.enter scope place)
      (Rule.checkFieldType scope field) := .checkFieldType hty trivial hdefault
  exact hfield

theorem checkStructField {scope : ScopeId} {declared : Option SymbolId}
    {owner : String} {field : Slot} (hty : Obeys policy field.ty)
    (hdefault : ∀ value ∈ field.default, value.Suits policy.regime place) :
    Composed policy place
      (Rule.checkStructField scope declared owner field) := by
  have hfield : Attested policy.regime.loose (policy.regime.enter scope place)
      (Rule.checkStructField scope declared owner field) :=
    .checkStructField hty trivial hdefault
  exact hfield

end Composed

end

end StaticCheck
