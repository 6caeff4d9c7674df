import StaticCheck.Proofs.Exits
import StaticCheck.Rules.Infer
import StaticCheck.Rules.Validate
import Mathlib.Tactic.Common

/-!
# Policies on exits

A policy says which exits the parts of a program may have at a place.  The free
policy allows all of them and so says nothing; the closed one allows an exit
only where a function or a loop of the part itself receives it; a listed one
allows every exit, but no loop over a binding besides those listed.
-/

namespace StaticCheck

/-- Where a part of a program stands in a larger one. -/
inductive Place
  | outside
  | inLoop
  | inFunction
  deriving DecidableEq, Repr

def Place.enterLoop : Place → Place
  | .outside => .inLoop
  | place => place

inductive Policy
  | free
  | closed
  | listed (loops : List (String × NodeId))
  deriving DecidableEq, Repr

namespace Exits

def Allowed (policy : Policy) (place : Place) (exits : Exits) : Prop :=
  match policy with
  | .free => True
  | .closed =>
    exits.lengths = false ∧
    (place ≠ .inFunction → exits.leaves = false) ∧
    (place = .outside → exits.jumps = false)
  | .listed loops => ∀ loop ∈ exits.loops, loop ∈ loops

variable {policy : Policy} {place : Place} {a b : Exits}

@[simp] theorem allowed_free : Allowed .free place a := trivial

@[simp] theorem allowed_none : Allowed policy place {} := by
  cases policy <;> simp [Allowed]

@[simp] theorem allowed_append :
    Allowed policy place (a ++ b) ↔ Allowed policy place a ∧
      Allowed policy place b := by
  have hjoin : a ++ b = a.join b := rfl
  rw [hjoin]
  cases policy with
  | free => simp
  | closed =>
    simp only [Allowed, join, Bool.or_eq_false_iff]
    tauto
  | listed loops =>
    simp only [Allowed, join, List.forall_mem_append]

@[simp] theorem allowed_ofLoop :
    Allowed policy place (ofLoop a) ↔ Allowed policy place.enterLoop a := by
  cases policy <;> cases place <;> simp [Allowed, ofLoop, Place.enterLoop]

@[simp] theorem allowed_ofFunction :
    Allowed policy place (ofFunction a) ↔ Allowed policy .inFunction a := by
  cases policy <;> simp [Allowed, ofFunction]

@[simp] theorem allowed_ofLength :
    Allowed policy place (ofLength a) ↔ Allowed policy .outside a := by
  cases policy with
  | free | listed => rfl
  | closed =>
    simp only [Allowed, ofLength, Bool.or_eq_false_iff, ne_eq, reduceCtorEq,
      not_false_eq_true, true_imp_iff, implies_true, and_true]
    tauto

theorem allowed_jumps :
    Allowed policy place { jumps := true } ↔
      (policy = .closed → place ≠ .outside) := by
  cases policy <;> simp [Allowed]

theorem allowed_leaves :
    Allowed policy place { leaves := true } ↔
      (policy = .closed → place = .inFunction) := by
  cases policy <;> simp [Allowed]

theorem allowed_loop {loop : String × NodeId} :
    Allowed policy place { loops := [loop] } ↔
      ∀ loops, policy = .listed loops → loop ∈ loops := by
  cases policy <;> simp [Allowed]

theorem Allowed.anywhere (h : Allowed policy .outside a) :
    Allowed policy place a := by
  cases policy with
  | free => trivial
  | closed => exact ⟨h.1, fun _ => h.2.1 (by decide), fun _ => h.2.2 rfl⟩
  | listed loops => exact h

end Exits

end StaticCheck
