import StaticCheck.Proofs.Certificate

/-!
# Canonical types

Resolution drops parentheses, replaces names and folds lengths.  A type with
nothing of this kind where resolution comes to is canonical: whoever resolves
it, and wherever, gets it back as it is, and nothing else happens.
-/

namespace StaticCheck

open Rule

theorem bind_of_run {α β : Type} {rule : Rule α} {next : α → Rule β}
    {judge : Judge} {s t : Session} {a : α} (h : rule judge s = (a, t)) :
    (rule >>= next) judge s = next a judge t := by
  rw [bind_run, h]

section

variable {span : Span} {loud : Bool} (judge : Judge) (s : Session)

mutual

theorem resolveTy_of_canonical (ty : Ty) (h : ty.isCanonical = true) :
    resolveTy span loud ty judge s = (some ty, s) := by
  cases ty with
  | prim | errors | enum => rfl
  | named | paren => cases h
  | pointer target mutable =>
    exact bind_of_run (resolveTy_of_canonical target h)
  | optional inner => exact bind_of_run (resolveTy_of_canonical inner h)
  | array element extent mutable =>
    cases extent with
    | expr length => cases h
    | slice | fixed => exact bind_of_run (resolveTy_of_canonical element h)
  | tuple fields => exact bind_of_run (resolveAll_of_canonical fields h)
  | union members => exact bind_of_run (resolveAll_of_canonical members h)
  | function params result error =>
    have hparts : Ty.everyAll Ty.isSettled params = true ∧
        result.isCanonical = true ∧ Ty.everyOpt Ty.isSettled error = true := by
      rwa [← Bool.and_eq_true, ← Bool.and_eq_true]
    refine (bind_of_run (resolveAll_of_canonical params hparts.1)).trans ?_
    refine (bind_of_run (resolveTy_of_canonical result hparts.2.1)).trans ?_
    exact bind_of_run (resolveOpt_of_canonical error hparts.2.2)
  | struct struct =>
    obtain ⟨name, members, scope⟩ := struct
    cases scope with
    | some scope => rfl
    | none => exact bind_of_run (resolveMembers_of_canonical members h)

theorem resolveAll_of_canonical (tys : List Ty)
    (h : Ty.everyAll Ty.isSettled tys = true) :
    resolveAll span loud tys judge s = (some tys, s) := by
  cases tys with
  | nil => rfl
  | cons ty rest =>
    have hparts := Bool.and_eq_true_iff.mp h
    refine (bind_of_run (resolveTy_of_canonical ty hparts.1)).trans ?_
    exact bind_of_run (resolveAll_of_canonical rest hparts.2)

theorem resolveOpt_of_canonical (ty : Option Ty)
    (h : Ty.everyOpt Ty.isSettled ty = true) :
    resolveOpt span loud ty judge s = (some ty, s) := by
  cases ty with
  | none => rfl
  | some ty => exact bind_of_run (resolveTy_of_canonical ty h)

theorem resolveMembers_of_canonical (members : List Member)
    (h : Member.every Ty.isSettled members = true) :
    resolveMembers span loud members judge s = (some members, s) := by
  cases members with
  | nil => rfl
  | cons member rest =>
    obtain ⟨name, ty⟩ := member
    have hparts := Bool.and_eq_true_iff.mp h
    refine (bind_of_run (resolveTy_of_canonical ty hparts.1)).trans ?_
    exact bind_of_run (resolveMembers_of_canonical rest hparts.2)

end

end

end StaticCheck
