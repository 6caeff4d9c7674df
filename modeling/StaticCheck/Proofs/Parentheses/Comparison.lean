import StaticCheck.Proofs.Parentheses.Erasure

/-!
# Comparison does not see parentheses

Resolution drops parentheses, but for the members of declared structs and the
payloads of enums, which are kept as written; where something does not resolve,
the parentheses are stripped, but for those inside of structs, enums and
functions.  Comparison does not see the ones that are left: whether one type
accepts the other and whether there is a cast between them does not depend on
parentheses at any depth.
-/

namespace StaticCheck

open Rule

/-!
## Rules that answer alike
-/

section Alike

variable {α β γ δ : Type} {judge : Judge} {view : α → γ}
    {next next' : α → Rule β} {rule rule' : Rule α}

/-- Two rules do the same to every session, and their answers look the same to a
view. -/
def Alike (judge : Judge) (view : α → γ) (rule rule' : Rule α) : Prop :=
  ∀ s, view (rule judge s).1 = view (rule' judge s).1 ∧ (rule judge s).2 =
    (rule' judge s).2

namespace Alike

theorem refl (rule : Rule α) : Alike judge view rule rule := fun _ => ⟨rfl, rfl⟩

theorem trans {rule'' : Rule α} (h : Alike judge view rule rule')
    (h' : Alike judge view rule' rule'') : Alike judge view rule rule'' := by
  intro s
  exact ⟨(h s).1.trans (h' s).1, (h s).2.trans (h' s).2⟩

theorem symm (h : Alike judge view rule rule') :
    Alike judge view rule' rule := by
  intro s
  exact ⟨(h s).1.symm, (h s).2.symm⟩

theorem run_eq (h : Alike judge id rule rule') (s : Session) :
    rule judge s = rule' judge s :=
  Prod.ext (h s).1 (h s).2

theorem pure {a b : α} (h : view a = view b) :
    Alike judge view (Pure.pure a : Rule α) (Pure.pure b) := fun _ => ⟨h, rfl⟩

theorem found {a b : α} (h : view a = view b) :
    Alike judge (Option.map view) (Pure.pure (some a) : Rule (Option α))
      (Pure.pure (some b)) :=
  pure (congrArg some h)

theorem bind {view' : β → δ} (h : Alike judge view rule rule')
    (hnext : ∀ a b, view a = view b → Alike judge view' (next a) (next' b)) :
    Alike judge view' (rule >>= next) (rule' >>= next') := by
  intro s
  obtain ⟨hanswer, hsession⟩ := h s
  have hrest := hnext _ _ hanswer (rule' judge s).2
  rw [bind_run, bind_run, hsession]
  exact hrest

theorem after {view : β → γ} (first : Rule α)
    (h : ∀ a, Alike judge view (next a) (next' a)) :
    Alike judge view (first >>= next) (first >>= next') := by
  intro s
  exact h (first judge s).1 (first judge s).2

theorem bindOption {α : Type} {view : α → γ} {view' : β → δ}
    {rule rule' : Rule (Option α)} {next next' : Option α → Rule β}
    (h : Alike judge (Option.map view) rule rule')
    (hnone : Alike judge view' (next none) (next' none))
    (hsome : ∀ a b, view a = view b →
      Alike judge view' (next (some a)) (next' (some b))) :
    Alike judge view' (rule >>= next) (rule' >>= next') := by
  refine h.bind fun answer answer' hview => ?_
  cases answer with
  | none =>
    cases answer' with
    | none => exact hnone
    | some b => cases hview
  | some a =>
    cases answer' with
    | none => cases hview
    | some b => exact hsome a b (Option.some.inj hview)

theorem thenBoth {δ : Type} {view : α → α} {first : Rule α}
    {next : α → α → Rule δ} {first' : Rule α} (h : Alike judge view rule rule')
    (hfirst : Alike judge view first first')
    (hnext : ∀ a b, Alike judge id (next a b) (next (view a) (view b))) :
    Alike judge id (rule >>= fun a => first >>= fun b => next a b)
      (rule' >>= fun a => first' >>= fun b => next a b) := by
  refine h.bind fun a a' ha => hfirst.bind fun b b' hb => ?_
  have hleft := hnext a b
  rw [ha, hb] at hleft
  exact hleft.trans (hnext a' b').symm

theorem ite {c c' : Prop} [Decidable c] [Decidable c'] {other other' : Rule α}
    (hc : c' ↔ c) (h : Alike judge view rule rule')
    (hother : Alike judge view other other') :
    Alike judge view (if c then rule else other)
      (if c' then rule' else other') := by
  by_cases hcond : c
  · rw [if_pos hcond, if_pos (hc.mpr hcond)]
    exact h
  · rw [if_neg hcond, if_neg fun hcond' => hcond (hc.mp hcond')]
    exact hother

theorem of_eraseParens {question : Ty → Ty → Rule α}
    (h : ∀ a b, Alike judge view (question a b)
      (question a.eraseParens b.eraseParens))
    {a a' b b' : Ty} (ha : a'.eraseParens = a.eraseParens)
    (hb : b'.eraseParens = b.eraseParens) :
    Alike judge view (question a' b') (question a b) := by
  have hleft := h a' b'
  rw [ha, hb] at hleft
  exact hleft.trans (h a b).symm

theorem withScope (scope : ScopeId) (h : Alike judge view rule rule') :
    Alike judge view (withScope scope rule) (withScope scope rule') := by
  refine after tree fun before => after _ fun _ => h.bind fun a b hab => ?_
  exact after _ fun _ => pure hab

theorem inScope? (scope : Option ScopeId) (h : Alike judge view rule rule') :
    Alike judge view (inScope? scope rule) (inScope? scope rule') := by
  cases scope with
  | none => exact h
  | some scope => exact h.withScope scope

section Lists

variable {rule rule' : α → Rule Bool} {f : α → α} {list list' : List α}

theorem anyOf (h : ∀ a, Alike judge id (rule a) (rule' (f a)))
    (hlist : list' = list.map f) :
    Alike judge id (anyOf rule list) (anyOf rule' list') := by
  subst hlist
  induction list with
  | nil => exact refl _
  | cons a rest ih =>
    refine (h a).bind fun found _ hfound => ?_
    cases hfound
    exact ite Iff.rfl (refl _) ih

theorem allOf (h : ∀ a, Alike judge id (rule a) (rule' (f a)))
    (hlist : list' = list.map f) :
    Alike judge id (allOf rule list) (allOf rule' list') := by
  subst hlist
  induction list with
  | nil => exact refl _
  | cons a rest ih =>
    refine (h a).bind fun found _ hfound => ?_
    cases hfound
    exact ite Iff.rfl ih (refl _)

end Lists

end Alike

end Alike

/-!
## Resolution
-/

section Resolution

variable {judge : Judge} {span : Span} {loud : Bool}

mutual

theorem alike_resolveTy (ty : Ty) :
    Alike judge (Option.map Ty.eraseInner) (resolveTy span loud ty)
      (resolveTy span loud ty.eraseParens) := by
  cases ty with
  | prim | named | errors => exact .refl _
  | enum enum => exact .found (Ty.eraseParens_eraseParens (.enum enum)).symm
  | paren inner => exact alike_resolveTy inner
  | pointer target mutable =>
    refine (alike_resolveTy target).bindOption (.refl _) fun a b h => ?_
    exact .found (congrArg (Ty.pointer · mutable) h)
  | optional inner =>
    refine (alike_resolveTy inner).bindOption (.refl _) fun a b h => ?_
    exact .found (congrArg Ty.optional h)
  | array element extent mutable =>
    refine (alike_resolveTy element).bindOption (.refl _) fun a b h => ?_
    refine .after (resolveExtent extent) fun extent => ?_
    exact .found (congrArg (Ty.array · extent mutable) h)
  | tuple fields =>
    refine (alike_resolveAll fields).bindOption (.refl _) fun a b h => ?_
    exact .found (congrArg Ty.tuple h)
  | union members =>
    refine (alike_resolveAll members).bindOption (.refl _) fun a b h => ?_
    exact .found (congrArg Ty.union h)
  | function params result error =>
    refine (alike_resolveAll params).bindOption (.refl _)
      fun params params' hparams => ?_
    refine (alike_resolveTy result).bindOption (.refl _)
      fun result result' hresult => ?_
    refine (alike_resolveOpt error).bindOption (.refl _)
      fun error error' herror => ?_
    refine .found ?_
    simp only [Ty.eraseInner, Ty.eraseParens,
      Ty.eraseParensAll_eq_of_inner hparams,
      Ty.eraseParens_eq_of_inner hresult, herror]
  | struct struct =>
    obtain ⟨name, members, scope⟩ := struct
    cases scope with
    | some scope =>
      have hstruct :=
        Ty.eraseParens_eraseParens (.struct ⟨name, members, some scope⟩)
      exact .found hstruct.symm
    | none =>
      refine (alike_resolveMembers members).bindOption (.refl _) fun a b h => ?_
      exact .found (congrArg (fun members => Ty.struct ⟨name, members, none⟩) h)

theorem alike_resolveAll (tys : List Ty) :
    Alike judge (Option.map Ty.eraseInnerAll) (resolveAll span loud tys)
      (resolveAll span loud (Ty.eraseParensAll tys)) := by
  cases tys with
  | nil => exact .refl _
  | cons ty rest =>
    refine (alike_resolveTy ty).bindOption (.refl _) fun a b h => ?_
    refine (alike_resolveAll rest).bindOption (.refl _) fun as bs hrest => ?_
    exact .found (congrArg₂ List.cons h hrest)

theorem alike_resolveOpt (ty : Option Ty) :
    Alike judge (Option.map Ty.eraseParensOpt) (resolveOpt span loud ty)
      (resolveOpt span loud (Ty.eraseParensOpt ty)) := by
  cases ty with
  | none => exact .refl _
  | some ty =>
    refine (alike_resolveTy ty).bindOption (.refl _) fun a b h => ?_
    exact .found (congrArg some (Ty.eraseParens_eq_of_inner h))

theorem alike_resolveMembers (members : List Member) :
    Alike judge (Option.map Member.eraseParensAll)
      (resolveMembers span loud members)
      (resolveMembers span loud (Member.eraseParensAll members)) := by
  cases members with
  | nil => exact .refl _
  | cons member rest =>
    obtain ⟨name, ty⟩ := member
    refine (alike_resolveTy ty).bindOption (.refl _) fun a b h => ?_
    refine (alike_resolveMembers rest).bindOption (.refl _)
      fun as bs hrest => ?_
    exact .found (congrArg₂ (fun ty members => (⟨name, ty⟩ : Member) :: members)
      (Ty.eraseParens_eq_of_inner h) hrest)

end

theorem alike_normalize (ty : Ty) :
    Alike judge Ty.eraseInner (normalize ty) (normalize ty.eraseParens) := by
  refine (alike_resolveTy ty).bindOption ?_ fun a b h => .pure h
  exact .pure ty.eraseInner_stripParens.symm

theorem alike_resolveMember (struct : StructTy) (member : Member) :
    Alike judge (Option.map Ty.eraseInner) (resolveMember struct member)
      (resolveMember struct.eraseParens member.eraseParens) := by
  rw [StructTy.eraseParens_eq, Member.eraseParens_eq]
  exact (alike_resolveTy member.ty).inScope? struct.scope

end Resolution

/-!
## Comparison
-/

section Comparison

variable {judge : Judge}

/-- A judge that does not see the parentheses that are left in the types it
compares. -/
structure Judge.IsParenBlind (judge : Judge) : Prop where
  compatible : ∀ target source,
    Alike judge id (askCompatible target source)
      (askCompatible target.eraseInner source.eraseInner)
  castable : ∀ target source,
    Alike judge id (askCastable target source)
    (askCastable target.eraseInner source.eraseInner)

theorem Judge.IsParenBlind.compatible_of_inner (hjudge : judge.IsParenBlind)
    {a b c d : Ty} (hab : a.eraseInner = b.eraseInner)
    (hcd : c.eraseInner = d.eraseInner) :
    Alike judge id (askCompatible a c) (askCompatible b d) := by
  have hleft := hjudge.compatible a c
  rw [hab, hcd] at hleft
  exact hleft.trans (hjudge.compatible b d).symm

theorem alike_membersCompatible (hjudge : judge.IsParenBlind)
    (target source : StructTy) (members : List Member) :
    Alike judge id (membersCompatible target source members)
      (membersCompatible target.eraseParens source.eraseParens
        (Member.eraseParensAll members)) := by
  induction members with
  | nil => exact .refl _
  | cons member rest ih =>
    have hname : member.eraseParens.name = member.name := by
      rw [Member.eraseParens_eq]
    simp only [Member.eraseParensAll, membersCompatible, hname,
      StructTy.member?_eraseParens]
    cases source.member? member.name with
    | none => exact .refl _
    | some provided =>
      refine (alike_resolveMember target member).bindOption ?_ fun a b hab => ?_
      · exact (alike_resolveMember source provided).bind fun _ _ _ => .refl _
      · refine (alike_resolveMember source provided).bindOption (.refl _)
          fun c d hcd => ?_
        refine (hjudge.compatible_of_inner hab hcd).bind
          fun agree _ hagree => ?_
        cases hagree
        exact .ite Iff.rfl ih (.refl _)

theorem alike_structCompatible (hjudge : judge.IsParenBlind)
    (target source : StructTy) : Alike judge id (structCompatible target source)
      (structCompatible target.eraseParens source.eraseParens) := by
  have hmembers := alike_membersCompatible hjudge target source target.members
  obtain ⟨name, members, scope⟩ := target
  obtain ⟨otherName, others, otherScope⟩ := source
  simp only [StructTy.eraseParens, structCompatible, Member.eraseParensAll_eq,
    List.length_map] at hmembers ⊢
  exact .ite Iff.rfl (.refl _)
    (.ite Iff.rfl (.refl _) (.ite Iff.rfl (.refl _) hmembers))

theorem alike_pointeeCompatible (target source : Ty) :
    Alike judge id (pointeeCompatible target source)
      (pointeeCompatible target.eraseParens source.eraseParens) := by
  refine (alike_normalize target).thenBoth (alike_normalize source)
    fun target source => ?_
  rw [Ty.same_eraseInner]
  refine .ite Iff.rfl (.refl _) ?_
  cases target with
  | optional inner => exact .pure (Ty.same_eraseInner inner source).symm
  | _ => exact .refl _

theorem alike_compatible (hjudge : judge.IsParenBlind) (target source : Ty) :
    Alike judge id (compatible target source)
      (compatible target.eraseInner source.eraseInner) := by
  unfold compatible Ty.isNoreturn
  rw [Ty.same_eraseInner, Ty.isPrim_eraseInner, Ty.isPrim_eraseInner]
  refine .ite Iff.rfl (.refl _) (.ite Iff.rfl (.refl _) ?_)
  have hany : ∀ targets : List Ty, Alike judge id
      (anyOf (fun target => askCompatible target source) targets)
      (anyOf (fun target => askCompatible target source.eraseInner)
        (Ty.eraseInnerAll targets)) :=
    fun targets => .anyOf (fun target => hjudge.compatible target source)
      (Ty.eraseInnerAll_eq targets)
  have hall : ∀ sources : List Ty, Alike judge id
      (allOf (fun source => askCompatible target source) sources)
      (allOf (fun source => askCompatible target.eraseInner source)
        (Ty.eraseInnerAll sources)) :=
    fun sources => .allOf (fun source => hjudge.compatible target source)
      (Ty.eraseInnerAll_eq sources)
  cases target with
  | prim prim =>
    cases prim with
    | any => exact .refl _
    | _ =>
      cases source with
      | union sources => exact hall sources
      | _ => exact .refl _
  | union targets =>
    cases source with
    | union sources =>
      refine .allOf (fun source => ?_) (Ty.eraseInnerAll_eq sources)
      exact .anyOf (fun target => hjudge.compatible target source)
        (Ty.eraseInnerAll_eq targets)
    | optional inner =>
      refine .ite ?_ (.anyOf (fun target => hjudge.compatible target inner)
        (Ty.eraseInnerAll_eq targets)) (.refl _)
      rw [Ty.any_isNull_eraseInnerAll]
    | _ => exact hany targets
  | optional inner =>
    cases source with
    | union sources => exact hall sources
    | prim prim =>
      cases prim with
      | null => exact .refl _
      | _ => exact hjudge.compatible inner _
    | optional => exact .refl _
    | _ => exact hjudge.compatible inner _
  | array element extent mutable =>
    cases source with
    | union sources => exact hall sources
    | array other otherExtent otherMutable =>
      refine .ite ?_ (.refl _)
        (.ite ?_ (hjudge.compatible element other) (.refl _))
      · unfold Ty.isAny
        rw [Ty.isPrim_eraseInner]
      · rw [Ty.lengthsAgree_eraseInner]
    | _ => exact .refl _
  | pointer pointee mutable =>
    cases source with
    | union sources => exact hall sources
    | prim prim => cases prim <;> exact .refl _
    | pointer other otherMutable =>
      refine .ite Iff.rfl (.refl _)
        (.of_eraseParens alike_pointeeCompatible ?_ ?_)
      · exact pointee.eraseParens_eraseInner.symm
      · exact other.eraseParens_eraseInner.symm
    | _ => exact .refl _
  | tuple targets =>
    cases source with
    | union sources => exact hall sources
    | tuple sources =>
      have hpair : ∀ pair : Ty × Ty,
          Alike judge id (askCompatible pair.1 pair.2)
          (askCompatible (Prod.map Ty.eraseInner Ty.eraseInner pair).1
            (Prod.map Ty.eraseInner Ty.eraseInner pair).2) :=
        fun pair => hjudge.compatible pair.1 pair.2
      refine .ite ?_ (.allOf hpair ?_) (.refl _)
      · simp [Ty.eraseInnerAll_eq]
      · simp only [Ty.eraseInnerAll_eq, List.zip_map]
    | _ => exact .refl _
  | struct target =>
    cases source with
    | union sources => exact hall sources
    | struct source => exact alike_structCompatible hjudge target source
    | _ => exact .refl _
  | named | enum | errors | function | paren =>
    cases source with
    | union sources => exact hall sources
    | _ => exact .refl _

theorem alike_isCompatible (hjudge : judge.IsParenBlind) (target source : Ty)
    (expr : Option Expr) :
    Alike judge id (isCompatible target source expr)
      (isCompatible target.eraseParens source.eraseParens expr) := by
  refine (alike_normalize target).thenBoth (alike_normalize source)
    fun target source => ?_
  refine .ite Iff.rfl (.pure ?_) (alike_compatible hjudge target source)
  unfold Ty.isAny
  rw [Ty.isPrim_eraseInner, Ty.same_eraseInner]

theorem alike_canCast (hjudge : judge.IsParenBlind) (target source : Ty) :
    Alike judge id (canCast target source)
      (canCast target.eraseParens source.eraseParens) := by
  refine (alike_isCompatible hjudge target source none).bind
    fun agree _ hagree => ?_
  cases hagree
  refine .ite Iff.rfl (.refl _) ?_
  refine (alike_normalize target).thenBoth (alike_normalize source)
    fun target source => ?_
  unfold Ty.isAny Ty.isBool
  rw [Ty.isPrim_eraseInner, Ty.isPrim_eraseInner, Ty.isPrim_eraseInner,
    Ty.isNumeric_eraseInner, Ty.isNumeric_eraseInner, Ty.isInteger_eraseInner]
  refine .ite Iff.rfl (.refl _)
    (.ite Iff.rfl (.refl _) (.ite Iff.rfl (.refl _) ?_))
  cases target with
  | enum enum => exact .pure source.isInteger_eraseInner.symm
  | pointer pointee mutable =>
    cases source with
    | enum | pointer => exact .refl _
    | _ => exact .pure (Ty.isInteger_eraseInner _).symm
  | optional inner =>
    cases source with
    | enum | pointer => exact .refl _
    | _ => exact hjudge.castable inner _
  | _ =>
    cases source with
    | enum | pointer => exact .pure (Ty.isInteger_eraseInner _).symm
    | _ => exact .refl _

end Comparison

theorem Judge.limited_isParenBlind (n : Nat) :
    (Judge.limited n).IsParenBlind := by
  induction n with
  | zero => exact ⟨fun _ _ _ => ⟨rfl, rfl⟩, fun _ _ _ => ⟨rfl, rfl⟩⟩
  | succ n ih =>
    refine ⟨alike_compatible ih, fun target source => ?_⟩
    have hcast : Alike (Judge.limited n) id (canCast target source)
        (canCast target.eraseInner source.eraseInner) :=
      .of_eraseParens (alike_canCast ih) target.eraseParens_eraseInner.symm
        source.eraseParens_eraseInner.symm
    exact hcast

/-- Parentheses are transparent.  Let two pairs of types differ only in
parentheses, at any depth.  Then in every session and for a judge of any depth,
what is expected accepts what is given in both pairs or in none, whichever
expression the value comes from, the same holds for casts, and the session is
left the same; and the types are the same in both pairs or in none. -/
theorem parentheses_are_transparent {target target' source source' : Ty}
    (htarget : target'.eraseParens = target.eraseParens)
    (hsource : source'.eraseParens = source.eraseParens) :
    (∀ (depth : Nat) (s : Session) (expr : Option Expr),
      isCompatible target' source' expr (Judge.limited depth) s =
        isCompatible target source expr (Judge.limited depth) s ∧
      canCast target' source' (Judge.limited depth) s =
        canCast target source (Judge.limited depth) s) ∧
    target'.same source' = target.same source := by
  refine ⟨fun depth s expr => ?_, ?_⟩
  · have hblind := Judge.limited_isParenBlind depth
    have hcompatible : Alike (Judge.limited depth) id
        (isCompatible target' source' expr) (isCompatible target source expr) :=
      .of_eraseParens (alike_isCompatible hblind · · expr) htarget hsource
    have hcast : Alike (Judge.limited depth) id (canCast target' source')
        (canCast target source) :=
      .of_eraseParens (alike_canCast hblind) htarget hsource
    exact ⟨hcompatible.run_eq s, hcast.run_eq s⟩
  · rw [← target'.same_eraseParens, htarget, hsource, target.same_eraseParens]

/-- An optional function accepts the function itself, also if the name of its
parameter is unknown and there are parentheses where they are not stripped. -/
theorem parentheses_are_transparent_of_unknown_parameter :
    (isCompatible
      (.optional (.paren (.function [.paren (.named "Gone")] .void none)))
      (.function [.named "Gone"] (.paren .void) none) none (Judge.limited 1)
      (Session.new ⟨[]⟩ {})).1 = true ∧
      (canCast
        (.optional (.paren (.function [.paren (.named "Gone")] .void none)))
        (.function [.named "Gone"] (.paren .void) none) (Judge.limited 1)
        (Session.new ⟨[]⟩ {})).1 = true ∧
      (Ty.paren (.function [.paren (.named "Gone")] .void none)).same
        (.function [.named "Gone"] (.paren .void) none) = true := by
  have htarget :
      (Ty.optional
        (.paren (.function [.paren (.named "Gone")] .void none))).eraseParens =
        (Ty.optional (.function [.named "Gone"] .void none)).eraseParens := rfl
  have hfunction :
      (Ty.paren (.function [.paren (.named "Gone")] .void none)).eraseParens =
      (Ty.function [.named "Gone"] .void none).eraseParens := rfl
  have hsource : (Ty.function [.named "Gone"] (.paren .void) none).eraseParens =
      (Ty.function [.named "Gone"] .void none).eraseParens := rfl
  obtain ⟨hcompatible, hcast⟩ :=
    (parentheses_are_transparent htarget hsource).1 1 (Session.new ⟨[]⟩ {}) none
  refine ⟨?_, ?_, ?_⟩
  · rw [hcompatible]
    decide +kernel
  · rw [hcast]
    decide +kernel
  · rw [(parentheses_are_transparent hfunction hsource).2]
    decide +kernel

end StaticCheck
