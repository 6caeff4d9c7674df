import StaticCheck.Proofs.Recall
import StaticCheck.Proofs.Resolution

/-!
# Members of unions

A union takes a value of each of its members, unless the member is an optional:
a union without null takes no optional, not even one that is its member.  If
null is a member, an optional is taken by its payload.
-/

namespace StaticCheck

open Rule

/-!
## A type and itself
-/

theorem Prim.same_self (a : Prim) : a.same a = true := by
  cases a <;> simp [Prim.same]

theorem Extent.same_self (a : Extent) : a.same a = true := by
  cases a <;> simp [Extent.same]

theorem EnumTy.same_self (a : EnumTy) : a.same a = true := by
  unfold EnumTy.same
  cases a.scope <;> simp

mutual

theorem Ty.same_of_unparen (a b : Ty) (h : b.unparen = a.unparen) :
    a.same b = true := by
  cases a with
  | paren a => exact Ty.same_of_unparen a b h
  | prim a => simp [Ty.same, h, Ty.unparen, Prim.same_self]
  | named | errors => simp [Ty.same, h, Ty.unparen]
  | enum a => simp [Ty.same, h, Ty.unparen, EnumTy.same_self]
  | pointer a | optional a =>
    simp [Ty.same, h, Ty.unparen, Ty.same_of_unparen a a rfl]
  | array a extent =>
    simp [Ty.same, h, Ty.unparen, Extent.same_self, Ty.same_of_unparen a a rfl]
  | tuple as | union as => simp [Ty.same, h, Ty.unparen, Ty.sameAll_self as]
  | function params result error =>
    simp [Ty.same, h, Ty.unparen, Ty.sameAll_self params,
      Ty.same_of_unparen result result rfl, Ty.sameOpt_self error]
  | struct struct =>
    obtain ⟨name, members, scope⟩ := struct
    cases scope with
    | some scope => simp [Ty.same, h, Ty.unparen, StructTy.sameName?]
    | none =>
      have hmembers := Member.sameAll_self members
      simp only [Ty.same, h, Ty.unparen, StructTy.sameName?]
      by_cases hname : StructTy.isAnonymous ⟨name, members, none⟩ = true
      · simp [hname, hmembers]
      · simp [hname]

theorem Ty.sameAll_self (as : List Ty) : Ty.sameAll as as = true := by
  cases as with
  | nil => rfl
  | cons a rest =>
    simp [Ty.sameAll, Ty.same_of_unparen a a rfl, Ty.sameAll_self rest]

theorem Ty.sameOpt_self (a : Option Ty) : Ty.sameOpt a a = true := by
  cases a with
  | none => rfl
  | some a => exact Ty.same_of_unparen a a rfl

theorem Member.sameAll_self (members : List Member) :
    Member.sameAll members members = true := by
  cases members with
  | nil => rfl
  | cons member rest =>
    obtain ⟨name, ty⟩ := member
    simp [Member.sameAll, Ty.same_of_unparen ty ty rfl,
      Member.sameAll_self rest]

end

theorem Ty.same_self (a : Ty) : a.same a = true := Ty.same_of_unparen a a rfl

/-!
## Rules that always accept
-/

def Accepts (judge : Judge) (rule : Rule Bool) :
    Prop := ∀ s, (rule judge s).1 = true

section

variable {α : Type} {judge : Judge} {rule : α → Rule Bool} {list : List α}

theorem Accepts.anyOf {a : α} (hmem : a ∈ list) (h : Accepts judge (rule a)) :
    Accepts judge (anyOf rule list) := by
  induction list with
  | nil => cases hmem
  | cons first rest ih =>
    intro s
    unfold Rule.anyOf
    rw [bind_run]
    cases hfirst : (rule first judge s).1 with
    | true => rfl
    | false =>
      rcases List.mem_cons.mp hmem with rfl | hrest
      · rw [h s] at hfirst
        cases hfirst
      · exact ih hrest _

theorem Accepts.allOf (h : ∀ a ∈ list, Accepts judge (rule a)) :
    Accepts judge (allOf rule list) := by
  induction list with
  | nil => exact fun _ => rfl
  | cons first rest ih =>
    intro s
    obtain ⟨hfirst, hrest⟩ := List.forall_mem_cons.mp h
    unfold Rule.allOf
    rw [bind_run, hfirst s]
    exact ih hrest _

end

/-!
## Members
-/

mutual

/-- How deep unions are nested in each other, as members or as payloads of
members. -/
def Ty.unionDepth : Ty → Nat
  | .union members => Ty.unionDepthAll members + 1
  | .optional inner => inner.unionDepth
  | _ => 0

def Ty.unionDepthAll : List Ty → Nat
  | [] => 0
  | ty :: rest => max ty.unionDepth (Ty.unionDepthAll rest)

end

theorem Ty.unionDepth_lt_of_mem {ty : Ty} {members : List Ty}
    (h : ty ∈ members) : ty.unionDepth < (Ty.union members).unionDepth := by
  have hle : ty.unionDepth ≤ Ty.unionDepthAll members := by
    induction members with
    | nil => cases h
    | cons first rest ih =>
      rw [Ty.unionDepthAll]
      rcases List.mem_cons.mp h with rfl | hrest
      · exact Nat.le_max_left _ _
      · exact (ih hrest).trans (Nat.le_max_right _ _)
  exact Nat.lt_succ_of_le hle

mutual

def Ty.isBare : Ty → Bool
  | .optional _ => false
  | .union members => Ty.areBare members
  | _ => true

def Ty.areBare : List Ty → Bool
  | [] => true
  | ty :: rest => ty.isBare && Ty.areBare rest

end

theorem Ty.areBare_eq_all (tys : List Ty) :
    Ty.areBare tys = tys.all Ty.isBare := by
  induction tys with
  | nil => rfl
  | cons ty rest ih => simp [Ty.areBare, ih]

theorem Ty.isBare_of_mem {ty : Ty} {members : List Ty} (h : ty ∈ members)
    (hbare : (Ty.union members).isBare = true) : ty.isBare = true := by
  rw [Ty.isBare, Ty.areBare_eq_all, List.all_eq_true] at hbare
  exact hbare ty h

mutual

/-- Whether a member of a union is taken by it.  An optional has to be next to
null and to have a bare payload.  A union has to take its own members. -/
def Ty.isTaken : List Ty → Ty → Bool
  | siblings, .optional inner => siblings.any Ty.isNull && inner.isBare
  | _, .union members => Ty.areTaken members members
  | _, _ => true

def Ty.areTaken : List Ty → List Ty → Bool
  | _, [] => true
  | siblings, ty :: rest => ty.isTaken siblings && Ty.areTaken siblings rest

end

theorem Ty.areTaken_eq_all (siblings tys : List Ty) :
    Ty.areTaken siblings tys = tys.all (Ty.isTaken siblings) := by
  induction tys with
  | nil => rfl
  | cons ty rest ih => simp [Ty.areTaken, ih]

/-- One type is the other, or a union with a member that reaches it. -/
inductive Ty.Reaches : Ty → Ty → Prop
  | refl (ty : Ty) : Ty.Reaches ty ty
  | member {members : List Ty} {between ty : Ty} (hmem : between ∈ members)
      (h : between.Reaches ty) : Ty.Reaches (.union members) ty

theorem Ty.Reaches.next {ty member : Ty} {members : List Ty}
    (h : ty.Reaches (.union members)) (hmem : member ∈ members) :
    ty.Reaches member := by
  generalize hunion : Ty.union members = union at h
  induction h with
  | refl =>
    subst hunion
    exact .member hmem (.refl member)
  | member hbetween _ ih => exact .member hbetween (ih hunion)

/-!
## Compatibility with a union
-/

section

variable {judge : Judge} {depth : Nat} {target source : Ty} {members : List Ty}

theorem compatible_of_same {s : Session} (h : target.same source = true) :
    compatible target source judge s = (true, s) := by
  unfold compatible
  rw [if_pos h]
  rfl

theorem accepts_self (ty : Ty) : Accepts judge (compatible ty ty) := by
  intro s
  rw [compatible_of_same ty.same_self]

/-- A type is taken at once, or it is taken if the rule for the forms of both
takes it. -/
theorem accepts_of_form {form : Rule Bool} (h : Accepts judge form)
    (hform : ¬target.same source = true →
      ¬(source.isNoreturn || source.isPrim .undefined) = true →
        compatible target source = form) :
    Accepts judge (compatible target source) := by
  intro s
  by_cases hsame : target.same source = true
  · rw [compatible_of_same hsame]
  · by_cases habsent : (source.isNoreturn || source.isPrim .undefined) = true
    · unfold compatible
      rw [if_neg hsame, if_pos habsent]
      rfl
    · rw [hform hsame habsent]
      exact h s

theorem accepts_union (hmem : target ∈ members)
    (hoptional : ∀ inner, source ≠ .optional inner)
    (hunion : ∀ sources, source ≠ .union sources)
    (h : Accepts judge (askCompatible target source)) :
    Accepts judge (compatible (.union members) source) := by
  have hany :
      Accepts judge
      (anyOf (fun target => askCompatible target source) members) :=
    .anyOf hmem h
  refine accepts_of_form hany fun hsame habsent => ?_
  unfold compatible
  rw [if_neg hsame, if_neg habsent]
  cases source with
  | optional inner => exact absurd rfl (hoptional inner)
  | union sources => exact absurd rfl (hunion sources)
  | _ => rfl

theorem accepts_union_of_union {sources : List Ty}
    (h : ∀ source ∈ sources, ∃ target ∈ members,
      Accepts judge (askCompatible target source)) :
    Accepts judge (compatible (.union members) (.union sources)) := by
  have hall : Accepts judge (allOf (fun source =>
      anyOf (fun target => askCompatible target source) members) sources) := by
    refine .allOf fun source hsource => ?_
    obtain ⟨target, hmem, htarget⟩ := h source hsource
    exact .anyOf hmem htarget
  refine accepts_of_form hall fun hsame habsent => ?_
  unfold compatible
  rw [if_neg hsame, if_neg habsent]

theorem accepts_union_of_optional {inner : Ty}
    (hnull : members.any Ty.isNull = true) (hmem : target ∈ members)
    (h : Accepts judge (askCompatible target inner)) :
    Accepts judge (compatible (.union members) (.optional inner)) := by
  have hany :
      Accepts judge
      (anyOf (fun target => askCompatible target inner) members) :=
    .anyOf hmem h
  refine accepts_of_form hany fun hsame habsent => ?_
  unfold compatible
  rw [if_neg hsame, if_neg habsent]
  exact if_pos hnull

theorem compatible_union_optional_of_no_null {inner : Ty}
    (hnull : members.any Ty.isNull = false) (s : Session) :
    compatible (.union members) (.optional inner) judge s = (false, s) := by
  have hsame : ¬(Ty.union members).same (.optional inner) = true :=
    Bool.false_ne_true
  have habsent : ¬((Ty.optional inner).isNoreturn ||
      (Ty.optional inner).isPrim .undefined) = true := Bool.false_ne_true
  unfold compatible
  rw [if_neg hsame, if_neg habsent]
  dsimp only
  rw [hnull]
  rfl

theorem accepts_optional_of_union {inner : Ty} {sources : List Ty}
    (h : ∀ source ∈ sources,
      Accepts judge (askCompatible (.optional inner) source)) :
    Accepts judge (compatible (.optional inner) (.union sources)) := by
  have hall : Accepts judge (allOf (askCompatible (.optional inner)) sources) :=
    .allOf h
  refine accepts_of_form hall fun hsame habsent => ?_
  unfold compatible
  rw [if_neg hsame, if_neg habsent]

theorem accepts_optional {inner : Ty}
    (hoptional : ∀ inner, source ≠ .optional inner)
    (hunion : ∀ sources, source ≠ .union sources)
    (h : Accepts judge (askCompatible inner source)) :
    Accepts judge (compatible (.optional inner) source) := by
  by_cases hnull : source = .null
  · subst hnull
    exact fun _ => rfl
  · refine accepts_of_form h fun hsame habsent => ?_
    unfold compatible
    rw [if_neg hsame, if_neg habsent]
    cases source with
    | optional inner => exact absurd rfl (hoptional inner)
    | union sources => exact absurd rfl (hunion sources)
    | prim p =>
      cases p with
      | null => exact absurd rfl hnull
      | _ => rfl
    | _ => rfl

theorem accepts_of_reaches (hreaches : target.Reaches source)
    (hbare : source.isBare = true) (hdepth : target.unionDepth ≤ depth) :
    Accepts (Judge.limited depth) (compatible target source) := by
  induction depth generalizing target source with
  | zero =>
    cases hreaches with
    | refl => exact accepts_self _
    | member => cases hdepth
  | succ depth ih =>
    cases hreaches with
    | refl => exact accepts_self _
    | @member members between _ hmem hbetween =>
      have hless : between.unionDepth ≤ depth := by
        have := Ty.unionDepth_lt_of_mem hmem
        omega
      cases source with
      | optional inner => cases hbare
      | union sources =>
        refine accepts_union_of_union fun source hsource => ⟨between, hmem, ?_⟩
        exact ih (hbetween.next hsource) (Ty.isBare_of_mem hsource hbare) hless
      | _ =>
        refine accepts_union hmem (by simp) (by simp) ?_
        exact ih hbetween hbare hless

theorem accepts_optional_of_reaches {inner : Ty}
    (hreaches : inner.Reaches source) (hbare : source.isBare = true)
    (hdepth : source.unionDepth + inner.unionDepth < depth) :
    Accepts (Judge.limited depth) (compatible (.optional inner) source) := by
  induction depth generalizing source with
  | zero => cases hdepth
  | succ depth ih =>
    cases source with
    | optional inner => cases hbare
    | union sources =>
      refine accepts_optional_of_union fun source hsource => ?_
      have hless := Ty.unionDepth_lt_of_mem hsource
      exact ih (hreaches.next hsource)
        (Ty.isBare_of_mem hsource hbare) (by omega)
    | _ =>
      refine accepts_optional (by simp) (by simp) ?_
      exact accepts_of_reaches hreaches hbare (by omega)

theorem accepts_member {ty : Ty} (hmem : ty ∈ members)
    (htaken : ty.isTaken members = true)
    (hdepth : 2 * ty.unionDepth + 2 ≤ depth) :
    Accepts (Judge.limited depth) (compatible (.union members) ty) := by
  induction depth generalizing members ty with
  | zero => omega
  | succ depth ih =>
    cases ty with
    | optional inner =>
      obtain ⟨hnull, hbare⟩ := Bool.and_eq_true_iff.mp htaken
      rw [Ty.unionDepth] at hdepth
      refine accepts_union_of_optional hnull hmem ?_
      exact accepts_optional_of_reaches (.refl inner) hbare (by omega)
    | union inner =>
      rw [Ty.isTaken, Ty.areTaken_eq_all, List.all_eq_true] at htaken
      refine accepts_union_of_union fun ty hty => ⟨_, hmem, ?_⟩
      have hless := Ty.unionDepth_lt_of_mem hty
      exact ih hty (htaken ty hty) (by omega)
    | _ => exact accepts_union hmem (by simp) (by simp) (accepts_self _)

theorem resolveAll_recalled {tys answer : List Ty} {s t : Session}
    (haliases : s.tree.AliasesAre (·.isLengthFree = true))
    (htys : Ty.everyAll Ty.isFolded tys = true)
    (hrun : resolveAll .none false tys (Judge.limited depth) s =
      (some answer, t)) :
    s.Records t ∧ ∀ ty ∈ tys, ∃ found ∈ answer, ∀ u, t.Records u →
      tryResolve ty (Judge.limited depth) u = (some found, u) := by
  induction tys generalizing s answer with
  | nil =>
    cases hrun
    exact ⟨.refl _, by simp⟩
  | cons ty rest ih =>
    obtain ⟨hty, hrest⟩ := Bool.and_eq_true_iff.mp htys
    obtain ⟨found, mid, hfound, hrun⟩ := exists_of_bind (fun _ => rfl) hrun
    obtain ⟨others, last, hothers, hrun⟩ := exists_of_bind (fun _ => rfl) hrun
    cases hrun
    obtain ⟨hfirst, hagain⟩ :=
      recalls_isLengthFree depth hty s found mid haliases hfound trivial
    obtain ⟨hrecords, hmembers⟩ :=
      ih (haliases.records hfirst.tree) hrest hothers
    refine ⟨hfirst.trans hrecords,
      List.forall_mem_cons.mpr ⟨⟨found, .head _, ?_⟩, ?_⟩⟩
    · exact fun u hu => hagain _ u (hrecords.trans hu)
    · intro other hother
      obtain ⟨answer, hanswer, hu⟩ := hmembers other hother
      exact ⟨answer, .tail _ hanswer, hu⟩

end

/-- A union takes its members.  Let a union be resolved.  If no array length has
to be folded, each of its members stands for a member of the answer then.  A
member that stands for a member of the answer is compatible with the union if it
is taken as such.  If it is an optional and null is not a member, it is not
compatible. -/
theorem union_takes_members_unless_optional
    {n : Nat}
    {members answer : List Ty}
    {s t : Session}
    (h : tryResolve (.union members) (Judge.limited n) s =
      (some (.union answer), t)) :
    ((Ty.union members).isLengthFree = true → s.tree.isLengthFree = true →
      ∀ member ∈ members, ∃ ty ∈ answer,
      (tryResolve member (Judge.limited n) t).1 = some ty) ∧
    ∀ member, ∀ ty ∈ answer, (tryResolve member (Judge.limited n) t).1 =
      some ty → (ty.isTaken answer = true → 2 * ty.unionDepth + 2 ≤ n →
        (isCompatible (.union members) member none (Judge.limited n) s).1 =
        true) ∧
      (∀ inner, ty = .optional inner → answer.any Ty.isNull = false →
        (isCompatible (.union members) member none (Judge.limited n) s).1 =
        false) := by
  refine ⟨fun hmembers htree member hmember => ?_,
    fun member ty hty hmember => ?_⟩
  · obtain ⟨found, mid, hfound, hrun⟩ := exists_of_bind (fun _ => rfl) h
    cases hrun
    obtain ⟨-, hall⟩ :=
      resolveAll_recalled (ScopeTree.aliased_isLengthFree htree) hmembers hfound
    obtain ⟨ty, hty, hagain⟩ := hall member hmember
    exact ⟨ty, hty, congrArg Prod.fst (hagain t (.refl t))⟩
  · have hrun : ∀ u, tryResolve member (Judge.limited n) t = (some ty, u) →
        isCompatible (.union members) member none (Judge.limited n) s =
          compatible (.union answer) ty (Judge.limited n) u := by
      intro u hu
      unfold isCompatible
      rw [bind_of_run (bind_of_run h), bind_of_run (bind_of_run hu)]
      rfl
    rw [hrun _ (Prod.ext hmember rfl)]
    refine ⟨fun htaken hdepth => accepts_member hty htaken hdepth _,
      fun inner hinner hnull => ?_⟩
    subst hinner
    rw [compatible_union_optional_of_no_null hnull]

def nullableAlias : Program :=
  soleModule [declareSynonym 1 "A" (.union [.null, .optional .bool])]

def inNullableAlias : Session :=
  { Session.new nullableAlias {} with
    tree := (Session.new nullableAlias {}).tree.enter ⟨1⟩ }

theorem union_takes_members_unless_optional_of_nullable :
    ([Ty.named "A", .null, .optional (.int true 32)].all fun member =>
      (isCompatible (.union [.named "A", .null, .optional (.int true 32)])
        member none (Judge.limited 4) inNullableAlias).1) = true := by
  have hunion :
      (tryResolve (.union [.named "A", .null, .optional (.int true 32)])
      (Judge.limited 4) inNullableAlias).1 =
        some (.union
          [.union [.null, .optional .bool], .null,
            .optional (.int true 32)]) := by
    rfl
  have htaken :
      ∀ ty ∈
      [Ty.union [.null, .optional .bool], .null, .optional (.int true 32)],
      ty.isTaken [.union [.null, .optional .bool], .null,
        .optional (.int true 32)] = true ∧ 2 * ty.unionDepth + 2 ≤ 4 := by
    decide
  obtain ⟨hstands, htakes⟩ :=
    union_takes_members_unless_optional (Prod.ext hunion rfl)
  refine List.all_eq_true.mpr fun member hmember => ?_
  obtain ⟨ty, hty, hresolved⟩ := hstands rfl (by decide +kernel) member hmember
  exact (htakes member ty hty hresolved).1 (htaken ty hty).1 (htaken ty hty).2

/-- An optional is a member of the union, but the union does not take it. -/
theorem optional_member_is_refused :
    (Check.isCompatible (.union [.bool, .optional (.int true 32)])
      (.optional (.int true 32)) none (Session.new (soleModule []) {})).1 =
      false := by
  decide +kernel

end StaticCheck
