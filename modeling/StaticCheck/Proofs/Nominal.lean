import StaticCheck.Proofs.Identity

/-!
# Declared structs and error sets

Declared structs of different scopes are never the same type, but they are
compatible if they have the same name.  A struct that is declared under the name
of the structs written in place is compared by its fields, as these are.  Error
sets are compatible if the target includes the source, as long as the target
names no error twice.
-/

namespace StaticCheck

open Rule

variable {judge : Judge} {s : Session}

theorem isCompatible_of_canonical {target source : Ty}
    (htarget : target.isCanonical = true) (hsource : source.isCanonical = true)
    (expr : Option Expr) :
    isCompatible target source expr judge s =
      (if expr.any Expr.isDeref then (target.isAny || target.same source, s)
        else compatible target source judge s) := by
  unfold isCompatible
  rw [bind_of_run (normalize_of_canonical htarget),
    bind_of_run (normalize_of_canonical hsource)]
  by_cases hderef : expr.any Expr.isDeref = true
  · rw [if_pos hderef, if_pos hderef]
    rfl
  · rw [if_neg hderef, if_neg hderef]

/-!
## Members
-/

section Members

variable {target source : StructTy} {members : List Member}

theorem StructTy.of_member?_eq_some {struct : StructTy} {name : String}
    {member : Member} (h : struct.member? name = some member) :
    member ∈ struct.members ∧ member.name = name := by
  exact ⟨List.mem_of_find?_eq_some h, by simpa using List.find?_some h⟩

theorem StructTy.member?_of_mem {struct : StructTy} {member : Member}
    (hnames : (struct.members.map Member.name).Nodup)
    (hmem : member ∈ struct.members) :
    struct.member? member.name = some member := by
  cases hfound : struct.member? member.name with
  | none =>
    have hnone := List.find?_eq_none.mp hfound member hmem
    simp at hnone
  | some other =>
    obtain ⟨hother, hname⟩ := StructTy.of_member?_eq_some hfound
    rw [List.inj_on_of_nodup_map hnames hother hmem hname]

theorem of_membersCompatible_cons {first : Member}
    (h : (membersCompatible target source (first :: members) judge s).1 =
      true) :
    (∃ provided, source.member? first.name = some provided) ∧
      ∃ t, (membersCompatible target source members judge t).1 = true := by
  unfold membersCompatible at h
  cases hprovided : source.member? first.name with
  | none =>
    rw [hprovided] at h
    cases h
  | some provided =>
    rw [hprovided] at h
    dsimp only at h
    rw [bind_run, bind_run] at h
    refine ⟨⟨provided, rfl⟩, ?_⟩
    -- the rest is come to only if both types are resolved and compatible
    cases hexpected : (resolveMember target first judge s).1 with
    | none =>
      rw [hexpected] at h
      cases h
    | some expected =>
      rw [hexpected] at h
      generalize resolveMember source provided judge (resolveMember target
        first judge s).2 = run at h
      obtain ⟨received?, mid⟩ := run
      cases received? with
      | none => cases h
      | some received =>
        dsimp only at h
        rw [bind_run] at h
        cases hanswer : (askCompatible expected received judge mid).1 with
        | false =>
          rw [hanswer] at h
          cases h
        | true =>
          rw [hanswer] at h
          exact ⟨_, h⟩

theorem exists_of_membersCompatible
    (h : (membersCompatible target source members judge s).1 = true) :
    ∀ member ∈ members, ∃ other ∈ source.members, other.name = member.name := by
  induction members generalizing s with
  | nil => simp
  | cons first rest ih =>
    obtain ⟨⟨provided, hprovided⟩, t, hrest⟩ := of_membersCompatible_cons h
    exact List.forall_mem_cons.mpr
      ⟨⟨provided, StructTy.of_member?_eq_some hprovided⟩, ih hrest⟩

theorem resolveMember_of_canonical (struct : StructTy) {member : Member}
    (h : member.ty.isCanonical = true) :
    resolveMember struct member judge s = (some member.ty, s) := by
  unfold resolveMember
  cases struct.scope with
  | none => exact resolveTy_of_canonical judge s member.ty h
  | some scope =>
    unfold inScope? withScope tryResolve
    simp only [bind_run, resolveTy_of_canonical _ _ member.ty h]
    rfl

theorem membersCompatible_self {n : Nat}
    (hnames : (source.members.map Member.name).Nodup)
    (hmembers : ∀ member ∈ members, member ∈ source.members ∧
      member.ty.isCanonical = true) :
    membersCompatible target source members (Judge.limited (n + 1)) s =
      (true, s) := by
  induction members with
  | nil => rfl
  | cons first rest ih =>
    obtain ⟨⟨hmem, hcanonical⟩, hrest⟩ := List.forall_mem_cons.mp hmembers
    unfold membersCompatible
    rw [StructTy.member?_of_mem hnames hmem]
    dsimp only
    rw [bind_of_run (resolveMember_of_canonical target hcanonical),
      bind_of_run (resolveMember_of_canonical source hcanonical)]
    have hself : askCompatible first.ty first.ty (Judge.limited (n + 1)) s =
        (true, s) :=
      compatible_of_same first.ty.same_self
    dsimp only
    rw [bind_of_run hself]
    exact ih hrest

end Members

/-!
## Structs
-/

theorem compatible_struct {target source : StructTy}
    (h : (Ty.struct target).same (.struct source) = false) :
    compatible (.struct target) (.struct source) =
      structCompatible target source := by
  unfold compatible
  rw [if_neg (by simp [h])]
  rfl

theorem structCompatible_of_scope_ne {target source : StructTy}
    (hscope : target.scope ≠ source.scope) :
    structCompatible target source =
      if !target.isAnonymous && !source.isAnonymous then pure
      (target.name == source.name)
      else if target.members.length != source.members.length then pure false
      else membersCompatible target source target.members := by
  unfold structCompatible
  rw [if_neg (by simp [hscope])]

theorem StructDecl.toTy_canonical (decl : StructDecl) (members : ScopeId) :
    (decl.toTy members).isCanonical = true := rfl

def StructDecl.toStruct (decl : StructDecl) (members : ScopeId) : StructTy :=
  ⟨decl.name, decl.fields.map fun field => ⟨field.name, field.ty⟩, some members⟩

section Structs

variable {a b : StructDecl} {i j : ScopeId}

theorem StructDecl.toTy_not_same (hscopes : i ≠ j) :
    (a.toTy i).same (b.toTy j) = false := by
  simp [StructDecl.toTy, Ty.same, Ty.unparen, StructTy.sameName?, hscopes]

theorem compatible_toTy (hscopes : i ≠ j) :
    compatible (a.toTy i) (b.toTy j) =
      if !(a.toStruct i).isAnonymous && !(b.toStruct j).isAnonymous then pure
      (a.name == b.name)
      else if (a.toStruct i).members.length !=
      (b.toStruct j).members.length then pure false
      else membersCompatible (a.toStruct i) (b.toStruct j)
      (a.toStruct i).members := by
  have hscope : (a.toStruct i).scope ≠ (b.toStruct j).scope := by
    simpa [StructDecl.toStruct] using hscopes
  exact (compatible_struct (StructDecl.toTy_not_same hscopes)).trans
    (structCompatible_of_scope_ne hscope)

theorem compatible_toTy_of_names (hscopes : i ≠ j) (ha : a.name ≠ anonymousName)
    (hb : b.name ≠ anonymousName) :
    compatible (a.toTy i) (b.toTy j) = pure (a.name == b.name) := by
  rw [compatible_toTy hscopes, if_pos]
  simp [StructTy.isAnonymous, StructDecl.toStruct, ha, hb]

theorem compatible_toTy_of_anonymous (hscopes : i ≠ j)
    (h : a.name = anonymousName ∨ b.name = anonymousName) :
    compatible (a.toTy i) (b.toTy j) =
      if (a.toStruct i).members.length != (b.toStruct j).members.length then
        pure false
      else membersCompatible (a.toStruct i) (b.toStruct j)
      (a.toStruct i).members := by
  rw [compatible_toTy hscopes, if_neg]
  simpa [StructTy.isAnonymous, StructDecl.toStruct, or_iff_not_imp_left] using h

theorem exists_field_of_compatible (hscopes : i ≠ j)
    (hname : a.name = anonymousName ∨ b.name = anonymousName)
    (h : (compatible (a.toTy i) (b.toTy j) judge s).1 = true) :
    a.fields.length = b.fields.length ∧
      ∀ field ∈ a.fields, ∃ other ∈ b.fields, other.name = field.name := by
  rw [compatible_toTy_of_anonymous hscopes hname] at h
  by_cases hlength : (a.toStruct i).members.length =
    (b.toStruct j).members.length
  · rw [if_neg (by simp [hlength])] at h
    refine ⟨by simpa [StructDecl.toStruct] using hlength,
      fun field hfield => ?_⟩
    have hmember : ⟨field.name, field.ty⟩ ∈ (a.toStruct i).members :=
      List.mem_map_of_mem hfield
    obtain ⟨member, hmember, hsame⟩ := exists_of_membersCompatible h _ hmember
    obtain ⟨other, hother, rfl⟩ := List.mem_map.mp hmember
    exact ⟨other, hother, hsame⟩
  · rw [if_pos (by simpa using hlength)] at h
    cases h

theorem compatible_of_same_members {n : Nat} (hscopes : i ≠ j)
    (hname : a.name = anonymousName ∨ b.name = anonymousName)
    (hmembers : (a.toStruct i).members = (b.toStruct j).members)
    (hnames : (a.fields.map Slot.name).Nodup)
    (hcanonical : ∀ field ∈ a.fields, field.ty.isCanonical = true) :
    (compatible (a.toTy i) (b.toTy j) (Judge.limited (n + 1)) s).1 = true := by
  rw [compatible_toTy_of_anonymous hscopes hname, if_neg (by simp [hmembers])]
  have hnames : ((b.toStruct j).members.map Member.name).Nodup := by
    rw [← hmembers]
    simpa [StructDecl.toStruct, Function.comp_def] using hnames
  rw [membersCompatible_self hnames]
  intro member hmember
  refine ⟨hmembers ▸ hmember, ?_⟩
  obtain ⟨field, hfield, rfl⟩ := List.mem_map.mp hmember
  exact hcanonical field hfield

end Structs

/-- Two declared structs whose members are in different scopes are not the same
type.  They are compatible if and only if they have the same name, whatever
their fields are.  There are two exceptions.  A value read through a pointer has
to match exactly and does not.  And if one of them has the name of the structs
written in place, they are compared as these are: they are compatible if their
fields are written alike, and only if these are as many and of the same
names. -/
theorem declared_structs_are_compared_by_name
    (a b : StructDecl)
    {i j : ScopeId}
    (hscopes : i ≠ j)
    (judge : Judge)
    (s : Session)
    (expr : Option Expr) :
    (a.toTy i).same (b.toTy j) = false ∧
    (expr.any Expr.isDeref = true →
      (isCompatible (a.toTy i) (b.toTy j) expr judge s).1 = false) ∧
    (expr.any Expr.isDeref = false → a.name ≠ anonymousName →
      b.name ≠ anonymousName →
      ((isCompatible (a.toTy i) (b.toTy j) expr judge s).1 = true ↔
        a.name = b.name)) ∧
    (expr.any Expr.isDeref = false → a.name = anonymousName ∨
      b.name = anonymousName →
      ((isCompatible (a.toTy i) (b.toTy j) expr judge s).1 = true →
        a.fields.length = b.fields.length ∧ ∀ field ∈ a.fields,
        ∃ other ∈ b.fields, other.name = field.name) ∧
      ((a.toStruct i).members = (b.toStruct j).members →
        (a.fields.map Slot.name).Nodup →
        (∀ field ∈ a.fields, field.ty.isCanonical = true) →
        ∀ n,
        (isCompatible (a.toTy i) (b.toTy j) expr (Judge.limited (n + 1)) s).1 =
        true)) := by
  have hsame : (a.toTy i).same (b.toTy j) = false :=
    StructDecl.toTy_not_same hscopes
  simp only [isCompatible_of_canonical (StructDecl.toTy_canonical a i)
    (StructDecl.toTy_canonical b j)]
  refine ⟨hsame, fun hderef => ?_, fun hderef ha hb => ?_, fun hderef hname =>
    ⟨fun h => ?_, ?_⟩⟩
  · rw [if_pos hderef, hsame]
    rfl
  · rw [if_neg (by simp [hderef]), compatible_toTy_of_names hscopes ha hb]
    exact beq_iff_eq
  · rw [if_neg (by simp [hderef])] at h
    exact exists_field_of_compatible hscopes hname h
  · intro hmembers hnames hcanonical n
    rw [if_neg (by simp [hderef])]
    exact compatible_of_same_members hscopes hname hmembers hnames hcanonical

def oneField (name field : String) (ty : Ty) : StructDecl :=
  ⟨⟨1⟩, name, .priv, [⟨field, ty, .pub, false, none, .none⟩], [], .none⟩

theorem declared_structs_are_compared_by_name_of_two_names :
    (isCompatible ((oneField "P" "x" .bool).toTy ⟨3⟩)
      ((oneField "Q" "x" .bool).toTy ⟨4⟩) none (Judge.limited 3)
      (Session.new (soleModule []) {})).1 = false := by
  obtain ⟨-, -, hnames, -⟩ :=
    declared_structs_are_compared_by_name (oneField "P" "x" .bool)
      (oneField "Q" "x" .bool)
      (i := ⟨3⟩) (j := ⟨4⟩) (by decide) (Judge.limited 3)
      (Session.new (soleModule []) {}) none
  exact Bool.eq_false_iff.mpr
    (mt (hnames rfl (by decide) (by decide)).mp (by decide))

def namesakes : Program :=
  ⟨[⟨⟨0⟩, "m", "m", [⟨⟨1⟩, .none,
      .struct { oneField "S" "x" (.int true 32) with id := ⟨2⟩ }⟩]⟩,
    ⟨⟨3⟩, "n", "n",
      [⟨⟨4⟩, .none, .struct { oneField "S" "y" .bool with id := ⟨5⟩ }⟩]⟩]⟩

/-- The two structs are different types, but each is compatible with the
other. -/
theorem namesakes_are_compatible :
    namesakes.collect.tree.nodeScope? ⟨2⟩ = some ⟨3⟩ ∧
    namesakes.collect.tree.nodeScope? ⟨5⟩ = some ⟨4⟩ ∧
    ((oneField "S" "x" (.int true 32)).toTy ⟨3⟩).same
      ((oneField "S" "y" .bool).toTy ⟨4⟩) = false ∧
    (Check.isCompatible ((oneField "S" "x" (.int true 32)).toTy ⟨3⟩)
      ((oneField "S" "y" .bool).toTy ⟨4⟩) none (Session.new namesakes {})).1 =
      true ∧
    (Check.isCompatible ((oneField "S" "y" .bool).toTy ⟨4⟩)
      ((oneField "S" "x" (.int true 32)).toTy ⟨3⟩) none
      (Session.new namesakes {})).1 = true := by
  decide +kernel

/-!
## Error sets
-/

theorem compatible_errors (members thrown : List String) :
    (compatible (.errors members) (.errors thrown) judge s).1 = true ↔
      thrown ⊆ members ∨ members.length = thrown.length ∧ members ⊆ thrown := by
  have hsame : (Ty.errors members).same (.errors thrown) = true ↔
      members.length = thrown.length ∧ members ⊆ thrown := by
    simp [Ty.same_errors_iff, Ty.unparen]
  by_cases h : (Ty.errors members).same (.errors thrown) = true
  · rw [compatible_of_same h]
    exact iff_of_true rfl (.inr (hsame.mp h))
  · unfold compatible
    rw [if_neg h, or_iff_left (mt hsame.mpr h)]
    change thrown.all members.contains = true ↔ thrown ⊆ members
    simp [List.subset_def]

/-- A set of errors is compatible with another if it includes it, or if it has
the same length and is included in it.  The latter makes a difference only if it
names an error twice. -/
theorem error_sets_are_compatible_by_inclusion
    (judge : Judge)
    (s : Session)
    (members thrown : List String) :
    ((isCompatible (.errors members) (.errors thrown) none judge s).1 = true ↔
      thrown ⊆ members ∨ members.length = thrown.length ∧ members ⊆ thrown) ∧
    (members.Nodup →
      ((isCompatible (.errors members) (.errors thrown) none judge s).1 = true ↔
        thrown ⊆ members)) := by
  have hexact :
      (isCompatible (.errors members) (.errors thrown) none judge s).1 = true ↔
      thrown ⊆ members ∨ members.length = thrown.length ∧ members ⊆ thrown := by
    rw [isCompatible_of_canonical rfl rfl]
    exact compatible_errors members thrown
  refine ⟨hexact, fun hnodup => hexact.trans (or_iff_left_of_imp ?_)⟩
  rintro ⟨hlength, hsubset⟩
  exact subset_of_nodup_of_length_eq hnodup hlength hsubset

theorem error_sets_are_compatible_by_inclusion_of_repeated_source :
    (isCompatible (.errors ["A", "B"]) (.errors ["B", "B", "A"]) none
      (Judge.limited 1) (Session.new (soleModule []) {})).1 = true := by
  exact ((error_sets_are_compatible_by_inclusion (Judge.limited 1)
    (Session.new (soleModule []) {})
    ["A", "B"] ["B", "B", "A"]).2 (by decide)).mpr (by decide)

/-- The second set has an error that the first does not name. -/
theorem error_set_takes_more_than_it_names :
    ¬["A", "B"] ⊆ ["A", "A"] ∧
    (Check.isCompatible (.errors ["A", "A"]) (.errors ["A", "B"]) none
      (Session.new (soleModule []) {})).1 = true := by
  decide +kernel

end StaticCheck
