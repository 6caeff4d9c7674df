import StaticCheck.Proofs.Visits

/-!
# Complete literals

An object literal gets the type of a declared struct in three ways: by its name,
by the type that is expected, and as the first member of an expected union or
optional whose shape it fits.  The shape is only tried; on all three ways the
same check is then run in earnest.  So if nothing is reported, every given field
is one that may be given from here, and no field is left out that has to be
given.
-/

namespace StaticCheck

open Rule

/-!
## Runs that report no error
-/

def Session.Quiet (s t : Session) : Prop :=
  ∀ report ∈ t.diagnostics.items.drop s.diagnostics.size, report.isError = false

theorem Session.quiet_of_errorsSince {s t : Session}
    (h : t.diagnostics.errorsSince s.diagnostics.size = 0) : s.Quiet t := by
  intro report hreport
  have hnone := List.countP_eq_zero.mp h report hreport
  simpa using hnone

theorem Session.not_quiet_of_error (s : Session) (problem : Problem)
    (span : Span) :
    ¬s.Quiet { s with diagnostics := s.diagnostics.error problem span } := by
  intro hquiet
  have hreport := hquiet ⟨⟨problem, span⟩, .error⟩ (by
    simp [Diagnostics.error, Diagnostics.push, Diagnostics.size])
  cases hreport

namespace Passes

variable {α β : Type} {n : Nat} {rule : Rule α} {part : Rule β} {s : Session}
  {there : Session → Prop}

theorem quiet (h : Passes .free n rule s part there)
    (hquiet : s.Quiet (rule (Judge.limited n) s).2) :
    ∃ t, there t ∧ t.Quiet (part (Judge.limited n) t).2 := by
  obtain ⟨t, hthere, hbefore, hafter⟩ := h
  refine ⟨t, hthere, fun report hreport => hquiet report ?_⟩
  have hlater : report ∈ (rule (Judge.limited n) s).2.diagnostics.items.drop
      t.diagnostics.size := by
    obtain ⟨late, hlate⟩ := hafter.diagnostics
    rw [← hlate, List.drop_append]
    exact List.mem_append_left _ hreport
  exact List.drop_subset_drop_left _ hbefore.diagnostics.length_le hlater

theorem everyOf {γ : Type} {test : γ → Rule Bool} {items : List γ}
    (htest : ∀ a ∈ items, Composed .free .outside (test a)) {a : γ}
    (ha : a ∈ items) :
    Passes .free n (everyOf test items) s (test a) (s.Advances ·) := by
  induction items generalizing s with
  | nil => cases ha
  | cons first rest ih =>
    rw [List.forall_mem_cons] at htest
    have hfirst := htest.1.step n s.within_free
    have hrest : Composed .free .outside (Rule.everyOf test rest) :=
      .everyOf htest.2
    rcases List.mem_cons.mp ha with rfl | ha
    · refine .bind_left (.self (.refl s)) hfirst fun _ _ => ?_
      exact .bind hrest fun _ _ => .answer _
    · refine .bind_right hfirst.leads ?_
      obtain ⟨t, hadvances, hbefore, hafter⟩ :=
        ih (s := (test first (Judge.limited n) s).2) htest.2 ha
      exact ⟨t, hfirst.advances.trans hadvances, hbefore, hafter⟩

end Passes

/-!
## The check of a literal
-/

section Check

variable {n : Nat} {struct : StructTy} {scope : ScopeId}
    {fields : List ObjectField} {span : Span} {s t : Session}

def ScopeTree.Settable (tree : ScopeTree) (scope : ScopeId) (name : String) :
    Prop :=
  ∃ id, tree.lookupLocal scope name = some id ∧ (tree.symbol id).kind =
    .structField ∧ (tree.symbol id).isStatic = false ∧
    ((tree.symbol id).visibility = .priv →
      tree.isWithin tree.current scope = true)

theorem ScopeTree.Settable.of_advances {tree later : ScopeTree} {name : String}
    (h : later.Settable scope name) (hadvances : tree.Advances later) :
    tree.Settable scope name := by
  obtain ⟨id, hfound, hkind, hstatic, hwithin⟩ := h
  have hsymbol := hadvances.symbols id
  have hgrows := hadvances.grows
  rw [hgrows.lookupLocal_eq] at hfound
  rw [hsymbol.kind_eq] at hkind
  rw [Symbol.isStatic, hsymbol.visibility_eq] at hstatic
  rw [hsymbol.visibility_eq, hadvances.current, ScopeTree.isWithin,
    hgrows.chain_eq] at hwithin
  exact ⟨id, hfound, hkind, hstatic, hwithin⟩

theorem settable_of_quiet {field : ObjectField} {judge : Judge}
    (h : s.Quiet (settableField? struct scope field judge s).2) :
    s.tree.Settable scope field.name := by
  unfold settableField? at h
  rw [bind_tree] at h
  generalize hfound : Option.filter _ (s.tree.lookupLocal scope field.name) =
    found at h
  cases found with
  | none => exact absurd h (s.not_quiet_of_error _ _)
  | some id =>
    obtain ⟨hlocal, hkind⟩ := Option.filter_eq_some_iff.mp hfound
    refine ⟨id, hlocal, beq_iff_eq.mp hkind, ?_⟩
    dsimp only at h
    cases hvisibility : (s.tree.symbol id).visibility with
    | static =>
      rw [hvisibility] at h
      exact absurd h (s.not_quiet_of_error _ _)
    | priv =>
      rw [hvisibility] at h
      by_cases hwithin : s.tree.isWithin s.tree.current scope = true
      · simp [Symbol.isStatic, hvisibility, hwithin]
      · dsimp only at h
        rw [if_neg hwithin] at h
        exact absurd h (s.not_quiet_of_error _ _)
    | pub => simp [Symbol.isStatic, hvisibility]

theorem given_of_quiet {name : String} {judge : Judge}
    (h : s.Quiet (checkGiven struct fields span name judge s).2) :
    ∃ field ∈ fields, field.name = name := by
  unfold checkGiven at h
  by_cases hgiven : fields.any (·.name == name) = true
  · obtain ⟨field, hfield, hname⟩ := List.any_eq_true.mp hgiven
    exact ⟨field, hfield, beq_iff_eq.mp hname⟩
  · rw [if_neg hgiven] at h
    exact absurd h (s.not_quiet_of_error _ _)

theorem passes_settableField? {field : ObjectField} (h : s.Advances t) :
    Passes .free n (checkGivenField struct scope field) t
      (settableField? struct scope field) (s.Advances ·) := by
  have hsettable : Composed .free .outside
      (settableField? struct scope field) := .settableField?
  refine .bind_left (.self h) (hsettable.step n t.within_free) fun id _ => ?_
  cases id with
  | none => exact .answer false
  | some id =>
    refine .bindOption .symbolType (.answer false) fun expected hmeets => ?_
    exact .checkFieldValue hmeets field.value.suits_free

theorem passes_checkGivenField {field : ObjectField}
    (hscope : struct.scope = some scope) (h : s.Advances t)
    (hfield : field ∈ fields) :
    Passes .free n (checkConstruction struct fields span) t
      (checkGivenField struct scope field) (s.Advances ·) := by
  have hgiven : ∀ field ∈ fields, Composed .free .outside
      (checkGivenField struct scope field) :=
        fun field _ => .checkGivenField field.value.suits_free
  obtain ⟨u, hadvances, hpasses⟩ :=
    Passes.everyOf (n := n) (s := t) hgiven hfield
  unfold checkConstruction
  rw [hscope]
  refine .bind_left ⟨u, h.trans hadvances, hpasses⟩
    (Composed.step (.everyOf hgiven) n t.within_free) fun given _ => ?_
  refine .bind .requiredFields fun required _ => ?_
  exact .bind (.everyOf fun name _ => .checkGiven) fun complete _ => .answer _

theorem Symbol.Advances.isRequiredField_eq {a b : Symbol} (h : a.Advances b) :
    b.isRequiredField = a.isRequiredField := by
  rw [Symbol.isRequiredField, Symbol.isStatic, h.kind_eq,
    h.visibility_eq, h.info_eq]
  rfl

theorem mem_requiredFields {id : SymbolId} {judge : Judge}
    (h : s.tree.Advances t.tree) (hmember : id ∈ (s.tree.scope scope).symbols)
    (hrequired : (s.tree.symbol id).isRequiredField = true) :
    (s.tree.symbol id).name ∈ (requiredFields scope judge t).1 := by
  have hsymbol := h.symbols id
  have hname : (t.tree.symbol id).name = (s.tree.symbol id).name := by
    rw [hsymbol.fixed]
  rw [← h.grows.scope_eq] at hmember
  rw [← hsymbol.isRequiredField_eq] at hrequired
  rw [← hname]
  exact List.mem_map_of_mem
    (List.mem_filter.mpr ⟨List.mem_map_of_mem hmember, hrequired⟩)

theorem passes_checkGiven {id : SymbolId} (hscope : struct.scope = some scope)
    (h : s.Advances t) (hmember : id ∈ (s.tree.scope scope).symbols)
    (hrequired : (s.tree.symbol id).isRequiredField = true) :
    Passes .free n (checkConstruction struct fields span) t
      (checkGiven struct fields span (s.tree.symbol id).name)
      (s.Advances ·) := by
  have hgiven : Composed .free .outside
      (everyOf (checkGivenField struct scope) fields) :=
    .everyOf fun field _ => .checkGivenField field.value.suits_free
  have hcomplete : ∀ names : List String, ∀ name ∈ names,
      Composed .free .outside (checkGiven struct fields span name) :=
    fun _ _ _ => .checkGiven
  have hfirst := hgiven.step n t.within_free
  have hthere := h.trans hfirst.advances
  unfold checkConstruction
  rw [hscope]
  refine .bind_right hfirst.leads (.bind_right (.refl _) ?_)
  have hname : (s.tree.symbol id).name ∈
      (requiredFields scope (Judge.limited n) _).1 :=
    mem_requiredFields hthere.tree hmember hrequired
  obtain ⟨u, hadvances, hpasses⟩ := Passes.everyOf (n := n)
    (s := (everyOf (checkGivenField struct scope) fields (Judge.limited n) t).2)
    (hcomplete _) hname
  refine .bind_left ⟨u, hthere.trans hadvances, hpasses⟩
    (Composed.step (.everyOf (hcomplete _)) n (Session.within_free _))
    fun complete _ => ?_
  exact .answer _

theorem complete_of_quiet (hscope : struct.scope = some scope)
    (h : s.Advances t)
    (hquiet : t.Quiet
      (checkConstruction struct fields span (Judge.limited n) t).2) :
    (∀ field ∈ fields, s.tree.Settable scope field.name) ∧
      ∀ id ∈ (s.tree.scope scope).symbols,
      (s.tree.symbol id).isRequiredField = true → ∃ field ∈ fields, field.name =
      (s.tree.symbol id).name := by
  constructor
  · intro field hfield
    have hpasses : Passes .free n (checkConstruction struct fields span) t
        (settableField? struct scope field) (s.Advances ·) :=
      (passes_checkGivenField hscope h hfield).trans fun _ _ hthere =>
        passes_settableField? hthere
    obtain ⟨u, hadvances, hpart⟩ := hpasses.quiet hquiet
    exact (settable_of_quiet hpart).of_advances hadvances.tree
  · intro id hmember hrequired
    obtain ⟨u, -, hpart⟩ :=
      (passes_checkGiven hscope h hmember hrequired).quiet hquiet
    exact given_of_quiet hpart

end Check

/-!
## The ways to a declared struct
-/

/-- The rule gives the type of a declared struct only once it has checked that
the literal constructs it. -/
def Constructs (n : Nat) (fields : List ObjectField) (span : Span)
    (rule : Rule (Option Ty)) : Prop :=
  ∀ (s : Session) (struct : StructTy), struct.scope.isSome = true →
    (rule (Judge.limited n) s).1 = some (.struct struct) →
      Passes .free n rule s (checkConstruction struct fields span)
      (s.Advances ·)

namespace Constructs

variable {n : Nat} {fields : List ObjectField} {span : Span}
    {α : Type} [Found α]

theorem noAnswer : Constructs n fields span (pure none) := by
  intro s struct _ hanswer
  cases hanswer

theorem construct (struct : StructTy) :
    Constructs n fields span (do
      discard (checkConstruction struct fields span)
      return some (.struct struct)) := by
  intro s other _ hanswer
  obtain rfl : struct = other := Ty.struct.inj (Option.some.inj hanswer)
  exact ⟨s, .refl s, .refl s, .refl _⟩

theorem bind {rule : Rule α} {next : α → Rule (Option Ty)}
    (hrule : Composed .free .outside rule)
    (hnext : ∀ a, Constructs n fields span (next a)) :
    Constructs n fields span (rule >>= next) := by
  intro s struct hscope hanswer
  have hfirst := hrule.step n s.within_free
  obtain ⟨t, hadvances, hpasses⟩ := hnext _ _ struct hscope hanswer
  exact .bind_right hfirst.leads ⟨t, hfirst.advances.trans hadvances, hpasses⟩

theorem ite {c : Prop} [Decidable c] {yes no : Rule (Option Ty)}
    (hyes : Constructs n fields span yes) (hno : Constructs n fields span no) :
    Constructs n fields span (if c then yes else no) := by
  split
  · exact hyes
  · exact hno

theorem reported (problem : Problem) (place : Span) :
    Constructs n fields span (do report problem place; return none) := by
  exact .bind .report fun _ => .noAnswer

theorem matchCandidate (candidates : List Ty) :
    Constructs n fields span (matchCandidate fields span candidates) := by
  induction candidates with
  | nil => exact .noAnswer
  | cons candidate rest ih =>
    refine .bind (.normalize (fits_free _)) fun ty => ?_
    split
    · next struct =>
        have hshape : Composed .free .outside (fitsShape struct fields) :=
          .fitsShape (Answer.free struct) fun field _ => field.value.suits_free
        exact .bind (.speculate hshape) fun trial => .ite (.construct struct) ih
    · exact ih

theorem constructNamed (name : String) :
    Constructs n fields span (constructNamed name fields span) := by
  refine .bind (.resolveType (Answer.free _)) fun ty => ?_
  cases ty with
  | none => exact .noAnswer
  | some ty =>
    dsimp only
    split
    · next struct =>
        refine .bind .expected? fun expected => ?_
        cases expected with
        | none => exact .construct struct
        | some expected =>
          refine .bind (.normalize (fits_free _)) fun expected => ?_
          split
          · exact .ite (.reported _ _) (.construct struct)
          · exact .construct struct
    · exact .reported _ _

theorem adoptExpected :
    Constructs n fields span (adoptExpected fields span) := by
  refine .bind .expected? fun expected => ?_
  cases expected with
  | none => exact .noAnswer
  | some expected =>
    refine .bind (.normalize (fits_free _)) fun ty => ?_
    split
    · next struct => exact .ite (.construct struct) .noAnswer
    · exact .matchCandidate _
    · exact .matchCandidate _
    · exact .noAnswer

theorem orElse {first second : Rule (Option Ty)}
    (hcomposed : Composed .free .outside first)
    (hfirst : Constructs n fields span first)
    (hsecond : Constructs n fields span second) :
    Constructs n fields span (do
      match ← first with
      | some ty => return some ty
      | none => second) := by
  intro s struct hscope hanswer
  have hstep := hcomposed.step n s.within_free
  have hgiven := hfirst s struct hscope
  unfold Passes at hgiven ⊢
  rw [bind_run] at hanswer ⊢
  rcases hrun : first (Judge.limited n) s with ⟨answer, t⟩
  rw [hrun] at hanswer hstep hgiven
  cases answer with
  | some ty => exact hgiven hanswer
  | none =>
    obtain ⟨u, hadvances, hbefore, hafter⟩ := hsecond t struct hscope hanswer
    exact ⟨u, hstep.advances.trans hadvances, hstep.leads.trans hbefore, hafter⟩

theorem synthesize : Constructs n fields span (synthesize fields) := by
  intro s struct hscope hanswer
  unfold Rule.synthesize at hanswer
  rw [bind_run] at hanswer
  generalize mapSome synthesizeMember fields (Judge.limited n) s =
    run at hanswer
  obtain ⟨_ | members, t⟩ := run
  · cases hanswer
  · cases hanswer
    cases hscope

theorem inferObject (name : Option String) :
    Constructs n fields span (inferObject name fields span) := by
  refine .bind .checkUnique fun unique => .ite .noAnswer ?_
  cases name with
  | some name => exact .constructNamed name
  | none =>
    refine .orElse ?_ .adoptExpected .synthesize
    exact .adoptExpected fun _ _ => Expr.suits_free _

end Constructs

theorem nodup_of_checkUnique {judge : Judge} {s : Session} (seen : List String)
    (fields : List ObjectField)
    (h : (checkUnique seen fields judge s).1 = true) :
    (∀ name ∈ fields.map ObjectField.name, name ∉ seen) ∧
      (fields.map ObjectField.name).Nodup := by
  induction fields generalizing seen with
  | nil => simp
  | cons field rest ih =>
    -- The induction carries what was seen before: a later field repeats neither
    -- it nor this one.
    unfold checkUnique at h
    by_cases hseen : seen.contains field.name = true
    · rw [if_pos hseen] at h
      cases h
    · rw [if_neg hseen] at h
      obtain ⟨hfresh, hnodup⟩ := ih (field.name :: seen) h
      have hnew : field.name ∉ seen := by simpa using hseen
      simp only [List.map_cons, List.forall_mem_cons, List.nodup_cons]
      refine ⟨⟨hnew, fun name hname => ?_⟩, fun hagain => ?_, hnodup⟩
      · exact fun hold => hfresh name hname (List.mem_cons_of_mem _ hold)
      · exact hfresh field.name hagain List.mem_cons_self

theorem nodup_of_inferObject {name : Option String} {fields : List ObjectField}
    {span : Span} {judge : Judge} {s : Session}
    (h : (inferObject name fields span judge s).1.isSome = true) :
    (fields.map ObjectField.name).Nodup := by
  unfold inferObject at h
  rw [bind_run] at h
  cases hunique : (checkUnique [] fields judge s).1 with
  | false =>
    rw [hunique] at h
    cases h
  | true => exact (nodup_of_checkUnique [] fields hunique).2

def Ty.fieldScope? : Ty → Option ScopeId
  | .struct s => s.scope
  | _ => none

theorem Ty.exists_struct_of_fieldScope {ty : Ty} {scope : ScopeId}
    (h : ty.fieldScope? = some scope) :
    ∃ struct, ty = .struct struct ∧ struct.scope = some scope := by
  cases ty with
  | struct struct => exact ⟨struct, rfl, h⟩
  | _ => cases h

/-- An object literal that gets the type of a declared struct and reports no
error is complete: it gives no field twice, and only fields of the struct that
are not static, a private one only inside of the struct; and it gives every
field of an instance that has no default. -/
theorem accepted_literals_are_complete
    {n : Nat}
    {name : Option String}
    {fields : List ObjectField}
    {span : Span}
    {s : Session}
    {scope : ScopeId}
    (hanswer : (inferObject name fields span (Judge.limited n) s).1.bind
      Ty.fieldScope? = some scope)
    (hquiet :
      (inferObject name fields span (Judge.limited n)
        s).2.diagnostics.errorsSince s.diagnostics.size = 0) :
    (fields.map ObjectField.name).Nodup ∧
    (∀ field ∈ fields, ∃ id, s.tree.lookupLocal scope field.name = some id ∧
      (s.tree.symbol id).kind = .structField ∧
      (s.tree.symbol id).isStatic = false ∧
      ((s.tree.symbol id).visibility = .priv →
        s.tree.isWithin s.tree.current scope = true)) ∧
    ∀ id ∈ (s.tree.scope scope).symbols, (s.tree.symbol id).kind =
      .structField → (s.tree.symbol id).isStatic = false →
      (s.tree.symbol id).info.initializer = none →
      ∃ field ∈ fields, field.name = (s.tree.symbol id).name := by
  obtain ⟨ty, hanswer, hty⟩ := Option.bind_eq_some_iff.mp hanswer
  obtain ⟨struct, rfl, hscope⟩ := Ty.exists_struct_of_fieldScope hty
  have hpasses :=
    Constructs.inferObject name s struct (by rw [hscope]; rfl) hanswer
  obtain ⟨t, hadvances, hpart⟩ :=
    hpasses.quiet (Session.quiet_of_errorsSince hquiet)
  obtain ⟨hgiven, hcomplete⟩ := complete_of_quiet hscope hadvances hpart
  refine ⟨nodup_of_inferObject (by rw [hanswer]; rfl), hgiven, ?_⟩
  intro id hmember hkind hstatic hdefault
  refine hcomplete id hmember ?_
  simp [Symbol.isRequiredField, hkind, hstatic, hdefault]

def guardedStruct : Program := soleModule [
  ⟨⟨1⟩, .none, .struct ⟨⟨2⟩, "S", .priv, [
    ⟨"a", .int true 32, .pub, true, none, .none⟩,
    ⟨"b", .int true 32, .priv, true, none, .none⟩,
    ⟨"c", .int true 32, .pub, true,
      some ⟨⟨3⟩, .none, .literal (.int "0")⟩, .none⟩,
    ⟨"d", .int true 32, .static, false, none, .none⟩], [], .none⟩⟩]

def inGuardedStruct : Session :=
  { Session.new guardedStruct {} with
    tree := (Session.new guardedStruct {}).tree.enter ⟨2⟩
    context := { expectations := [some (.union [.bool, .named "S"])] } }

def bothFields : List ObjectField :=
  [⟨"b", ⟨⟨4⟩, .none, .literal (.int "1")⟩, .none⟩,
    ⟨"a", ⟨⟨5⟩, .none, .literal (.int "2")⟩, .none⟩]

/-- The literal names no struct: it takes the one of the expected union, whose
private field it may give here. -/
theorem accepted_literals_are_complete_in_struct :
    (inferObject none bothFields .none (Judge.limited 3) inGuardedStruct).1.bind
      Ty.fieldScope? = some ⟨2⟩ ∧
      (inferObject none bothFields .none (Judge.limited 3)
        inGuardedStruct).2.diagnostics.errorsSince
        inGuardedStruct.diagnostics.size = 0 ∧
      ["b", "a"].Nodup ∧
      (∀ field ∈ bothFields, ∃ id,
        inGuardedStruct.tree.lookupLocal ⟨2⟩ field.name = some id ∧
        ((inGuardedStruct.tree.symbol id).visibility = .priv →
          inGuardedStruct.tree.isWithin inGuardedStruct.tree.current ⟨2⟩ =
          true)) ∧
      ∀ id ∈ (inGuardedStruct.tree.scope ⟨2⟩).symbols,
        (inGuardedStruct.tree.symbol id).isRequiredField = true →
          ∃ field ∈ bothFields, field.name =
          (inGuardedStruct.tree.symbol id).name := by
  have hanswer :
      (inferObject none bothFields .none (Judge.limited 3)
        inGuardedStruct).1.bind
      Ty.fieldScope? = some ⟨2⟩ := by decide +kernel
  have hquiet : (inferObject none bothFields .none (Judge.limited 3)
      inGuardedStruct).2.diagnostics.errorsSince
      inGuardedStruct.diagnostics.size = 0 := by
    decide +kernel
  obtain ⟨hnodup, hsettable, hgiven⟩ :=
    accepted_literals_are_complete hanswer hquiet
  refine ⟨hanswer, hquiet, hnodup, fun field hfield => ?_,
    fun id hmember hrequired => ?_⟩
  · obtain ⟨id, hfound, -, -, hpriv⟩ := hsettable field hfield
    exact ⟨id, hfound, hpriv⟩
  · simp only [Symbol.isRequiredField, Bool.and_eq_true, beq_iff_eq,
      Bool.not_eq_true', Option.isNone_iff_eq_none] at hrequired
    exact hgiven id hmember hrequired.1.1 hrequired.1.2 hrequired.2

end StaticCheck
