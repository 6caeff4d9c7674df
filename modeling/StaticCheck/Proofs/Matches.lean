import StaticCheck.Proofs.Bounds
import StaticCheck.Proofs.OwnReports

/-!
# Patterns and exhaustive matches

A match on an enum has to name every variant and a match on booleans both of
them, unless there is a default.  What is left out is reported at the end, once
and in the order of declaration.  A pattern names a variant by its last name
alone: what stands before the name is not looked at.
-/

namespace StaticCheck

open Rule

variable {name : String} {ty : Ty}

/-!
## What a pattern names
-/

/-- The variant that a pattern names: a plain or a qualified name, with or
without arguments, in any parentheses. -/
inductive Expr.NamesVariant : Expr → String → Prop
  | ident {id : NodeId} {span : Span} {name : String} :
      NamesVariant ⟨id, span, .ident name⟩ name
  | member {id : NodeId} {span : Span} {base : Expr} {name : String} :
      NamesVariant ⟨id, span, .member base name⟩ name
  | call {id : NodeId} {span : Span} {callee : Expr} {args : List Expr}
      {name : String}
      (h : NamesVariant callee name) :
      NamesVariant ⟨id, span, .call callee args⟩ name
  | paren {id : NodeId} {span : Span} {inner : Expr} {name : String}
      (h : NamesVariant inner name) : NamesVariant ⟨id, span, .paren inner⟩ name

theorem Expr.namesVariant_of_variantName? (expr : Expr)
    (h : expr.variantName? = some name) : expr.NamesVariant name := by
  obtain ⟨id, span, kind⟩ := expr
  cases kind with
  | ident _ =>
    cases h
    exact .ident
  | member _ _ =>
    cases h
    exact .member
  | call callee _ => exact .call (callee.namesVariant_of_variantName? h)
  | paren inner => exact .paren (inner.namesVariant_of_variantName? h)
  | _ => cases h

theorem Expr.NamesVariant.variantName?_eq {expr : Expr}
    (h : expr.NamesVariant name) : expr.variantName? = some name := by
  induction h with
  | ident | member => rfl
  | call _ ih | paren _ ih => exact ih

theorem Expr.variantName?_eq_some_iff {expr : Expr} :
    expr.variantName? = some name ↔ expr.NamesVariant name := by
  exact ⟨expr.namesVariant_of_variantName?, NamesVariant.variantName?_eq⟩

theorem Expr.boolValue?_eq_some_iff {expr : Expr} {value : Bool} :
    expr.boolValue? = some value ↔ expr.unparen.kind =
      .literal (.bool value) := by
  unfold boolValue?
  split
  · next other hkind => simp [hkind]
  · next hkind =>
      constructor
      · intro h
        cases h
      · intro h
        exact absurd h (hkind value)

def NamedIn (cases : List MatchCase) (name : String) : Prop :=
  ∃ case ∈ cases, ∃ pattern ∈ case.patterns, pattern.NamesVariant name

def WrittenIn (cases : List MatchCase) (value : Bool) : Prop :=
  ∃ case ∈ cases, ∃ pattern ∈ case.patterns, pattern.unparen.kind =
    .literal (.bool value)

section Coverage

variable {cases : List MatchCase}

theorem mem_readings_iff {α : Type} {read : Expr → Option α} {a : α} :
    a ∈ (cases.flatMap (·.patterns)).filterMap read ↔
      ∃ case ∈ cases, ∃ pattern ∈ case.patterns, read pattern = some a := by
  simp only [List.mem_filterMap, List.mem_flatMap]
  constructor
  · rintro ⟨pattern, ⟨case, hcase, hpattern⟩, hread⟩
    exact ⟨case, hcase, pattern, hpattern, hread⟩
  · rintro ⟨case, hcase, pattern, hpattern, hread⟩
    exact ⟨pattern, ⟨case, hcase, hpattern⟩, hread⟩

theorem mem_variantNames_iff :
    name ∈ (cases.flatMap (·.patterns)).filterMap Expr.variantName? ↔
      NamedIn cases name := by
  simp only [mem_readings_iff, Expr.variantName?_eq_some_iff, NamedIn]

theorem mem_boolValues_iff {value : Bool} :
    value ∈ (cases.flatMap (·.patterns)).filterMap Expr.boolValue? ↔
      WrittenIn cases value := by
  simp only [mem_readings_iff, Expr.boolValue?_eq_some_iff, WrittenIn]

instance (name : String) : Decidable (NamedIn cases name) :=
  decidable_of_iff _ mem_variantNames_iff

instance (value : Bool) : Decidable (WrittenIn cases value) :=
  decidable_of_iff _ mem_boolValues_iff

end Coverage

def EnumTy.unnamed (enum : EnumTy) (cases : List MatchCase) : List String :=
  (enum.variants.map (·.name)).filter fun name => ¬NamedIn cases name

def unwritten (cases : List MatchCase) : List String :=
  (if WrittenIn cases true then [] else ["true"]) ++
    if WrittenIn cases false then [] else ["false"]

section Missing

variable {cases : List MatchCase} {ty : Ty}

theorem missingCases_enum (enum : EnumTy) :
    missingCases (.enum enum) (cases.flatMap (·.patterns)) =
      enum.unnamed cases := by
  unfold missingCases EnumTy.unnamed
  apply List.filter_congr
  intro name _
  simp [← mem_variantNames_iff]

theorem missingCases_bool (hty : ty.isBool = true) :
    missingCases ty (cases.flatMap (·.patterns)) = unwritten cases := by
  have hcases : missingCases ty (cases.flatMap (·.patterns)) =
      ([true, false].filter fun value =>
        !((cases.flatMap (·.patterns)).filterMap Expr.boolValue?).contains
          value).map fun value =>
          if value then "true" else "false" := by
    cases ty with
    | enum => cases hty
    | _ => simp [missingCases, hty]
  rw [hcases]
  unfold unwritten
  simp only [← mem_boolValues_iff, List.contains_eq_mem]
  by_cases htrue :
    true ∈ (cases.flatMap (·.patterns)).filterMap Expr.boolValue? <;>
    by_cases hfalse :
      false ∈ (cases.flatMap (·.patterns)).filterMap Expr.boolValue? <;>
      simp [htrue, hfalse]

theorem missingCases_other (patterns : List Expr)
    (henum : ∀ enum, ty ≠ .enum enum) (hbool : ty.isBool = false) :
    missingCases ty patterns = [] := by
  cases ty with
  | enum enum => exact absurd rfl (henum enum)
  | _ => simp [missingCases, hbool]

theorem EnumTy.unnamed_ne_nil_iff {enum : EnumTy} :
    enum.unnamed cases ≠ [] ↔ ∃ variant ∈ enum.variants,
      ¬NamedIn cases variant.name := by
  simp [unnamed]

theorem unwritten_ne_nil_iff :
    unwritten cases ≠ [] ↔ ¬WrittenIn cases true ∨ ¬WrittenIn cases false := by
  unfold unwritten
  by_cases htrue : WrittenIn cases true <;> by_cases hfalse :
    WrittenIn cases false <;>
    simp [htrue, hfalse]

end Missing

/-!
## The parts of a match and its end
-/

def Problem.isNonExhaustive : Problem → Bool
  | .nonExhaustiveMatch _ => true
  | _ => false

theorem Finding.asInternal_isNonExhaustive (finding : Finding) :
    finding.asInternal.problem.isNonExhaustive = false := by
  unfold asInternal
  split
  · next hproblem => rw [hproblem]; rfl
  · rfl

def Rule.checkParts (subject : Option Ty) (cases : List MatchCase)
    (default : Option Stmt) : Rule Unit := do
  forEach (checkCase subject) cases
  forEach checkBranch default.toList

/-- The subject of a match is typed, and then its patterns and branches are
checked.  What is given is the normal form of the type, if the subject has one,
and the session afterwards. -/
inductive ChecksParts (judge : Judge) (s : Session) (subject : Expr)
    (cases : List MatchCase) (default : Option Stmt) :
    Option Ty → Session → Prop
  | typed {written ty : Ty} {asked start t : Session}
      (hsubject : askType subject judge s = (some written, asked))
      (hnormal : Rule.normalize written judge asked = (ty, start))
      (hparts : checkParts (some ty) cases default judge start = ((), t)) :
      ChecksParts judge s subject cases default (some ty) t
  | untyped {asked t : Session}
      (hsubject : askType subject judge s = (none, asked))
      (hparts : checkParts none cases default judge asked = ((), t)) :
      ChecksParts judge s subject cases default none t

namespace Finds

variable {subject : Option Ty} {judge : Judge} {start : Session}

theorem checkPattern (pattern : Expr) :
    Hears (.only judge (·.isNonExhaustive = false) start)
      (checkPattern subject pattern) := by
  unfold Rule.checkPattern
  split
  · unfold checkVariantPattern
    split
    · exact .ite (.report rfl) (.pure trivial)
    · exact .report rfl
  · apply Finds.ite
    · exact .bind (.askType pattern) fun _ _ => .pure trivial
    · cases subject with
      | none => exact .pure trivial
      | some subject =>
        refine .bindOption (.withExpected (.askType pattern)) (.pure trivial)
          fun ty _ => ?_
        refine .bind (Reading.only_isCompatible subject ty _) fun agree _ => ?_
        exact .ite (.report rfl) (.pure trivial)

theorem checkBranch (body : Stmt) :
    Hears (.only judge (·.isNonExhaustive = false) start)
      (checkBranch body) := by
  refine .bind (.withSavedState (.askValid body)) fun result _ => ?_
  cases result with
  | ok => exact .pure trivial
  | error finding =>
    exact .of_only (fun _ => .report _ finding.asInternal_isNonExhaustive)
      fun _ => trivial

theorem checkParts (cases : List MatchCase) (default : Option Stmt) :
    Hears (.only judge (·.isNonExhaustive = false) start)
      (checkParts subject cases default) := by
  refine .bind (.forEach (fun case => ?_) cases) fun _ _ =>
    .forEach .checkBranch _
  exact .bind (.forEach .checkPattern _) fun _ _ => .checkBranch _

end Finds

section Runs

variable {judge : Judge} {s t : Session} {subject : Expr}
    {cases : List MatchCase} {default : Option Stmt} {span : Span}

theorem checkBranches_of_typed
    (h : checkParts (some ty) cases none judge s = ((), t)) :
    checkBranches (some ty) cases none span judge s =
      ((), t.reportIf (missingCases ty (cases.flatMap (·.patterns)) ≠ [])
        (.nonExhaustiveMatch (missingCases ty (cases.flatMap (·.patterns))))
        span) := by
  have hrun : checkBranches (some ty) cases none span judge s =
      (if !(missingCases ty (cases.flatMap (·.patterns))).isEmpty then
        report
          (.nonExhaustiveMatch (missingCases ty (cases.flatMap (·.patterns))))
          span
      else pure ()) judge t := by
    rw [show t = (checkParts (some ty) cases none judge s).2 by rw [h]]
    rfl
  rw [hrun]
  unfold Session.reportIf
  by_cases hmissing : missingCases ty (cases.flatMap (·.patterns)) = []
  · simp [hmissing]
    rfl
  · simp [hmissing]
    rfl

theorem checkBranches_of_untyped
    (h : checkParts none cases default judge s = ((), t)) :
    checkBranches none cases default span judge s = ((), t) := by
  cases default with
  | some body => exact h
  | none => exact h

theorem ChecksParts.exists_session (judge : Judge) (s : Session)
    (subject : Expr) (cases : List MatchCase) (default : Option Stmt) :
    ∃ ty t, ChecksParts judge s subject cases default ty t := by
  rcases hsubject : askType subject judge s with ⟨answer, asked⟩
  cases answer with
  | none => exact ⟨none, _, .untyped hsubject rfl⟩
  | some written => exact ⟨some _, _, .typed hsubject rfl rfl⟩

theorem ChecksParts.ty_eq {ty : Option Ty}
    (h : ChecksParts judge s subject cases default ty t) :
    ty = (askType subject judge s).1.map fun written =>
      (Rule.normalize written judge (askType subject judge s).2).1 := by
  cases h with
  | typed hsubject hnormal _ =>
    rw [hsubject]
    exact congrArg (fun result => some (Prod.fst result)) hnormal.symm
  | untyped hsubject _ =>
    rw [hsubject]
    rfl

theorem ChecksParts.reportsOnly {ty : Option Ty}
    (h : ChecksParts judge s subject cases default ty t) :
    s.ReportsOnly judge (·.isNonExhaustive = false) t := by
  cases h with
  | untyped hsubject hparts =>
    exact .trans ((Finds.askType _).of_run hsubject)
      ((Finds.checkParts _ _).of_run hparts)
  | typed hsubject hnormal hparts =>
    exact .trans ((Finds.askType _).of_run hsubject)
      (.trans
        ((Reading.only_silent.normalize fun _ _ => trivial).of_run hnormal)
        ((Finds.checkParts _ _).of_run hparts))

theorem ChecksParts.checkMatch_of_typed
    (h : ChecksParts judge s subject cases none (some ty) t) :
    checkMatch subject cases none span judge s =
      ((), t.reportIf (missingCases ty (cases.flatMap (·.patterns)) ≠ [])
        (.nonExhaustiveMatch (missingCases ty (cases.flatMap (·.patterns))))
        span) := by
  cases h with
  | typed hsubject hnormal hparts =>
    unfold checkMatch
    rw [bind_of_run hsubject]
    dsimp only
    rw [bind_of_run hnormal, checkBranches_of_typed hparts]

theorem ChecksParts.checkMatch_of_default {ty : Option Ty} {body : Stmt}
    (h : ChecksParts judge s subject cases (some body) ty t) :
    checkMatch subject cases (some body) span judge s = ((), t) := by
  unfold checkMatch
  cases h with
  | typed hsubject hnormal hparts =>
    rw [bind_of_run hsubject]
    dsimp only
    rw [bind_of_run hnormal]
    exact hparts
  | untyped hsubject hparts =>
    rw [bind_of_run hsubject]
    exact hparts

theorem ChecksParts.checkMatch_of_untyped
    (h : ChecksParts judge s subject cases default none t) :
    checkMatch subject cases default span judge s = ((), t) := by
  unfold checkMatch
  cases h with
  | untyped hsubject hparts =>
    rw [bind_of_run hsubject]
    exact checkBranches_of_untyped hparts

theorem ChecksParts.checkMatch_of_enum {enum : EnumTy}
    (h : ChecksParts judge s subject cases none (some (.enum enum)) t) :
    checkMatch subject cases none span judge s =
      ((), t.reportIf (∃ variant ∈ enum.variants, ¬NamedIn cases variant.name)
        (.nonExhaustiveMatch (enum.unnamed cases)) span) := by
  rw [h.checkMatch_of_typed, missingCases_enum]
  rw [Session.reportIf_congr EnumTy.unnamed_ne_nil_iff]

theorem ChecksParts.checkMatch_of_bool (hty : ty.isBool = true)
    (h : ChecksParts judge s subject cases none (some ty) t) :
    checkMatch subject cases none span judge s =
      ((), t.reportIf (¬WrittenIn cases true ∨ ¬WrittenIn cases false)
        (.nonExhaustiveMatch (unwritten cases)) span) := by
  rw [h.checkMatch_of_typed, missingCases_bool hty]
  rw [Session.reportIf_congr unwritten_ne_nil_iff]

theorem ChecksParts.checkMatch_of_other {ty : Option Ty}
    (henum : ∀ enum, ty ≠ some (.enum enum))
    (hbool : ∀ plain, ty = some plain → plain.isBool = false)
    (h : ChecksParts judge s subject cases default ty t) :
    checkMatch subject cases default span judge s = ((), t) := by
  cases default with
  | some body => exact h.checkMatch_of_default
  | none =>
    cases ty with
    | none => exact h.checkMatch_of_untyped
    | some plain =>
      rw [h.checkMatch_of_typed, missingCases_other _ _ (hbool plain rfl)]
      · rfl
      · intro enum heq
        exact henum enum (congrArg some heq)

end Runs

/-- A match reports what it leaves out exactly if it leaves out something: the
variants of an enum that no pattern names, or the booleans that no pattern
writes.  The report is the last one and the only one of its kind that is not
made inside one of the parts.  With a default, or on a subject of another type
or of none, there is no such report. -/
theorem exhaustiveness_is_exact
    (judge : Judge)
    (s : Session)
    (subject : Expr)
    (cases : List MatchCase)
    (default : Option Stmt)
    (span : Span) :
    ∃ ty t, ChecksParts judge s subject cases default ty t ∧
      s.ReportsOnly judge (·.isNonExhaustive = false) t ∧
      (∀ enum, ty = some (.enum enum) → default = none →
        checkMatch subject cases default span judge s =
          ((),
            t.reportIf (∃ variant ∈ enum.variants, ¬NamedIn cases variant.name)
            (.nonExhaustiveMatch (enum.unnamed cases)) span)) ∧
      (∀ plain, ty = some plain → plain.isBool = true → default = none →
        checkMatch subject cases default span judge s =
          ((), t.reportIf (¬WrittenIn cases true ∨ ¬WrittenIn cases false)
            (.nonExhaustiveMatch (unwritten cases)) span)) ∧
      (default ≠ none ∨ (∀ enum, ty ≠ some (.enum enum)) ∧
          (∀ plain, ty = some plain → plain.isBool = false) →
        checkMatch subject cases default span judge s = ((), t)) := by
  obtain ⟨ty, t, hparts⟩ :=
    ChecksParts.exists_session judge s subject cases default
  refine ⟨ty, t, hparts, hparts.reportsOnly, ?_, ?_, ?_⟩
  · rintro enum rfl rfl
    exact hparts.checkMatch_of_enum
  · rintro plain rfl hbool rfl
    exact hparts.checkMatch_of_bool hbool
  · rintro (hdefault | ⟨henum, hbool⟩)
    · cases default with
      | none => exact absurd rfl hdefault
      | some body => exact hparts.checkMatch_of_default
    · exact hparts.checkMatch_of_other henum hbool

theorem EnumTy.variant?_isNone_iff {enum : EnumTy} :
    (enum.variant? name).isNone ↔ ¬∃ variant ∈ enum.variants,
      variant.name = name := by
  simp [variant?]

def colorsAndShapes : List Stmt := [
  ⟨⟨1⟩, .none,
    .enum
    ⟨⟨2⟩, "Color", .priv, [⟨"Red", none, .none⟩, ⟨"Rgb", some .bool, .none⟩],
      [], .none⟩⟩,
  ⟨⟨3⟩, .none,
    .enum ⟨⟨4⟩, "Shape", .priv, [⟨"Red", none, .none⟩, ⟨"Circle", none, .none⟩],
      [], .none⟩⟩,
  ⟨⟨5⟩, .none, .letDecl ⟨"c", .priv, false, some (.named "Color"),
    some ⟨⟨6⟩, .none, .literal .undefined⟩⟩⟩]

def someColor : Expr := ⟨⟨7⟩, .none, .ident "c"⟩

def variantCase (id : Nat) (qualifier name : String) : MatchCase :=
  ⟨[⟨⟨id⟩, .none, .member ⟨⟨id + 1⟩, .none, .ident qualifier⟩ name⟩],
    ⟨⟨id + 2⟩, .none, .block ⟨⟨id + 3⟩, [], .none⟩⟩⟩

def inColors : Session :=
  { Session.new (soleModule colorsAndShapes) {} with
    tree := (Session.new (soleModule colorsAndShapes) {}).tree.enter ⟨1⟩ }

def askedColor : Option Ty × Session :=
  askType someColor (Judge.limited 3) inColors

def normalColor : Ty × Session :=
  Rule.normalize (askedColor.1.getD .void) (Judge.limited 3) askedColor.2

theorem Ty.exists_enum_of_variant (h : (ty.variant? name).isSome) :
    ∃ enum : EnumTy, ty = .enum enum ∧ ∃ variant ∈ enum.variants,
      variant.name = name := by
  cases ty with
  | enum enum =>
    refine ⟨enum, rfl, ?_⟩
    by_contra hnone
    rw [← EnumTy.variant?_isNone_iff] at hnone
    simp_all [variant?]
  | _ => cases h

theorem askType_someColor : askType someColor (Judge.limited 3) inColors =
    (some (askedColor.1.getD .void), askedColor.2) := by
  have hasked : askedColor.1 ≠ none := by decide +kernel
  exact Prod.ext (Option.getD_of_ne_none hasked _).symm rfl

theorem exists_enum_normalColor :
    ∃ enum : EnumTy, normalColor.1 = .enum enum ∧
      ∃ variant ∈ enum.variants, variant.name = "Red" := by
  exact Ty.exists_enum_of_variant (by decide +kernel)

/-- A match that only names red leaves out the other color. -/
theorem exhaustiveness_is_exact_of_red :
    ∃ t : Session, checkMatch someColor [variantCase 8 "Color" "Red"] none .none
      (Judge.limited 3) inColors = ((), { t with
        diagnostics := t.diagnostics.error
          (.nonExhaustiveMatch ["Rgb"]) .none }) := by
  have hmissing :
      missingCases normalColor.1 (variantCase 8 "Color" "Red").patterns =
      ["Rgb"] := by
    decide +kernel
  obtain ⟨enum, hcolor, -⟩ := exists_enum_normalColor
  obtain ⟨ty, t, hparts, -, henum, -⟩ :=
    exhaustiveness_is_exact (Judge.limited 3) inColors
    someColor [variantCase 8 "Color" "Red"] none .none
  have hty : ty = some (.enum enum) := by
    rw [hparts.ty_eq, askType_someColor, ← hcolor]
    rfl
  have hunnamed : enum.unnamed [variantCase 8 "Color" "Red"] = ["Rgb"] := by
    rw [← missingCases_enum, ← hcolor]
    exact hmissing
  have hrefused : ∃ variant ∈ enum.variants,
      ¬NamedIn [variantCase 8 "Color" "Red"] variant.name := by
    rw [← EnumTy.unnamed_ne_nil_iff, hunnamed]
    decide
  refine ⟨t, ?_⟩
  rw [henum enum hty rfl, hunnamed]
  simp [Session.reportIf, hrefused]

/-!
## Qualified patterns
-/

/-- A pattern `base.name` or `base.name(…)`, in any parentheses. -/
inductive Expr.Qualified (base : Expr) (name : String) : Expr → Prop
  | member {id : NodeId} {span : Span} :
      Qualified base name ⟨id, span, .member base name⟩
  | call {id : NodeId} {span : Span} {callee : Expr} {args : List Expr}
      (h : Qualified base name callee) :
      Qualified base name ⟨id, span, .call callee args⟩
  | paren {id : NodeId} {span : Span} {inner : Expr}
      (h : Qualified base name inner) :
      Qualified base name ⟨id, span, .paren inner⟩

theorem Expr.Qualified.namesVariant {base pattern : Expr}
    (h : Expr.Qualified base name pattern) : pattern.NamesVariant name := by
  induction h with
  | member => exact .member
  | call _ ih => exact .call ih
  | paren _ ih => exact .paren ih

/-- Two patterns at one place that name the same variant. -/
def Expr.SameVariant (pattern other : Expr) : Prop :=
  pattern.span = other.span ∧ ∃ name, pattern.NamesVariant name ∧
    other.NamesVariant name

/-- Two cases with the same branch, of which the patterns name the same
variants. -/
structure MatchCase.Agrees (case other : MatchCase) : Prop where
  patterns : List.Forall₂ Expr.SameVariant case.patterns other.patterns
  body : case.body = other.body

theorem checkPattern_of_namesVariant {pattern : Expr}
    (h : pattern.NamesVariant name) (enum : EnumTy) (judge : Judge)
    (s : Session) :
    checkPattern (some (.enum enum)) pattern judge s =
      ((), s.reportIf (¬∃ variant ∈ enum.variants, variant.name = name)
        (.symbolNotFound (enum.name ++ "." ++ name)) pattern.span) := by
  rw [← Session.reportIf_congr EnumTy.variant?_isNone_iff]
  unfold checkPattern checkVariantPattern Session.reportIf
  rw [h.variantName?_eq]
  dsimp only
  split <;> rfl

theorem forEach_congr {α : Type} {rule : α → Rule Unit} {items others : List α}
    (h : List.Forall₂ (fun a b => rule a = rule b) items others) :
    forEach rule items = forEach rule others := by
  induction h with
  | nil => rfl
  | cons hhead _ ih =>
    unfold forEach
    rw [hhead, ih]

section Agreement

variable {enum : EnumTy} {cases others : List MatchCase}

theorem Expr.SameVariant.checkPattern_eq {pattern other : Expr}
    (h : pattern.SameVariant other) :
    checkPattern (some (.enum enum)) pattern =
      checkPattern (some (.enum enum)) other := by
  obtain ⟨hspan, name, hpattern, hother⟩ := h
  funext judge s
  rw [checkPattern_of_namesVariant hpattern,
    checkPattern_of_namesVariant hother, hspan]

theorem MatchCase.Agrees.checkCase_eq {case other : MatchCase}
    (h : case.Agrees other) :
    checkCase (some (.enum enum)) case =
      checkCase (some (.enum enum)) other := by
  unfold checkCase
  rw [forEach_congr
    (h.patterns.imp fun _ _ => Expr.SameVariant.checkPattern_eq), h.body]

theorem checkParts_congr (h : List.Forall₂ MatchCase.Agrees cases others)
    (default : Option Stmt) :
    checkParts (some (.enum enum)) cases default =
      checkParts (some (.enum enum)) others default := by
  unfold checkParts
  rw [forEach_congr (h.imp fun _ _ => MatchCase.Agrees.checkCase_eq)]

theorem variantNames_congr {patterns patterns' : List Expr}
    (h : List.Forall₂ Expr.SameVariant patterns patterns') :
    patterns.filterMap Expr.variantName? =
      patterns'.filterMap Expr.variantName? := by
  induction h with
  | nil => rfl
  | cons hhead _ ih =>
    obtain ⟨_, name, hpattern, hother⟩ := hhead
    simp [hpattern.variantName?_eq, hother.variantName?_eq, ih]

theorem missingCases_congr (h : List.Forall₂ MatchCase.Agrees cases others) :
    missingCases (.enum enum) (cases.flatMap (·.patterns)) =
      missingCases (.enum enum) (others.flatMap (·.patterns)) := by
  have hnames : (cases.flatMap (·.patterns)).filterMap Expr.variantName? =
      (others.flatMap (·.patterns)).filterMap Expr.variantName? := by
    induction h with
    | nil => rfl
    | cons hhead _ ih =>
      simp only [List.flatMap_cons, List.filterMap_append]
      rw [variantNames_congr hhead.patterns, ih]
  unfold missingCases
  rw [hnames]

theorem ChecksParts.of_agrees {judge : Judge} {s t : Session} {subject : Expr}
    {default : Option Stmt} (h : List.Forall₂ MatchCase.Agrees cases others)
    (hparts : ChecksParts judge s subject cases default (some (.enum enum)) t) :
    ChecksParts judge s subject others default (some (.enum enum)) t := by
  cases hparts with
  | typed hsubject hnormal hparts =>
    rw [checkParts_congr h] at hparts
    exact .typed hsubject hnormal hparts

end Agreement

/-- A pattern of a match on an enum is accepted exactly if its last name is that
of a variant, whatever stands before it: two matches whose patterns name the
same variants are checked alike. -/
theorem enum_patterns_ignore_qualifiers
    (judge : Judge)
    (s : Session)
    (enum : EnumTy) : (∀ base pattern name, Expr.Qualified base name pattern →
      checkPattern (some (.enum enum)) pattern judge s =
        ((), s.reportIf (¬∃ variant ∈ enum.variants, variant.name = name)
          (.symbolNotFound (enum.name ++ "." ++ name)) pattern.span)) ∧
    ∀ subject cases others default span t,
      ChecksParts judge s subject cases default (some (.enum enum)) t →
      List.Forall₂ MatchCase.Agrees cases others →
      checkMatch subject others default span judge s =
        checkMatch subject cases default span judge s := by
  constructor
  · intro base pattern name h
    exact checkPattern_of_namesVariant h.namesVariant enum judge s
  · intro subject cases others default span t hparts hagree
    have hothers := hparts.of_agrees hagree
    cases default with
    | none =>
      rw [hparts.checkMatch_of_typed, hothers.checkMatch_of_typed,
        missingCases_congr hagree]
    | some body =>
      rw [hparts.checkMatch_of_default, hothers.checkMatch_of_default]

/-- Whatever its qualifier, a red one is accepted among colors; with a red shape
the match goes on as with a red color. -/
theorem enum_patterns_ignore_qualifiers_of_red :
    ∃ enum : EnumTy, normalColor.1 = .enum enum ∧
      checkPattern (some (.enum enum))
      ⟨⟨8⟩, .none,
        .paren
        ⟨⟨9⟩, .none,
          .call ⟨⟨10⟩, .none, .member ⟨⟨11⟩, .none, .ident "Nope"⟩ "Red"⟩
          [someColor]⟩⟩ (Judge.limited 3) inColors = ((), inColors) ∧
      checkMatch someColor [variantCase 8 "Shape" "Red"] none .none
      (Judge.limited 3) inColors = checkMatch someColor
      [variantCase 8 "Color" "Red"] none .none (Judge.limited 3) inColors := by
  obtain ⟨enum, henum, hvariant⟩ := exists_enum_normalColor
  have hnormal :
      Rule.normalize (askedColor.1.getD .void) (Judge.limited 3) askedColor.2 =
      (.enum enum, normalColor.2) := Prod.ext henum rfl
  have hagrees : (variantCase 8 "Color" "Red").Agrees
      (variantCase 8 "Shape" "Red") :=
    ⟨.cons ⟨rfl, "Red", .member, .member⟩ .nil, rfl⟩
  obtain ⟨hpattern, hmatch⟩ :=
    enum_patterns_ignore_qualifiers (Judge.limited 3) inColors enum
  refine ⟨enum, henum, ?_,
    hmatch _ _ _ _ _ _ (.typed askType_someColor hnormal rfl)
    (.cons hagrees .nil)⟩
  rw [hpattern _ _ _ (.paren (.call .member))]
  simp [Session.reportIf, hvariant]

def colorMatched (qualifier name : String) : Program :=
  soleModule (colorsAndShapes ++ [
  ⟨⟨16⟩, .none, .expr ⟨⟨17⟩, .none, .matchExpr someColor
    [variantCase 8 qualifier name, variantCase 12 "Color" "Rgb"] none⟩⟩])

/-- A red shape and a red of nothing that is declared are accepted among colors;
a circle is not. -/
theorem foreign_variants_are_accepted :
    [colorMatched "Color" "Red", colorMatched "Shape" "Red",
      colorMatched "Nope" "Red", colorMatched "Shape" "Circle"].map
      (fun program =>
        (Check.handle (Session.new program {})).2.diagnostics.codes) =
    [[], [], [], ["SymbolNotFound", "NonExhaustiveMatch"]] := by
  decide +kernel

end StaticCheck
