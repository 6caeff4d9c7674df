import StaticCheck.Proofs.Certified.Values

/-!
# Rules on object literals and special forms

The rules that infer object literals, casts, sizes, defaults and ranges, and
those that walk the branches of conditions, handlers and matches are composed of
certified steps.
-/

namespace StaticCheck
namespace Attested

open Rule

variable {R : Standard} {place : R.Place}
variable {field : ObjectField} {struct : StructTy} {fields : List ObjectField}
    {span : Span} {operand : Expr}

/-!
## Object literals
-/

theorem checkFieldValue {expected : Ty} (hexpected : Fits R expected)
    (hfield : field.value.Suits R place) :
    Attested R place (Rule.checkFieldValue expected field) := by
  refine .bindOption (.inferExpecting hfield (fits_some.mpr hexpected))
    (.answer false) ?_
  exact fun received hreceived => .checkFlow hexpected hreceived

theorem settableField? {scope : ScopeId} :
    Attested R place (Rule.settableField? struct scope field) := by
  refine .seeTree fun tree _ => ?_
  dsimp only
  split
  · exact .andThen (.report rfl) .noAnswer
  · split
    · exact .andThen (.report rfl) .noAnswer
    · exact .ite (.answer _) (.andThen (.report rfl) .noAnswer)
    · exact .answer _

theorem checkGivenField {scope : ScopeId} (hfield : field.value.Suits R place) :
    Attested R place (Rule.checkGivenField struct scope field) := by
  refine .bindOption .settableField? (.answer false) fun id _ => ?_
  exact .bindOption .symbolType (.answer false) fun expected hexpected =>
    .checkFieldValue hexpected hfield

theorem checkGivenMember (hstruct : Meets R struct)
    (hfield : field.value.Suits R place) :
    Attested R place (Rule.checkGivenMember struct field) := by
  unfold Rule.checkGivenMember
  split
  · next member hmember =>
      have hmeets := struct.meets_of_member? hstruct hmember
      exact .bindOption (.resolveMember hmeets) (.answer false)
        fun expected hexpected =>
        .checkFieldValue hexpected hfield
  · exact .andThen (.report rfl) (.answer false)

theorem checkGiven {name : String} :
    Attested R place (Rule.checkGiven struct fields span name) := by
  exact .ite (.answer true) (.andThen (.report rfl) (.answer false))

theorem requiredFields {scope : ScopeId} :
    Attested R place (Rule.requiredFields scope) :=
  .seeTree fun _ _ => .answer _

theorem checkConstruction (hstruct : Meets R struct)
    (hfields : ∀ field ∈ fields, field.value.Suits R place) :
    Attested R place (Rule.checkConstruction struct fields span) := by
  unfold Rule.checkConstruction
  split
  · refine .bind
      (.everyOf fun field hmem => .checkGivenField (hfields field hmem)) ?_
    refine fun given _ => .bind .requiredFields fun required _ => ?_
    exact .bind (.everyOf fun name _ => .checkGiven) fun complete _ => .answer _
  · refine .bind
      (.everyOf fun field hmem => .checkGivenMember hstruct
        (hfields field hmem)) ?_
    refine fun given _ => ?_
    exact .bind (.everyOf fun name _ => .checkGiven) fun complete _ => .answer _

theorem shapeField? {id : SymbolId} :
    Attested R place (Rule.shapeField? id) := by
  refine .bind .symbol fun symbol _ => .ite .noAnswer ?_
  exact .bind .symbolType fun ty hty => .pure (fits_some.mpr hty)

theorem shapeMember {member : Member} (hmember : Meets R member) :
    Attested R place (Rule.shapeMember struct member) := by
  exact .bind (.resolveMember hmember) fun _ hty => .pure hty

theorem shapeFields (hstruct : Meets R struct) :
    Attested R place (Rule.shapeFields struct) := by
  unfold Rule.shapeFields
  split
  · refine .seeTree fun tree _ => .bind (.mapEach fun id _ => .shapeField?) ?_
    refine fun fields hfields => .pure (fits_list.mpr fun field hfield => ?_)
    obtain ⟨answer, hanswer, rfl⟩ := List.mem_filterMap.mp hfield
    exact fits_some.mp (fits_list.mp hfields (some field) hanswer)
  · exact .mapEach fun member hmember => .shapeMember (hstruct member hmember)

theorem fitsField {given : List ObjectField} {field : ShapeField}
    (hfield : Fits R field)
    (hgiven : ∀ other ∈ given, other.value.Suits R place) :
    Attested R place (Rule.fitsField given field) := by
  unfold Rule.fitsField
  split
  · exact .answer _
  · next provided hprovided =>
      have hvalue := hgiven provided (List.mem_of_find?_eq_some hprovided)
      split
      · next expected hexpected =>
          have hmeets : Fits R expected :=
            fits_option.mp hfield expected hexpected
          refine .bindOption (.inferExpecting hvalue (fits_some.mpr hmeets))
            (.answer false) ?_
          exact fun received hreceived => .isCompatible hmeets hreceived
      · exact .answer false

theorem fitsShape {given : List ObjectField} (hstruct : Meets R struct)
    (hgiven : ∀ other ∈ given, other.value.Suits R place) :
    Attested R place (Rule.fitsShape struct given) := by
  refine .bind (.shapeFields hstruct) fun fields hfields =>
    .ite (.answer false) ?_
  exact .allOf fun field hmem =>
    .fitsField (fits_list.mp hfields field hmem) hgiven

theorem matchCandidate {candidates : List Ty}
    (hfields : ∀ field ∈ fields, field.value.Suits R place)
    (hcandidates : Fits R candidates) :
    Attested R place (Rule.matchCandidate fields span candidates) := by
  induction candidates with
  | nil => exact .noAnswer
  | cons candidate rest ih =>
    rw [fits_cons] at hcandidates
    refine .bind (.normalize hcandidates.1) fun ty hty => ?_
    split
    · next struct =>
        have hstruct := (Ty.meets_struct _).mp hty.1
        refine .bind (.speculate (.fitsShape hstruct hfields)) fun trial _ => ?_
        refine .ite
          (.andThen (.discard (.checkConstruction hstruct hfields)) ?_)
          (ih hcandidates.2)
        exact .pure (fits_some.mpr hty)
    · exact ih hcandidates.2

theorem checkUnique {seen : List String} :
    Attested R place (Rule.checkUnique seen fields) := by
  induction fields generalizing seen with
  | nil => exact .answer true
  | cons field rest ih =>
    refine .ite
      (.andThen (.report rfl) (.andThen (.discard ih) (.answer false))) ?_
    exact ih

theorem constructNamed {name : String}
    (hfields : ∀ field ∈ fields, field.value.Suits R place) :
    Attested R place (Rule.constructNamed name fields span) := by
  refine .bindOption (.resolveType (Ty.meets_named _)) .noAnswer
    fun ty hty => ?_
  dsimp only
  split
  · next struct =>
      have hstruct := (Ty.meets_struct _).mp hty.1
      have hconstruct : Attested R place (do
          Functor.discard (Rule.checkConstruction struct fields span)
          return some (Ty.struct struct)) :=
        .andThen (.discard (.checkConstruction hstruct hfields))
          (.pure (fits_some.mpr hty))
      refine .bindOption .expected? hconstruct fun expected hexpected => ?_
      refine .bind (.normalize hexpected) fun expected _ => ?_
      split
      · exact .ite (.andThen .reportMismatch .noAnswer) hconstruct
      · exact hconstruct
  · exact .andThen .reportMismatch .noAnswer

theorem adoptExpected (hfields : ∀ field ∈ fields, field.value.Suits R place) :
    Attested R place (Rule.adoptExpected fields span) := by
  refine .bindOption .expected? .noAnswer fun expected hexpected => ?_
  refine .bind (.normalize hexpected) fun ty hty => ?_
  split
  · have hstruct := (Ty.meets_struct _).mp hty.1
    refine .ite ?_ .noAnswer
    exact .andThen (.discard (.checkConstruction hstruct hfields))
      (.pure (fits_some.mpr hty))
  · exact .matchCandidate hfields (Ty.fits_union.mp hty)
  · rw [Ty.fits_optional] at hty
    exact .matchCandidate hfields (fits_cons.mpr ⟨hty, fits_nil⟩)
  · exact .noAnswer

theorem synthesize (hfields : ∀ field ∈ fields, field.value.Suits R place) :
    Attested R place (Rule.synthesize fields) := by
  refine .bindOption (.mapSome fun field hmem => ?_) .noAnswer
    fun members hmembers => ?_
  · refine .bindOption (.inferExpecting (hfields field hmem) fits_none)
      .noAnswer ?_
    exact fun ty hty => .pure (fits_some.mpr hty)
  · exact .pure (fits_some.mpr (Ty.fits_struct hmembers))

theorem inferObject {name : Option String}
    (hfields : ∀ field ∈ fields, field.value.Suits R place) :
    Attested R place (Rule.inferObject name fields span) := by
  refine .bind .checkUnique fun unique _ => .ite .noAnswer ?_
  split
  · exact .constructNamed hfields
  · refine .bindOption (.adoptExpected hfields) (.synthesize hfields)
      fun ty hty => ?_
    exact .pure (fits_some.mpr hty)

/-!
## Special forms
-/

theorem inferCast {target : Ty} (hoperand : operand.Suits R place)
    (htarget : Meets R target) :
    Attested R place (Rule.inferCast operand target span) := by
  refine .bindOption (.inferExpecting hoperand fits_none) .noAnswer
    fun source hsource => ?_
  refine .bindOption (.resolveType htarget) .noAnswer fun target htarget => ?_
  have hanswer : Fits R (some target) := fits_some.mpr htarget
  refine .bind (.canCast htarget hsource) fun castable _ => ?_
  exact .ite (.andThen (.reportCast rfl) (.pure hanswer)) (.pure hanswer)

theorem sizedType (hoperand : operand.Suits R place) :
    Attested R place (Rule.sizedType operand) := by
  refine .bindOption (.exprAsType hoperand) ?_ fun ty hty =>
    .pure (fits_some.mpr hty)
  refine .bindOption (.askType hoperand) .noAnswer fun ty hty => ?_
  exact .pure (fits_some.mpr (Ty.fits_concretize hty))

theorem measure (hoperand : operand.Suits R place) :
    Attested R place (Rule.measure operand) := by
  refine .bindOption (.sizedType hoperand) .noAnswer fun ty hty => ?_
  refine .bindOption (.resolveLayout hty.1) .noAnswer fun layout _ => ?_
  exact .bind .evaluator fun evaluator _ => .answer _

theorem inferSizeOf (hoperand : operand.Suits R place) :
    Attested R place (Rule.inferSizeOf operand span) := by
  refine .bindOption (.measure hoperand) ?_ fun size _ => .pure (Ty.fits_prim _)
  exact .andThen (.report rfl) (.pure (Ty.fits_prim _))

theorem inferOrElse {left right : Expr} (hleft : left.Suits R place)
    (hright : right.Suits R place) :
    Attested R place (Rule.inferOrElse left right) := by
  refine .bindOption (.askType hleft) .noAnswer fun leftTy hleftTy => ?_
  refine .bind (.normalize hleftTy) fun ty hty => ?_
  split
  · next inner =>
      rw [Ty.fits_optional] at hty
      have hinner : Fits R (some inner) := fits_some.mpr hty
      have hnested : Fits R (some (Ty.optional inner)) := by simpa using hty
      refine .bindOption (.inferExpecting hright hinner) .noAnswer
        fun rightTy hrightTy => ?_
      refine .bind (.normalize hrightTy) fun resolved hresolved => ?_
      refine .ite (.pure (by simp [hty])) ?_
      split
      · rw [Ty.fits_optional] at hresolved
        refine .bind (.isCompatible hty hresolved) fun agree _ => ?_
        exact .ite (.andThen .reportMismatch (.pure hnested)) (.pure hnested)
      · refine .bind (.isCompatible hty hresolved) fun agree _ => ?_
        exact .ite (.andThen .reportMismatch (.pure hinner)) (.pure hinner)
  · exact .andThen (.discard (.askType hright)) (.pure (fits_some.mpr hleftTy))

theorem checkBound {bound : Expr} (hbound : bound.Suits R place) :
    Attested R place (Rule.checkBound bound) := by
  refine .bindOption (.askType hbound) (.answer ()) fun ty hty => ?_
  refine .bind (.normalize hty) fun ty _ => ?_
  exact .ite .reportMismatch (.answer ())

theorem inferRange {start stop : Option Expr}
    (hstart : ∀ bound ∈ start, bound.Suits R place)
    (hstop : ∀ bound ∈ stop, bound.Suits R place) :
    Attested R place (Rule.inferRange start stop) := by
  refine .andThen (.forEach fun bound hbound => .checkBound ?_)
    (.pure (by simp))
  rw [List.mem_append, Option.mem_toList, Option.mem_toList] at hbound
  exact hbound.elim (hstart bound) (hstop bound)

theorem checkCondition {condition : Expr}
    (hcondition : condition.Suits R place) :
    Attested R place (Rule.checkCondition condition) := by
  refine .bindOption (.askType hcondition) (.answer ()) fun ty hty => ?_
  refine .bind (.normalize hty) fun ty _ => ?_
  exact .ite .reportMismatch (.answer ())

theorem checkBranch {body : Stmt} (hbody : body.Suits R place) :
    Attested R place (Rule.checkBranch body) := by
  exact .bind (.withSavedState (.askValid hbody)) fun _ hresult =>
    .reportFailure hresult

theorem checkIf {condition : Expr} {thenBranch : Stmt}
    {elseBranch : Option Stmt} (hcondition : condition.Suits R place)
    (hthen : thenBranch.Suits R place)
    (helse : ∀ body ∈ elseBranch, body.Suits R place) :
    Attested R place (Rule.checkIf condition thenBranch elseBranch) := by
  refine .andThen (.checkCondition hcondition)
    (.forEach fun body hbody => .checkBranch ?_)
  rw [List.mem_cons, Option.mem_toList] at hbody
  rcases hbody with rfl | hbody
  · exact hthen
  · exact helse body hbody

theorem checkHandler {id : NodeId} {handler : Stmt}
    (hhandler : R.opens id fun scope => handler.Suits R (R.enter scope place)) :
    Attested R place (Rule.checkHandler id handler span) := by
  refine .seeTree fun tree htree => ?_
  split
  · next scope hscope =>
      have hinside := htree.opened hhandler hscope
      refine .bind (.withSavedState (.withScope (.askValid hinside)))
        fun result hresult => ?_
      exact .reportFailure hresult
  · next hscope => exact .reportInternal (htree.unopened hhandler hscope)

theorem inferCatch {id : NodeId} {handler : Stmt}
    (hoperand : operand.Suits R place)
    (hhandler : R.opens id fun scope => handler.Suits R (R.enter scope place)) :
    Attested R place (Rule.inferCatch id operand handler span) := by
  exact .bind (.askType hoperand) fun _ hty =>
    .andThen (.checkHandler hhandler) (.pure hty)

/-!
## Matches
-/

theorem checkVariantPattern {enum : EnumTy} {pattern : Expr} :
    Attested R place (Rule.checkVariantPattern enum pattern) := by
  unfold Rule.checkVariantPattern
  split
  · exact .ite (.report rfl) (.answer ())
  · exact .reportMismatch

theorem checkPattern {subject : Option Ty} {pattern : Expr}
    (hsubject : Fits R subject) (hpattern : pattern.Suits R place) :
    Attested R place (Rule.checkPattern subject pattern) := by
  unfold Rule.checkPattern
  split
  · exact .checkVariantPattern
  · refine .ite (.discard (.askType hpattern)) ?_
    split
    · next subject _ =>
        refine .bindOption (.inferExpecting hpattern hsubject) (.answer ())
          fun ty hty => ?_
        refine .bind (.isCompatible (fits_some.mp hsubject) hty)
          fun agree _ => ?_
        exact .ite .reportMismatch (.answer ())
    · exact .answer ()

theorem checkCase {subject : Option Ty} {case : MatchCase}
    (hsubject : Fits R subject)
    (hpatterns : ∀ pattern ∈ case.patterns, pattern.Suits R place)
    (hbody : case.body.Suits R place) :
    Attested R place (Rule.checkCase subject case) := by
  refine .andThen (.forEach fun pattern hpattern => ?_) (.checkBranch hbody)
  exact .checkPattern hsubject (hpatterns pattern hpattern)

theorem checkBranches {subject : Option Ty} {cases : List MatchCase}
    {default : Option Stmt} (hsubject : Fits R subject)
    (hcases : ∀ case ∈ cases,
      (∀ pattern ∈ case.patterns, pattern.Suits R place) ∧
      case.body.Suits R place)
    (hdefault : ∀ body ∈ default, body.Suits R place) :
    Attested R place (Rule.checkBranches subject cases default span) := by
  refine .andThen (.forEach fun case hmem => ?_)
    (.andThen (.forEach fun body hbody => ?_) ?_)
  · exact .checkCase hsubject (hcases case hmem).1 (hcases case hmem).2
  · exact .checkBranch (hdefault body (Option.mem_toList.mp hbody))
  · refine .ite ?_ (.answer ())
    split
    · exact .ite (.report rfl) (.answer ())
    · exact .answer ()

theorem checkMatch {subject : Expr} {cases : List MatchCase}
    {default : Option Stmt} (hsubject : subject.Suits R place)
    (hcases : ∀ case ∈ cases,
      (∀ pattern ∈ case.patterns, pattern.Suits R place) ∧
      case.body.Suits R place)
    (hdefault : ∀ body ∈ default, body.Suits R place) :
    Attested R place (Rule.checkMatch subject cases default span) := by
  refine .bindOption (.askType hsubject) ?_ fun ty hty => .bind (.normalize hty)
    fun ty hty => ?_
  · exact .checkBranches fits_none hcases hdefault
  · exact .checkBranches (fits_some.mpr hty) hcases hdefault

end Attested
end StaticCheck
