import StaticCheck.Proofs.Construction
import StaticCheck.Proofs.References

/-!
# Assignments to members

An assignment to a member of a value asks the declaration of the field whether
it may be written.  It does so behind at most one pointer.  Members of modules
are not asked about at all, and under an optional only the container is.
-/

namespace StaticCheck

open Rule

/-- An expression is a value rather than a type or a module: a name of a
declaration that is neither, or no name at all. -/
inductive Session.HoldsValue (s : Session) (expr : Expr) : Prop
  | named {name : String} {id : SymbolId} (hname : expr.identName? = some name)
      (hfound : s.tree.lookup name = some id)
      (hvalue : (s.tree.symbol id).info.denotesType = false)
      (hmodule : (s.tree.symbol id).kind ≠ .use)
  | unnamed (hname : expr.identName? = none)
      (hvalue : ∀ ty, expr.unparen.kind ≠ .type ty)

section

variable {judge : Judge} {s t asked : Session} {left base : Expr}
    {name owner : String} {ty : Ty}
  {id module : SymbolId} {struct : StructTy} {scope : ScopeId}

theorem kind_of_identName (h : base.identName? = some name) :
    base.unparen.kind = .ident name := by
  unfold Expr.identName? at h
  split at h
  · next hkind =>
      cases h
      exact hkind
  · cases h

theorem exprAsType_of_identName (hname : base.identName? = some name)
    (hfound : s.tree.lookup name = some id)
    (hvalue : (s.tree.symbol id).info.denotesType = false) :
    exprAsType base judge s = (none, s) := by
  unfold exprAsType
  rw [kind_of_identName hname]
  dsimp only
  rw [bind_lookup, hfound]
  dsimp only
  rw [bind_symbol, hvalue]
  rfl

theorem namesModule_of_identName (hname : base.identName? = some name)
    (hfound : s.tree.lookup name = some id) :
    namesModule base judge s = ((s.tree.symbol id).kind == .use, s) := by
  unfold namesModule
  rw [hname]
  dsimp only
  rw [bind_lookup, hfound]
  rfl

theorem Session.HoldsValue.runs (h : s.HoldsValue base) (judge : Judge) :
    exprAsType base judge s = (none, s) ∧ namesModule base judge s =
      (false, s) := by
  cases h with
  | named hname hfound hvalue hmodule =>
    refine ⟨exprAsType_of_identName hname hfound hvalue, ?_⟩
    rw [namesModule_of_identName hname hfound, beq_eq_false_iff_ne.mpr hmodule]
  | unnamed hname hvalue =>
    constructor
    · unfold exprAsType
      unfold Expr.identName? at hname
      generalize base.unparen.kind = kind at hname hvalue ⊢
      cases kind with
      | type ty => exact absurd rfl (hvalue ty)
      | ident name => cases hname
      | _ => rfl
    · unfold namesModule
      rw [hname]
      rfl

theorem Session.HoldsValue.symbols (h : s.HoldsValue base) (judge : Judge) :
    moduleSymbol? base judge s = (none, s) ∧ typeSymbol? base judge s =
      (none, s) := by
  cases h with
  | named hname hfound hvalue hmodule =>
    rw [moduleSymbol?_run hname hfound, typeSymbol?_run hname hfound,
      Symbol.isTypeName, hvalue, beq_eq_false_iff_ne.mpr hmodule,
      Bool.and_false]
    exact ⟨rfl, rfl⟩
  | unnamed hname hvalue =>
    have hnamed : namedSymbol? base judge s = (none, s) := by
      unfold namedSymbol?
      rw [hname]
      rfl
    exact ⟨bind_of_run hnamed, bind_of_run hnamed⟩

theorem placeWritable_unparen (left : Expr) :
    placeWritable left = placeWritable left.unparen := by
  obtain ⟨id, span, kind⟩ := left
  cases kind with
  | paren inner => exact placeWritable_unparen inner
  | _ => rfl

theorem placeWritable_member (hleft : left.unparen.kind = .member base name) :
    placeWritable left = memberWritable base name left.unparen.span
      (placeWritable base) := by
  rw [placeWritable_unparen]
  generalize left.unparen = place at hleft ⊢
  obtain ⟨id, span, kind⟩ := place
  dsimp only at hleft
  subst hleft
  rw [placeWritable]

theorem placeWritable_of_module (hleft : left.unparen.kind = .member base name)
    (hbase : base.identName? = some owner)
    (howner : s.tree.lookup owner = some module)
    (huse : (s.tree.symbol module).kind = .use)
    (hvalue : (s.tree.symbol module).info.denotesType = false) :
    placeWritable left judge s = (true, s) := by
  rw [placeWritable_member hleft]
  unfold memberWritable
  rw [bind_of_run (exprAsType_of_identName hbase howner hvalue)]
  dsimp only
  rw [bind_of_run (namesModule_of_identName hbase howner), huse]
  rfl

def Symbol.objection? (field : Symbol) : Option String :=
  if field.isStatic then some "static fields cannot be assigned"
  else if field.mutable then none
  else some "field is immutable"

theorem Symbol.objection?_of_guarded {field : Symbol}
    (h : field.isStatic = true ∨ field.mutable = false) :
    field.objection? =
      some (if field.isStatic then "static fields cannot be assigned"
      else "field is immutable") := by
  unfold objection?
  cases hstatic : field.isStatic with
  | true => rfl
  | false =>
    rw [hstatic, Bool.false_eq_true, false_or] at h
    rw [h]
    rfl

theorem fieldObjection?_of_field (hscope : struct.scope = some scope)
    (hfound : s.tree.lookupLocal scope name = some id)
    (hkind : (s.tree.symbol id).kind = .structField) :
    fieldObjection? struct name judge s =
      ((s.tree.symbol id).objection?, s) := by
  unfold fieldObjection? Symbol.objection?
  rw [hscope]
  dsimp only
  rw [bind_lookupLocal, hfound]
  dsimp only
  rw [bind_symbol, hkind]
  cases (s.tree.symbol id).isStatic with
  | true => rfl
  | false => cases (s.tree.symbol id).mutable <;> rfl

def Ty.objection? (ty : Ty) (name : String) : Rule (Option String) :=
  match ty with
  | .struct struct => fieldObjection? struct name
  | _ => pure none

theorem placeWritable_of_value {found : Ty} {objection : Option String}
    (hleft : left.unparen.kind = .member base name) (hvalue : s.HoldsValue base)
    (hbase : askType base judge s = (some ty, asked))
    (hderef : derefOnce ty judge asked = (found, t))
    (hobjection : found.objection? name judge t = (objection, t)) :
    placeWritable left judge s =
      objection.elim (containerWritable base (placeWritable base) judge t)
      fun detail =>
        (false, { t with
          diagnostics :=
            t.diagnostics.error (.mutabilityMismatch name detail)
              left.unparen.span }) := by
  obtain ⟨htype, hmodule⟩ := hvalue.runs judge
  rw [placeWritable_member hleft]
  unfold memberWritable
  rw [bind_of_run htype]
  dsimp only
  rw [bind_of_run hmodule, if_neg Bool.false_ne_true, bind_of_run hbase]
  dsimp only
  rw [bind_of_run hderef]
  -- An optional is no struct: nothing is said against its members.
  cases found with
  | struct struct =>
    refine (bind_of_run hobjection).trans ?_
    cases objection with
    | none => rfl
    | some detail => rfl
  | _ =>
    cases hobjection
    rfl

theorem inferMember_of_value (span : Span) (hvalue : s.HoldsValue base)
    (hbase : askType base judge s = (some ty, asked))
    (hcanonical : ty.isCanonical = true)
    (hderef : derefOnce ty judge asked = (.struct struct, t)) :
    inferMember base name span judge s =
      structMember struct name span judge t := by
  obtain ⟨hmodule, htype⟩ := hvalue.symbols judge
  -- The access peels optionals first, and there are none.
  have hpeeled : peelOptionals ty judge asked = ((0, ty), asked) := by
    rw [derefOnce_of_canonical hcanonical] at hderef
    refine (bind_of_run (normalize_of_canonical hcanonical)).trans ?_
    cases ty with
    | optional inner => cases hderef
    | _ => rfl
  unfold inferMember
  rw [bind_of_run hmodule]
  dsimp only
  rw [bind_of_run htype]
  dsimp only
  rw [bind_of_run hbase]
  dsimp only
  unfold valueMember
  rw [bind_of_run hpeeled]
  dsimp only
  rw [bind_of_run hderef, bind_run]
  change _ = plainMember (.struct struct) name span judge t
  generalize plainMember (.struct struct) name span judge t = run
  obtain ⟨_ | result, u⟩ := run
  · rfl
  · rfl

theorem inferAssignment_of_refused (op : BinaryOp) (right : Expr) (span : Span)
    (h : placeWritable left judge s = (false, t)) :
    inferAssignment op left right span judge s = (none, t) := by
  unfold inferAssignment
  rw [bind_of_run h]
  rfl

theorem derefOnce_of_optional {inner : Ty}
    (h : Rule.normalize ty judge s = (.optional inner, t)) :
    derefOnce ty judge s = (.optional inner, t) := by
  unfold derefOnce
  rw [bind_of_run h]
  rfl

end

/-- What is asked before a member is assigned.  If the base is a value whose
type is a declared struct or a pointer to one, an assignment to a static or
immutable field is refused with one report and does nothing else, and for any
other field the container decides; if nothing is left to resolve in the type,
this field is the one that the access gives.  If the base is a module, the
assignment is not refused, whatever the member is.  If the type of the base is
an optional, the container decides, whatever the field is. -/
theorem member_assignments_ask_only_plain_values
    {judge : Judge}
    {s : Session}
    {left base : Expr}
    {name : String}
    (hleft : left.unparen.kind = .member base name) :
    (∀ ty asked struct t scope id, s.HoldsValue base →
      askType base judge s = (some ty, asked) → derefOnce ty judge asked =
      (.struct struct, t) →
      struct.scope = some scope → t.tree.lookupLocal scope name = some id →
      (t.tree.symbol id).kind = .structField →
        ((t.tree.symbol id).isStatic = true ∨
          (t.tree.symbol id).mutable = false →
          ∀ op right span, inferAssignment op left right span judge s =
          (none, { t with
              diagnostics := t.diagnostics.error (.mutabilityMismatch name
                (if (t.tree.symbol id).isStatic then
                  "static fields cannot be assigned"
                  else "field is immutable")) left.unparen.span })) ∧
        ((t.tree.symbol id).isStatic = false →
          (t.tree.symbol id).mutable = true →
          placeWritable left judge s =
          containerWritable base (placeWritable base) judge t) ∧
        (ty.isCanonical = true → ∀ span,
          inferMember base name span judge s =
          structMember struct name span judge t)) ∧
    (∀ owner module, base.identName? = some owner → s.tree.lookup owner =
      some module →
      (s.tree.symbol module).kind = .use →
      (s.tree.symbol module).info.denotesType = false →
        placeWritable left judge s = (true, s)) ∧
    ∀ ty asked inner t, s.HoldsValue base → askType base judge s =
    (some ty, asked) → Rule.normalize ty judge asked = (.optional inner, t) →
        placeWritable left judge s =
        containerWritable base (placeWritable base) judge t := by
  refine ⟨?_, ?_, ?_⟩
  · intro ty asked struct t scope id hvalue hbase hderef hscope hfound hkind
    have hverdict := placeWritable_of_value hleft hvalue hbase hderef
      (fieldObjection?_of_field hscope hfound hkind)
    refine ⟨fun hguarded op right span => ?_, fun hstatic hmutable => ?_,
      fun hcanonical span => ?_⟩
    · rw [Symbol.objection?_of_guarded hguarded] at hverdict
      exact inferAssignment_of_refused op right span hverdict
    · have hfree : (t.tree.symbol id).objection? = none := by
        simp [Symbol.objection?, hstatic, hmutable]
      rwa [hfree] at hverdict
    · exact inferMember_of_value span hvalue hbase hcanonical hderef
  · intro owner module hbase howner huse hvalue
    exact placeWritable_of_module hleft hbase howner huse hvalue
  · intro ty asked inner t hvalue hbase hoptional
    exact placeWritable_of_value hleft hvalue hbase
      (derefOnce_of_optional hoptional) rfl

def inGuardedPlaces : Session :=
  { Session.new guardedPlaces {} with
    tree := (Session.new guardedPlaces {}).tree.enter ⟨1⟩ }

def writingPointer : Expr := ⟨⟨11⟩, .none, .ident "q"⟩

def askedPointer : Option Ty × Session :=
  askType writingPointer (Judge.limited 3) inGuardedPlaces

def behindPointer : Ty × Session :=
  derefOnce (askedPointer.1.getD .void) (Judge.limited 3) askedPointer.2

def immutableField : Expr := ⟨⟨12⟩, .none, .member writingPointer "b"⟩

theorem member_assignments_ask_only_plain_values_of_pointer :
    inferAssignment .addAssign immutableField
      ⟨⟨13⟩, .none, .literal (.int "1")⟩ .none
      (Judge.limited 3) inGuardedPlaces =
    (none, { behindPointer.2 with
      diagnostics := behindPointer.2.diagnostics.error
        (.mutabilityMismatch "b" "field is immutable") .none }) := by
  have hplace : immutableField.unparen.kind = .member writingPointer "b" := rfl
  have hvalue : inGuardedPlaces.HoldsValue writingPointer := by
    have hfound : inGuardedPlaces.tree.lookup "q" = some ⟨6⟩ := by
      decide +kernel
    exact .named rfl hfound (by decide +kernel) (by decide +kernel)
  have hasked : askedPointer.1 ≠ none := by decide +kernel
  have hstruct : behindPointer.1.fieldScope? = some ⟨2⟩ := by decide +kernel
  obtain ⟨struct, hbehind, hscope⟩ := Ty.exists_struct_of_fieldScope hstruct
  have hfound : behindPointer.2.tree.lookupLocal ⟨2⟩ "b" = some ⟨1⟩ := by
    decide +kernel
  have hkind : (behindPointer.2.tree.symbol ⟨1⟩).kind = .structField := by
    decide +kernel
  have hstatic : (behindPointer.2.tree.symbol ⟨1⟩).isStatic = false := by
    decide +kernel
  have himmutable : (behindPointer.2.tree.symbol ⟨1⟩).mutable = false := by
    decide +kernel
  have hbase : askType writingPointer (Judge.limited 3) inGuardedPlaces =
      (some (askedPointer.1.getD .void), askedPointer.2) :=
    Prod.ext (Option.getD_of_ne_none hasked _).symm rfl
  have hderef :
      derefOnce (askedPointer.1.getD .void) (Judge.limited 3) askedPointer.2 =
      (.struct struct, behindPointer.2) := Prod.ext hbehind rfl
  have hrefused :=
    ((member_assignments_ask_only_plain_values hplace).1 _ _ _ _ _ _
      hvalue hbase
    hderef hscope hfound hkind).1 (.inr himmutable) .addAssign
      ⟨⟨13⟩, .none, .literal (.int "1")⟩
    .none
  rw [hstatic] at hrefused
  exact hrefused

def memberAssigned (declared : List Stmt) (base : String) (name : String) :
    Program :=
  ⟨[⟨⟨0⟩, "main", "main", declared ++ [
      ⟨⟨1⟩, .none, .expr ⟨⟨2⟩, .none, .binary .assign
        ⟨⟨3⟩, .none, .member ⟨⟨4⟩, .none, .ident base⟩ name⟩
        ⟨⟨5⟩, .none, .literal (.int "1")⟩⟩⟩]⟩,
    ⟨⟨6⟩, "m", "m",
      [⟨⟨7⟩, .none,
        .letDecl
        ⟨"x", .pub, false, some (.int true 32),
          some ⟨⟨8⟩, .none, .literal (.int "0")⟩⟩⟩]⟩]⟩

def immutableFieldIn (ty : Ty) : List Stmt := [
  ⟨⟨9⟩, .none,
    .struct ⟨⟨10⟩, "S", .priv, [⟨"b", .int true 32, .pub, false, none, .none⟩],
      [], .none⟩⟩,
  ⟨⟨11⟩, .none,
    .letDecl
    ⟨"o", .priv, true, some ty, some ⟨⟨12⟩, .none, .literal .undefined⟩⟩⟩]

/-- The immutable field of a value may not be assigned, but that of an optional
value may, and so may an immutable variable of a module. -/
theorem immutable_members_are_assigned :
    [memberAssigned (immutableFieldIn (.named "S")) "o" "b",
      memberAssigned (immutableFieldIn (.optional (.named "S"))) "o" "b",
      memberAssigned [⟨⟨9⟩, .none, .use ⟨"m", none, false⟩⟩] "m" "x"].map
      (fun program =>
        (Check.handle (Session.new program {})).2.diagnostics.codes) =
    [["MutabilityMismatch"], [], []] := by
  decide +kernel

end StaticCheck
