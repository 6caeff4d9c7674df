import StaticCheck.Proofs.Renaming.Forms

/-!
# Renamed types

What the checker reads off a type and how it builds others from it.  Only the
identity of types depends on node ids, since two lengths that are not folded are
the same if they are the same node; an injective renaming keeps it.
-/

namespace StaticCheck

variable {f : NodeId → NodeId}

namespace Ty

@[simp] theorem unparen_rename (ty : Ty) :
    (ty.rename f).unparen = ty.unparen.rename f := by
  cases ty with
  | paren inner => exact unparen_rename inner
  | _ => rfl

@[simp] theorem prim?_rename (ty : Ty) : (ty.rename f).prim? = ty.prim? := by
  rw [prim?, prim?, unparen_rename]
  cases ty.unparen <;> rfl

@[simp] theorem isPrim_rename (ty : Ty) (p : Prim) :
    (ty.rename f).isPrim p = ty.isPrim p := by
  rw [isPrim, isPrim, prim?_rename]

@[simp] theorem isNumeric_rename (ty : Ty) :
    (ty.rename f).isNumeric = ty.isNumeric := by
  rw [isNumeric, isNumeric, prim?_rename]

@[simp] theorem isInteger_rename (ty : Ty) :
    (ty.rename f).isInteger = ty.isInteger := by
  rw [isInteger, isInteger, prim?_rename]

@[simp] theorem isFloat_rename (ty : Ty) :
    (ty.rename f).isFloat = ty.isFloat := by
  rw [isFloat, isFloat, prim?_rename]

@[simp] theorem isComptime_rename (ty : Ty) :
    (ty.rename f).isComptime = ty.isComptime := by
  rw [isComptime, isComptime, prim?_rename]

@[simp] theorem isSigned_rename (ty : Ty) :
    (ty.rename f).isSigned = ty.isSigned := by
  rw [isSigned, isSigned, prim?_rename]

@[simp] theorem bits?_rename (ty : Ty) : (ty.rename f).bits? = ty.bits? := by
  rw [bits?, bits?, prim?_rename]

@[simp] theorem knownInt?_rename (ty : Ty) :
    (ty.rename f).knownInt? = ty.knownInt? := by
  rw [knownInt?, knownInt?, prim?_rename]

@[simp] theorem isBool_rename (ty : Ty) : (ty.rename f).isBool = ty.isBool :=
  isPrim_rename ty _

@[simp] theorem isNull_rename (ty : Ty) : (ty.rename f).isNull = ty.isNull :=
  isPrim_rename ty _

@[simp] theorem isVoid_rename (ty : Ty) : (ty.rename f).isVoid = ty.isVoid :=
  isPrim_rename ty _

@[simp] theorem isNoreturn_rename (ty : Ty) :
    (ty.rename f).isNoreturn = ty.isNoreturn :=
  isPrim_rename ty _

@[simp] theorem isAny_rename (ty : Ty) : (ty.rename f).isAny = ty.isAny :=
  isPrim_rename ty _

@[simp] theorem isMeta_rename (ty : Ty) : (ty.rename f).isMeta = ty.isMeta :=
  isPrim_rename ty _

@[simp] theorem isErr_rename (ty : Ty) : (ty.rename f).isErr = ty.isErr :=
  isPrim_rename ty _

@[simp] theorem isOptional_rename (ty : Ty) :
    (ty.rename f).isOptional = ty.isOptional := by
  rw [isOptional, isOptional, unparen_rename]
  cases ty.unparen <;> rfl

@[simp] theorem isPointer_rename (ty : Ty) :
    (ty.rename f).isPointer = ty.isPointer := by
  rw [isPointer, isPointer, unparen_rename]
  cases ty.unparen <;> rfl

@[simp] theorem isString_rename (ty : Ty) :
    (ty.rename f).isString = ty.isString := by
  rw [isString, isString, unparen_rename]
  cases ty.unparen with
  | array element extent mutable => exact isPrim_rename element _
  | _ => rfl

@[simp] theorem length?_rename (ty : Ty) :
    (ty.rename f).length? = ty.length? := by
  rw [length?, length?, unparen_rename]
  cases ty.unparen with
  | array element extent mutable => cases extent <;> rfl
  | _ => rfl

@[simp] theorem isMutableArray_rename (ty : Ty) :
    (ty.rename f).isMutableArray = ty.isMutableArray := by
  cases ty <;> rfl

@[simp] theorem lengthsAgree_rename (target source : Ty) :
    (target.rename f).lengthsAgree (source.rename f) =
      target.lengthsAgree source := by
  rw [lengthsAgree, lengthsAgree, length?_rename, length?_rename]

@[simp] theorem nullAgainstValue_rename (null other : Ty) :
    (null.rename f).nullAgainstValue (other.rename f) =
      null.nullAgainstValue other := by
  simp only [nullAgainstValue, isNull_rename, isOptional_rename,
    isPointer_rename, isAny_rename]

@[simp] theorem memberScope?_rename (ty : Ty) :
    (ty.rename f).memberScope? = ty.memberScope? := by
  cases ty with
  | struct struct => cases struct; rfl
  | enum enum => cases enum; rfl
  | _ => rfl

end Ty

@[simp] theorem StructTy.rename_name (struct : StructTy) :
    (struct.rename f).name = struct.name := by
  cases struct; rfl

@[simp] theorem StructTy.rename_scope (struct : StructTy) :
    (struct.rename f).scope = struct.scope := by
  cases struct; rfl

@[simp] theorem StructTy.rename_members (struct : StructTy) :
    (struct.rename f).members = struct.members.map (Member.rename f) := by
  cases struct
  exact Member.renameAll_eq _

@[simp] theorem StructTy.isAnonymous_rename (struct : StructTy) :
    (struct.rename f).isAnonymous = struct.isAnonymous := by
  cases struct; rfl

@[simp] theorem Member.rename_name (member : Member) :
    (member.rename f).name = member.name := by
  cases member; rfl

@[simp] theorem Member.rename_ty (member : Member) :
    (member.rename f).ty = member.ty.rename f := by
  cases member; rfl

@[simp] theorem StructTy.member?_rename (struct : StructTy) (name : String) :
    (struct.rename f).member? name = (struct.member? name).map
      (Member.rename f) := by
  have htest : (fun member : Member => member.name == name) ∘ Member.rename f =
      fun member => member.name == name := funext fun member => by simp
  simp only [StructTy.member?, StructTy.rename_members, List.find?_map, htest]

@[simp] theorem EnumTy.rename_name (enum : EnumTy) :
    (enum.rename f).name = enum.name := by
  cases enum; rfl

@[simp] theorem EnumTy.rename_scope (enum : EnumTy) :
    (enum.rename f).scope = enum.scope := by
  cases enum; rfl

@[simp] theorem EnumTy.rename_variants (enum : EnumTy) :
    (enum.rename f).variants = enum.variants.map (Variant.rename f) := by
  cases enum
  exact Variant.renameAll_eq _

@[simp] theorem Variant.rename_name (variant : Variant) :
    (variant.rename f).name = variant.name := by
  cases variant; rfl

@[simp] theorem Variant.rename_payload (variant : Variant) :
    (variant.rename f).payload = variant.payload.map (Ty.rename f) := by
  cases variant
  exact Ty.renameOpt_eq _

@[simp] theorem EnumTy.variant?_rename (enum : EnumTy) (name : String) :
    (enum.rename f).variant? name = (enum.variant? name).map
      (Variant.rename f) := by
  have htest :
      (fun variant : Variant => variant.name == name) ∘ Variant.rename f =
      fun variant => variant.name == name := funext fun variant => by simp
  simp only [EnumTy.variant?, EnumTy.rename_variants, List.find?_map, htest]

/-!
## Texts and layouts
-/

@[simp] theorem Extent.text_rename (extent : Extent) :
    (extent.rename f).text = extent.text := by
  cases extent <;> rfl

mutual

@[simp] theorem Ty.text_rename (ty : Ty) : (ty.rename f).text = ty.text := by
  cases ty with
  | prim | named | errors => rfl
  | pointer target mutable =>
    cases mutable <;> exact congrArg (_ ++ ·) target.text_rename
  | optional inner => exact congrArg ("?" ++ ·) inner.text_rename
  | array element extent =>
    exact congrArg₂ (· ++ ·) extent.text_rename element.text_rename
  | tuple tys | union tys => simp only [Ty.rename, Ty.text, Ty.texts_rename tys]
  | struct struct =>
    obtain ⟨name, members, scope⟩ := struct
    simp only [Ty.rename, StructTy.rename, Ty.text, Member.texts_rename members]
  | enum enum =>
    cases enum
    rfl
  | function params result error =>
    simp only [Ty.rename, Ty.text, Ty.texts_rename params, result.text_rename,
      Ty.errorText_rename error]
  | paren inner => simp only [Ty.rename, Ty.text, inner.text_rename]

theorem Ty.errorText_rename (error : Option Ty) :
    Ty.errorText (Ty.renameOpt f error) = Ty.errorText error := by
  cases error with
  | none => rfl
  | some error => exact congrArg (" !" ++ ·) error.text_rename

theorem Ty.texts_rename (tys : List Ty) :
    Ty.texts (Ty.renameAll f tys) = Ty.texts tys := by
  cases tys with
  | nil => rfl
  | cons ty rest =>
    exact congrArg₂ (· :: ·) ty.text_rename (Ty.texts_rename rest)

theorem Member.texts_rename (members : List Member) :
    Member.texts (Member.renameAll f members) = Member.texts members := by
  cases members with
  | nil => rfl
  | cons member rest =>
    obtain ⟨name, ty⟩ := member
    exact congrArg₂ (fun text texts => (name ++ ": " ++ text) :: texts)
      ty.text_rename (Member.texts_rename rest)

end

mutual

@[simp] theorem Ty.layout?_rename (ty : Ty) :
    (ty.rename f).layout? = ty.layout? := by
  cases ty with
  | prim | named | pointer | errors | function => rfl
  | optional inner =>
    simp only [Ty.rename, Ty.layout?, inner.isPointer_rename,
      inner.layout?_rename]
  | array element extent =>
    cases extent with
    | fixed length =>
      exact congrArg (·.bind fun l => l.array length) element.layout?_rename
    | slice | expr => rfl
  | tuple fields =>
    exact congrArg (·.map Layout.rounded) (Ty.layoutRecord?_rename _ fields)
  | struct struct =>
    obtain ⟨name, members, scope⟩ := struct
    exact congrArg (·.map Layout.rounded)
      (Member.layoutRecord?_rename _ members)
  | enum enum =>
    obtain ⟨name, variants, scope⟩ := enum
    simp only [Ty.rename, EnumTy.rename, Ty.layout?,
      Variant.layoutPayload?_rename _ variants]
    rw [Variant.renameAll_eq, List.length_map]
  | union members =>
    exact congrArg (·.map Layout.tagged) (Ty.layoutUnion?_rename _ members)
  | paren inner => exact inner.layout?_rename

theorem Ty.layoutRecord?_rename (placed : Layout) (tys : List Ty) :
    Ty.layoutRecord? placed (Ty.renameAll f tys) =
      Ty.layoutRecord? placed tys := by
  cases tys with
  | nil => rfl
  | cons ty rest =>
    simp only [Ty.renameAll, Ty.layoutRecord?, ty.layout?_rename,
      fun placed => Ty.layoutRecord?_rename placed rest]

theorem Member.layoutRecord?_rename (placed : Layout) (members : List Member) :
    Member.layoutRecord? placed (Member.renameAll f members) =
      Member.layoutRecord? placed members := by
  cases members with
  | nil => rfl
  | cons member rest =>
    obtain ⟨name, ty⟩ := member
    simp only [Member.renameAll, Member.rename, Member.layoutRecord?,
      ty.layout?_rename, fun placed => Member.layoutRecord?_rename placed rest]

theorem Ty.layoutUnion?_rename (room : Layout) (tys : List Ty) :
    Ty.layoutUnion? room (Ty.renameAll f tys) = Ty.layoutUnion? room tys := by
  cases tys with
  | nil => rfl
  | cons ty rest =>
    simp only [Ty.renameAll, Ty.layoutUnion?, ty.layout?_rename,
      fun room => Ty.layoutUnion?_rename room rest]

theorem Variant.layoutPayload?_rename (room : Layout)
    (variants : List Variant) :
    Variant.layoutPayload? room (Variant.renameAll f variants) =
      Variant.layoutPayload? room variants := by
  cases variants with
  | nil => rfl
  | cons variant rest =>
    obtain ⟨name, payload⟩ := variant
    cases payload with
    | none => exact Variant.layoutPayload?_rename room rest
    | some ty =>
      simp only [Variant.renameAll, Variant.rename, Ty.renameOpt,
        Variant.layoutPayload?, ty.layout?_rename, fun room =>
          Variant.layoutPayload?_rename room rest]

end

/-!
## Types built from others
-/

mutual

@[simp] theorem Ty.stripParens_rename (ty : Ty) :
    (ty.rename f).stripParens = ty.stripParens.rename f := by
  cases ty with
  | prim | named | struct | enum | errors | function => rfl
  | pointer target mutable =>
    exact congrArg (Ty.pointer · mutable) target.stripParens_rename
  | optional inner => exact congrArg Ty.optional inner.stripParens_rename
  | array element extent mutable =>
    exact congrArg (Ty.array · _ mutable) element.stripParens_rename
  | tuple fields => exact congrArg Ty.tuple (Ty.stripParensAll_rename fields)
  | union members => exact congrArg Ty.union (Ty.stripParensAll_rename members)
  | paren inner => exact inner.stripParens_rename

theorem Ty.stripParensAll_rename (tys : List Ty) :
    Ty.stripParensAll (Ty.renameAll f tys) =
      Ty.renameAll f (Ty.stripParensAll tys) := by
  cases tys with
  | nil => rfl
  | cons ty rest =>
    exact congrArg₂ (· :: ·) ty.stripParens_rename
      (Ty.stripParensAll_rename rest)

end

mutual

@[simp] theorem Ty.concretize_rename (ty : Ty) :
    (ty.rename f).concretize = ty.concretize.rename f := by
  cases ty with
  | prim prim => cases prim <;> rfl
  | array element extent mutable =>
    exact congrArg (Ty.array · _ mutable) element.concretize_rename
  | tuple fields => exact congrArg Ty.tuple (Ty.concretizeAll_rename fields)
  | _ => rfl

theorem Ty.concretizeAll_rename (tys : List Ty) :
    Ty.concretizeAll (Ty.renameAll f tys) =
      Ty.renameAll f (Ty.concretizeAll tys) := by
  cases tys with
  | nil => rfl
  | cons ty rest =>
    exact congrArg₂ (· :: ·) ty.concretize_rename (Ty.concretizeAll_rename rest)

end

@[simp] theorem maxBits_rename (left right : Ty) :
    maxBits (left.rename f) (right.rename f) = maxBits left right := by
  rw [maxBits, maxBits, left.bits?_rename, right.bits?_rename]

@[simp] theorem promote_rename (left right : Ty) :
    promote (left.rename f) (right.rename f) =
      (promote left right).rename f := by
  simp only [promote, Ty.isComptime_rename, Ty.isFloat_rename,
    Ty.isSigned_rename, Ty.unparen_rename, maxBits_rename]
  split
  · split <;> rfl
  · rfl
  · rfl
  · split <;> rfl

@[simp] theorem foldTypes_rename (op : BinaryOp) (left right : Ty) :
    foldTypes op (left.rename f) (right.rename f) =
      (foldTypes op left right).map (Ty.rename f) := by
  simp only [foldTypes, Ty.knownInt?_rename]
  split <;> rfl

@[simp] theorem Ty.negated_rename (ty : Ty) :
    (ty.rename f).negated = ty.negated.rename f := by
  cases ty with
  | prim prim =>
    cases prim with
    | int signed => cases signed <;> rfl
    | _ => rfl
  | _ => rfl

@[simp] theorem ErrorClause.toTy_rename (clause : ErrorClause) :
    clause.toTy.rename f = clause.toTy := by
  cases clause <;> rfl

theorem Ty.struct_of_rename {ty : Ty} {struct : StructTy}
    (h : ty.rename f = .struct struct) : ∃ struct, ty = .struct struct := by
  cases ty with
  | struct struct => exact ⟨struct, rfl⟩
  | _ => cases h

@[simp] theorem Ty.variant?_rename (ty : Ty) (name : String) :
    (ty.rename f).variant? name =
      (ty.variant? name).map fun found =>
      (found.1.rename f, found.2.rename f) := by
  cases ty with
  | enum enum =>
    simp only [Ty.rename, Ty.variant?, EnumTy.variant?_rename, Option.map_map]
    rfl
  | _ => rfl

@[simp] theorem missingCases_rename (subject : Ty) (patterns : List Expr) :
    missingCases (subject.rename f) (patterns.map (Expr.rename f)) =
      missingCases subject patterns := by
  have hbools : (patterns.map (Expr.rename f)).filterMap Expr.boolValue? =
      patterns.filterMap Expr.boolValue? := by
    rw [List.filterMap_map]
    exact congrArg (patterns.filterMap ·)
      (funext fun pattern => pattern.boolValue?_rename)
  cases subject with
  | enum enum =>
    simp [Ty.rename, missingCases, List.filterMap_map, Function.comp_def]
  | prim prim => simp only [Ty.rename, missingCases, hbools]
  | paren inner =>
    have hbool : (Ty.paren (inner.rename f)).isBool = (Ty.paren inner).isBool :=
      Ty.isBool_rename (.paren inner)
    simp only [Ty.rename, missingCases, hbools, hbool]
  | _ => rfl

@[simp] theorem thrownErrors_rename (value : Expr) (ty : Ty) :
    thrownErrors (value.rename f) (ty.rename f) = thrownErrors value ty := by
  cases ty with
  | errors names =>
    simp only [Ty.rename, thrownErrors, Expr.rename_unparen, Expr.rename_kind]
    cases value.unparen.kind <;> rfl
  | _ => rfl

/-!
## The identity of types
-/

theorem EnumTy.same_rename (a b : EnumTy) :
    (a.rename f).same (b.rename f) = a.same b := by
  simp only [EnumTy.same, EnumTy.rename_scope, EnumTy.rename_name]

theorem StructTy.sameName?_rename (a b : StructTy) :
    (a.rename f).sameName? (b.rename f) = a.sameName? b := by
  simp only [StructTy.sameName?, StructTy.rename_scope, StructTy.rename_name,
    StructTy.isAnonymous_rename]

theorem Extent.same_rename (hf : Function.Injective f) (a b : Extent) :
    (a.rename f).same (b.rename f) = a.same b := by
  cases a with
  | expr a =>
    cases b with
    | expr b =>
      rw [Bool.eq_iff_iff]
      simp [Extent.rename, Extent.same, hf.eq_iff]
    | _ => rfl
  | _ => cases b <;> rfl

mutual

theorem Ty.same_rename (hf : Function.Injective f) (a b : Ty) :
    (a.rename f).same (b.rename f) = a.same b := by
  cases a with
  | paren a => exact Ty.same_rename hf a b
  | prim a =>
    simp only [Ty.rename, Ty.same, Ty.unparen_rename]
    cases b.unparen <;> rfl
  | named a | errors a =>
    simp only [Ty.rename, Ty.same, Ty.unparen_rename]
    cases b.unparen <;> rfl
  | pointer a mutable =>
    simp only [Ty.rename, Ty.same, Ty.unparen_rename]
    cases b.unparen with
    | pointer b => exact congrArg (_ && ·) (Ty.same_rename hf a b)
    | _ => rfl
  | optional a =>
    simp only [Ty.rename, Ty.same, Ty.unparen_rename]
    cases b.unparen with
    | optional b => exact Ty.same_rename hf a b
    | _ => rfl
  | array a extent mutable =>
    simp only [Ty.rename, Ty.same, Ty.unparen_rename]
    cases b.unparen with
    | array b other =>
      exact congrArg₂ (· && ·) (Extent.same_rename hf extent other)
        (Ty.same_rename hf a b)
    | _ => rfl
  | tuple as =>
    simp only [Ty.rename, Ty.same, Ty.unparen_rename]
    cases b.unparen with
    | tuple bs => exact Ty.sameAll_rename hf as bs
    | _ => rfl
  | union as =>
    simp only [Ty.rename, Ty.same, Ty.unparen_rename]
    cases b.unparen with
    | union bs => exact Ty.sameAll_rename hf as bs
    | _ => rfl
  | struct a =>
    obtain ⟨name, members, scope⟩ := a
    have hname := StructTy.sameName?_rename (f := f) ⟨name, members, scope⟩
    simp only [Ty.rename, StructTy.rename, Ty.same,
      Ty.unparen_rename] at hname ⊢
    cases b.unparen with
    | struct b =>
      simp only [Ty.rename, hname]
      split
      · rfl
      · obtain ⟨otherName, others, otherScope⟩ := b
        exact Member.sameAll_rename hf members others
    | _ => rfl
  | enum a =>
    simp only [Ty.rename, Ty.same, Ty.unparen_rename]
    cases b.unparen with
    | enum b => exact EnumTy.same_rename a b
    | _ => rfl
  | function params result error =>
    simp only [Ty.rename, Ty.same, Ty.unparen_rename]
    cases b.unparen with
    | function otherParams otherResult otherError =>
      simp only [Ty.rename, Ty.sameAll_rename hf params otherParams,
        Ty.same_rename hf result otherResult,
        Ty.sameOpt_rename hf error otherError]
    | _ => rfl

theorem Ty.sameOpt_rename (hf : Function.Injective f) (a b : Option Ty) :
    Ty.sameOpt (Ty.renameOpt f a) (Ty.renameOpt f b) = Ty.sameOpt a b := by
  cases a with
  | none => cases b <;> rfl
  | some a =>
    cases b with
    | none => rfl
    | some b => exact Ty.same_rename hf a b

theorem Ty.sameAll_rename (hf : Function.Injective f) (as bs : List Ty) :
    Ty.sameAll (Ty.renameAll f as) (Ty.renameAll f bs) = Ty.sameAll as bs := by
  cases as with
  | nil => cases bs <;> rfl
  | cons a as =>
    cases bs with
    | nil => rfl
    | cons b bs =>
      exact congrArg₂ (· && ·) (Ty.same_rename hf a b)
        (Ty.sameAll_rename hf as bs)

theorem Member.sameAll_rename (hf : Function.Injective f)
    (as bs : List Member) :
    Member.sameAll (Member.renameAll f as) (Member.renameAll f bs) =
      Member.sameAll as bs := by
  cases as with
  | nil => cases bs <;> rfl
  | cons a as =>
    obtain ⟨aName, aTy⟩ := a
    cases bs with
    | nil => rfl
    | cons b bs =>
      obtain ⟨bName, bTy⟩ := b
      exact congrArg₂ (aName == bName && · && ·) (Ty.same_rename hf aTy bTy)
        (Member.sameAll_rename hf as bs)

end


/-!
## Containment by value
-/

mutual

@[simp] theorem Ty.mentions_rename (home : Option ScopeId)
    (reached : String → Option Bool) (ty : Ty) :
    (ty.rename f).mentions home reached = ty.mentions home reached := by
  cases ty with
  | prim | errors | pointer | optional | function | named => rfl
  | paren inner => exact inner.mentions_rename home reached
  | array element extent =>
    cases extent with
    | slice => rfl
    | fixed | expr => exact element.mentions_rename home reached
  | tuple tys | union tys => exact Ty.mentionsAny_rename home reached tys
  | struct struct =>
    obtain ⟨name, members, scope⟩ := struct
    cases scope with
    | some scope => rfl
    | none => exact Member.mentionsAny_rename home reached members
  | enum enum =>
    cases enum
    rfl

theorem Ty.mentionsAny_rename (home : Option ScopeId)
    (reached : String → Option Bool) (tys : List Ty) :
    Ty.mentionsAny home reached (Ty.renameAll f tys) =
      Ty.mentionsAny home reached tys := by
  cases tys with
  | nil => rfl
  | cons ty rest =>
    simp only [Ty.renameAll, Ty.mentionsAny, ty.mentions_rename home reached,
      Ty.mentionsAny_rename home reached rest]

theorem Member.mentionsAny_rename (home : Option ScopeId)
    (reached : String → Option Bool) (members : List Member) :
    Member.mentionsAny home reached (Member.renameAll f members) =
      Member.mentionsAny home reached members := by
  cases members with
  | nil => rfl
  | cons member rest =>
    obtain ⟨name, ty⟩ := member
    simp only [Member.renameAll, Member.rename, Member.mentionsAny,
      ty.mentions_rename home reached,
      Member.mentionsAny_rename home reached rest]

end

/-!
## Statements that leave a list
-/

mutual

@[simp] theorem Stmt.alwaysExits_rename (stmt : Stmt) :
    (stmt.rename f).alwaysExits = stmt.alwaysExits := by
  obtain ⟨id, span, kind⟩ := stmt
  cases kind with
  | expr value => exact value.isUnreachable_rename
  | block block =>
    obtain ⟨blockId, body, blockSpan⟩ := block
    exact Stmt.anyExits_rename body
  | _ => rfl

theorem Stmt.anyExits_rename (stmts : List Stmt) :
    Stmt.anyExits (Stmt.renameAll f stmts) = Stmt.anyExits stmts := by
  cases stmts with
  | nil => rfl
  | cons stmt rest =>
    exact congrArg₂ (· || ·) stmt.alwaysExits_rename (Stmt.anyExits_rename rest)

end

@[simp] theorem Stmt.rename_span (stmt : Stmt) :
    (stmt.rename f).span = stmt.span := by
  cases stmt; rfl

@[simp] theorem Stmt.boundName?_rename (stmt : Stmt) :
    (stmt.rename f).boundName? = stmt.boundName? := by
  obtain ⟨id, span, kind⟩ := stmt
  cases kind with
  | letDecl decl => cases decl; rfl
  | defDecl decl => cases decl; rfl
  | _ => rfl

/-!
## Constants and sizes
-/

@[simp] theorem Evaluator.literal_foldInt_rename (expr : Expr) :
    Evaluator.literal.foldInt (expr.rename f) =
      Evaluator.literal.foldInt expr := by
  simp [Evaluator.foldInt, Evaluator.literal]

@[simp] theorem Evaluator.literal_size_rename (ty : Ty) :
    Evaluator.literal.size (ty.rename f) = Evaluator.literal.size ty := by
  simp [Evaluator.literal]

theorem Builtin.answer_rename {name : String} {builtin : Builtin.Function}
    (h : Builtin.function? name = some builtin) (first : Option Ty) :
    builtin.result.answer (first.map (Ty.rename f)) =
      (builtin.result.answer first).map (Ty.rename f) := by
  have hmem : builtin ∈ Builtin.functions := List.mem_of_find?_eq_some h
  simp only [Builtin.functions, List.mem_cons, List.not_mem_nil,
    or_false] at hmem
  rcases hmem with rfl | rfl | rfl | rfl | rfl | rfl <;> rfl

end StaticCheck
