import StaticCheck.Proofs.Canonical
import StaticCheck.Proofs.Voiced.Resolution

/-!
# What a type stands for

An alias is resolved when it is first met, under the definitions that are being
unfolded at the time, and what it stands for is recorded in the scope tree.
Here what a type stands for is read off the collected tree alone, without
records and without looking at what is being unfolded, and resolution is shown
to agree with it.  So it does not matter which aliases were resolved before.
-/

namespace StaticCheck

open Rule

/-!
## Replacing names
-/

section Replaced

variable (meaning : String → Option Ty)

mutual

/-- The type with what its names mean in their place, and without parentheses.
There is none if some name means nothing. -/
def Ty.replaced : Ty → Option Ty
  | .named name => meaning name
  | .paren inner => inner.replaced
  | .pointer target mutable => do
    let target ← target.replaced
    return .pointer target mutable
  | .optional inner => do
    let inner ← inner.replaced
    return .optional inner
  | .array element extent mutable => do
    let element ← element.replaced
    return .array element extent mutable
  | .tuple fields => do
    let fields ← Ty.replacedAll fields
    return .tuple fields
  | .union members => do
    let members ← Ty.replacedAll members
    return .union members
  | .function params result error => do
    let params ← Ty.replacedAll params
    let result ← result.replaced
    let error ← Ty.replacedOpt error
    return .function params result error
  | .struct ⟨name, members, none⟩ => do
    let members ← Member.replaced members
    return .struct ⟨name, members, none⟩
  | ty => some ty
termination_by structural ty => ty

def Ty.replacedAll : List Ty → Option (List Ty)
  | [] => some []
  | ty :: rest => do
    let ty ← ty.replaced
    let rest ← Ty.replacedAll rest
    return ty :: rest
termination_by structural tys => tys

def Ty.replacedOpt : Option Ty → Option (Option Ty)
  | none => some none
  | some ty => do
    let ty ← ty.replaced
    return some ty
termination_by structural ty => ty

def Member.replaced : List Member → Option (List Member)
  | [] => some []
  | ⟨name, ty⟩ :: rest => do
    let ty ← ty.replaced
    let rest ← Member.replaced rest
    return ⟨name, ty⟩ :: rest
termination_by structural members => members

end

end Replaced

section Names

variable {meaning other : String → Option Ty} {name : String}

mutual

theorem Ty.replaced_eq_none (hname : meaning name = none) (ty : Ty)
    (hmem : name ∈ ty.names) : ty.replaced meaning = none := by
  cases ty with
  | prim | errors | enum => cases hmem
  | named written =>
    cases List.mem_singleton.mp hmem
    exact hname
  | paren inner => exact Ty.replaced_eq_none hname inner hmem
  | pointer target | optional target | array target =>
    simp only [Ty.replaced, Ty.replaced_eq_none hname target hmem,
      Option.bind_eq_bind, Option.bind_none]
  | tuple tys | union tys =>
    simp only [Ty.replaced, Ty.replacedAll_eq_none hname tys hmem,
      Option.bind_eq_bind, Option.bind_none]
  | function params result error =>
    simp only [Ty.names, List.mem_append] at hmem
    rcases hmem with hmem | hmem | hmem
    · simp [Ty.replaced, Ty.replacedAll_eq_none hname params hmem]
    · simp [Ty.replaced, Ty.replaced_eq_none hname result hmem]
    · simp [Ty.replaced, Ty.replacedOpt_eq_none hname error hmem]
  | struct struct =>
    obtain ⟨_, members, scope⟩ := struct
    cases scope with
    | some scope => cases hmem
    | none => simp [Ty.replaced, Member.replaced_eq_none hname members hmem]
termination_by structural ty

theorem Ty.replacedAll_eq_none (hname : meaning name = none) (tys : List Ty)
    (hmem : name ∈ Ty.namesAll tys) : Ty.replacedAll meaning tys = none := by
  cases tys with
  | nil => cases hmem
  | cons ty rest =>
    rcases List.mem_append.mp hmem with hmem | hmem
    · simp [Ty.replacedAll, Ty.replaced_eq_none hname ty hmem]
    · simp [Ty.replacedAll, Ty.replacedAll_eq_none hname rest hmem]
termination_by structural tys

theorem Ty.replacedOpt_eq_none (hname : meaning name = none) (ty : Option Ty)
    (hmem : name ∈ Ty.namesOpt ty) : Ty.replacedOpt meaning ty = none := by
  cases ty with
  | none => cases hmem
  | some ty => simp [Ty.replacedOpt, Ty.replaced_eq_none hname ty hmem]
termination_by structural ty

theorem Member.replaced_eq_none (hname : meaning name = none)
    (members : List Member) (hmem : name ∈ Member.names members) :
    Member.replaced meaning members = none := by
  cases members with
  | nil => cases hmem
  | cons member rest =>
    obtain ⟨_, ty⟩ := member
    rcases List.mem_append.mp hmem with hmem | hmem
    · simp [Member.replaced, Ty.replaced_eq_none hname ty hmem]
    · simp [Member.replaced, Member.replaced_eq_none hname rest hmem]
termination_by structural members

end

mutual

theorem Ty.replaced_congr (ty : Ty)
    (h : ∀ name ∈ ty.names, other name = meaning name) :
    ty.replaced other = ty.replaced meaning := by
  cases ty with
  | prim | errors | enum => rfl
  | named name => exact h name (.head _)
  | paren inner => exact Ty.replaced_congr inner h
  | pointer target | optional target | array target =>
    simp only [Ty.replaced, Ty.replaced_congr target h]
  | tuple tys | union tys => simp only [Ty.replaced, Ty.replacedAll_congr tys h]
  | function params result error =>
    simp only [Ty.names, List.forall_mem_append] at h
    simp only [Ty.replaced, Ty.replacedAll_congr params h.1,
      Ty.replaced_congr result h.2.1, Ty.replacedOpt_congr error h.2.2]
  | struct struct =>
    obtain ⟨name, members, scope⟩ := struct
    cases scope with
    | some scope => rfl
    | none => simp only [Ty.replaced, Member.replaced_congr members h]
termination_by structural ty

theorem Ty.replacedAll_congr (tys : List Ty)
    (h : ∀ name ∈ Ty.namesAll tys, other name = meaning name) :
    Ty.replacedAll other tys = Ty.replacedAll meaning tys := by
  cases tys with
  | nil => rfl
  | cons ty rest =>
    simp only [Ty.namesAll, List.forall_mem_append] at h
    simp only [Ty.replacedAll, Ty.replaced_congr ty h.1,
      Ty.replacedAll_congr rest h.2]
termination_by structural tys

theorem Ty.replacedOpt_congr (ty : Option Ty)
    (h : ∀ name ∈ Ty.namesOpt ty, other name = meaning name) :
    Ty.replacedOpt other ty = Ty.replacedOpt meaning ty := by
  cases ty with
  | none => rfl
  | some ty => simp only [Ty.replacedOpt, Ty.replaced_congr ty h]
termination_by structural ty

theorem Member.replaced_congr (members : List Member)
    (h : ∀ name ∈ Member.names members, other name = meaning name) :
    Member.replaced other members = Member.replaced meaning members := by
  cases members with
  | nil => rfl
  | cons member rest =>
    obtain ⟨name, ty⟩ := member
    simp only [Member.names, List.forall_mem_append] at h
    simp only [Member.replaced, Ty.replaced_congr ty h.1,
      Member.replaced_congr rest h.2]
termination_by structural members

end

theorem Ty.meaning_of_replaced {ty answer : Ty}
    (h : ty.replaced meaning = some answer) (hmem : name ∈ ty.names) :
    ∃ value, meaning name = some value := by
  by_contra hnone
  have hno := Option.eq_none_iff_forall_ne_some.mpr (not_exists.mp hnone)
  rw [Ty.replaced_eq_none hno ty hmem] at h
  cases h

theorem Ty.replaced_mono {ty answer : Ty}
    (h : ty.replaced meaning = some answer)
    (hmore : ∀ name value, meaning name = some value →
      other name = some value) :
    ty.replaced other = some answer := by
  rw [← h]
  apply Ty.replaced_congr
  intro name hmem
  obtain ⟨value, hvalue⟩ := Ty.meaning_of_replaced h hmem
  rw [hvalue, hmore name value hvalue]

end Names

section Canonical

set_option linter.unusedSectionVars false

variable {meaning : String → Option Ty}
  (hmeaning : ∀ name value, meaning name = some value →
    value.isCanonical = true)

include hmeaning

mutual

theorem Ty.isCanonical_of_replaced (ty : Ty) (hty : ty.isLengthFree = true)
    {answer : Ty} (h : ty.replaced meaning = some answer) :
    answer.isCanonical = true := by
  cases ty with
  | prim | errors | enum =>
    cases h
    rfl
  | named name => exact hmeaning name answer h
  | paren inner => exact Ty.isCanonical_of_replaced inner hty h
  | pointer target | optional target =>
    obtain ⟨value, hvalue, hanswer⟩ := Option.bind_eq_some_iff.mp h
    have hvalue : value.isCanonical = true :=
      Ty.isCanonical_of_replaced target hty hvalue
    cases hanswer
    exact hvalue
  | array element extent mutable =>
    obtain ⟨value, hvalue, hanswer⟩ := Option.bind_eq_some_iff.mp h
    cases hanswer
    obtain ⟨hextent, helement⟩ := Bool.and_eq_true_iff.mp hty
    exact Bool.and_eq_true_iff.mpr
      ⟨hextent, Ty.isCanonical_of_replaced element helement hvalue⟩
  | tuple tys | union tys =>
    obtain ⟨values, hvalues, hanswer⟩ := Option.bind_eq_some_iff.mp h
    cases hanswer
    exact Ty.everyAll_of_replacedAll tys hty hvalues
  | function params result error =>
    obtain ⟨params', hparams, h⟩ := Option.bind_eq_some_iff.mp h
    obtain ⟨result', hresult, h⟩ := Option.bind_eq_some_iff.mp h
    obtain ⟨error', herror, hanswer⟩ := Option.bind_eq_some_iff.mp h
    cases hanswer
    obtain ⟨hparamsFree, hrest⟩ := Bool.and_eq_true_iff.mp hty
    obtain ⟨hresultFree, herrorFree⟩ := Bool.and_eq_true_iff.mp hrest
    refine Bool.and_eq_true_iff.mpr
      ⟨Ty.everyAll_of_replacedAll params hparamsFree hparams, ?_⟩
    exact Bool.and_eq_true_iff.mpr
      ⟨Ty.isCanonical_of_replaced result hresultFree hresult,
        Ty.everyOpt_of_replacedOpt error herrorFree herror⟩
  | struct struct =>
    obtain ⟨name, members, scope⟩ := struct
    cases scope with
    | some scope =>
      cases h
      rfl
    | none =>
      obtain ⟨values, hvalues, hanswer⟩ := Option.bind_eq_some_iff.mp h
      cases hanswer
      exact Member.every_of_replaced members hty hvalues
termination_by structural ty

theorem Ty.everyAll_of_replacedAll (tys : List Ty)
    (htys : Ty.everyAll Ty.isFolded tys = true) {answers : List Ty}
    (h : Ty.replacedAll meaning tys = some answers) :
    Ty.everyAll Ty.isSettled answers = true := by
  cases tys with
  | nil =>
    cases h
    rfl
  | cons ty rest =>
    obtain ⟨value, hvalue, h⟩ := Option.bind_eq_some_iff.mp h
    obtain ⟨values, hvalues, hanswers⟩ := Option.bind_eq_some_iff.mp h
    cases hanswers
    obtain ⟨hty, hrest⟩ := Bool.and_eq_true_iff.mp htys
    exact Bool.and_eq_true_iff.mpr
      ⟨Ty.isCanonical_of_replaced ty hty hvalue,
        Ty.everyAll_of_replacedAll rest hrest hvalues⟩
termination_by structural tys

theorem Ty.everyOpt_of_replacedOpt (ty : Option Ty)
    (hty : Ty.everyOpt Ty.isFolded ty = true) {answer : Option Ty}
    (h : Ty.replacedOpt meaning ty = some answer) :
    Ty.everyOpt Ty.isSettled answer = true := by
  cases ty with
  | none =>
    cases h
    rfl
  | some ty =>
    obtain ⟨value, hvalue, hanswer⟩ := Option.bind_eq_some_iff.mp h
    cases hanswer
    exact Ty.isCanonical_of_replaced ty hty hvalue
termination_by structural ty

theorem Member.every_of_replaced (members : List Member)
    (hmembers : Member.every Ty.isFolded members = true) {answers : List Member}
    (h : Member.replaced meaning members = some answers) :
    Member.every Ty.isSettled answers = true := by
  cases members with
  | nil =>
    cases h
    rfl
  | cons member rest =>
    obtain ⟨name, ty⟩ := member
    obtain ⟨value, hvalue, h⟩ := Option.bind_eq_some_iff.mp h
    obtain ⟨values, hvalues, hanswers⟩ := Option.bind_eq_some_iff.mp h
    cases hanswers
    obtain ⟨hty, hrest⟩ := Bool.and_eq_true_iff.mp hmembers
    exact Bool.and_eq_true_iff.mpr
      ⟨Ty.isCanonical_of_replaced ty hty hvalue,
        Member.every_of_replaced rest hrest hvalues⟩
termination_by structural members

end

end Canonical

/-!
## What symbols denote
-/

namespace Symbol

def recorded? (symbol : Symbol) : Option Ty :=
  if symbol.isTypeName || symbol.kind == .error then symbol.ty else none

def unfolded? (symbol : Symbol) : Option Ty :=
  if symbol.isTypeName then symbol.info.aliased else none

theorem recorded?_of_isTypeName {symbol : Symbol}
    (h : symbol.isTypeName = true) : symbol.recorded? = symbol.ty := by
  simp [recorded?, h]

theorem unfolded?_of_isTypeName {symbol : Symbol}
    (h : symbol.isTypeName = true) :
    symbol.unfolded? = symbol.info.aliased := by
  simp [unfolded?, h]

end Symbol

namespace ScopeTree

def meaning (tree : ScopeTree) (denoted : SymbolId → Option Ty)
    (scope : ScopeId) (name : String) : Option Ty :=
  match Builtin.type? name with
  | .ok (some ty) => some ty
  | .ok none => (tree.lookupFrom scope name).bind denoted
  | .error _ => none

/-- The type that a symbol denotes: what is recorded for it or else what its
alias stands for in the scope that declares it.  Aliases are followed for as
long as the fuel lasts. -/
def denoted (tree : ScopeTree) : Nat → SymbolId → Option Ty
  | 0, id => (tree.symbol id).recorded?
  | fuel + 1, id =>
    let symbol := tree.symbol id
    symbol.recorded?.or
      (symbol.unfolded?.bind fun aliased =>
        aliased.replaced
          (tree.meaning (fun other => tree.denoted fuel other) symbol.scope))

def standsFor (tree : ScopeTree) (scope : ScopeId) (ty : Ty) (fuel : Nat) :
    Option Ty :=
  ty.replaced (tree.meaning (tree.denoted fuel) scope)

variable {tree : ScopeTree} {scope : ScopeId} {id : SymbolId} {name : String}
    {ty value : Ty} {fuel more : Nat}

theorem meaning_mono {less others : SymbolId → Option Ty}
    (hmore : ∀ id value, less id = some value → others id = some value)
    (h : tree.meaning less scope name = some value) :
    tree.meaning others scope name = some value := by
  unfold meaning at h ⊢
  split at h
  · exact h
  · obtain ⟨id, hid, hvalue⟩ := Option.bind_eq_some_iff.mp h
    exact Option.bind_eq_some_iff.mpr ⟨id, hid, hmore id value hvalue⟩
  · cases h

theorem denoted_succ (h : tree.denoted fuel id = some value) :
    tree.denoted (fuel + 1) id = some value := by
  induction fuel generalizing id value with
  | zero => exact Option.or_eq_some_iff.mpr (.inl h)
  | succ fuel ih =>
    refine Option.or_eq_some_iff.mpr ((Option.or_eq_some_iff.mp h).imp_right ?_)
    rintro ⟨hnone, hunfolded⟩
    obtain ⟨aliased, haliased, hvalue⟩ := Option.bind_eq_some_iff.mp hunfolded
    refine ⟨hnone, Option.bind_eq_some_iff.mpr ⟨aliased, haliased, ?_⟩⟩
    exact Ty.replaced_mono hvalue fun _ _ => meaning_mono fun _ _ => ih

theorem denoted_mono (hle : fuel ≤ more)
    (h : tree.denoted fuel id = some value) :
    tree.denoted more id = some value := by
  induction hle with
  | refl => exact h
  | step _ ih => exact denoted_succ ih

theorem standsFor_mono (hle : fuel ≤ more)
    (h : tree.standsFor scope ty fuel = some value) :
    tree.standsFor scope ty more = some value := by
  exact Ty.replaced_mono h fun _ _ => meaning_mono fun _ _ => denoted_mono hle

theorem denoted_unique {other : Ty} (h : tree.denoted fuel id = some value)
    (hother : tree.denoted more id = some other) : value = other := by
  have hmax := denoted_mono (Nat.le_max_left fuel more) h
  rw [denoted_mono (Nat.le_max_right fuel more) hother] at hmax
  exact (Option.some.inj hmax).symm

theorem denoted_eq_recorded? (h : (tree.symbol id).unfolded? = none)
    (fuel : Nat) : tree.denoted fuel id = (tree.symbol id).recorded? := by
  cases fuel with
  | zero => rfl
  | succ fuel => simp [denoted, h]

theorem exists_standsFor_of_denoted (hnone : (tree.symbol id).recorded? = none)
    (h : tree.denoted fuel id = some value) :
    ∃ less < fuel, ∃ aliased, (tree.symbol id).unfolded? = some aliased ∧
      tree.denoted less id = none ∧
      tree.standsFor (tree.symbol id).scope aliased less = some value := by
  induction fuel with
  | zero =>
    rw [denoted, hnone] at h
    cases h
  | succ fuel ih =>
    cases hbefore : tree.denoted fuel id with
    | some other =>
      cases denoted_unique h hbefore
      obtain ⟨less, hless, hexists⟩ := ih hbefore
      exact ⟨less, Nat.lt_succ_of_lt hless, hexists⟩
    | none =>
      rw [denoted, hnone, Option.none_or] at h
      obtain ⟨aliased, haliased, hvalue⟩ := Option.bind_eq_some_iff.mp h
      exact ⟨fuel, Nat.lt_succ_self fuel, aliased, haliased, hbefore, hvalue⟩

/-!
## Canonical denotations
-/

/-- Whether everything recorded is canonical and no alias has lengths to
fold. -/
structure Plain (tree : ScopeTree) : Prop where
  recorded : ∀ id ty, (tree.symbol id).recorded? = some ty →
    ty.isCanonical = true
  aliased : ∀ id ty, (tree.symbol id).info.aliased = some ty →
    ty.isLengthFree = true

theorem Plain.unfolded (h : tree.Plain) {aliased : Ty}
    (haliased : (tree.symbol id).unfolded? = some aliased) :
    aliased.isLengthFree = true := by
  unfold Symbol.unfolded? at haliased
  split at haliased
  · exact h.aliased id aliased haliased
  · cases haliased

theorem isCanonical_of_meaning {denoted : SymbolId → Option Ty}
    (hdenoted : ∀ id value, denoted id = some value → value.isCanonical = true)
    (h : tree.meaning denoted scope name = some value) :
    value.isCanonical = true := by
  unfold meaning at h
  split at h
  · next hbuiltin =>
      cases h
      have hanswers := Builtin.answers_type? name
      rw [hbuiltin] at hanswers
      obtain ⟨prim, rfl⟩ := hanswers value rfl
      rfl
  · obtain ⟨id, -, hvalue⟩ := Option.bind_eq_some_iff.mp h
    exact hdenoted id value hvalue
  · cases h

theorem Plain.isCanonical_of_denoted (hplain : tree.Plain)
    (h : tree.denoted fuel id = some value) : value.isCanonical = true := by
  induction fuel generalizing id value with
  | zero => exact hplain.recorded id value h
  | succ fuel ih =>
    rcases Option.or_eq_some_iff.mp h with hrecorded | ⟨-, hunfolded⟩
    · exact hplain.recorded id value hrecorded
    · obtain ⟨aliased, haliased, hvalue⟩ := Option.bind_eq_some_iff.mp hunfolded
      exact Ty.isCanonical_of_replaced
        (fun _ _ => isCanonical_of_meaning fun _ _ => ih) aliased
        (hplain.unfolded haliased) hvalue

theorem Plain.isCanonical_of_standsFor (hplain : tree.Plain)
    (hty : ty.isLengthFree = true)
    (h : tree.standsFor scope ty fuel = some value) :
    value.isCanonical = true := by
  exact Ty.isCanonical_of_replaced
    (fun _ _ => isCanonical_of_meaning fun _ _ => hplain.isCanonical_of_denoted)
    ty hty h

/-!
## Aliases that lead back to themselves
-/

def Mentions (tree : ScopeTree) (scope : ScopeId) (ty : Ty) (id : SymbolId) :
    Prop :=
  ∃ name ∈ ty.names, Builtin.type? name = .ok none ∧
    tree.lookupFrom scope name = some id

/-- What an alias stands for has to be known first of the symbol `other`. -/
def Needs (tree : ScopeTree) (id other : SymbolId) : Prop :=
  ∃ aliased, (tree.symbol id).unfolded? = some aliased ∧
    tree.Mentions (tree.symbol id).scope aliased other

/-- The symbol is or leads to an alias that leads back to itself. -/
def IsCircular (tree : ScopeTree) (id : SymbolId) : Prop :=
  ∃ knot, Relation.ReflTransGen tree.Needs id knot ∧
    Relation.TransGen tree.Needs knot knot

theorem IsCircular.needs (h : tree.IsCircular id) :
    ∃ other, tree.Needs id other ∧ tree.IsCircular other := by
  obtain ⟨knot, hway, hround⟩ := h
  have hleads : Relation.TransGen tree.Needs id knot := .trans_right hway hround
  obtain ⟨other, hneeds, hrest⟩ := Relation.TransGen.head'_iff.mp hleads
  exact ⟨other, hneeds, knot, hrest, hround⟩

theorem standsFor_eq_none (hmentions : tree.Mentions scope ty id)
    (hnone : tree.denoted fuel id = none) :
    tree.standsFor scope ty fuel = none := by
  obtain ⟨name, hname, hbuiltin, hfound⟩ := hmentions
  refine Ty.replaced_eq_none ?_ ty hname
  rw [meaning, hbuiltin, hfound]
  exact hnone

theorem IsCircular.denoted_eq_none (h : tree.IsCircular id) (fuel : Nat)
    (hfresh : ∀ id aliased, (tree.symbol id).unfolded? = some aliased →
      (tree.symbol id).recorded? = none) : tree.denoted fuel id = none := by
  induction fuel generalizing id with
  | zero =>
    obtain ⟨_, ⟨aliased, haliased, -⟩, -⟩ := h.needs
    exact hfresh id aliased haliased
  | succ fuel ih =>
    obtain ⟨other, ⟨aliased, haliased, hmentions⟩, hother⟩ := h.needs
    rw [denoted, hfresh id aliased haliased, haliased]
    exact standsFor_eq_none hmentions (ih hother)

end ScopeTree

end StaticCheck
