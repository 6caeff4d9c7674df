import StaticCheck.Checker.Session
import Mathlib.Data.List.Nodup
import Mathlib.Data.List.Range
import Mathlib.Data.List.Perm.Subperm
import Mathlib.Logic.Relation

/-!
# The search for containment decides reachability

`ScopeTree.Contains` is containment by value as the rules define it, with no
regard to which definitions were entered before.  The search keeps only the
definitions on its present path, and enters none of them again.  It decides the
relation all the same: a definition is read in a scope of its own, so a way that
enters it twice can be taken up where it enters it last.
-/

namespace StaticCheck

/-- The types that a definition puts by value where its name stands: the members
of a struct, the payloads of an enum, and otherwise the type that it is an alias
of. -/
inductive Symbol.Opens (symbol : Symbol) : Ty → Prop
  | member {struct : StructTy} {member : Member}
      (hty : symbol.ty = some (.struct struct))
      (hmember : member ∈ struct.members) : symbol.Opens member.ty
  | payload {enum : EnumTy} {variant : Variant} {payload : Ty}
      (hty : symbol.ty = some (.enum enum)) (hvariant : variant ∈ enum.variants)
      (hpayload : variant.payload = some payload) : symbol.Opens payload
  | aliased {ty : Ty} (hstruct : ∀ struct, symbol.ty ≠ some (.struct struct))
      (henum : ∀ enum, symbol.ty ≠ some (.enum enum))
      (haliased : symbol.info.aliased = some ty) :
      symbol.Opens ty

theorem Symbol.mem_contents_iff {symbol : Symbol} {ty : Ty} :
    ty ∈ symbol.contents ↔ symbol.Opens ty := by
  constructor
  · intro h
    unfold contents at h
    split at h
    · next struct hty =>
        obtain ⟨member, hmember, rfl⟩ := List.mem_map.mp h
        exact .member hty hmember
    · next enum hty =>
        obtain ⟨variant, hvariant, hpayload⟩ := List.mem_filterMap.mp h
        exact .payload hty hvariant hpayload
    · next aliased haliased hstruct henum =>
        cases List.mem_singleton.mp h
        exact .aliased hstruct henum haliased
    · simp at h
  · intro h
    cases h with
    | member hty hmember =>
      simp only [contents, hty]
      exact List.mem_map_of_mem hmember
    | payload hty hvariant hpayload =>
      simp only [contents, hty]
      exact List.mem_filterMap.mpr ⟨_, hvariant, hpayload⟩
    | aliased hstruct henum haliased =>
      unfold contents
      split <;> simp_all

/-- A type that stands in another one by value, without a name in between. -/
inductive Ty.HasPart : Ty → Ty → Prop
  | paren {inner : Ty} : HasPart (.paren inner) inner
  | element {element : Ty} {extent : Extent} {mutable : Bool}
      (hsized : extent ≠ .slice) :
      HasPart (.array element extent mutable) element
  | field {fields : List Ty} {ty : Ty} (hmem : ty ∈ fields) :
      HasPart (.tuple fields) ty
  | alternative {members : List Ty} {ty : Ty} (hmem : ty ∈ members) :
      HasPart (.union members) ty
  | member {struct : StructTy} {member : Member} (hplace : struct.scope = none)
      (hmem : member ∈ struct.members) : HasPart (.struct struct) member.ty

namespace ScopeTree

/-- The name at the first place is that of the definition `id`, which opens the
second place.  A place is a type together with the scope in which it is read. -/
inductive Enters (tree : ScopeTree) (id : SymbolId) :
    ScopeId × Ty → ScopeId × Ty → Prop
  | intro {scope : ScopeId} {name : String} {ty : Ty}
      (hfound : tree.lookupFrom scope name = some id)
      (hname : (tree.symbol id).isTypeName = true)
      (hopens : (tree.symbol id).Opens ty) :
      Enters tree id (scope, .named name) ((tree.symbol id).innerScope, ty)

/-- The second place stands in the first by value: as a part of its type, or as
what the definition of its name opens. -/
inductive HoldsPlace (tree : ScopeTree) : ScopeId × Ty → ScopeId × Ty → Prop
  | part {scope : ScopeId} {ty part : Ty} (h : ty.HasPart part) :
      HoldsPlace tree (scope, ty) (scope, part)
  | definition {id : SymbolId} {a b : ScopeId × Ty} (h : tree.Enters id a b) :
      HoldsPlace tree a b

/-- A place that is the type of `root` itself: its name, or a struct or enum
with its scope. -/
inductive IsRoot (tree : ScopeTree) (root : SymbolId) : ScopeId × Ty → Prop
  | name {scope : ScopeId} {name : String}
      (hfound : tree.lookupFrom scope name = some root) :
      IsRoot tree root (scope, .named name)
  | struct {scope members : ScopeId} {struct : StructTy}
      (hstruct : struct.scope = some members)
      (hroot : (tree.symbol root).info.scope = some members) :
      IsRoot tree root (scope, .struct struct)
  | enum {scope members : ScopeId} {enum : EnumTy}
      (henum : enum.scope = some members)
      (hroot : (tree.symbol root).info.scope = some members) :
      IsRoot tree root (scope, .enum enum)

/-- Some way leads from the type, read in the scope, to the type of `root`. -/
def Contains (tree : ScopeTree) (root : SymbolId) (scope : ScopeId) (ty : Ty) :
    Prop :=
  ∃ place, Relation.ReflTransGen tree.HoldsPlace (scope, ty) place ∧
    tree.IsRoot root place

end ScopeTree

/-!
## What the search finds is contained
-/

/-- A property of types that goes from a part to the whole, and that the structs
and enums of the scope `home` and the names that `reached` accepts have. -/
structure Ty.Spreads (home : Option ScopeId) (reached : String → Option Bool)
    (P : Ty → Prop) : Prop where
  part : ∀ {ty part : Ty}, ty.HasPart part → P part → P ty
  struct : ∀ struct : StructTy, struct.scope.isSome = true →
    struct.scope = home → P (.struct struct)
  enum : ∀ enum : EnumTy, enum.scope.isSome = true → enum.scope = home →
    P (.enum enum)
  named : ∀ name, reached name = some true → P (.named name)

section Found

variable {home : Option ScopeId} {reached : String → Option Bool}
    {P : Ty → Prop}

theorem Ty.mentionsAny_cons (ty : Ty) (rest : List Ty) :
    Ty.mentionsAny home reached (ty :: rest) =
      (ty.mentions home reached).bind fun found =>
        if found then some true else Ty.mentionsAny home reached rest :=
  rfl

theorem Member.mentionsAny_eq (members : List Member) :
    Member.mentionsAny home reached members =
      Ty.mentionsAny home reached (members.map Member.ty) := by
  induction members with
  | nil => rfl
  | cons member rest ih =>
    obtain ⟨name, ty⟩ := member
    rw [List.map_cons, Ty.mentionsAny_cons, ← ih]
    rfl

mutual

theorem Ty.Spreads.of_mentions (hP : Ty.Spreads home reached P) (ty : Ty)
    (h : ty.mentions home reached = some true) : P ty := by
  cases ty with
  | prim _ | errors _ | pointer _ _ | optional _ | function _ _ _ => cases h
  | paren inner => exact hP.part .paren (hP.of_mentions inner h)
  | array element extent mutable =>
    cases extent with
    | slice => cases h
    | fixed _ | expr _ =>
      exact hP.part (.element (by simp)) (hP.of_mentions element h)
  | tuple fields =>
    obtain ⟨ty, hmem, hty⟩ := hP.of_mentionsAny fields h
    exact hP.part (.field hmem) hty
  | union members =>
    obtain ⟨ty, hmem, hty⟩ := hP.of_mentionsAny members h
    exact hP.part (.alternative hmem) hty
  | struct struct =>
    obtain ⟨name, members, scope⟩ := struct
    cases scope with
    | some scope => exact hP.struct _ rfl (beq_iff_eq.mp (Option.some.inj h))
    | none =>
      obtain ⟨member, hmem, hty⟩ := hP.of_member_mentionsAny members h
      exact hP.part (.member rfl hmem) hty
  | enum enum =>
    obtain ⟨hsome, hhome⟩ := Bool.and_eq_true_iff.mp (Option.some.inj h)
    exact hP.enum enum hsome (beq_iff_eq.mp hhome)
  | named name => exact hP.named name h

theorem Ty.Spreads.of_mentionsAny (hP : Ty.Spreads home reached P)
    (tys : List Ty) (h : Ty.mentionsAny home reached tys = some true) :
    ∃ ty ∈ tys, P ty := by
  cases tys with
  | nil => cases h
  | cons ty rest =>
    obtain ⟨found, hfound, h⟩ := Option.bind_eq_some_iff.mp h
    cases found with
    | true => exact ⟨ty, List.mem_cons_self, hP.of_mentions ty hfound⟩
    | false =>
      obtain ⟨other, hmem, hother⟩ := hP.of_mentionsAny rest h
      exact ⟨other, List.mem_cons_of_mem ty hmem, hother⟩

theorem Ty.Spreads.of_member_mentionsAny (hP : Ty.Spreads home reached P)
    (members : List Member)
    (h : Member.mentionsAny home reached members = some true) :
    ∃ member ∈ members, P member.ty := by
  cases members with
  | nil => cases h
  | cons member rest =>
    obtain ⟨name, ty⟩ := member
    obtain ⟨found, hfound, h⟩ := Option.bind_eq_some_iff.mp h
    cases found with
    | true => exact ⟨⟨name, ty⟩, List.mem_cons_self, hP.of_mentions ty hfound⟩
    | false =>
      obtain ⟨other, hmem, hother⟩ := hP.of_member_mentionsAny rest h
      exact ⟨other, List.mem_cons_of_mem _ hmem, hother⟩

end

end Found

namespace ScopeTree

variable {tree : ScopeTree} {root : SymbolId} {scope : ScopeId} {ty : Ty}

theorem Contains.of_holdsPlace {a : ScopeId × Ty}
    (hstep : tree.HoldsPlace (scope, ty) a) (h : tree.Contains root a.1 a.2) :
    tree.Contains root scope ty := by
  obtain ⟨place, hway, hroot⟩ := h
  exact ⟨place, .head hstep hway, hroot⟩

theorem contains_spreads {reached : String → Option Bool}
    (hreached : ∀ name, reached name = some true →
      tree.Contains root scope (.named name)) :
    Ty.Spreads (tree.symbol root).info.scope reached
      (tree.Contains root scope) where
  part hpart h := h.of_holdsPlace (.part hpart)
  struct struct hsome hhome := by
    obtain ⟨members, hmembers⟩ := Option.isSome_iff_exists.mp hsome
    exact ⟨_, .refl, .struct hmembers (hhome ▸ hmembers)⟩
  enum enum hsome hhome := by
    obtain ⟨members, hmembers⟩ := Option.isSome_iff_exists.mp hsome
    exact ⟨_, .refl, .enum hmembers (hhome ▸ hmembers)⟩
  named := hreached

theorem fresh_of_not {path : List SymbolId} {id : SymbolId}
    (h : ¬(path.contains id || !(tree.symbol id).isTypeName) = true) :
    id ∉ path ∧ (tree.symbol id).isTypeName = true := by
  simpa using h

theorem contains_of_reaches {steps : Nat} {path : List SymbolId} {name : String}
    (h : tree.reaches root steps path scope name = some true) :
    tree.Contains root scope (.named name) := by
  induction steps generalizing path scope name with
  | zero => cases h
  | succ steps ih =>
    rw [reaches] at h
    split at h
    · cases h
    · next id hfound =>
        split at h
        · next hroot =>
            obtain rfl := beq_iff_eq.mp hroot
            exact ⟨_, .refl, .name hfound⟩
        · split at h
          · cases h
          · next hopen =>
              have hname := (fresh_of_not hopen).2
              obtain ⟨ty, hty, hheld⟩ :=
                (contains_spreads fun held hheld => ih hheld).of_mentionsAny _ h
              have hopens := Symbol.mem_contents_iff.mp hty
              exact hheld.of_holdsPlace
                (.definition (.intro hfound hname hopens))

/-!
## The search ends
-/

theorem symbol_known_of_isTypeName {id : SymbolId}
    (h : (tree.symbol id).isTypeName = true) :
    id.index < tree.symbols.size := by
  by_contra hsize
  have hnone : tree.symbols[id.index]? = none :=
    Array.getElem?_eq_none (Nat.le_of_not_lt hsize)
  simp [symbol, hnone, Symbol.isTypeName] at h

theorem length_le_of_known {path : List SymbolId} (hnodup : path.Nodup)
    (hknown : ∀ id ∈ path, id.index < tree.symbols.size) :
    path.length ≤ tree.symbols.size := by
  have hinjective : Function.Injective SymbolId.index := by
    rintro ⟨i⟩ ⟨j⟩ h
    exact congrArg _ h
  have hsubset : path.map SymbolId.index ⊆ List.range tree.symbols.size := by
    intro index hindex
    obtain ⟨id, hid, rfl⟩ := List.mem_map.mp hindex
    exact List.mem_range.mpr (hknown id hid)
  have hle := (List.subperm_of_subset (hnodup.map hinjective) hsubset).length_le
  rwa [List.length_map, List.length_range] at hle

/-- More steps are left than there are definitions off the path, which names
each of its own once.
-/
structure HasSteps (tree : ScopeTree) (path : List SymbolId) (steps : Nat) :
    Prop where
  nodup : path.Nodup
  known : ∀ id ∈ path, id.index < tree.symbols.size
  steps : tree.symbols.size < steps + path.length

theorem HasSteps.nil {steps : Nat} (h : tree.symbols.size < steps) :
    tree.HasSteps [] steps := by
  exact ⟨List.nodup_nil, fun _ hid => (List.not_mem_nil hid).elim, h⟩

theorem HasSteps.of_size {later : ScopeTree} {path : List SymbolId}
    {steps : Nat} (h : tree.HasSteps path steps)
    (hsize : later.symbols.size = tree.symbols.size) :
    later.HasSteps path steps := by
  exact ⟨h.nodup, hsize ▸ h.known, hsize ▸ h.steps⟩

theorem HasSteps.tail {path : List SymbolId} {steps : Nat} {id : SymbolId}
    (h : tree.HasSteps (id :: path) steps) :
    tree.HasSteps path (steps + 1) where
  nodup := h.nodup.of_cons
  known := (List.forall_mem_cons.mp h.known).2
  steps := by
    have hlt := h.steps
    rw [List.length_cons] at hlt
    omega

theorem HasSteps.pos {path : List SymbolId} : ¬tree.HasSteps path 0 := by
  intro h
  have hle := length_le_of_known h.nodup h.known
  have hlt := h.steps
  omega

theorem HasSteps.cons {path : List SymbolId} {steps : Nat} {id : SymbolId}
    (h : tree.HasSteps path (steps + 1)) (hoff : id ∉ path)
    (hname : (tree.symbol id).isTypeName = true) :
    tree.HasSteps (id :: path) steps where
  nodup := List.nodup_cons.mpr ⟨hoff, h.nodup⟩
  known := List.forall_mem_cons.mpr ⟨symbol_known_of_isTypeName hname, h.known⟩
  steps := by
    have hlt := h.steps
    rw [List.length_cons]
    omega

end ScopeTree

section Ends

variable {home : Option ScopeId} {reached : String → Option Bool}

mutual

theorem Ty.mentions_isSome (h : ∀ name, (reached name).isSome = true)
    (ty : Ty) : (ty.mentions home reached).isSome = true := by
  cases ty with
  | prim _ | errors _ | pointer _ _ | optional _ | function _ _ _ | enum _ =>
    rfl
  | paren inner => exact inner.mentions_isSome h
  | array element extent mutable =>
    cases extent with
    | slice => rfl
    | fixed _ | expr _ => exact element.mentions_isSome h
  | tuple tys | union tys => exact Ty.mentionsAny_isSome h tys
  | struct struct =>
    obtain ⟨name, members, scope⟩ := struct
    cases scope with
    | some _ => rfl
    | none => exact Member.mentionsAny_isSome h members
  | named name => exact h name

theorem Ty.mentionsAny_isSome (h : ∀ name, (reached name).isSome = true)
    (tys : List Ty) : (Ty.mentionsAny home reached tys).isSome = true := by
  cases tys with
  | nil => rfl
  | cons ty rest =>
    obtain ⟨found, hfound⟩ := Option.isSome_iff_exists.mp (ty.mentions_isSome h)
    rw [Ty.mentionsAny_cons, hfound]
    cases found with
    | true => rfl
    | false => exact Ty.mentionsAny_isSome h rest

theorem Member.mentionsAny_isSome (h : ∀ name, (reached name).isSome = true)
    (members : List Member) :
    (Member.mentionsAny home reached members).isSome = true := by
  cases members with
  | nil => rfl
  | cons member rest =>
    obtain ⟨name, ty⟩ := member
    obtain ⟨found, hfound⟩ := Option.isSome_iff_exists.mp (ty.mentions_isSome h)
    rw [Member.mentionsAny, hfound]
    cases found with
    | true => rfl
    | false => exact Member.mentionsAny_isSome h rest

end

end Ends

namespace ScopeTree

variable {tree : ScopeTree} {root : SymbolId} {scope : ScopeId} {ty : Ty}

/-- The search does not run out of steps: each definition that it enters goes on
the path. -/
theorem HasSteps.reaches_isSome {path : List SymbolId} {steps : Nat}
    (h : tree.HasSteps path steps) (name : String) :
    (tree.reaches root steps path scope name).isSome = true := by
  induction steps generalizing path scope name with
  | zero => exact (HasSteps.pos h).elim
  | succ steps ih =>
    rw [reaches]
    split
    · rfl
    · split
      · rfl
      · split
        · rfl
        · next hopen =>
            obtain ⟨hoff, hname⟩ := fresh_of_not hopen
            exact Ty.mentionsAny_isSome
              (fun held => ih (h.cons hoff hname) held) _

/-!
## What is contained is found
-/

/-- A step that enters no definition on `path`. -/
def HoldsPlaceOff (tree : ScopeTree) (path : List SymbolId)
    (a b : ScopeId × Ty) : Prop :=
  (a.1 = b.1 ∧ a.2.HasPart b.2) ∨ ∃ id, id ∉ path ∧ tree.Enters id a b

theorem HoldsPlaceOff.cut {path : List SymbolId} {a b : ScopeId × Ty}
    (h : Relation.ReflTransGen (tree.HoldsPlaceOff path) a b) (id : SymbolId) :
    Relation.ReflTransGen (tree.HoldsPlaceOff (id :: path)) a b ∨
      ∃ before next, tree.Enters id before next ∧
        Relation.ReflTransGen (tree.HoldsPlaceOff (id :: path)) next b := by
  induction h using Relation.ReflTransGen.head_induction_on with
  | refl => exact .inl .refl
  | @head a c hstep _ ih =>
    refine ih.elim (fun hrest => ?_) .inr
    rcases hstep with hpart | ⟨other, hoff, henters⟩
    · exact .inl (.head (.inl hpart) hrest)
    · by_cases heq : other = id
      · subst heq
        exact .inr ⟨a, c, henters, hrest⟩
      · exact .inl (.head (.inr ⟨other, by simp [heq, hoff], henters⟩) hrest)

end ScopeTree

section Reaches

variable {home : Option ScopeId} {reached : String → Option Bool}

theorem Ty.mentionsAny_of_mem (hall : ∀ name, (reached name).isSome = true)
    {tys : List Ty} {ty : Ty} (hmem : ty ∈ tys)
    (hty : ty.mentions home reached = some true) :
    Ty.mentionsAny home reached tys = some true := by
  induction tys with
  | nil => cases hmem
  | cons first rest ih =>
    obtain ⟨found, hfound⟩ :=
      Option.isSome_iff_exists.mp (first.mentions_isSome hall)
    rw [Ty.mentionsAny_cons, hfound]
    cases found with
    | true => rfl
    | false =>
      rcases List.mem_cons.mp hmem with rfl | hrest
      · rw [hfound] at hty
        cases hty
      · exact ih hrest

theorem Ty.HasPart.mentions (hall : ∀ name, (reached name).isSome = true)
    {ty part : Ty} (h : ty.HasPart part)
    (hpart : part.mentions home reached = some true) :
    ty.mentions home reached = some true := by
  cases h with
  | paren => exact hpart
  | @element element extent mutable hsized =>
    cases extent with
    | slice => exact (hsized rfl).elim
    | fixed _ | expr _ => exact hpart
  | field hmem | alternative hmem => exact Ty.mentionsAny_of_mem hall hmem hpart
  | @member struct member hplace hmem =>
    obtain ⟨name, members, scope⟩ := struct
    cases hplace
    rw [Ty.mentions, Member.mentionsAny_eq]
    exact Ty.mentionsAny_of_mem hall (List.mem_map_of_mem hmem) hpart

end Reaches

namespace ScopeTree

variable {tree : ScopeTree} {root : SymbolId} {scope : ScopeId} {ty : Ty}

theorem IsRoot.mentions {steps : Nat} {path : List SymbolId}
    {place : ScopeId × Ty} (h : tree.IsRoot root place) :
    place.2.mentions (tree.symbol root).info.scope
      (tree.reaches root (steps + 1) path place.1) = some true := by
  cases h with
  | name hfound => simp [Ty.mentions, reaches, hfound]
  | @struct scope members struct hstruct hroot =>
    obtain ⟨name, parts, home⟩ := struct
    cases hstruct
    simp [Ty.mentions, hroot]
  | enum henum hroot => simp [Ty.mentions, henum, hroot]

theorem HasSteps.mentions_of_holdsPlaceOff {steps : Nat} {path : List SymbolId}
    {a place : ScopeId × Ty} (h : tree.HasSteps path steps)
    (hway : Relation.ReflTransGen (tree.HoldsPlaceOff path) a place)
    (hroot : tree.IsRoot root place) :
    a.2.mentions (tree.symbol root).info.scope
      (tree.reaches root steps path a.1) = some true := by
  induction steps generalizing path a with
  | zero => exact (HasSteps.pos h).elim
  | succ steps ih =>
    induction hway using Relation.ReflTransGen.head_induction_on with
    | refl => exact hroot.mentions
    | @head a b hstep hrest hfound =>
      rcases hstep with ⟨hscope, hpart⟩ | ⟨id, hoff, henters⟩
      · rw [hscope]
        exact hpart.mentions h.reaches_isSome hfound
      -- The way is taken up where it enters `id` last, so that `id` can go on
      -- the path.
      · obtain ⟨before, next, hlast, hafter⟩ : ∃ before next,
          tree.Enters id before next ∧
            Relation.ReflTransGen (tree.HoldsPlaceOff (id :: path))
            next place :=
          (HoldsPlaceOff.cut hrest id).elim
          (fun hafter => ⟨a, b, henters, hafter⟩) (·)
        cases hlast with
        | intro _ hname hopens =>
          cases henters with
          | @intro scope name ty hlookup _ _ =>
            have hinner := h.cons hoff hname
            have hcontents := Symbol.mem_contents_iff.mpr hopens
            rw [Ty.mentions, reaches, hlookup]
            dsimp only
            split
            · rfl
            · rw [if_neg (by simp [hoff, hname])]
              exact Ty.mentionsAny_of_mem hinner.reaches_isSome hcontents
                (ih hinner hafter)

theorem HoldsPlace.off_nil {a b : ScopeId × Ty} (h : tree.HoldsPlace a b) :
    tree.HoldsPlaceOff [] a b := by
  cases h with
  | part hpart => exact .inl ⟨rfl, hpart⟩
  | definition henters => exact .inr ⟨_, List.not_mem_nil, henters⟩

theorem mentions_iff_contains {steps : Nat}
    (hsteps : tree.symbols.size < steps) :
    ty.mentions (tree.symbol root).info.scope
      (tree.reaches root steps [] scope) = some true ↔
      tree.Contains root scope ty := by
  constructor
  · intro h
    exact (contains_spreads fun name hname =>
      contains_of_reaches hname).of_mentions ty h
  · rintro ⟨place, hway, hroot⟩
    have hoff : Relation.ReflTransGen (tree.HoldsPlaceOff [])
        (scope, ty) place :=
      Relation.ReflTransGen.mono (fun _ _ hstep => hstep.off_nil) _ _ hway
    exact (HasSteps.nil hsteps).mentions_of_holdsPlaceOff hoff hroot

theorem mentions_eq_some {steps : Nat} (hsteps : tree.symbols.size < steps) :
    ty.mentions (tree.symbol root).info.scope
      (tree.reaches root steps [] scope) =
      some (tree.contains root [] scope ty) := by
  have hends : ∀ steps, tree.symbols.size < steps →
      (ty.mentions (tree.symbol root).info.scope
        (tree.reaches root steps [] scope)).isSome = true :=
    fun steps hsteps =>
      Ty.mentions_isSome (HasSteps.nil hsteps).reaches_isSome ty
  have henough : tree.symbols.size < tree.symbols.size + 1 := Nat.lt_succ_self _
  obtain ⟨answer, hanswer⟩ := Option.isSome_iff_exists.mp (hends steps hsteps)
  obtain ⟨found, hfound⟩ := Option.isSome_iff_exists.mp (hends _ henough)
  have hsame : answer = true ↔ found = true := by
    rw [← Option.some_inj (a := answer), ← hanswer,
      mentions_iff_contains hsteps, ← mentions_iff_contains henough, hfound,
      Option.some_inj]
  rw [contains, hfound, hanswer, Bool.eq_iff_iff.mpr hsame]
  rfl

theorem contains_iff :
    tree.contains root [] scope ty = true ↔ tree.Contains root scope ty := by
  have henough : tree.symbols.size < tree.symbols.size + 1 := Nat.lt_succ_self _
  rw [← mentions_iff_contains henough, mentions_eq_some henough,
    Option.some_inj]

end ScopeTree

/-- Where no definition is being unfolded, the question whether a type contains
that of `root` by value is answered by whether a way leads there.  Nothing is
changed, and the search ends by itself: with any number of steps above that of
the symbols it does not run out of them. -/
theorem containsType_decides_reachability
    (s : Session)
    (root : SymbolId)
    (ty : Ty)
    (hunfolding : s.unfolding = []) :
    ∃ answer, Check.containsType root ty s = (answer, s) ∧
      (answer = true ↔ s.tree.Contains root s.tree.current ty) ∧
      ∀ steps, s.tree.symbols.size < steps →
        ty.mentions (s.tree.symbol root).info.scope
          (s.tree.reaches root steps [] s.tree.current) = some answer := by
  refine ⟨s.tree.contains root [] s.tree.current ty, ?_, ScopeTree.contains_iff,
    fun steps hsteps => ScopeTree.mentions_eq_some hsteps⟩
  show (s.tree.contains root s.unfolding s.tree.current ty, s) = _
  rw [hunfolding]

def soleModule (body : List Stmt) : Program := ⟨[⟨⟨0⟩, "main", "main", body⟩]⟩

def detour : Program :=
  soleModule [
    ⟨⟨1⟩, .none, .struct ⟨⟨2⟩, "A", .priv,
      [⟨"b", .array (.named "B") (.fixed 2) false, .pub, true, none, .none⟩],
      [], .none⟩⟩,
    ⟨⟨3⟩, .none, .defDecl ⟨"B", .priv, none,
      ⟨⟨4⟩, .none, .type (.tuple [.named "D", .named "C"])⟩⟩⟩,
    ⟨⟨5⟩, .none, .defDecl ⟨"D", .priv, none,
      ⟨⟨6⟩, .none, .type (.tuple [.named "D", .named "B"])⟩⟩⟩,
    ⟨⟨7⟩, .none, .struct ⟨⟨8⟩, "C", .priv,
      [⟨"a", .named "A", .pub, true, none, .none⟩], [], .none⟩⟩]

def detourSession : Session :=
  let s := (Check.handle (Session.new detour {})).2
  { s with tree := s.tree.enter ⟨1⟩ }

theorem containsType_decides_reachability_of_detour :
    detourSession.unfolding = [] ∧
      (Check.containsType ⟨0⟩ (.named "D") detourSession).1 = true ∧
      detourSession.tree.Contains ⟨0⟩ detourSession.tree.current
      (.named "D") := by
  have hunfolding : detourSession.unfolding = [] := by decide +kernel
  have hfound : (Check.containsType ⟨0⟩ (.named "D") detourSession).1 =
      true := by decide +kernel
  obtain ⟨answer, hrun, hiff, -⟩ :=
    containsType_decides_reachability detourSession ⟨0⟩ (.named "D") hunfolding
  rw [hrun] at hfound
  exact ⟨hunfolding, by rw [hrun]; exact hfound, hiff.mp hfound⟩

end StaticCheck
