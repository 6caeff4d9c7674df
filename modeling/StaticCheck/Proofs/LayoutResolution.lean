import StaticCheck.Proofs.Cycles
import StaticCheck.Proofs.Layouts
import StaticCheck.Proofs.Nameless
import StaticCheck.Proofs.Silence

/-!
# Resolution for layout

Before the size of a type is computed, the type is resolved together with what
it holds by value.  What this finds has no name and no parenthesis left wherever
the computation of the layout looks, so that a size can be missing for no other
reasons than the types themselves give.  The resolution comes to an end also for
types that hold themselves by value.
-/

namespace StaticCheck

open Rule

variable {α β : Type}

/-!
## Where a layout looks
-/

/-- A type that is looked at for the layout of another one.  Under an optional
it is looked for a pointer before anything else. -/
inductive Ty.LooksAt : Ty → Ty → Prop
  | embedded {ty part : Ty} (hpart : ty.Embeds part) : LooksAt ty part
  | optional {inner : Ty} : LooksAt (.optional inner) inner

/-- There is neither a name nor a parenthesis where the layout of the type
looks. -/
def Ty.Bare (ty : Ty) : Prop :=
  ∀ part, Relation.ReflTransGen Ty.LooksAt ty part → part.isUnfolded = true

namespace Ty

theorem Bare.of_parts {ty : Ty} (hown : ty.isUnfolded = true)
    (h : ∀ part, ty.LooksAt part → part.Bare) : ty.Bare := by
  intro part hway
  rcases hway.cases_head with rfl | ⟨next, hnext, hway⟩
  · exact hown
  · exact h next hnext part hway

theorem Nameless.isUnfolded {ty : Ty} (h : ty.Nameless) :
    ty.isUnfolded = true := by
  cases ty with
  | named | paren => cases h
  | _ => rfl

theorem bare_struct {struct : StructTy}
    (h : ∀ member ∈ struct.members, member.ty.Bare) :
    (Ty.struct struct).Bare := by
  refine .of_parts rfl fun part hpart => ?_
  cases hpart with
  | embedded hpart =>
    cases hpart with
    | member hmember => exact h _ hmember

theorem bare_enum {enum : EnumTy}
    (h : ∀ variant ∈ enum.variants, ∀ ty ∈ variant.payload, ty.Bare) :
    (Ty.enum enum).Bare := by
  refine .of_parts rfl fun part hpart => ?_
  cases hpart with
  | embedded hpart =>
    cases hpart with
    | payload hvariant hpayload => exact h _ hvariant _ hpayload

theorem bare_array {element : Ty} {extent : Extent} {mutable : Bool}
    (h : element.Bare) : (Ty.array element extent mutable).Bare := by
  refine .of_parts rfl fun part hpart => ?_
  cases hpart with
  | embedded hpart =>
    cases hpart
    exact h

theorem bare_slice {element : Ty} {mutable : Bool} :
    (Ty.array element .slice mutable).Bare := by
  refine .of_parts rfl fun part hpart => ?_
  cases hpart with
  | embedded hpart => cases hpart

theorem bare_tuple {fields : List Ty} (h : ∀ ty ∈ fields, ty.Bare) :
    (Ty.tuple fields).Bare := by
  refine .of_parts rfl fun part hpart => ?_
  cases hpart with
  | embedded hpart =>
    cases hpart with
    | field hfield => exact h _ hfield

theorem bare_union {members : List Ty} (h : ∀ ty ∈ members, ty.Bare) :
    (Ty.union members).Bare := by
  refine .of_parts rfl fun part hpart => ?_
  cases hpart with
  | embedded hpart =>
    cases hpart with
    | alternative hmember => exact h _ hmember

theorem bare_optional {inner : Ty} (h : inner.Bare) :
    (Ty.optional inner).Bare := by
  refine .of_parts rfl fun part hpart => ?_
  cases hpart with
  | embedded hpart =>
    cases hpart
    exact h
  | optional => exact h

/-- Why a type that resolution prepared has no layout. -/
theorem Bare.layout?_eq_none_iff {ty : Ty} (h : ty.Bare) : ty.layout? = none ↔
    ∃ part, Relation.ReflTransGen Ty.Embeds ty part ∧
      ((∃ value, part = .comptimeInt value) ∨ part = .comptimeFloat ∨
        part = .any ∨ part = .type ∨ part.Oversized) := by
  rw [ty.layout?_eq_none_iff]
  refine exists_congr fun part => and_congr_right fun hway => ?_
  constructor
  · rintro (hunsized | hoversized)
    · cases hunsized with
      | named name =>
        have hunfolded :=
          h (.named name) (hway.lift id fun _ _ => Ty.LooksAt.embedded)
        cases hunfolded
      | comptimeInt value => exact .inl ⟨value, rfl⟩
      | comptimeFloat => exact .inr (.inl rfl)
      | any => exact .inr (.inr (.inl rfl))
      | type => exact .inr (.inr (.inr (.inl rfl)))
    · exact .inr (.inr (.inr (.inr hoversized)))
  · rintro (⟨value, rfl⟩ | rfl | rfl | rfl | hoversized)
    · exact .inl (.comptimeInt value)
    · exact .inl .comptimeFloat
    · exact .inl .any
    · exact .inl .type
    · exact .inr hoversized

end Ty

/-!
## What resolution for layout finds
-/

def Yields (post : α → Prop) (check : Check α) : Prop :=
  ∀ s : Session, s.Nameless → post (check s).1 ∧ (check s).2.Nameless

namespace Yields

variable {judge : Judge} {post : α → Prop} {last : β → Prop}

theorem pure {a : α} (ha : post a) :
    Yields post ((Pure.pure a : Rule α) judge) :=
  fun _ hs => ⟨ha, hs⟩

theorem giveUp :
    Yields (fun answer => ∀ a ∈ answer, post a)
      ((Pure.pure none : Rule _) judge) := by
  exact .pure fun _ hmem => absurd hmem (Option.not_mem_none _)

theorem answer {a : α} (ha : post a) :
    Yields (fun answer => ∀ a ∈ answer, post a)
      ((Pure.pure (some a) : Rule _) judge) := by
  exact .pure fun _ hmem => Option.mem_some.mp hmem ▸ ha

theorem bindSome {rule : Rule (Option α)} {next : Option α → Rule (Option β)}
    (hrule : Yields (fun answer => ∀ a ∈ answer, post a) (rule judge))
    (hnone : next none = Pure.pure none)
    (hnext : ∀ a, post a → Yields (fun answer => ∀ b ∈ answer, last b)
      (next (some a) judge)) :
    Yields (fun answer => ∀ b ∈ answer, last b) ((rule >>= next) judge) := by
  intro s hs
  obtain ⟨hanswer, ht⟩ := hrule s hs
  rw [bind_run]
  cases hfound : (rule judge s).1 with
  | none =>
    rw [hnone]
    exact giveUp _ ht
  | some a => exact hnext a (hanswer a hfound) _ ht

theorem mapSome {rule : α → Rule (Option β)} {items : List α}
    (h : ∀ a ∈ items, Yields (fun answer => ∀ b ∈ answer, last b)
      (rule a judge)) :
    Yields (fun answer => ∀ bs ∈ answer, ∀ b ∈ bs, last b)
      (mapSome rule items judge) := by
  induction items with
  | nil => exact .answer (List.forall_mem_nil _)
  | cons a rest ih =>
    rw [List.forall_mem_cons] at h
    refine .bindSome h.1 rfl fun b hb => .bindSome (ih h.2) rfl fun bs hbs => ?_
    exact .answer (List.forall_mem_cons.mpr ⟨hb, hbs⟩)

variable {n : Nat}

theorem of_attested {rule : Rule (Option Ty)}
    (h : Attested .nameless Place.outside rule) :
    Yields (fun answer => ∀ ty ∈ answer, ty.Nameless)
      (rule (Judge.limited n)) := by
  exact h.settles (Judge.limited_nameless n)

theorem layoutMember {opened : Ty → Rule (Option Ty)}
    (hopened : ∀ ty, Yields (fun answer => ∀ ty ∈ answer, ty.Bare)
      (opened ty (Judge.limited n)))
    (struct : StructTy) (member : Member) :
    Yields (fun answer => ∀ member ∈ answer, member.ty.Bare)
      (layoutMember opened struct member (Judge.limited n)) := by
  exact .bindSome (.of_attested (.resolveMember (Answer.free member)))
    rfl fun ty _ =>
    .bindSome (hopened ty) rfl fun _ hty => .answer hty

theorem layoutVariant {opened : Ty → Rule (Option Ty)}
    (hopened : ∀ ty, Yields (fun answer => ∀ ty ∈ answer, ty.Bare)
      (opened ty (Judge.limited n)))
    (enum : EnumTy) (variant : Variant) :
    Yields (fun answer => ∀ variant ∈ answer, ∀ ty ∈ variant.payload, ty.Bare)
      (layoutVariant opened enum variant (Judge.limited n)) := by
  unfold Rule.layoutVariant
  cases hpayload : variant.payload with
  | none =>
    refine .answer fun ty hty => ?_
    rw [hpayload] at hty
    exact absurd hty (Option.not_mem_none _)
  | some payload =>
    refine .bindSome
      (.of_attested (.inScope? fun _ => .tryResolve (Answer.free payload))) rfl
      fun ty _ => .bindSome (hopened ty) rfl fun ty hty => ?_
    exact .answer fun _ hmem => Option.mem_some.mp hmem ▸ hty

theorem layoutTy (depth : Nat) (ty : Ty) :
    Yields (fun answer => ∀ ty ∈ answer, ty.Bare)
      (layoutTy depth ty (Judge.limited n)) := by
  induction depth generalizing ty with
  | zero => exact .giveUp
  | succ depth ih =>
    unfold Rule.layoutTy
    refine .bindSome (.of_attested (.tryResolve (Answer.free ty))) rfl
      fun resolved hresolved => ?_
    have hunfolded := hresolved.isUnfolded
    cases resolved with
    | struct struct =>
      refine .bindSome (.mapSome fun member _ => layoutMember ih struct member)
        rfl ?_
      exact fun _ hmembers => .answer (Ty.bare_struct hmembers)
    | enum enum =>
      refine .bindSome (.mapSome fun variant _ => layoutVariant ih enum variant)
        rfl ?_
      exact fun _ hvariants => .answer (Ty.bare_enum hvariants)
    | array element extent mutable =>
      cases extent with
      | slice => exact .answer Ty.bare_slice
      | fixed | expr =>
        exact .bindSome (ih element) rfl fun _ helement =>
          .answer (Ty.bare_array helement)
    | tuple fields =>
      refine .bindSome (.mapSome fun field _ => ih field) rfl ?_
      exact fun _ hfields => .answer (Ty.bare_tuple hfields)
    | optional inner =>
      exact .bindSome (ih inner) rfl fun _ hinner =>
        .answer (Ty.bare_optional hinner)
    | union members =>
      refine .bindSome (.mapSome fun member _ => ih member) rfl ?_
      exact fun _ hmembers => .answer (Ty.bare_union hmembers)
    | named | paren => cases hunfolded
    | prim | errors | pointer | function =>
      refine .answer (.of_parts rfl fun part hpart => ?_)
      cases hpart with
      | embedded hpart => cases hpart

end Yields

/-!
## Types without lengths
-/

def Leaf.isPlain : Leaf → Bool
  | .name _ | .home _ => true
  | .length _ | .symbol _ => false

def Ty.isLengthless (ty : Ty) : Bool := (ty.leaves true).all Leaf.isPlain

theorem Ty.fits_of_isLengthless {ty : Ty} (h : ty.isLengthless = true)
    (kind : Expr → Prop) (tree : ScopeTree) :
    ∀ leaf ∈ ty.leaves true, leaf.Fits kind tree := by
  intro leaf hleaf
  have hplain := List.all_eq_true.mp h leaf hleaf
  cases leaf with
  | name | home => trivial
  | length | symbol => cases hplain

theorem Session.not_meets_length {s : Session} {given : List Ty}
    (hgiven : given.all Ty.isLengthless = true)
    (hsymbols : s.tree.symbols.toList.all (fun symbol =>
      symbol.ty.all Ty.isLengthless &&
        symbol.info.aliased.all Ty.isLengthless) = true)
    (length : Expr) : ¬s.Meets given (.length length) := by
  intro hmeets
  have hall : s.tree.All fun symbol => (symbol.ty.all Ty.isLengthless &&
      symbol.info.aliased.all Ty.isLengthless) = true :=
    List.all_eq_true.mp hsymbols
  refine hmeets.of_kind ?_ ?_ fun _ h => False.elim h
  · intro ty hty
    exact Ty.fits_of_isLengthless (List.all_eq_true.mp hgiven ty hty) _ _
  · refine fun id => ⟨rfl, fun _ ty hty => ?_⟩
    obtain ⟨hown, haliased⟩ :=
      Bool.and_eq_true_iff.mp (hall.symbol (fun _ => rfl) id)
    rcases hty with hty | hty
    · rw [hty] at hown
      exact Ty.fits_of_isLengthless hown _ _
    · rw [hty] at haliased
      exact Ty.fits_of_isLengthless haliased _ _

/-!
## Sessions of a program
-/

theorem Program.session_unfolding (program : Program) (options : Options)
    (evaluator : Evaluator) (n : Nat) :
    (program.session options evaluator n).unfolding = [] := by
  cases n with
  | zero => rfl
  | succ n => rfl

/-- However often a program was checked, and in every scope: what a type is
resolved to for its layout has no name and no parenthesis where the layout
looks, so that its size is missing only where a comptime number, `any`, `type`
or an array of too many bytes is held by value.  If reading the type comes to
no array length, then the resolution ends by itself, also for types that hold
themselves: its run is the same over every judge, cut off at any depth that is
not below the number of symbols. -/
theorem layout_is_prepared
    (program : Program)
    (options : Options)
    (evaluator : Evaluator)
    (n : Nat)
    (scope : ScopeId)
    (ty : Ty) :
    let s := program.session options evaluator n
    let entered := { s with tree := s.tree.enter scope }
    (∀ answer,
      (Check.within scope (Check.resolveLayout ty) s).1 = some answer →
      (∀ part, Relation.ReflTransGen Ty.LooksAt answer part →
        part.isUnfolded = true) ∧
      (Evaluator.literal.size answer = none ↔
        ∃ part, Relation.ReflTransGen Ty.Embeds answer part ∧
          ((∃ value, part = .comptimeInt value) ∨ part = .comptimeFloat ∨
            part = .any ∨ part = .type ∨ part.Oversized))) ∧
    ((∀ length, ¬entered.Meets [ty] (.length length)) →
      ∀ (last : Judge) (m : Nat), s.tree.symbols.size ≤ m →
        resolveLayout ty (last.above m) entered =
          Check.resolveLayout ty entered) := by
  intro s entered
  have hnameless : entered.Nameless :=
    { program.session_nameless options evaluator n with }
  constructor
  · intro answer hanswer
    have hbare : answer.Bare :=
      (Yields.layoutTy layoutDepth ty entered hnameless).1 answer hanswer
    refine ⟨hbare, ?_⟩
    rw [← hbare.layout?_eq_none_iff]
    exact Option.map_eq_none_iff
  · intro hlengths last m hm
    let reading := Reading.reached entered [ty] 0
    have hreads : reading.Reads ty :=
      fun leaf hleaf => .given (List.mem_singleton_self ty) hleaf
    have hfinds : ∀ last twin n, ∃ post,
        Finds (reading.bounded last twin n []) post (resolveLayout ty) := by
      intro last twin n
      have hsilent := reading.bounded_silent last twin hlengths
        (fun _ unfolding ht => .unfold unfolding ht) n []
      exact ⟨_, hsilent.layoutTy rfl layoutDepth hreads⟩
    exact Reading.run_eq hfinds (.start : entered.ComesTo [ty] entered)
      (program.session_unfolding options evaluator n) .exhausted last hm
      (entered.symbols_le_depth ty.size)

def nodeInNode : Program :=
  soleModule [declareStruct 1 "Node" "next" (.optional (.named "Node"))]

/-- After a pass, a pointer to the struct is prepared, and the attempt to
prepare the struct itself ends without an answer. -/
theorem layout_is_prepared_of_node :
    let s := nodeInNode.session {} .literal 1
    let entered := { s with tree := s.tree.enter ⟨1⟩ }
    let handle : Ty := .tuple [.pointer (.named "Node") false, .named "i32"]
    (∃ answer,
      (Check.within ⟨1⟩ (Check.resolveLayout handle) s).1 = some answer ∧
      ∀ part, Relation.ReflTransGen Ty.LooksAt answer part →
        part.isUnfolded = true) ∧
    (∀ length, ¬entered.Meets [.named "Node"] (.length length)) ∧
    ∀ (last : Judge) (m : Nat), s.tree.symbols.size ≤ m →
      (resolveLayout (.named "Node") (last.above m) entered).1 = none := by
  intro s entered handle
  have hlengths : ∀ length,
      ¬entered.Meets [.named "Node"] (.length length) :=
    Session.not_meets_length (by decide) (by decide +kernel)
  refine ⟨?_, hlengths, fun last m hm => ?_⟩
  · have hfound : (Check.within ⟨1⟩ (Check.resolveLayout handle)
        s).1.isSome = true := by decide +kernel
    obtain ⟨answer, hanswer⟩ := Option.isSome_iff_exists.mp hfound
    have hprepared :=
      (layout_is_prepared nodeInNode {} .literal 1 ⟨1⟩ handle).1
    exact ⟨answer, hanswer, (hprepared answer hanswer).1⟩
  · have hrun := (layout_is_prepared nodeInNode {} .literal 1 ⟨1⟩
      (.named "Node")).2 hlengths last m hm
    have hnone : (Check.resolveLayout (.named "Node")
        entered).1.isNone = true := by decide +kernel
    exact (congrArg Prod.fst hrun).trans (Option.isNone_iff_eq_none.mp hnone)

end StaticCheck
