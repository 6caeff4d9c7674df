import StaticCheck.Proofs.Aliases
import StaticCheck.Proofs.Reading

/-!
# Resolution in silence

Between passes a type can be resolved in any scope.  If no array length has to
be folded on the way, the answer is canonical, it does not depend on which types
were resolved before, and there is none for an alias that leads back to itself.
The resolution then ends by itself: it never asks a judge below the depth that
unfolding every symbol once takes.
-/

namespace StaticCheck

open Rule

/-!
## What is recorded when a program is collected
-/

/-- Nothing is recorded yet for an alias, and only canonical types for other
names. -/
structure Symbol.Unresolved (symbol : Symbol) : Prop where
  canonical : ∀ ty, symbol.recorded? = some ty → ty.isCanonical = true
  fresh : ∀ aliased, symbol.info.aliased = some aliased → symbol.ty = none

namespace Symbol.Unresolved

theorem placeless : Placeless Symbol.Unresolved := by
  intro _ _ _ h
  exact ⟨h.canonical, h.fresh⟩

theorem of_type {symbol : Symbol} (haliased : symbol.info.aliased = none)
    (hty : ∀ ty, symbol.ty = some ty → ty.isCanonical = true) :
    symbol.Unresolved where
  canonical ty hrecorded := by
    unfold recorded? at hrecorded
    split at hrecorded
    · exact hty ty hrecorded
    · cases hrecorded
  fresh aliased h := by
    rw [haliased] at h
    cases h

theorem of_kind {symbol : Symbol} (haliased : symbol.info.aliased = none)
    (hdefinition : symbol.kind ≠ .definition) (herror : symbol.kind ≠ .error) :
    symbol.Unresolved where
  canonical ty hrecorded := by
    simp [recorded?, isTypeName, hdefinition, herror] at hrecorded
  fresh aliased h := by
    rw [haliased] at h
    cases h

theorem declarable {limits : Limits} : Declarable limits Symbol.Unresolved where
  binding _ _ _ := of_kind rfl nofun nofun
  constant _ _ _ := of_type rfl nofun
  typeAlias _ _ _ _ _ :=
    { canonical := fun _ hty => by simp [recorded?, ofDef] at hty
      fresh := fun _ _ => rfl }
  errorSet _ _ _ _ _ := of_type rfl fun _ hty => by cases hty; rfl
  errorMember _ _ _ := of_type rfl fun _ hty => by cases hty; rfl
  use _ _ _ := of_kind rfl nofun nofun
  function _ _ _ _ := of_kind rfl nofun nofun
  receiver _ _ _ := of_kind rfl nofun nofun
  selfErr _ _ := of_type rfl fun _ hty => by cases hty; rfl
  param _ _ _ _ := of_kind rfl nofun nofun
  type _ _ ty _ _ _ hmembers := of_type rfl fun _ hty => by
    cases hty
    cases ty with
    | struct struct =>
      obtain ⟨name, members, scope⟩ := struct
      cases hmembers
      rfl
    | enum => rfl
    | _ => cases hmembers
  field _ _ := of_kind rfl nofun nofun
  variant _ _ _ _ := of_kind rfl nofun nofun
  forBinding _ _ := of_kind rfl nofun nofun
  catchBinding _ _ := of_kind rfl nofun nofun

theorem of_tree (program : Program) (id : SymbolId) :
    (program.collect.tree.symbol id).Unresolved := by
  exact Collected.symbol declarable placeless
    (fun _ => of_kind rfl nofun nofun) id

theorem recorded?_eq_none (program : Program) (id : SymbolId) (aliased : Ty)
    (h : (program.collect.tree.symbol id).unfolded? = some aliased) :
    (program.collect.tree.symbol id).recorded? = none := by
  unfold unfolded? at h
  split at h
  · next htype =>
      rw [recorded?_of_isTypeName htype]
      exact (of_tree program id).fresh aliased h
  · cases h

end Symbol.Unresolved

def ScopeTree.isLengthFree (tree : ScopeTree) : Bool :=
  tree.symbols.toList.all fun symbol => symbol.info.aliased.all Ty.isLengthFree

theorem ScopeTree.aliased_isLengthFree {tree : ScopeTree}
    (hlengths : tree.isLengthFree = true) (id : SymbolId) (ty : Ty)
    (haliased : (tree.symbol id).info.aliased = some ty) :
    ty.isLengthFree = true := by
  have hall : tree.All fun symbol =>
      symbol.info.aliased.all Ty.isLengthFree = true :=
    List.all_eq_true.mp hlengths
  have hfree := hall.symbol (fun _ => rfl) id
  rw [haliased] at hfree
  exact hfree

theorem Program.collect_plain {program : Program}
    (hlengths : program.collect.tree.isLengthFree = true) :
    program.collect.tree.Plain where
  recorded id := (Symbol.Unresolved.of_tree program id).canonical
  aliased := ScopeTree.aliased_isLengthFree hlengths

/-!
## Reading types without lengths
-/

section Lengthless

variable {p : Ty → Bool} {tree : ScopeTree}

mutual

theorem Ty.fits_of_every (hp : ∀ ty, p ty = true → ty.isFolded = true)
    (ty : Ty) (h : ty.every p = true) :
    ∀ leaf ∈ ty.leaves false, leaf.Fits (fun _ => False) tree := by
  cases ty with
  | prim | errors => exact List.forall_mem_nil _
  | enum enum =>
    obtain ⟨name, variants, scope⟩ := enum
    exact List.forall_mem_nil _
  | named name => exact List.forall_mem_singleton.mpr trivial
  | paren inner | pointer inner | optional inner =>
    exact Ty.fits_of_every hp inner (Bool.and_eq_true_iff.mp h).2
  | array element extent mutable =>
    obtain ⟨hfolded, helement⟩ := Bool.and_eq_true_iff.mp h
    refine List.forall_mem_append.mpr ⟨Ty.fits_of_every hp element helement, ?_⟩
    cases extent with
    | slice | fixed => exact List.forall_mem_nil _
    | expr length => cases hp _ hfolded
  | tuple items | union items =>
    exact Ty.fits_of_everyAll hp items (Bool.and_eq_true_iff.mp h).2
  | function params result error =>
    obtain ⟨-, hparts⟩ := Bool.and_eq_true_iff.mp h
    obtain ⟨hparams, hrest⟩ := Bool.and_eq_true_iff.mp hparts
    obtain ⟨hresult, herror⟩ := Bool.and_eq_true_iff.mp hrest
    refine List.forall_mem_append.mpr
      ⟨Ty.fits_of_everyAll hp params hparams, List.forall_mem_append.mpr ?_⟩
    exact ⟨Ty.fits_of_every hp result hresult,
      Ty.fits_of_everyOpt hp error herror⟩
  | struct struct =>
    obtain ⟨name, members, scope⟩ := struct
    cases scope with
    | some scope => exact List.forall_mem_nil _
    | none =>
      exact Member.fits_of_every hp members (Bool.and_eq_true_iff.mp h).2

theorem Ty.fits_of_everyAll (hp : ∀ ty, p ty = true → ty.isFolded = true)
    (tys : List Ty) (h : Ty.everyAll p tys = true) :
    ∀ leaf ∈ Ty.leavesAll false tys, leaf.Fits (fun _ => False) tree := by
  cases tys with
  | nil => exact List.forall_mem_nil _
  | cons ty rest =>
    obtain ⟨hty, hrest⟩ := Bool.and_eq_true_iff.mp h
    exact List.forall_mem_append.mpr
      ⟨Ty.fits_of_every hp ty hty, Ty.fits_of_everyAll hp rest hrest⟩

theorem Ty.fits_of_everyOpt (hp : ∀ ty, p ty = true → ty.isFolded = true)
    (ty : Option Ty) (h : Ty.everyOpt p ty = true) :
    ∀ leaf ∈ Ty.leavesOpt false ty, leaf.Fits (fun _ => False) tree := by
  cases ty with
  | none => exact List.forall_mem_nil _
  | some ty => exact Ty.fits_of_every hp ty h

theorem Member.fits_of_every (hp : ∀ ty, p ty = true → ty.isFolded = true)
    (members : List Member) (h : Member.every p members = true) :
    ∀ leaf ∈ Member.leavesAll false members,
      leaf.Fits (fun _ => False) tree := by
  cases members with
  | nil => exact List.forall_mem_nil _
  | cons member rest =>
    obtain ⟨name, ty⟩ := member
    obtain ⟨hty, hrest⟩ := Bool.and_eq_true_iff.mp h
    exact List.forall_mem_append.mpr
      ⟨Ty.fits_of_every hp ty hty, Member.fits_of_every hp rest hrest⟩

end

end Lengthless

theorem Ty.isFolded_of_isSettled (ty : Ty) (h : ty.isSettled = true) :
    ty.isFolded = true := by
  cases ty with
  | named | paren => cases h
  | _ => exact h

theorem ScopeTree.Plain.readable {first tree : ScopeTree}
    (hplain : first.Plain) (h : first.Unfolds tree) (id : SymbolId) :
    (tree.symbol id).Readable false (fun _ => False) tree id := by
  refine ⟨rfl, fun hnamed ty hty => ?_⟩
  rcases hty with hty | haliased
  · have hrecorded : (tree.symbol id).recorded? = some ty :=
      (if_pos hnamed).trans hty
    obtain ⟨fuel, hfuel⟩ := h.denoted id ty hrecorded
    exact Ty.fits_of_every Ty.isFolded_of_isSettled ty
      (hplain.isCanonical_of_denoted hfuel)
  · rw [h.info_eq] at haliased
    exact Ty.fits_of_every (fun _ hty => hty) ty
      (hplain.aliased id ty haliased)

/-!
## Asking for a type
-/

namespace Session

/-- What a type is resolved to in a scope, in silence. -/
def resolved? (s : Session) (scope : ScopeId) (ty : Ty) : Option Ty :=
  (Check.within scope (Check.tryResolve ty) s).1

def resolve (s : Session) (scope : ScopeId) (ty : Ty) : Session :=
  (Check.within scope (Check.tryResolve ty) s).2

theorem parts_le_depth (s : Session) (size : Nat) :
    s.program.size + size + s.tree.symbols.size + 16 ≤ s.depth size := by
  unfold depth
  dsimp only
  generalize hparts : s.program.size + size + s.tree.symbols.size + 16 = parts
  calc parts ≤ parts * parts := Nat.le_mul_of_pos_right _ (by omega)
    _ ≤ parts * parts * parts := Nat.le_mul_of_pos_right _ (by omega)

theorem symbols_le_depth (s : Session) (size : Nat) :
    s.tree.symbols.size ≤ s.depth size := by
  have hparts := s.parts_le_depth size
  omega

variable {first : ScopeTree} {scope : ScopeId} {s : Session} {ty answer : Ty}

/-- A session between two questions, after some aliases were resolved. -/
def Idle (first : ScopeTree) (s : Session) : Prop :=
  s.Resolving first [] s.tree.current

theorem Idle.enter (h : s.Idle first) (scope : ScopeId) :
    { s with tree := s.tree.enter scope }.Resolving first [] scope := by
  exact ⟨h.tree.enter scope, h.unfolding, rfl⟩

theorem Idle.resolve (h : s.Idle first) (hplain : first.Plain)
    (hty : ty.isLengthFree = true) : (s.resolve scope ty).Idle first := by
  have hrun :
      Agrees (Resolving first [] scope) (first.Ready [] (s.depth ty.size) 0) 0
      (first.standsFor scope ty)
      (Check.tryResolve ty { s with tree := s.tree.enter scope }) :=
    (computes_resolveTy hplain _ hty).agrees _ (h.enter scope)
  exact ⟨hrun.session.tree.enter _, hrun.session.unfolding, rfl⟩

theorem Idle.tryResolve_eq_some_iff (h : s.Idle first) (hplain : first.Plain)
    (hty : ty.isLengthFree = true) {n : Nat} (hdepth : first.symbols.size ≤ n) :
    (tryResolve ty (Judge.limited n) { s with tree := s.tree.enter scope }).1 =
      some answer ↔ ∃ fuel, first.standsFor scope ty fuel = some answer := by
  have hrun : ∀ k, Agrees (Resolving first [] scope) (first.Ready [] n k) k
      (first.standsFor scope ty)
      (tryResolve ty (Judge.limited n) { s with tree := s.tree.enter scope }) :=
    fun _ => (computes_resolveTy hplain n hty).agrees _ (h.enter scope)
  refine ⟨(hrun 0).sound answer, fun ⟨fuel, hfuel⟩ =>
    (hrun fuel).complete ?_ answer hfuel⟩
  exact .nil hdepth

theorem Idle.tryResolve_eq (h : s.Idle first) (hplain : first.Plain)
    (hty : ty.isLengthFree = true) (last : Judge) {n : Nat}
    (hdepth : first.symbols.size ≤ n) :
    tryResolve ty (last.above n) { s with tree := s.tree.enter scope } =
      Check.tryResolve ty { s with tree := s.tree.enter scope } := by
  let entered := { s with tree := s.tree.enter scope }
  let reading := Reading.fitting .exhausted false (fun _ => False)
    entered.tree entered.evaluator
  have hentered : entered.Resolving first [] scope := h.enter scope
  have hadmits : reading.Admits entered :=
    ⟨rfl, hplain.readable hentered.tree⟩
  have hreads : reading.Reads ty :=
    Ty.fits_of_every (fun _ hty => hty) ty hty
  have hfinds : ∀ last twin n,
      ∃ post, Finds (reading.bounded last twin n []) post (tryResolve ty) := by
    intro last twin n
    have hsilent := reading.bounded_silent last twin
      (fun _ hlength => hlength) (fun _ _ ht => ht) n []
    exact ⟨_, hsilent.resolveTy .none ty hreads⟩
  exact Reading.run_eq hfinds hadmits hentered.unfolding .exhausted last
    (hentered.tree.size ▸ hdepth) (entered.symbols_le_depth ty.size)

theorem Idle.resolved?_eq_some_iff (h : s.Idle first) (hplain : first.Plain)
    (hty : ty.isLengthFree = true) :
    s.resolved? scope ty = some answer ↔ ∃ fuel, first.standsFor scope ty fuel =
      some answer := by
  exact h.tryResolve_eq_some_iff hplain hty
    (h.tree.size ▸ s.symbols_le_depth ty.size)

theorem resolved?_of_canonical (s : Session) (scope : ScopeId)
    (h : ty.isCanonical = true) : s.resolved? scope ty = some ty := by
  exact congrArg Prod.fst (resolveTy_of_canonical _ _ ty h)

def resolveEach (s : Session) (requests : List (ScopeId × Ty)) : Session :=
  requests.foldl (fun s request => s.resolve request.1 request.2) s

theorem Idle.resolveEach (h : s.Idle first) (hplain : first.Plain)
    {requests : List (ScopeId × Ty)}
    (hrequests : ∀ request ∈ requests, request.2.isLengthFree = true) :
    (s.resolveEach requests).Idle first := by
  induction requests generalizing s with
  | nil => exact h
  | cons request rest ih =>
    rw [List.forall_mem_cons] at hrequests
    exact ih (h.resolve hplain hrequests.1) hrequests.2

theorem new_idle (program : Program) (options : Options)
    (evaluator : Evaluator) :
    ((Session.new program options).withEvaluator evaluator).Idle
      program.collect.tree :=
  ⟨.refl _, rfl, rfl⟩

theorem Idle.resolved?_eq {t : Session} (hs : s.Idle first) (ht : t.Idle first)
    (hplain : first.Plain) (hty : ty.isLengthFree = true) :
    t.resolved? scope ty = s.resolved? scope ty := by
  apply Option.ext
  intro answer
  rw [ht.resolved?_eq_some_iff hplain hty, hs.resolved?_eq_some_iff hplain hty]

end Session

/-- After any types were resolved in any scopes of a new session, and if no
array length has to be folded: an answer is canonical and resolves to itself
everywhere, resolving another type in between does not change it, there is none
for a type with an alias that leads back to itself, and no judge that is as deep
as there are symbols gives another one. -/
theorem resolution_is_canonical_and_unaffected
    {program : Program}
    {options : Options}
    {evaluator : Evaluator}
    {requests : List (ScopeId × Ty)}
    {s : Session}
    {ty : Ty}
    (hlengths : program.collect.tree.isLengthFree = true)
    (hrequests : ∀ request ∈ requests, request.2.isLengthFree = true)
    (hs : s =
      ((Session.new program options).withEvaluator evaluator).resolveEach
      requests)
    (scope : ScopeId)
    (hty : ty.isLengthFree = true) :
    (∀ answer, s.resolved? scope ty = some answer →
      answer.isCanonical = true ∧
        ∀ (t : Session) (other : ScopeId), t.resolved? other answer =
        some answer) ∧
    (∀ (other : ScopeId) (between : Ty), between.isLengthFree = true →
      (s.resolve other between).resolved? scope ty = s.resolved? scope ty) ∧
    (∀ id, program.collect.tree.Mentions scope ty id →
      program.collect.tree.IsCircular id → s.resolved? scope ty = none) ∧
    ∀ (last : Judge) (n : Nat), program.collect.tree.symbols.size ≤ n →
      tryResolve ty (last.above n) { s with tree := s.tree.enter scope } =
        Check.tryResolve ty { s with tree := s.tree.enter scope } := by
  have hplain := Program.collect_plain hlengths
  have hidle : s.Idle program.collect.tree :=
    hs ▸ (Session.new_idle program options evaluator).resolveEach
      hplain hrequests
  refine ⟨fun answer hanswer => ?_, fun other between hbetween => ?_,
    fun id hmentions hcircular => ?_, fun last n hn =>
      hidle.tryResolve_eq hplain hty last hn⟩
  · obtain ⟨fuel, hfuel⟩ := (hidle.resolved?_eq_some_iff hplain hty).mp hanswer
    have hcanonical := hplain.isCanonical_of_standsFor hty hfuel
    exact ⟨hcanonical, fun t other => t.resolved?_of_canonical other hcanonical⟩
  · exact hidle.resolved?_eq (hidle.resolve hplain hbetween) hplain hty
  · by_contra hsome
    obtain ⟨answer, hanswer⟩ := Option.ne_none_iff_exists'.mp hsome
    obtain ⟨fuel, hfuel⟩ := (hidle.resolved?_eq_some_iff hplain hty).mp hanswer
    have hnothing := ScopeTree.standsFor_eq_none hmentions
      (hcircular.denoted_eq_none fuel
        (Symbol.Unresolved.recorded?_eq_none program))
    rw [hfuel] at hnothing
    cases hnothing

def declareSynonym (node : Nat) (name : String) (ty : Ty) : Stmt :=
  ⟨⟨node⟩, .none, .defDecl ⟨name, .priv, none, ⟨⟨node + 1⟩, .none, .type ty⟩⟩⟩

def tangledAliases : Program :=
  soleModule [declareSynonym 1 "A" (.pointer (.named "B") true),
    declareSynonym 3 "B" (.optional (.named "A")),
    declareSynonym 5 "C" (.paren (.pointer (.named "D") false)),
    declareSynonym 7 "D" (.paren (.named "i32"))]

theorem tangledAliases_isCircular :
    tangledAliases.collect.tree.IsCircular ⟨0⟩ := by
  have hfirst : tangledAliases.collect.tree.Needs ⟨0⟩ ⟨1⟩ :=
    ⟨.pointer (.named "B") true, by rfl, "B", .head _, by rfl, by
      decide +kernel⟩
  have hsecond : tangledAliases.collect.tree.Needs ⟨1⟩ ⟨0⟩ :=
    ⟨.optional (.named "A"), by rfl, "A", .head _, by rfl, by decide +kernel⟩
  exact ⟨⟨0⟩, .refl, .head hfirst (.single hsecond)⟩

def tangledSession : Session :=
  ((Session.new tangledAliases {}).withEvaluator .literal).resolveEach
    [(⟨1⟩, .named "D")]

/-- After `D` was resolved, `C` has a canonical answer that the attempt to
resolve `A` leaves as it is, and a type with `A` in it has none. -/
theorem resolution_is_canonical_and_unaffected_of_tangle :
    (∃ answer, tangledSession.resolved? ⟨1⟩ (.named "C") = some answer ∧
      answer.isCanonical = true ∧
      (tangledSession.resolve ⟨1⟩ (.named "A")).resolved? ⟨1⟩ (.named "C") =
      some answer) ∧
    tangledSession.resolved? ⟨1⟩ (.tuple [.named "C", .named "A"]) = none := by
  have hlengths : tangledAliases.collect.tree.isLengthFree = true := by
    decide +kernel
  have hrequests : ∀ request ∈ [((⟨1⟩ : ScopeId), Ty.named "D")],
      request.2.isLengthFree = true := by decide
  have hmentions : tangledAliases.collect.tree.Mentions ⟨1⟩
      (.tuple [.named "C", .named "A"]) ⟨0⟩ :=
    ⟨"A", .tail _ (.head _), by rfl, by decide +kernel⟩
  have hfound : (tangledSession.resolved? ⟨1⟩ (.named "C")).isSome = true := by
    decide +kernel
  obtain ⟨answer, hanswer⟩ := Option.isSome_iff_exists.mp hfound
  have hfree : (Ty.named "C").isLengthFree = true := rfl
  obtain ⟨hcanonical, hbetween, -⟩ :=
    resolution_is_canonical_and_unaffected hlengths hrequests rfl ⟨1⟩ hfree
  refine ⟨⟨answer, hanswer, (hcanonical answer hanswer).1, ?_⟩, ?_⟩
  · exact (hbetween ⟨1⟩ (.named "A") rfl).trans hanswer
  · have hpair : (Ty.tuple [.named "C", .named "A"]).isLengthFree = true := rfl
    exact (resolution_is_canonical_and_unaffected hlengths hrequests rfl ⟨1⟩
      hpair).2.2.1 ⟨0⟩ hmentions tangledAliases_isCircular

end StaticCheck
