import StaticCheck.Proofs.Denotation

/-!
# Resolution finds what types stand for

A tree in which some aliases have been resolved records only what they denote in
the tree of the start.  Resolution keeps to this, gives nothing else as an
answer, and misses no answer: an alias that is being unfolded is one that needs
more fuel than what is looked for, and each alias unfolded takes the place of
one symbol less.
-/

namespace StaticCheck

open Rule

/-!
## Trees with resolved aliases
-/

/-- A later tree: nothing but the types of symbols has changed, and those that
were recorded are kept. -/
structure ScopeTree.Records (first tree : ScopeTree) : Prop where
  scopes : tree.scopes = first.scopes
  size : tree.symbols.size = first.symbols.size
  symbols : ∀ id, tree.symbol id =
    { first.symbol id with ty := (tree.symbol id).ty }
  kept : ∀ id ty, (first.symbol id).ty = some ty → (tree.symbol id).ty = some ty

namespace ScopeTree.Records

variable {first tree : ScopeTree}

theorem refl (tree : ScopeTree) : tree.Records tree where
  scopes := rfl
  size := rfl
  symbols _ := rfl
  kept _ _ h := h

theorem isTypeName_eq (h : first.Records tree) (id : SymbolId) :
    (tree.symbol id).isTypeName = (first.symbol id).isTypeName := by
  rw [h.symbols id]
  rfl

theorem kind_eq (h : first.Records tree) (id : SymbolId) :
    (tree.symbol id).kind = (first.symbol id).kind := by
  rw [h.symbols id]

theorem info_eq (h : first.Records tree) (id : SymbolId) :
    (tree.symbol id).info = (first.symbol id).info := by
  rw [h.symbols id]

theorem scope_eq (h : first.Records tree) (id : SymbolId) :
    (tree.symbol id).scope = (first.symbol id).scope := by
  rw [h.symbols id]

theorem lookupFrom_eq (h : first.Records tree) (scope : ScopeId)
    (name : String) :
    tree.lookupFrom scope name = first.lookupFrom scope name := by
  have hscope : ∀ id, tree.scope id = first.scope id := by
    intro id
    simp only [ScopeTree.scope, h.scopes]
  have hclimb : ∀ steps id, tree.climb steps id = first.climb steps id := by
    intro steps
    induction steps with
    | zero => exact fun _ => rfl
    | succ steps ih => simp [climb, parent?, hscope, ih]
  have hoffer : tree.offer? name = first.offer? name := by
    funext id
    have hown : ∀ scope, tree.ownOffer? scope name =
        first.ownOffer? scope name := by
      intro scope
      unfold ownOffer? isPending
      congr 1
      funext id
      rw [h.symbols id]
    have himport : tree.importOffer? name = first.importOffer? name := by
      funext target
      unfold importOffer?
      rw [hscope]
      congr 1
      funext id
      rw [h.symbols id]
      rfl
    simp only [offer?, hscope, hown, himport]
  simp only [lookupFrom, chain, hclimb, hoffer]

theorem enter (h : first.Records tree) (scope : ScopeId) :
    first.Records (tree.enter scope) where
  scopes := h.scopes
  size := h.size
  symbols := h.symbols
  kept := h.kept

theorem symbol_setType (tree : ScopeTree) (id other : SymbolId) (ty : Ty) :
    (tree.updateSymbol id fun symbol =>
      { symbol with ty := some ty }).symbol other = tree.symbol other ∨
      other = id ∧
      (tree.updateSymbol id fun symbol => { symbol with ty := some ty }).symbol
      other = { tree.symbol other with ty := some ty } := by
  by_cases heq : other = id
  · subst heq
    exact (tree.symbol_updateSymbol_self other _).symm.imp_right
      fun hset => ⟨rfl, hset⟩
  · exact .inl (symbol_updateSymbol_of_ne tree _ heq)

theorem setType (h : first.Records tree) {id : SymbolId}
    (hnone : (first.symbol id).ty = none) (ty : Ty) :
    first.Records (tree.updateSymbol id fun symbol =>
      { symbol with ty := some ty }) where
  scopes := h.scopes
  size := by simp [updateSymbol, h.size]
  symbols other := by
    rcases symbol_setType tree id other ty with hset | ⟨-, hset⟩
    · rw [hset]
      exact h.symbols other
    · rw [hset, h.symbols other]
  kept other known hknown := by
    rcases symbol_setType tree id other ty with hset | ⟨rfl, -⟩
    · rw [hset]
      exact h.kept other known hknown
    · rw [hnone] at hknown
      cases hknown

end ScopeTree.Records

/-- A later tree in which, for names of types and of errors, only what they
denote in the first tree is recorded. -/
structure ScopeTree.Unfolds (first tree : ScopeTree) :
    Prop extends first.Records tree where
  denoted : ∀ id ty, (tree.symbol id).recorded? = some ty →
    ∃ fuel, first.denoted fuel id = some ty

namespace ScopeTree.Unfolds

variable {first tree : ScopeTree}

theorem refl (tree : ScopeTree) : tree.Unfolds tree where
  toRecords := .refl tree
  denoted _ _ h := ⟨0, h⟩

theorem enter (h : first.Unfolds tree) (scope : ScopeId) :
    first.Unfolds (tree.enter scope) where
  toRecords := h.toRecords.enter scope
  denoted := h.denoted

theorem setType (h : first.Unfolds tree) {id : SymbolId} {fuel : Nat} {ty : Ty}
    (hnone : (first.symbol id).ty = none)
    (hty : first.denoted fuel id = some ty) :
    first.Unfolds (tree.updateSymbol id fun symbol =>
      { symbol with ty := some ty }) where
  toRecords := h.toRecords.setType hnone ty
  denoted other known hknown := by
    rcases Records.symbol_setType tree id other ty with hset | ⟨rfl, hset⟩
    · rw [hset] at hknown
      exact h.denoted other known hknown
    · rw [hset, Symbol.recorded?] at hknown
      split at hknown
      · cases hknown
        exact ⟨fuel, hty⟩
      · cases hknown

end ScopeTree.Unfolds

/-!
## Rules that compute an answer
-/

section Computes

variable {α β : Type}

/-- The end of a run that looks for the value of `spec`: it is a session of the
given kind, an answer is the value for some fuel and, if the run was ready for
it, the value for the fuel `k` was found. -/
structure Agrees (kind : Session → Prop) (ready : Prop) (k : Nat)
    (spec : Nat → Option α) (result : Option α × Session) : Prop where
  session : kind result.2
  sound : ∀ a, result.1 = some a → ∃ fuel, spec fuel = some a
  complete : ready → ∀ a, spec k = some a → result.1 = some a

/-- From every session of a kind, the rule computes the value of `spec`, which
does not change with more fuel. -/
structure Computes (judge : Judge) (kind : Session → Prop)
    (ready : Prop) (k : Nat) (spec : Nat → Option α) (rule : Rule (Option α)) :
    Prop where
  mono : ∀ {fuel more a}, fuel ≤ more → spec fuel = some a → spec more = some a
  agrees : ∀ s, kind s → Agrees kind ready k spec (rule judge s)

variable {judge : Judge} {kind : Session → Prop} {ready : Prop} {k : Nat}
    {spec : Nat → Option α}

theorem Agrees.giveUp {s : Session} (hs : kind s)
    (hnone : ready → spec k = none) : Agrees kind ready k spec (none, s) where
  session := hs
  sound _ h := nomatch h
  complete hready a ha := by
    rw [hnone hready] at ha
    cases ha

theorem Computes.answer (a : α) :
    Computes judge kind ready k (fun _ => some a)
      (pure (some a) : Rule (Option α)) where
  mono _ h := h
  agrees _ hs := ⟨hs, fun _ h => ⟨0, h⟩, fun _ _ h => h⟩

theorem Computes.bind {rule : Rule (Option α)}
    {next : Option α → Rule (Option β)} {specs : Nat → α → Option β}
    (hrule : Computes judge kind ready k spec rule)
    (hnone : ∀ s, next none judge s = (none, s))
    (hnext : ∀ a, Computes judge kind ready k (fun fuel => specs fuel a)
      (next (some a))) :
    Computes judge kind ready k (fun fuel => spec fuel >>= specs fuel)
      (rule >>= next) where
  mono hle h := by
    obtain ⟨a, ha, hb⟩ := Option.bind_eq_some_iff.mp h
    exact Option.bind_eq_some_iff.mpr
      ⟨a, hrule.mono hle ha, (hnext a).mono hle hb⟩
  agrees s hs := by
    have hrun := hrule.agrees s hs
    rw [bind_run]
    cases hanswer : (rule judge s).1 with
    | none =>
      rw [hnone]
      refine .giveUp hrun.session fun hready => ?_
      rw [Option.bind_eq_bind, Option.bind_eq_none_iff]
      intro a ha
      rw [hrun.complete hready a ha] at hanswer
      cases hanswer
    | some a =>
      have hrest := (hnext a).agrees _ hrun.session
      obtain ⟨fuel, ha⟩ := hrun.sound a hanswer
      refine ⟨hrest.session, fun b hb => ?_, fun hready b hb => ?_⟩
      · obtain ⟨more, hmore⟩ := hrest.sound b hb
        refine ⟨max fuel more, Option.bind_eq_some_iff.mpr ⟨a, ?_, ?_⟩⟩
        · exact hrule.mono (Nat.le_max_left _ _) ha
        · exact (hnext a).mono (Nat.le_max_right _ _) hmore
      · obtain ⟨found, hfound, hb⟩ := Option.bind_eq_some_iff.mp hb
        have hsame := hrun.complete hready found hfound
        rw [hanswer] at hsame
        cases hsame
        exact hrest.complete hready b hb

/-- A rule that is put together from the names of a type: it gives up as soon as
one of them is not resolved.  What the names mean determines its answer. -/
inductive Assembled (span : Span) (loud : Bool) :
    {α : Type} → ((String → Option Ty) → Option α) → Rule (Option α) → Prop
  | answer {α : Type} (a : α) : Assembled span loud (fun _ => some a)
      (pure (some a))
  | name (name : String) : Assembled span loud (· name)
      (resolveNamed name span loud)
  | bind {α β : Type} {rule : Rule (Option α)}
      {next : Option α → Rule (Option β)}
      {spec : (String → Option Ty) → Option α} {specs : (String → Option Ty) →
        α → Option β}
      (first : Assembled span loud spec rule)
        (gives_up : ∀ judge s, next none judge s = (none, s))
      (rest : ∀ a,
        Assembled span loud (fun meaning => specs meaning a) (next (some a))) :
      Assembled span loud (fun meaning => spec meaning >>= specs meaning)
      (rule >>= next)

section Assembled

variable {span : Span} {loud : Bool}

mutual

theorem assembled_resolveTy (ty : Ty) (hty : ty.isLengthFree = true) :
    Assembled span loud (fun meaning => ty.replaced meaning)
      (resolveTy span loud ty) := by
  cases ty with
  | prim | errors | enum => exact .answer _
  | named name => exact .name name
  | paren inner => exact assembled_resolveTy inner hty
  | pointer target | optional target =>
    exact .bind (assembled_resolveTy target hty) (fun _ _ => rfl)
      fun _ => .answer _
  | array element extent mutable =>
    cases extent with
    | expr length => cases hty
    | slice | fixed =>
      exact .bind (assembled_resolveTy element hty) (fun _ _ => rfl)
        fun _ => .answer _
  | tuple tys | union tys =>
    exact .bind (assembled_resolveAll tys hty) (fun _ _ => rfl)
      fun _ => .answer _
  | function params result error =>
    obtain ⟨hparams, hrest⟩ := Bool.and_eq_true_iff.mp hty
    obtain ⟨hresult, herror⟩ := Bool.and_eq_true_iff.mp hrest
    refine .bind (assembled_resolveAll params hparams) (fun _ _ => rfl)
      fun params => ?_
    refine .bind (assembled_resolveTy result hresult) (fun _ _ => rfl)
      fun result => ?_
    exact .bind (assembled_resolveOpt error herror) (fun _ _ => rfl)
      fun _ => .answer _
  | struct struct =>
    obtain ⟨name, members, scope⟩ := struct
    cases scope with
    | some scope => exact .answer _
    | none =>
      exact .bind (assembled_resolveMembers members hty) (fun _ _ => rfl)
        fun _ => .answer _

theorem assembled_resolveAll (tys : List Ty)
    (htys : Ty.everyAll Ty.isFolded tys = true) :
    Assembled span loud (Ty.replacedAll · tys) (resolveAll span loud tys) := by
  cases tys with
  | nil => exact .answer []
  | cons ty rest =>
    obtain ⟨hty, hrest⟩ := Bool.and_eq_true_iff.mp htys
    refine .bind (assembled_resolveTy ty hty) (fun _ _ => rfl) fun ty => ?_
    exact .bind (assembled_resolveAll rest hrest) (fun _ _ => rfl)
      fun _ => .answer _

theorem assembled_resolveOpt (ty : Option Ty)
    (hty : Ty.everyOpt Ty.isFolded ty = true) :
    Assembled span loud (Ty.replacedOpt · ty) (resolveOpt span loud ty) := by
  cases ty with
  | none => exact .answer none
  | some ty =>
    exact .bind (assembled_resolveTy ty hty) (fun _ _ => rfl) fun _ => .answer _

theorem assembled_resolveMembers (members : List Member)
    (hmembers : Member.every Ty.isFolded members = true) :
    Assembled span loud (Member.replaced · members)
      (resolveMembers span loud members) := by
  cases members with
  | nil => exact .answer []
  | cons member rest =>
    obtain ⟨name, ty⟩ := member
    obtain ⟨hty, hrest⟩ := Bool.and_eq_true_iff.mp hmembers
    refine .bind (assembled_resolveTy ty hty) (fun _ _ => rfl) fun ty => ?_
    exact .bind (assembled_resolveMembers rest hrest) (fun _ _ => rfl)
      fun _ => .answer _

end

theorem Assembled.computes {spec : (String → Option Ty) → Option α}
    {rule : Rule (Option α)} (h : Assembled span loud spec rule)
    {meaning : Nat → String → Option Ty}
    (hnames : ∀ name, Computes judge kind ready k (meaning · name)
      (resolveNamed name span loud)) :
    Computes judge kind ready k (fun fuel => spec (meaning fuel)) rule := by
  induction h with
  | answer a => exact .answer a
  | name name => exact hnames name
  | bind _ hnone _ hfirst hrest => exact hfirst.bind (hnone judge) hrest

end Assembled

end Computes

/-!
## Aliases
-/

structure Session.Resolving (first : ScopeTree) (unfolding : List SymbolId)
    (scope : ScopeId) (s : Session) : Prop where
  tree : first.Unfolds s.tree
  unfolding : s.unfolding = unfolding
  current : s.tree.current = scope

/-- Whether a judge of depth `n` finds everything for which the fuel `k`
suffices: it does not suffice for the definitions that are being unfolded, and
the depth suffices for all others. -/
structure ScopeTree.Ready (first : ScopeTree) (unfolding : List SymbolId)
    (n k : Nat) : Prop where
  nodup : unfolding.Nodup
  known : ∀ id ∈ unfolding, id.index < first.symbols.size
  room : first.symbols.size ≤ n + unfolding.length
  pending : ∀ id ∈ unfolding, first.denoted k id = none

section Aliases

variable {first : ScopeTree} {unfolding : List SymbolId}
    {scope : ScopeId} {n k : Nat}
  {id : SymbolId} {name : String} {span : Span} {loud : Bool} {s : Session}

theorem ScopeTree.Ready.nil (hdepth : first.symbols.size ≤ n) :
    first.Ready [] n k := by
  exact ⟨.nil, List.forall_mem_nil _, hdepth, List.forall_mem_nil _⟩

theorem ScopeTree.Ready.unfold (h : first.Ready unfolding n k)
    (hid : (first.symbol id).isTypeName = true) (hnew : id ∉ unfolding)
    {less : Nat} (hless : less < k) (hpending : first.denoted less id = none) :
    ∃ m, n = m + 1 ∧ first.Ready (id :: unfolding) m less := by
  have hnodup : (id :: unfolding).Nodup := List.nodup_cons.mpr ⟨hnew, h.nodup⟩
  have hknown : ∀ other ∈ id :: unfolding, other.index < first.symbols.size :=
    List.forall_mem_cons.mpr ⟨symbol_known_of_isTypeName hid, h.known⟩
  have hlength := length_le_of_known hnodup hknown
  have hroom := h.room
  rw [List.length_cons] at hlength
  refine ⟨n -
    1, by omega, hnodup, hknown, ?_, List.forall_mem_cons.mpr ⟨hpending, ?_⟩⟩
  · rw [List.length_cons]
    omega
  · intro other hother
    by_contra hsome
    obtain ⟨value, hvalue⟩ := Option.ne_none_iff_exists'.mp hsome
    have hlater := denoted_mono hless.le hvalue
    rw [h.pending other hother] at hlater
    cases hlater

namespace Session.Resolving

theorem lookup_eq (h : s.Resolving first unfolding scope) (name : String) :
    s.tree.lookup name = first.lookupFrom scope name := by
  rw [ScopeTree.lookup, h.current]
  exact h.tree.lookupFrom_eq scope name

theorem reported
    (h : s.Resolving first unfolding scope) (diagnostics : Diagnostics) :
    { s with diagnostics }.Resolving first unfolding scope := by
  exact ⟨h.tree, h.unfolding, h.current⟩

theorem unfold (h : s.Resolving first unfolding scope) (id : SymbolId)
    (inner : ScopeId) :
    { s with
      unfolding := id :: s.unfolding
      tree := s.tree.enter inner }.Resolving first (id :: unfolding) inner := by
  exact ⟨h.tree.enter inner, congrArg (id :: ·) h.unfolding, rfl⟩

theorem fold {inner outer : ScopeId}
    (h : s.Resolving first (id :: unfolding) inner) (houter : outer = scope) :
    { s with
      unfolding := s.unfolding.tail, tree := s.tree.enter outer }.Resolving
      first unfolding scope := by
  exact ⟨h.tree.enter outer, congrArg List.tail h.unfolding, houter⟩

theorem untyped (h : s.Resolving first unfolding scope)
    (hnone : (s.tree.symbol id).ty = none) : (first.symbol id).ty = none := by
  by_contra hsome
  obtain ⟨ty, hty⟩ := Option.ne_none_iff_exists'.mp hsome
  rw [h.tree.kept id ty hty] at hnone
  cases hnone

end Session.Resolving

theorem agrees_unknown {judge : Judge} {ready : Prop} {spec : Nat → Option Ty}
    (hs : s.Resolving first unfolding scope) (problem : Problem)
    (hnone : ready → spec k = none) :
    Agrees (Session.Resolving first unfolding scope) ready k spec
      ((if loud then do report problem span; return none else return none :
        Rule (Option Ty)) judge s) := by
  cases loud with
  | true => exact .giveUp (hs.reported _) hnone
  | false => exact .giveUp hs hnone

theorem agrees_typedOnce {judge : Judge} {ready : Prop}
    {typing : Symbol → Rule (Option Ty)}
    (hs :
      s.Resolving first unfolding scope)
      (htype : (first.symbol id).isTypeName = true)
    (htyping : (first.symbol id).ty = none →
      Agrees
      (Session.Resolving first unfolding scope) ready k (first.denoted · id)
      (typing (s.tree.symbol id) judge s)) :
    Agrees
      (Session.Resolving
        first unfolding scope) ready k (first.denoted · id)
        (typedOnce id typing judge s) := by
  cases hty : (s.tree.symbol id).ty with
  | some ty =>
    rw [typedOnce_of_some hty]
    have hrecorded : (s.tree.symbol id).recorded? = some ty := by
      rw [Symbol.recorded?_of_isTypeName (by rw [hs.tree.isTypeName_eq, htype]),
        hty]
    obtain ⟨fuel, hfuel⟩ := hs.tree.denoted id ty hrecorded
    refine ⟨hs, fun value hvalue => ?_, fun _ value hvalue => ?_⟩
    · cases hvalue
      exact ⟨fuel, hfuel⟩
    · rw [ScopeTree.denoted_unique hvalue hfuel]
  | none =>
    have hnone := hs.untyped hty
    have hrun := htyping hnone
    rw [typedOnce_of_none hty]
    generalize typing (s.tree.symbol id) judge s = result at hrun ⊢
    obtain ⟨answer, t⟩ := result
    cases answer with
    | none => exact hrun
    | some ty =>
      obtain ⟨fuel, hfuel⟩ := hrun.sound ty rfl
      have htree := hrun.session.tree.setType hnone hfuel
      exact ⟨⟨htree, hrun.session.unfolding, hrun.session.current⟩, hrun.sound,
        hrun.complete⟩

theorem agrees_unfolding {aliased : Ty} (hs : s.Resolving first unfolding scope)
    (htype : (first.symbol id).isTypeName = true)
    (hnone : (first.symbol id).ty = none)
    (haliased : (first.symbol id).info.aliased = some aliased)
    (hnew : id ∉ unfolding)
    (hask : ∀ less, Computes (Judge.limited n)
      (Session.Resolving first (id :: unfolding) (first.symbol id).scope)
      (∃ m, n = m + 1 ∧ first.Ready (id :: unfolding) m less) less
      (first.standsFor (first.symbol id).scope aliased)
      (askResolved aliased span loud)) :
    Agrees
      (Session.Resolving
        first unfolding scope) (first.Ready unfolding n k) k
        (first.denoted · id)
      (withUnfolding id
        (withScope (first.symbol id).scope (askResolved aliased span loud))
        (Judge.limited n) s) := by
  have hinside := hs.unfold id (first.symbol id).scope
  have hrecorded : (first.symbol id).recorded? = none :=
    (Symbol.recorded?_of_isTypeName htype).trans hnone
  have hunfolded : (first.symbol id).unfolded? = some aliased :=
    (Symbol.unfolded?_of_isTypeName htype).trans haliased
  refine ⟨?_, fun value hvalue => ?_, fun hready value hvalue => ?_⟩
  · exact ((hask 0).agrees _ hinside).session.fold hs.current
  · obtain ⟨fuel, hfuel⟩ := ((hask 0).agrees _ hinside).sound value hvalue
    refine ⟨fuel + 1, ?_⟩
    rw [ScopeTree.denoted, hrecorded, hunfolded]
    exact hfuel
  · obtain ⟨less, hless, _, hsame, hpending, hfound⟩ :=
      ScopeTree.exists_standsFor_of_denoted hrecorded hvalue
    rw [hunfolded] at hsame
    cases hsame
    exact ((hask less).agrees _ hinside).complete
      (hready.unfold htype hnew hless hpending) value hfound

theorem computes_unfoldAlias (htype : (first.symbol id).isTypeName = true)
    (hask : ∀ aliased, (first.symbol id).info.aliased = some aliased → ∀ less,
      Computes (Judge.limited n)
        (Session.Resolving first (id :: unfolding) (first.symbol id).scope)
        (∃ m, n = m + 1 ∧ first.Ready (id :: unfolding) m less) less
        (first.standsFor (first.symbol id).scope aliased)
        (askResolved aliased span loud)) :
    Computes (Judge.limited n) (Session.Resolving first unfolding scope)
      (first.Ready unfolding n k) k (first.denoted · id)
      (unfoldAlias id name span loud) where
  mono := ScopeTree.denoted_mono
  agrees s hs := by
    refine agrees_typedOnce hs htype fun hnone => ?_
    rw [hs.tree.info_eq, hs.tree.scope_eq]
    cases haliased : (first.symbol id).info.aliased with
    | none =>
      have hunfolded : (first.symbol id).unfolded? = none :=
        (Symbol.unfolded?_of_isTypeName htype).trans haliased
      refine .giveUp hs fun _ => ?_
      rw [ScopeTree.denoted_eq_recorded? hunfolded,
        Symbol.recorded?_of_isTypeName htype, hnone]
    | some aliased =>
      dsimp only
      rw [bind_run, isUnfolding_run, hs.unfolding]
      by_cases hbusy : id ∈ unfolding
      · rw [List.contains_iff_mem.mpr hbusy]
        exact agrees_unknown hs _ fun hready => hready.pending id hbusy
      · rw [Bool.eq_false_iff.mpr (mt List.contains_iff_mem.mp hbusy)]
        exact agrees_unfolding hs htype hnone haliased hbusy
          (hask aliased haliased)

theorem agrees_error {ready : Prop} (hs : s.Resolving first unfolding scope)
    (hunfolded : (first.symbol id).unfolded? = none)
    (herror : ((first.symbol id).kind == .error) = true) :
    Agrees
      (Session.Resolving
        first unfolding scope) ready k (first.denoted · id)
        ((s.tree.symbol id).ty, s) := by
  refine ⟨hs, fun ty hty => hs.tree.denoted id ty ?_, fun _ ty hty => ?_⟩
  · rw [Symbol.recorded?, hs.tree.kind_eq, if_pos (by simp [herror])]
    exact hty
  · rw [ScopeTree.denoted_eq_recorded? hunfolded, Symbol.recorded?,
      if_pos (by simp [herror])] at hty
    exact hs.tree.kept id ty hty

theorem computes_resolveNamed
    (halias : ∀ id, (first.symbol id).isTypeName = true →
      Computes (Judge.limited n) (Session.Resolving first unfolding scope)
        (first.Ready unfolding n k) k (first.denoted · id)
        (unfoldAlias id name span loud)) :
    Computes (Judge.limited n) (Session.Resolving first unfolding scope)
      (first.Ready unfolding n k) k
      (fun fuel => first.meaning (first.denoted fuel) scope name)
      (resolveNamed name span loud) where
  mono hle := ScopeTree.meaning_mono fun _ _ => ScopeTree.denoted_mono hle
  agrees s hs := by
    unfold resolveNamed ScopeTree.meaning
    cases hbuiltin : Builtin.type? name with
    | error problem => exact agrees_unknown hs problem fun _ => rfl
    | ok answer =>
      cases answer with
      | some ty => exact (Computes.answer ty).agrees s hs
      | none =>
        dsimp only
        rw [bind_lookup, hs.lookup_eq]
        cases hfound : first.lookupFrom scope name with
        | none => exact agrees_unknown hs _ fun _ => rfl
        | some id =>
          dsimp only [Option.bind_some]
          rw [bind_symbol, hs.tree.isTypeName_eq, hs.tree.kind_eq]
          by_cases htype : (first.symbol id).isTypeName = true
          · rw [if_pos htype]
            exact (halias id htype).agrees s hs
          · have hunfolded : (first.symbol id).unfolded? = none := by
              simp [Symbol.unfolded?, htype]
            rw [if_neg htype]
            by_cases herror : ((first.symbol id).kind == .error) = true
            · rw [if_pos herror]
              exact agrees_error hs hunfolded herror
            · rw [if_neg herror]
              refine agrees_unknown hs _ fun _ => ?_
              rw [ScopeTree.denoted_eq_recorded? hunfolded, Symbol.recorded?,
                if_neg (by simp [htype, herror])]

/-- Resolution computes what a type stands for, at every depth of the judge. -/
theorem computes_resolveTy (hplain : first.Plain) (n : Nat) {ty : Ty}
    (hty : ty.isLengthFree = true) :
    Computes (Judge.limited n) (Session.Resolving first unfolding scope)
      (first.Ready unfolding n k) k (first.standsFor scope ty)
      (resolveTy span loud ty) := by
  induction n generalizing unfolding scope k ty with
  | zero =>
    refine (assembled_resolveTy ty hty).computes fun name => ?_
    refine computes_resolveNamed fun id htype => ?_
    refine computes_unfoldAlias htype fun aliased _ less =>
      ⟨ScopeTree.standsFor_mono, ?_⟩
    exact fun s hs => .giveUp hs fun hready => nomatch hready
  | succ n ih =>
    refine (assembled_resolveTy ty hty).computes fun name => ?_
    refine computes_resolveNamed fun id htype => ?_
    refine computes_unfoldAlias htype fun aliased haliased less =>
      ⟨ScopeTree.standsFor_mono, ?_⟩
    intro s hs
    have hrun :=
      (ih (k := less) (hplain.aliased id aliased haliased)).agrees s hs
    refine ⟨hrun.session, hrun.sound, fun hready => ?_⟩
    obtain ⟨m, hm, hready⟩ := hready
    cases hm
    exact hrun.complete hready

end Aliases

end StaticCheck
