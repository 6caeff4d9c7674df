import StaticCheck.Proofs.Aliases

/-!
# Resolving a type again

Resolution records what it finds out about aliases.  If it has no lengths to
fold, it changes nothing else.  A type that was resolved is then resolved again
from what is recorded: with the same answer, without a change of the session,
and without a question to the judge.  A type that was not resolved is not
resolved again, without a change either.
-/

namespace StaticCheck

open Rule

theorem ScopeTree.Records.trans {first second third : ScopeTree}
    (h : first.Records second) (h' : second.Records third) :
    first.Records third where
  scopes := h'.scopes.trans h.scopes
  size := h'.size.trans h.size
  symbols id := by
    rw [h'.symbols id, h.symbols id]
  kept id ty hty := h'.kept id ty (h.kept id ty hty)

structure Session.Records (s t : Session) : Prop where
  tree : s.tree.Records t.tree
  current : t.tree.current = s.tree.current
  rest : t = { s with tree := t.tree }

def Session.unfold (s : Session) (id : SymbolId) (scope : ScopeId) : Session :=
  { s with unfolding := id :: s.unfolding, tree := s.tree.enter scope }

def Session.fold (s : Session) (scope : ScopeId) : Session :=
  { s with unfolding := s.unfolding.tail, tree := s.tree.enter scope }

theorem unfolding_run {α : Type} (id : SymbolId) (scope : ScopeId)
    (rule : Rule α) (judge : Judge) (s : Session) :
    withUnfolding id (withScope scope rule) judge s =
      ((rule judge (s.unfold id scope)).1,
        (rule judge (s.unfold id scope)).2.fold s.tree.current) := rfl

namespace Session.Records

variable {s t u : Session}

theorem refl (s : Session) : s.Records s := ⟨.refl s.tree, rfl, rfl⟩

theorem trans (h : s.Records t) (h' : t.Records u) : s.Records u where
  tree := h.tree.trans h'.tree
  current := h'.current.trans h.current
  rest := by
    rw [h'.rest, h.rest]

theorem lookup_eq (h : s.Records t) (name : String) :
    t.tree.lookup name = s.tree.lookup name := by
  rw [ScopeTree.lookup, h.current]
  exact h.tree.lookupFrom_eq s.tree.current name

theorem diagnostics_eq (h : s.Records t) : t.diagnostics = s.diagnostics := by
  rw [h.rest]

theorem unfolding_eq (h : s.Records t) : t.unfolding = s.unfolding := by
  rw [h.rest]

theorem fold {id : SymbolId} {scope : ScopeId}
    (h : (s.unfold id scope).Records t) :
    s.Records (t.fold s.tree.current) where
  tree := ⟨h.tree.scopes, h.tree.size, h.tree.symbols, h.tree.kept⟩
  current := rfl
  rest := by
    rw [h.rest]
    rfl

theorem setType (h : s.Records t) {id : SymbolId}
    (hnone : (s.tree.symbol id).ty = none) (ty : Ty) : s.Records { t with
      tree := t.tree.updateSymbol id fun symbol =>
        { symbol with ty := some ty } } where
  tree := h.tree.setType hnone ty
  current := h.current
  rest := by
    rw [h.rest]

end Session.Records

/-!
## Rules that recall
-/

def ScopeTree.AliasesAre (A : Ty → Prop) (tree : ScopeTree) : Prop :=
  ∀ id aliased, (tree.symbol id).info.aliased = some aliased → A aliased

theorem ScopeTree.AliasesAre.records {A : Ty → Prop} {first tree : ScopeTree}
    (h : first.AliasesAre A) (hrecords : first.Records tree) :
    tree.AliasesAre A := by
  intro id aliased haliased
  rw [hrecords.info_eq] at haliased
  exact h id aliased haliased

/-- A rule that finds the answers of a kind by recording types only, and that
gives such an answer again, whichever judge it has, as long as the types are
recorded. -/
def Recalls {α : Type} (judge : Judge) (A : Ty → Prop) (P : α → Prop)
    (rule : Rule (Option α)) : Prop :=
  ∀ s a t, s.tree.AliasesAre A → rule judge s = (some a, t) → P a →
    s.Records t ∧ ∀ other u, t.Records u → rule other u = (some a, u)

def Misses {α : Type} (judge : Judge) (P : α → Prop) (rule : Rule (Option α)) :
    Prop :=
  ∀ s a t, rule judge s = (some a, t) → ¬P a

section Recalls

variable {α β : Type} {judge : Judge} {A : Ty → Prop} {P : α → Prop}
    {Q : β → Prop}

namespace Misses

theorem answer {a : α} (h : ¬P a) : Misses judge P (pure (some a)) := by
  intro s b t hrun
  cases hrun
  exact h

theorem bind {rule : Rule (Option α)} {next : Option α → Rule (Option β)}
    (hnone : ∀ s, next none judge s = (none, s))
    (hnext : ∀ a, Misses judge Q (next (some a))) :
    Misses judge Q (rule >>= next) := by
  intro s b t hrun
  obtain ⟨a, mid, -, hrest⟩ := exists_of_bind hnone hrun
  exact hnext a mid b t hrest

end Misses

namespace Recalls

theorem answer (a : α) : Recalls judge A P (pure (some a)) := by
  intro s b t _ hrun _
  cases hrun
  exact ⟨.refl s, fun _ _ _ => rfl⟩

theorem bind {rule : Rule (Option α)} {next : Option α → Rule (Option β)}
    (hrule : Recalls judge A P rule)
    (hnone : ∀ s, next none judge s = (none, s))
    (hnext : ∀ a, Recalls judge A Q (next (some a)))
    (hkind : ∀ a s b t, next (some a) judge s = (some b, t) → Q b → P a) :
    Recalls judge A Q (rule >>= next) := by
  intro s b t haliases hrun hb
  obtain ⟨a, mid, hfound, hrun⟩ := exists_of_bind hnone hrun
  obtain ⟨hfirst, hagain⟩ :=
    hrule s a mid haliases hfound (hkind a mid b t hrun hb)
  obtain ⟨hrest, hlast⟩ :=
    hnext a mid b t (haliases.records hfirst.tree) hrun hb
  refine ⟨hfirst.trans hrest, fun other u hu => ?_⟩
  rw [bind_of_run (hagain other u (hrest.trans hu))]
  exact hlast other u hu

theorem of_misses {rule : Rule (Option α)} (h : Misses judge P rule) :
    Recalls judge A P rule := by
  intro s a t _ hrun ha
  exact absurd ha (h s a t hrun)

theorem map {rule : Rule (Option α)} {form : α → β}
    {next : Option α → Rule (Option β)} (hrule : Recalls judge A P rule)
    (hnone : ∀ s, next none judge s = (none, s))
    (hnext : ∀ a, next (some a) = pure (some (form a)))
    (hkind : ∀ a, Q (form a) → P a) :
    Recalls judge A Q (rule >>= next) := by
  refine hrule.bind hnone (fun a => ?_) fun a s b t hrun hb => ?_
  · rw [hnext]
    exact .answer _
  · rw [hnext] at hrun
    cases hrun
    exact hkind a hb

end Recalls

/-!
## Aliases
-/

def Judge.RecordsOnly (judge : Judge) (A P : Ty → Prop) : Prop :=
  ∀ ty, A ty → ∀ span loud s answer t, s.tree.AliasesAre A →
    judge.resolve ty span loud s = (some answer, t) → P answer → s.Records t

variable {P : Ty → Prop} {span : Span} {loud : Bool} {s t : Session}
    {id : SymbolId} {name : String}

theorem records_of_typedOnce {typing : Symbol → Rule (Option Ty)} {ty : Ty}
    (hid : id.index < s.tree.symbols.size)
    (htyping : ∀ t, typing (s.tree.symbol id) judge s = (some ty, t) →
      s.Records t)
    (hrun : typedOnce id typing judge s = (some ty, t)) :
    s.Records t ∧ (t.tree.symbol id).ty = some ty := by
  cases hknown : (s.tree.symbol id).ty with
  | some known =>
    rw [typedOnce_of_some hknown] at hrun
    cases hrun
    exact ⟨.refl s, hknown⟩
  | none =>
    rw [typedOnce_of_none hknown] at hrun
    generalize typing (s.tree.symbol id) judge s = result at htyping hrun
    obtain ⟨answer, mid⟩ := result
    cases answer with
    | none => cases hrun
    | some found =>
      cases hrun
      have hrecords := htyping mid rfl
      refine ⟨hrecords.setType hknown ty, ?_⟩
      rw [← hrecords.tree.size] at hid
      simp [ScopeTree.symbol_updateSymbol_of_lt mid.tree _ hid]

theorem records_of_unfoldAlias {ty : Ty}
    (hjudge : judge.RecordsOnly A P) (haliases : s.tree.AliasesAre A)
    (htype : (s.tree.symbol id).isTypeName = true)
    (hrun : unfoldAlias id name span loud judge s = (some ty, t)) (hty : P ty) :
    s.Records t ∧ (t.tree.symbol id).ty = some ty := by
  refine records_of_typedOnce (ScopeTree.symbol_known_of_isTypeName htype)
    (fun mid hmid => ?_) hrun
  cases haliased : (s.tree.symbol id).info.aliased with
  | none =>
    rw [haliased] at hmid
    cases hmid
  | some aliased =>
    rw [haliased] at hmid
    dsimp only at hmid
    rw [bind_run, isUnfolding_run] at hmid
    cases hbusy : s.unfolding.contains id with
    | true =>
      rw [hbusy] at hmid
      cases loud <;> cases hmid
    | false =>
      rw [hbusy] at hmid
      obtain ⟨hanswer, hend⟩ := Prod.mk.inj hmid
      have hinner := hjudge aliased (haliases id aliased haliased) span loud
        (s.unfold id (s.tree.symbol id).scope)
      rw [← hend]
      exact (hinner ty _ haliases (Prod.ext hanswer rfl) hty).fold

theorem recalls_resolveNamed (hjudge : judge.RecordsOnly A P) :
    Recalls judge A P (resolveNamed name span loud) := by
  intro s ty t haliases hrun hty
  unfold resolveNamed at hrun ⊢
  cases hbuiltin : Builtin.type? name with
  | error problem =>
    rw [hbuiltin] at hrun
    cases loud <;> cases hrun
  | ok answer =>
    rw [hbuiltin] at hrun
    cases answer with
    | some builtin =>
      cases hrun
      exact ⟨.refl s, fun _ _ _ => rfl⟩
    | none =>
      dsimp only at hrun ⊢
      rw [bind_lookup] at hrun
      cases hfound : s.tree.lookup name with
      | none =>
        rw [hfound] at hrun
        cases loud <;> cases hrun
      | some id =>
        rw [hfound] at hrun
        dsimp only at hrun
        rw [bind_symbol] at hrun
        by_cases htype : (s.tree.symbol id).isTypeName = true
        · rw [if_pos htype] at hrun
          obtain ⟨hrecords, hknown⟩ :=
            records_of_unfoldAlias hjudge haliases htype hrun hty
          refine ⟨hrecords, fun other u hu => ?_⟩
          have hu' := hrecords.trans hu
          rw [bind_lookup, hu'.lookup_eq, hfound]
          dsimp only
          rw [bind_symbol, hu'.tree.isTypeName_eq, if_pos htype]
          exact typedOnce_of_some (hu.tree.kept id ty hknown)
        · rw [if_neg htype] at hrun
          by_cases herror : ((s.tree.symbol id).kind == .error) = true
          · rw [if_pos herror] at hrun
            obtain ⟨hknown, rfl⟩ := Prod.mk.inj hrun
            refine ⟨.refl s, fun other u hu => ?_⟩
            rw [bind_lookup, hu.lookup_eq, hfound]
            dsimp only
            rw [bind_symbol, hu.tree.isTypeName_eq, if_neg htype,
              hu.tree.kind_eq, if_pos herror]
            exact congrArg (·, u) (hu.tree.kept id ty hknown)
          · rw [if_neg herror] at hrun
            cases loud <;> cases hrun

theorem recalls_of_names
    (hnames : ∀ judge span loud,
      (∀ name, Recalls judge A P (resolveNamed name span loud)) → ∀ ty, A ty →
      Recalls judge A P (resolveTy span loud ty)) (n : Nat) {ty :
      Ty} (hty : A ty) :
    Recalls (Judge.limited n) A P (resolveTy span loud ty) := by
  have hjudge : (Judge.limited n).RecordsOnly A P := by
    induction n with
    | zero =>
      intro ty _ span loud s answer t _ hrun
      cases hrun
    | succ n ih =>
      intro ty hty span loud s answer t haliases hrun hanswer
      exact (hnames _ span loud (fun _ => recalls_resolveNamed ih) ty hty s
        answer t haliases hrun hanswer).1
  exact hnames _ span loud (fun _ => recalls_resolveNamed hjudge) ty hty

/-!
## Types without parts under optionals
-/

def Ty.isSpine : Ty → Bool
  | .prim _ => true
  | .optional inner => inner.isSpine
  | _ => false

theorem recalls_resolveTy_of_isSpine (hnames : ∀ name,
      Recalls judge A (·.isSpine = true) (resolveNamed name span loud))
      (ty : Ty) :
    Recalls judge A (·.isSpine = true) (resolveTy span loud ty) := by
  cases ty with
  | prim | errors | enum => exact .answer _
  | named name => exact hnames name
  | paren inner => exact recalls_resolveTy_of_isSpine hnames inner
  | optional inner =>
    have hinner := recalls_resolveTy_of_isSpine hnames inner
    exact hinner.map (fun _ => rfl) (fun _ => rfl) fun _ h => h
  | pointer | tuple | union =>
    exact .of_misses (.bind (fun _ => rfl) fun _ => .answer Bool.false_ne_true)
  | array =>
    refine .of_misses (.bind (fun _ => rfl) fun element s answer t hrun => ?_)
    cases hrun
    exact Bool.false_ne_true
  | function =>
    refine .of_misses (.bind (fun _ => rfl) fun params => .bind (fun _ => rfl)
      fun result => ?_)
    exact .bind (fun _ => rfl) fun error => .answer Bool.false_ne_true
  | struct struct =>
    obtain ⟨name, members, scope⟩ := struct
    cases scope with
    | some scope => exact .answer _
    | none =>
      exact .of_misses
        (.bind (fun _ => rfl) fun _ => .answer Bool.false_ne_true)

theorem recalls_isSpine (n : Nat) (ty : Ty) :
    Recalls (Judge.limited n) (fun _ => True) (·.isSpine = true)
      (resolveTy span loud ty) := by
  exact recalls_of_names
    (fun _ _ _ hnames ty _ => recalls_resolveTy_of_isSpine hnames ty) n trivial

theorem exists_resolved_again {n : Nat} {ty answer : Ty}
    (h : (tryResolve ty (Judge.limited n) s).1 = some answer)
    (hspine : answer.isSpine = true) :
    ∃ t, tryResolve ty (Judge.limited n) s = (some answer, t) ∧ t.diagnostics =
      s.diagnostics ∧ tryResolve ty (Judge.limited n) t = (some answer, t) := by
  obtain ⟨t, ht⟩ : ∃ t, tryResolve ty (Judge.limited n) s = (some answer, t) :=
    ⟨_, Prod.ext h rfl⟩
  obtain ⟨hrecords, hagain⟩ :=
    recalls_isSpine n ty s answer t (fun _ _ _ => trivial) ht hspine
  exact ⟨t, ht, hrecords.diagnostics_eq, hagain _ t (.refl t)⟩

/-!
## Types without lengths to fold
-/

theorem Assembled.recalls {spec : (String → Option Ty) → Option α}
    {rule : Rule (Option α)} (h : Assembled span loud spec rule)
    (hnames : ∀ name, Recalls judge A (fun _ => True)
      (resolveNamed name span loud)) :
    Recalls judge A (fun _ => True) rule := by
  induction h with
  | answer a => exact .answer a
  | name name => exact hnames name
  | bind _ hnone _ hfirst hrest =>
    exact hfirst.bind (hnone judge) hrest fun _ _ _ _ _ _ => trivial

theorem recalls_isLengthFree (n : Nat) {ty : Ty}
    (hty : ty.isLengthFree = true) :
    Recalls (Judge.limited n) (·.isLengthFree = true) (fun _ => True)
      (resolveTy span loud ty) := by
  exact recalls_of_names
    (fun _ _ _ hnames ty hty => (assembled_resolveTy ty hty).recalls hnames) n
    hty

/-!
## Failing again

What is not resolved is not resolved a moment later.  The attempt may have
recorded the types of aliases, but not of those that were being unfolded.
-/

/-- What an attempt at an answer leaves behind. -/
structure Attempt (check : Check (Option α)) (s : Session) (answer : Option α)
    (t : Session) : Prop where
  run : check s = (answer, t)
  records : s.Records t
  busy : ∀ id ∈ s.unfolding, (t.tree.symbol id).ty = (s.tree.symbol id).ty
  again : answer = none → check t = (none, t)

theorem Attempt.still {check : Check (Option α)} {answer : Option α}
    (h : check s = (answer, s)) : Attempt check s answer s where
  run := h
  records := .refl s
  busy _ _ := rfl
  again hnone := by
    rw [h, hnone]

theorem Attempt.congr {check check' : Check (Option α)} {answer : Option α}
    (h : Attempt check s answer t)
    (hsame : ∀ u, s.Records u → check' u = check u) :
    Attempt check' s answer t where
  run := (hsame s (.refl s)).trans h.run
  records := h.records
  busy := h.busy
  again hnone := (hsame t h.records).trans (h.again hnone)

/-- A rule that, if the aliases are types of a kind, records types only and
fails again where it failed. -/
def Persists (judge : Judge) (A : Ty → Prop) (rule : Rule (Option α)) : Prop :=
  ∀ s, s.tree.AliasesAre A → ∃ answer t, Attempt (rule judge) s answer t

theorem Persists.bind {rule : Rule (Option α)}
    {next : Option α → Rule (Option β)} (hrule : Persists judge A rule)
    (hrecalls : Recalls judge A (fun _ => True) rule)
    (hnone : ∀ s, next none judge s = (none, s))
    (hnext : ∀ a, Persists judge A (next (some a))) :
    Persists judge A (rule >>= next) := by
  intro s haliases
  obtain ⟨answer, mid, hfirst⟩ := hrule s haliases
  cases answer with
  | none =>
    refine ⟨none, mid, ?_, hfirst.records, hfirst.busy, fun _ => ?_⟩
    · rw [bind_of_run hfirst.run, hnone]
    · rw [bind_of_run (hfirst.again rfl), hnone]
  | some a =>
    obtain ⟨-, hagain⟩ := hrecalls s a mid haliases hfirst.run trivial
    obtain ⟨b, t, hrest⟩ := hnext a mid (haliases.records hfirst.records.tree)
    refine ⟨b, t, ?_, hfirst.records.trans hrest.records, fun id hid => ?_,
      fun hb => ?_⟩
    · rw [bind_of_run hfirst.run, hrest.run]
    · rw [hrest.busy id (hfirst.records.unfolding_eq ▸ hid), hfirst.busy id hid]
    -- the first step answers from what is recorded, and the second fails where
    -- it failed
    · rw [bind_of_run (hagain judge t hrest.records), hrest.again hb]

theorem Assembled.persists {spec : (String → Option Ty) → Option α}
    {rule : Rule (Option α)} (h : Assembled span loud spec rule)
    (hrecalls : ∀ name, Recalls judge A (fun _ => True)
      (resolveNamed name span loud))
    (hnames : ∀ name, Persists judge A (resolveNamed name span loud)) :
    Persists judge A rule := by
  induction h with
  | answer a => exact fun s _ => ⟨some a, s, .still rfl⟩
  | name name => exact hnames name
  | bind first hnone _ hfirst hrest =>
    exact hfirst.bind (first.recalls hrecalls) (hnone judge) hrest

theorem Attempt.fold {rule : Rule (Option α)} {scope : ScopeId}
    {answer : Option α}
    (h : Attempt (rule judge) (s.unfold id scope) answer t) :
    Attempt (withUnfolding id (withScope scope rule) judge) s answer
      (t.fold s.tree.current) where
  run := by
    rw [unfolding_run, h.run]
  records := h.records.fold
  busy other hother := h.busy other (List.mem_cons_of_mem id hother)
  again hnone := by
    have hunfolding : id :: t.unfolding.tail = t.unfolding := by
      rw [h.records.unfolding_eq]
      rfl
    have hcurrent : t.tree.current = scope := h.records.current
    -- whoever enters the definition again is where the attempt ended
    have hsame : (t.fold s.tree.current).unfold id scope = t := by
      unfold Session.unfold Session.fold
      rw [hunfolding, ← hcurrent]
      rfl
    rw [unfolding_run, hsame, h.again hnone]
    rfl

theorem Attempt.typedOnce {typing : Symbol → Rule (Option Ty)}
    {answer : Option Ty} (hknown : (s.tree.symbol id).ty = none)
    (hfree : id ∉ s.unfolding)
    (h : Attempt (typing (s.tree.symbol id) judge) s answer t)
    (hkept : (t.tree.symbol id).ty = none) :
    ∃ t, Attempt (typedOnce id typing judge) s answer t := by
  cases answer with
  | none =>
    have hsymbol : t.tree.symbol id = s.tree.symbol id := by
      rw [h.records.tree.symbols id, hkept, ← hknown]
    refine ⟨t, ?_, h.records, h.busy, fun _ => ?_⟩
    · rw [typedOnce_of_none hknown, h.run]
    · rw [typedOnce_of_none hkept, hsymbol, h.again rfl]
  | some ty =>
    refine ⟨_, ?_, h.records.setType hknown ty, fun other hother => ?_,
      fun hnone => ?_⟩
    · rw [typedOnce_of_none hknown, h.run]
    · have hne : other ≠ id := by
        rintro rfl
        exact hfree hother
      rw [ScopeTree.symbol_updateSymbol_of_ne t.tree _ hne, h.busy other hother]
    · cases hnone

def Judge.Persists (judge : Judge) (A : Ty → Prop) : Prop :=
  ∀ ty span, A ty → StaticCheck.Persists judge A (askResolved ty span false)

theorem persists_unfoldAlias (hjudge : judge.Persists A) :
    Persists judge A (unfoldAlias id name span false) := by
  intro s haliases
  cases hknown : (s.tree.symbol id).ty with
  | some ty => exact ⟨some ty, s, .still (typedOnce_of_some hknown)⟩
  | none =>
    cases haliased : (s.tree.symbol id).info.aliased with
    | none =>
      refine ⟨none, s, .still ?_⟩
      unfold unfoldAlias
      rw [typedOnce_of_none hknown, haliased]
      rfl
    | some aliased =>
      by_cases hbusy : id ∈ s.unfolding
      · refine ⟨none, s, .still ?_⟩
        unfold unfoldAlias
        rw [typedOnce_of_none hknown, haliased]
        dsimp only
        rw [bind_run, isUnfolding_run, List.contains_iff_mem.mpr hbusy]
        rfl
      · have hinside := hjudge aliased span (haliases id aliased haliased)
          (s.unfold id (s.tree.symbol id).scope) haliases
        obtain ⟨answer, t, hinside⟩ := hinside
        have hkept := (hinside.busy id List.mem_cons_self).trans hknown
        refine ⟨answer,
          Attempt.typedOnce hknown hbusy
          (hinside.fold.congr fun u hu => ?_) hkept⟩
        rw [haliased]
        dsimp only
        rw [bind_run, isUnfolding_run, hu.unfolding_eq,
          Bool.eq_false_iff.mpr (mt List.contains_iff_mem.mp hbusy)]
        rfl

theorem persists_resolveNamed (hjudge : judge.Persists A) :
    Persists judge A (resolveNamed name span false) := by
  intro s haliases
  unfold resolveNamed
  cases hbuiltin : Builtin.type? name with
  | error problem => exact ⟨none, s, .still rfl⟩
  | ok answer =>
    cases answer with
    | some builtin => exact ⟨some builtin, s, .still rfl⟩
    | none =>
      dsimp only
      cases hfound : s.tree.lookup name with
      | none =>
        refine ⟨none, s, .still ?_⟩
        rw [bind_lookup, hfound]
        rfl
      | some id =>
        by_cases htype : (s.tree.symbol id).isTypeName = true
        · obtain ⟨answer, t, h⟩ := persists_unfoldAlias hjudge s haliases
          refine ⟨answer, t, h.congr fun u hu => ?_⟩
          rw [bind_lookup, hu.lookup_eq, hfound]
          dsimp only
          rw [bind_symbol, hu.tree.isTypeName_eq, if_pos htype]
        · by_cases herror : ((s.tree.symbol id).kind == .error) = true
          · refine ⟨(s.tree.symbol id).ty, s, .still ?_⟩
            rw [bind_lookup, hfound]
            dsimp only
            rw [bind_symbol, if_neg htype, if_pos herror]
            rfl
          · refine ⟨none, s, .still ?_⟩
            rw [bind_lookup, hfound]
            dsimp only
            rw [bind_symbol, if_neg htype, if_neg herror]
            rfl

theorem persists_isLengthFree (n : Nat) {ty : Ty}
    (hty : ty.isLengthFree = true) :
    Persists (Judge.limited n) (·.isLengthFree = true)
      (resolveTy span false ty) := by
  have hrecalls (n : Nat) (span : Span) (name : String) :
      Recalls (Judge.limited n) (·.isLengthFree = true) (fun _ => True)
        (resolveNamed name span false) := by
    have hname : (Ty.named name).isLengthFree = true := rfl
    exact recalls_isLengthFree n hname
  have hjudge : (Judge.limited n).Persists (·.isLengthFree = true) := by
    induction n with
    | zero => exact fun ty span _ s _ => ⟨none, s, .still rfl⟩
    | succ n ih =>
      intro ty span hty
      exact (assembled_resolveTy ty hty).persists (hrecalls n span) fun _ =>
        persists_resolveNamed ih
  exact (assembled_resolveTy ty hty).persists (hrecalls n span) fun _ =>
    persists_resolveNamed hjudge

end Recalls

end StaticCheck
