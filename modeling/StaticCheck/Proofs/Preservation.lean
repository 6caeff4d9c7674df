import StaticCheck.Proofs.Composition

/-!
# What every rule preserves

A composed rule moves the session forward, it keeps what the session holds
within the policy, and if the policy lists the loops, it keeps the types of the
variables that none of them binds.  The proof goes once over the kinds of steps;
an induction over the depth then gives the same for the judges, and so for every
question that can be asked.
-/

namespace StaticCheck

open Rule

variable {α β : Type}
variable {id : SymbolId} {judge : Judge} {ty : Ty}

/-!
## Running rules
-/

/-- What can be seen of a function from outside of its body: whether it is
static, and then the type that declares it. -/
def staticOwner? (frame : Option Frame) : Option (Option ScopeId) :=
  frame.bind fun frame => if frame.isStatic then some frame.owner else none

namespace Rule

def isMemberOf (symbol : Symbol) (owner : ScopeId) : Bool :=
  symbol.scope == owner &&
    (symbol.kind == .structField || symbol.kind == .function) &&
    !symbol.isStatic

theorem isInstanceMember_run (id : SymbolId) (judge : Judge) (s : Session) :
    isInstanceMember id judge s =
      ((s.frame.bind (·.owner)).any (isMemberOf (s.tree.symbol id)), s) := by
  unfold isInstanceMember
  rw [bind_frame?]
  cases s.frame.bind (·.owner) <;> rfl

theorem misusesInstance_run (id : SymbolId) (judge : Judge) (s : Session) :
    misusesInstance id judge s =
      ((staticOwner? s.frame).join.any (isMemberOf (s.tree.symbol id)), s) := by
  show (s.frame.any (·.isStatic) && (isInstanceMember id judge s).1,
    (isInstanceMember id judge s).2) = _
  rw [isInstanceMember_run]
  cases s.frame with
  | none => rfl
  | some frame =>
    cases hstatic : frame.isStatic <;> simp [staticOwner?, hstatic]

theorem reportCast_run (problem : Problem) (span : Span) (judge : Judge) :
    reportCast problem span judge = fun s =>
      ((), { s with
        diagnostics := s.diagnostics.push
          (if s.options.strictCasts then .error else .warning)
            ⟨problem, span⟩ }) := by
  funext s
  show ((), { s with
    diagnostics :=
      if s.options.strictCasts then s.diagnostics.error problem span
      else s.diagnostics.warning problem span }) = _
  cases s.options.strictCasts <;> rfl

theorem typedOnce_of_some {typing : Symbol → Rule (Option Ty)}
    {s : Session} (hty : (s.tree.symbol id).ty = some ty) :
    typedOnce id typing judge s = (some ty, s) := by
  unfold typedOnce
  rw [bind_symbol, hty]
  rfl

theorem typedOnce_of_none {typing : Symbol → Rule (Option Ty)}
    {s : Session} (hnone : (s.tree.symbol id).ty = none) :
    typedOnce id typing judge s =
      match typing (s.tree.symbol id) judge s with
      | (some ty, s') =>
        (some ty,
          { s' with
            tree := s'.tree.updateSymbol id fun symbol =>
              { symbol with ty := some ty } })
      | (none, s') => (none, s') := by
  unfold typedOnce
  rw [bind_symbol, hnone]
  dsimp only
  rw [bind_run]
  rcases typing (s.tree.symbol id) judge s with ⟨_ | ty, s'⟩ <;> rfl

end Rule

/-!
## Sessions within a policy
-/

variable {policy : Policy} {place : Place} [Answer α] [Answer β]

structure TypeCache.Within (policy : Policy) (cache : TypeCache) : Prop where
  entries : ∀ entry ∈ cache.entries, Obeys policy entry.2
  trials : ∀ journal ∈ cache.trials, ∀ insertion ∈ journal,
    Obeys policy insertion.replaced

/-- All that a session holds is within the policy.  The frame counts only where
rules read it. -/
structure Session.Within (policy : Policy) (place : Place) (s : Session) :
    Prop where
  symbols : Obeys policy s.tree
  cache : s.cache.Within policy
  expectations : Obeys policy s.context.expectations
  frame : (policy = .closed → place = .inFunction) → Obeys policy s.frame

theorem Session.new_within_of_obeys {program : Program} {options : Options}
    (evaluator : Evaluator) (h : Obeys policy program.collect.tree) :
    ((Session.new program options).withEvaluator evaluator).Within
      policy place where
  symbols := h
  cache :=
    ⟨fun _ hmem => (List.not_mem_nil hmem).elim, fun _ hmem =>
      (List.not_mem_nil hmem).elim⟩
  expectations := meets_nil
  frame _ := meets_none

def ScopeTree.NoLoopBinds (tree : ScopeTree) (loops : List (String × NodeId))
    (id : SymbolId) : Prop :=
  ∀ loop ∈ loops, tree.loopVariable? loop.1 loop.2 ≠ some id

instance (tree : ScopeTree) (loops : List (String × NodeId)) (id : SymbolId) :
    Decidable (tree.NoLoopBinds loops id) :=
  inferInstanceAs (Decidable (∀ loop ∈ loops, _))

/-- Under a policy that lists the loops, only a symbol that one of them binds
can have lost its type or have got another one. -/
structure ScopeTree.Keeps (policy : Policy) (a b : ScopeTree) : Prop where
  loopVariable?_eq : ∀ binding body, b.loopVariable? binding body =
    a.loopVariable? binding body
  types : ∀ loops, policy = .listed loops → ∀ id,
    a.NoLoopBinds loops id → ∀ ty, (a.symbol id).ty = some ty →
    (b.symbol id).ty = some ty

structure Session.Step (policy : Policy) (place : Place) (s : Session)
    (result : α × Session) : Prop where
  answer : Obeys policy result.1
  within : result.2.Within policy place
  advances : s.Advances result.2
  keeps : s.tree.Keeps policy result.2.tree

def Preserves (policy : Policy) (place : Place) (check : Check α) : Prop :=
  ∀ s : Session, s.Within policy place → s.Step policy place (check s)

abbrev Judge.Preserves (policy : Policy) (judge : Judge) : Prop :=
  judge.Answers policy.regime.loose fun place _ _ check =>
    StaticCheck.Preserves policy place check

theorem Session.within_free (s : Session) : s.Within .free place where
  symbols := Answer.free _
  cache := ⟨fun _ _ => Answer.free _, fun _ _ _ _ => Answer.free _⟩
  expectations := Answer.free _
  frame _ := Answer.free _

/-!
## The cache
-/

namespace TypeCache.Within

variable {cache : TypeCache}

theorem get? (h : cache.Within policy) (key : ExprKey) :
    Obeys policy (cache.get? key) := by
  intro ty hty
  obtain ⟨before, after, hsplit, -⟩ := List.lookup_eq_some_iff.mp hty
  exact h.entries (key, ty) (by simp [hsplit])

theorem replace {entries : List (ExprKey × Ty)}
    (h : ∀ entry ∈ entries, Obeys policy entry.2) (hty : Obeys policy ty)
    (key : ExprKey) :
    ∀ entry ∈ TypeCache.replace entries key ty, Obeys policy entry.2 := by
  intro entry hentry
  obtain ⟨old, hold, rfl⟩ := List.mem_map.mp hentry
  split
  · exact hty
  · exact h old hold

theorem note {trials : List (List Insertion)}
    (h : ∀ journal ∈ trials, ∀ insertion ∈ journal,
      Obeys policy insertion.replaced)
    {insertion : Insertion} (hinsertion : Obeys policy insertion.replaced) :
    ∀ journal ∈ TypeCache.note trials insertion, ∀ other ∈ journal,
      Obeys policy other.replaced := by
  cases trials with
  | nil => simp [TypeCache.note]
  | cons journal outer =>
    rw [List.forall_mem_cons] at h
    simp only [TypeCache.note, List.forall_mem_cons]
    exact ⟨⟨hinsertion, h.1⟩, h.2⟩

theorem dropOldest (h : ∀ entry ∈ cache.entries, Obeys policy entry.2)
    (count : Nat) :
    ∀ entry ∈ (cache.dropOldest count).entries, Obeys policy entry.2 := by
  induction count generalizing cache with
  | zero => exact h
  | succ count ih =>
    unfold TypeCache.dropOldest
    split
    · exact h
    · exact ih fun entry hentry => h entry (List.mem_filter.mp hentry).1

theorem withRoom (h : cache.Within policy) :
    ∀ entry ∈ cache.withRoom.entries, Obeys policy entry.2 := by
  unfold TypeCache.withRoom
  split
  · exact dropOldest h.entries _
  · exact h.entries

theorem insert (h : cache.Within policy) (key : ExprKey)
    (hty : Obeys policy ty) : (cache.insert key ty).Within policy := by
  unfold TypeCache.insert
  split
  · exact h
  · split
    · next previous hprevious =>
        have hold : Obeys policy (some previous) :=
          meets_some.mpr (h.get? key previous hprevious)
        exact ⟨replace h.entries hty key, note h.trials hold⟩
    · refine ⟨fun entry hentry => ?_, note h.trials meets_none⟩
      rw [List.mem_append, List.mem_singleton] at hentry
      rcases hentry with hentry | rfl
      · exact h.withRoom entry hentry
      · exact hty

theorem beginTrial (h : cache.Within policy) :
    cache.beginTrial.Within policy where
  entries := h.entries
  trials := by
    rw [TypeCache.beginTrial, List.forall_mem_cons]
    exact ⟨fun _ hmem => (List.not_mem_nil hmem).elim, h.trials⟩

theorem undo (h : ∀ entry ∈ cache.entries, Obeys policy entry.2)
    {insertion : Insertion} (hinsertion : Obeys policy insertion.replaced) :
    ∀ entry ∈ (cache.undo insertion).entries, Obeys policy entry.2 := by
  unfold TypeCache.undo
  split
  · next ty hty => exact replace h (hinsertion ty hty) _
  · exact fun entry hentry => h entry (List.mem_filter.mp hentry).1

theorem rollback {journal : List Insertion}
    (h : ∀ entry ∈ cache.entries, Obeys policy entry.2)
    (hjournal : ∀ insertion ∈ journal, Obeys policy insertion.replaced) :
    ∀ entry ∈ (journal.foldl TypeCache.undo cache).entries,
      Obeys policy entry.2 := by
  induction journal generalizing cache with
  | nil => exact h
  | cons insertion rest ih =>
    rw [List.forall_mem_cons] at hjournal
    exact ih (undo h hjournal.1) hjournal.2

theorem rollbackTrial (h : cache.Within policy) :
    cache.rollbackTrial.Within policy := by
  unfold TypeCache.rollbackTrial
  split
  · exact h
  · next journal outer htrials =>
      have htaken := h.trials
      rw [htrials, List.forall_mem_cons] at htaken
      exact ⟨rollback h.entries htaken.1, htaken.2⟩

end TypeCache.Within

/-!
## Single steps
-/

namespace Session.Within

variable {s : Session}

theorem setTree (h : s.Within policy place) {tree : ScopeTree}
    (htree : Obeys policy tree) : { s with tree }.Within policy place :=
  { h with symbols := htree }

theorem setCache (h : s.Within policy place) {cache : TypeCache}
    (hcache : cache.Within policy) : { s with cache }.Within policy place :=
  { h with cache := hcache }

theorem setDiagnostics (h : s.Within policy place) (diagnostics : Diagnostics) :
    { s with diagnostics }.Within policy place :=
  { h with }

theorem setContext (h : s.Within policy place) {context : Context}
    (hcontext : Obeys policy context.expectations) :
    { s with context }.Within policy place := by
  exact { h with expectations := hcontext }

theorem updateSymbol (h : s.Within policy place) (id : SymbolId)
    {f : Symbol → Symbol}
    (hf : ∀ symbol : Symbol, Obeys policy symbol → Obeys policy (f symbol)) :
    { s with tree := s.tree.updateSymbol id f }.Within policy place := by
  refine h.setTree fun other => ?_
  refine s.tree.symbol_updateSymbol_induction id f
    (P := fun a b => Obeys policy a → Obeys policy b)
    (hf _) (fun _ h => h) other (h.symbols other)

end Session.Within

namespace Session.Advances

theorem setTree {s : Session} {tree : ScopeTree} (h : s.tree.Advances tree) :
    s.Advances { s with tree } :=
  { refl s with tree := h }

theorem setCache (s : Session) (cache : TypeCache) :
    s.Advances { s with cache } :=
  { refl s with }

theorem push (s : Session) (severity : Severity) (finding : Finding) :
    s.Advances
      { s with diagnostics := s.diagnostics.push severity finding } := by
  exact { refl s with diagnostics := List.prefix_append _ _ }

end Session.Advances

namespace ScopeTree.Keeps

variable {a b c : ScopeTree}

theorem typed (h : a.Keeps policy b) (loops : List (String × NodeId))
    (hloops : policy = .listed loops) (id : SymbolId)
    (hfree : a.NoLoopBinds loops id) (htyped : (a.symbol id).ty.isSome = true) :
    (b.symbol id).ty.isSome = true := by
  obtain ⟨ty, hty⟩ := Option.isSome_iff_exists.mp htyped
  exact Option.isSome_iff_exists.mpr ⟨ty, h.types loops hloops id hfree ty hty⟩

theorem refl (tree : ScopeTree) : tree.Keeps policy tree := by
  exact ⟨fun _ _ => rfl, fun _ _ _ _ _ h => h⟩

theorem trans (hab : a.Keeps policy b) (hbc : b.Keeps policy c) :
    a.Keeps policy c where
  loopVariable?_eq binding body :=
    (hbc.loopVariable?_eq binding body).trans
      (hab.loopVariable?_eq binding body)
  types loops hloops id hfree ty hty := by
    refine hbc.types loops hloops id (fun loop hloop => ?_) ty
      (hab.types loops hloops id hfree ty hty)
    rw [hab.loopVariable?_eq]
    exact hfree loop hloop

theorem updateSymbol (tree : ScopeTree) (id : SymbolId) {f : Symbol → Symbol}
    (htyped : ∀ (symbol : Symbol) (ty : Ty), symbol.ty = some ty →
      (f symbol).ty = some ty) :
    tree.Keeps policy (tree.updateSymbol id f) where
  loopVariable?_eq _ _ := rfl
  types _ _ other _ ty hother := by
    refine tree.symbol_updateSymbol_induction id f
      (P := fun a b => a.ty = some ty → b.ty = some ty) ?_ ?_ other hother
    · exact htyped _ ty
    · exact fun _ h => h

theorem setType (h : a.Keeps policy b) (hnone : (a.symbol id).ty = none)
    (ty : Ty) :
    a.Keeps policy
      (b.updateSymbol id fun symbol => { symbol with ty := some ty }) where
  loopVariable?_eq := h.loopVariable?_eq
  types loops hloops other hfree known hknown := by
    have hne : other ≠ id := by
      rintro rfl
      rw [hnone] at hknown
      cases hknown
    rw [symbol_updateSymbol_of_ne b _ hne]
    exact h.types loops hloops other hfree known hknown

theorem bindLoop (tree : ScopeTree) {binding : String} {body : NodeId}
    (ty : Option Ty)
    (hloop : ∀ loops, policy = .listed loops → (binding, body) ∈ loops) :
    tree.Keeps policy (tree.bindLoop binding body ty) := by
  unfold ScopeTree.bindLoop
  cases hid : tree.loopVariable? binding body with
  | none => exact .refl tree
  | some id =>
    refine ⟨fun _ _ => rfl, fun loops hloops other hfree _ hty => ?_⟩
    have hne : other ≠ id := by
      rintro rfl
      exact hfree _ (hloop loops hloops) hid
    rwa [symbol_updateSymbol_of_ne tree _ hne]

end ScopeTree.Keeps

namespace Preserves

variable {rule : Rule α}

theorem pure {a : α} (ha : Obeys policy a) :
    Preserves policy place (Pure.pure a : Check α) := by
  intro s hs
  exact ⟨ha, hs, Session.Advances.refl s, .refl _⟩

theorem bind {check : Check α} {next : α → Check β}
    (hcheck : Preserves policy place check)
    (hnext : ∀ a, Obeys policy a → Preserves policy place (next a)) :
    Preserves policy place (check >>= next) := by
  intro s hs
  have hfirst := hcheck s hs
  have hsecond := hnext _ hfirst.answer _ hfirst.within
  exact ⟨hsecond.answer, hsecond.within, hfirst.advances.trans hsecond.advances,
    hfirst.keeps.trans hsecond.keeps⟩

theorem bindRule {next : α → Rule β}
    (hrule : Preserves policy place (rule judge))
    (hnext : ∀ a, Obeys policy a → Preserves policy place (next a judge)) :
    Preserves policy place ((rule >>= next) judge) :=
  bind hrule hnext

theorem read (f : Session → α)
    (hf : ∀ s : Session, s.Within policy place → Obeys policy (f s)) :
    Preserves policy place fun s => (f s, s) := by
  intro s hs
  exact ⟨hf s hs, hs, Session.Advances.refl s, .refl _⟩

theorem push (severity : Session → Severity) (finding : Finding) :
    Preserves policy place fun s : Session => ((), { s with
      diagnostics := s.diagnostics.push (severity s) finding }) := by
  intro s hs
  exact ⟨trivial, hs.setDiagnostics _,
    Session.Advances.push s _ finding, .refl _⟩

theorem remember {key : ExprKey} (hty : Obeys policy ty) (judge : Judge) :
    Preserves policy place (remember key ty judge) := by
  intro s hs
  exact ⟨trivial, hs.setCache (hs.cache.insert key hty),
      Session.Advances.setCache s _, .refl _⟩

theorem updateSymbol {f : Symbol → Symbol}
    (hadvance : ∀ symbol : Symbol, symbol.Advances (f symbol))
    (htyped : ∀ (symbol : Symbol) (ty : Ty), symbol.ty = some ty →
      (f symbol).ty = some ty)
    (hobeys : ∀ symbol : Symbol, Obeys policy symbol → Obeys policy (f symbol))
    (judge : Judge) :
    Preserves policy place (updateSymbol id f judge) := by
  intro s hs
  exact ⟨trivial, hs.updateSymbol id hobeys,
    Session.Advances.setTree
    (ScopeTree.Advances.updateSymbol s.tree id (hadvance _)),
    .updateSymbol s.tree id htyped⟩

theorem bindLoop {binding : String} {body : NodeId} {ty : Option Ty}
    (hloop : ∀ loops, policy = .listed loops → (binding, body) ∈ loops)
    (hty : Obeys policy ty) (judge : Judge) :
    Preserves policy place (bindLoop binding body ty judge) := by
  intro s hs
  have hkeeps := ScopeTree.Keeps.bindLoop s.tree ty hloop
  suffices hstep :
      { s with tree := s.tree.bindLoop binding body ty }.Within policy place ∧
      s.tree.Advances (s.tree.bindLoop binding body ty) from
    ⟨trivial, hstep.1, Session.Advances.setTree hstep.2, hkeeps⟩
  unfold ScopeTree.bindLoop
  cases s.tree.loopVariable? binding body with
  | none => exact ⟨hs, ScopeTree.Advances.refl _⟩
  | some id =>
    constructor
    · exact hs.updateSymbol id fun symbol hsymbol => { hsymbol with ty := hty }
    · exact .updateSymbol s.tree id { Symbol.Advances.refl _ with fixed := rfl }

theorem updateFrame {f : Frame → Frame}
    (hadvance : ∀ frame : Frame, frame.Advances (f frame)) (judge : Judge) :
    Preserves policy place (updateFrame f judge) := by
  intro s hs
  refine ⟨trivial, { hs with frame := fun hplace => ?_ }, ?_, .refl _⟩
  · refine meets_map (hs.frame hplace) fun frame hframe => ?_
    rw [(hadvance frame).fixed]
    exact hframe
  · refine { Session.Advances.refl s with frame := ?_ }
    show Option.Rel Frame.Advances s.frame (s.frame.map f)
    cases s.frame with
    | none => exact .none
    | some frame => exact .some (hadvance frame)

theorem typedOnce {typing : Symbol → Rule (Option Ty)}
    (htyping : ∀ symbol, Obeys policy symbol →
      Preserves policy place (typing symbol judge)) :
    Preserves policy place (typedOnce id typing judge) := by
  intro s hs
  have hsymbol := hs.symbols id
  cases hty : (s.tree.symbol id).ty with
  | some ty =>
    rw [Rule.typedOnce_of_some hty]
    exact ⟨meets_some.mpr (hsymbol.1 ty hty), hs,
      Session.Advances.refl s, .refl _⟩
  | none =>
    have hstep := htyping _ hsymbol s hs
    rw [Rule.typedOnce_of_none hty]
    rcases hrun : typing (s.tree.symbol id) judge s with ⟨answer, s'⟩
    rw [hrun] at hstep
    cases answer with
    | none => exact ⟨meets_none, hstep.within, hstep.advances, hstep.keeps⟩
    | some ty =>
      refine ⟨hstep.answer, hstep.within.updateSymbol id fun symbol hobeys =>
        ?_, ?_, hstep.keeps.setType hty ty⟩
      · exact { hobeys with ty := hstep.answer }
      · exact { hstep.advances with tree := hstep.advances.tree.setType hty ty }

/-!
## Brackets
-/

theorem bracketContext {inner : Place} {enter leave : Context → Context}
    (hplace : inner = .inFunction ↔ place = .inFunction)
    (henter : ∀ context : Context, Obeys policy context.expectations →
      Obeys policy (enter context).expectations)
    (hleave : ∀ context : Context, leave (enter context) = context)
    (hrule : Preserves policy inner (rule judge)) :
    Preserves policy place ((do
      updateContext enter
      let answer ← rule
      updateContext leave
      return answer : Rule α) judge) := by
  intro s hs
  have hinner : { s with context := enter s.context }.Within policy inner :=
    { symbols := hs.symbols
      cache := hs.cache
      expectations := henter _ hs.expectations
      frame := fun h => hs.frame fun hclosed => hplace.mp (h hclosed) }
  have hstep := hrule _ hinner
  have hcontext :
      leave (rule judge { s with context := enter s.context }).2.context =
      s.context := by
    rw [hstep.advances.context]
    exact hleave s.context
  refine ⟨hstep.answer, ?_, { hstep.advances with context := hcontext },
    hstep.keeps⟩
  exact {
    symbols := hstep.within.symbols
    cache := hstep.within.cache
    expectations := by
      show Obeys policy (leave _).expectations
      rw [hcontext]
      exact hs.expectations
    frame := fun h => hstep.within.frame fun hclosed => hplace.mpr (h hclosed) }

theorem withScope {scope : ScopeId}
    (hrule : Preserves policy place (rule judge)) :
    Preserves policy place (withScope scope rule judge) := by
  intro s hs
  have hinner : { s with tree := s.tree.enter scope }.Within policy place :=
    hs.setTree hs.symbols
  have hstep := hrule _ hinner
  refine ⟨hstep.answer, hstep.within.setTree hstep.within.symbols, ?_,
    { hstep.keeps with }⟩
  exact { hstep.advances with tree := hstep.advances.tree.detour }

theorem withInFlight {key : ExprKey}
    (hrule : Preserves policy place (rule judge)) :
    Preserves policy place (withInFlight key rule judge) := by
  intro s hs
  have hstep := hrule { s with inFlight := key :: s.inFlight } { hs with }
  refine ⟨hstep.answer, { hstep.within with },
    { hstep.advances with inFlight := ?_ }, hstep.keeps⟩
  show List.erase _ key = s.inFlight
  rw [hstep.advances.inFlight, List.erase_cons_head]

theorem withUnfolding (hrule : Preserves policy place (rule judge)) :
    Preserves policy place (withUnfolding id rule judge) := by
  intro s hs
  have hstep := hrule { s with unfolding := id :: s.unfolding } { hs with }
  refine ⟨hstep.answer, { hstep.within with },
    { hstep.advances with unfolding := ?_ }, hstep.keeps⟩
  show List.tail _ = s.unfolding
  rw [hstep.advances.unfolding, List.tail_cons]

theorem withSavedState (hrule : Preserves policy place (rule judge)) :
    Preserves policy place (withSavedState rule judge) := by
  intro s hs
  have hstep := hrule s hs
  have htree : (s.tree.enter s.tree.current).Advances (rule judge s).2.tree :=
    hstep.advances.tree
  refine ⟨hstep.answer, ?_,
    { hstep.advances with tree := htree.detour, context := rfl },
    { hstep.keeps with }⟩
  exact { hstep.within with expectations := hs.expectations }

theorem speculate (hrule : Preserves policy place (rule judge)) :
    Preserves policy place (speculate rule judge) := by
  intro s hs
  have hstep := withSavedState hrule _ (hs.setCache hs.cache.beginTrial)
  refine ⟨⟨hstep.answer, trivial⟩, ?_, ?_, hstep.keeps⟩
  · exact { hstep.within with
      cache := hstep.within.cache.rollbackTrial
      frame := hs.frame }
  · refine { hstep.advances with
      frame := Session.Advances.frame_refl s.frame
      diagnostics := ?_ }
    -- Everything reported before the trial is still in front.
    have hkept := hstep.advances.diagnostics
    show s.diagnostics.items <+: List.take s.diagnostics.items.length _
    rw [List.prefix_take_iff]
    exact ⟨hkept, Nat.le_refl _⟩

theorem withFrame {frame : Frame} (hframe : Obeys policy frame)
    (hrule : Preserves policy .inFunction (rule judge)) :
    Preserves policy place (withFrame frame rule judge) := by
  intro s hs
  have hinner : { s with
      frame := some frame, context := s.context.setLoopDepth 0 }.Within policy
        .inFunction :=
    { symbols := hs.symbols
      cache := hs.cache
      expectations := hs.expectations
      frame := fun _ => meets_some.mpr hframe }
  have hstep := hrule _ hinner
  refine ⟨⟨hstep.within.frame fun _ => rfl, hstep.answer⟩, ?_, ?_, hstep.keeps⟩
  · exact { hstep.within with frame := hs.frame }
  · refine { hstep.advances with
      frame := Session.Advances.frame_refl s.frame
      context := ?_ }
    show Context.setLoopDepth _ _ = s.context
    rw [hstep.advances.context]
    rfl

theorem memoized {expr : Expr}
    (hkind : Preserves policy place (inferKind expr judge)) :
    Preserves policy place (inferExpr expr judge) := by
  unfold inferExpr
  refine bindRule (.read _ fun s _ => meets_inert _) fun key _ => ?_
  refine bindRule (.read _ fun s hs => hs.cache.get? key) fun known hknown => ?_
  cases known with
  | some ty => exact .pure hknown
  | none =>
    refine bindRule (.read _ fun s _ => meets_inert _) fun busy _ => ?_
    cases busy with
    | true => exact .pure meets_none
    | false =>
      have hinferred : Preserves policy place
          (withSpan expr.span (inferKind expr) judge) :=
        bracketContext Iff.rfl (fun _ h => h) (fun _ => rfl) hkind
      refine bindRule (withInFlight hinferred) fun answer hanswer => ?_
      cases answer with
      | none => exact .pure meets_none
      | some ty =>
        exact bindRule (.remember (meets_some.mp hanswer) judge) fun _ _ =>
          .pure hanswer

end Preserves

/-!
## Rules and judges
-/

theorem Place.enterLoop_eq_inFunction :
    place.enterLoop = .inFunction ↔ place = .inFunction := by
  cases place <;> simp [Place.enterLoop]

/-- A certified rule preserves whatever its judge preserves. -/
theorem Attested.preserves {place : policy.regime.loose.Place} {α : Type}
    [Found α] {rule : Rule α} (h : Attested policy.regime.loose place rule)
    (hjudge : judge.Preserves policy) :
    Preserves policy place (rule judge) := by
  induction h with
  | pure ha => exact .pure ha.1
  | bind _ _ hrule hnext =>
    exact .bind hrule fun a ha => hnext a (fits_of_obeys ha)
  | askType hexpr => exact hjudge.infer hexpr
  | askValid hstmt => exact hjudge.validate hstmt
  | askResolved hty => exact hjudge.resolve _ hty
  | askCompatible htarget hsource =>
    exact hjudge.compatible _ htarget hsource
  | askCastable htarget hsource =>
    exact hjudge.castable _ htarget hsource
  | askValue htarget hvalue => exact hjudge.checkValue htarget hvalue
  | askPeeled hty => exact hjudge.peel _ hty
  | seeTree _ hnext =>
    refine .bindRule (.read _ fun s hs => hs.symbols) fun tree htree => ?_
    exact hnext tree ⟨Policy.describes htree, False.elim⟩
  | expected? =>
    refine .read _ fun s hs ty hty => ?_
    have hhead := Option.join_eq_some_iff.mp hty
    exact hs.expectations (some ty) (List.mem_of_head? hhead) ty rfl
  | isUnfolding | evaluator | containsType | isInStatic | isInLoop =>
    exact .read _ fun s _ => meets_inert _
  | misusesInstance =>
    intro s hs
    rw [Rule.misusesInstance_run]
    exact ⟨trivial, hs, Session.Advances.refl s, .refl _⟩
  | frame? hplace => exact .read _ fun s hs => hs.frame hplace
  | report => exact .push (fun _ => .error) _
  | reportInternal => exact .push (fun _ => .error) _
  | reportCast =>
    rw [Rule.reportCast_run]
    exact .push _ _
  | updateSymbol hadvance htyped hfits =>
    refine .updateSymbol hadvance htyped (fun symbol hsymbol => ?_) judge
    exact (hfits symbol (fits_of_obeys hsymbol)).1
  | bindLoop hloop hty => exact .bindLoop hloop hty.1 judge
  | updateFrame _ hadvance => exact .updateFrame hadvance judge
  | typedOnce _ _ htyping =>
    exact .typedOnce fun symbol hsymbol =>
      htyping symbol (fits_of_obeys hsymbol)
  | withScope _ hrule => exact .withScope hrule
  | withSpan _ hrule =>
    exact .bracketContext Iff.rfl (fun _ h => h) (fun _ => rfl) hrule
  | withDeclaration _ hrule =>
    exact .bracketContext Iff.rfl (fun _ h => h) (fun _ => rfl) hrule
  | withExpected hexpected _ hrule =>
    refine .bracketContext Iff.rfl (fun _ h => ?_) (fun _ => rfl) hrule
    exact meets_cons.mpr ⟨hexpected.1, h⟩
  | withLoop _ hrule =>
    exact .bracketContext Place.enterLoop_eq_inFunction (fun _ h => h)
      (fun _ => rfl) hrule
  | withUnfolding _ hrule => exact .withUnfolding hrule
  | withSavedState _ hrule => exact .withSavedState hrule
  | speculate _ hrule => exact .speculate hrule
  | withFrame hframe _ _ _ hrule hnext hlost =>
    refine .bindRule (.withFrame hframe.1 hrule) fun walked _ => ?_
    obtain ⟨_ | finished, a⟩ := walked
    · exact hlost trivial a
    · exact hnext finished a
  | memoized _ _ hkind => exact .memoized hkind

theorem Judge.limited_preserves (n : Nat) : (limited n).Preserves policy := by
  exact limited_answers (fun _ ha => .pure (fits_loose.mp ha))
    (fun h ih => h.preserves ih) n

theorem Composed.advances {α : Type} [Found α] {rule : Rule α}
    (h : Composed .free place rule) (n : Nat) (s : Session) :
    s.Advances (rule (Judge.limited n) s).2 := by
  exact (h.preserves (Judge.limited_preserves n) s s.within_free).advances

end StaticCheck
