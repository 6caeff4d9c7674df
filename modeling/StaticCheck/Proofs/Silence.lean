import StaticCheck.Proofs.Reading
import StaticCheck.Proofs.Resolution

/-!
# Silence

Normal forms, silent resolution, also that for layout, compatibility and casts
report nothing themselves.  They are silent if the evaluator folds all array
lengths to which they come; another length is inferred, and what the inference
reports is heard.
-/

namespace StaticCheck

open Rule Reading

/-- The sessions to which the silent checks of two types lead. -/
def Check.silent (target source : Ty) (s : Session) : List Session :=
  [(Check.normalize target s).2, (Check.tryResolve target s).2,
    (Check.resolveLayout target s).2,
    (Check.isCompatible target source none s).2,
    (Check.canCast target source s).2]

/-!
## Where reading types leads
-/

/-- What reading the given types can come to, from a session: the sessions on
the way and what is read in them.  This is what stands in the given types and,
for symbols whose names were read before, what stands in the types that they
have or are aliases for.  Of the steps from one session to another, only the
inference of a length that the evaluator does not fold makes reports. -/
inductive Session.Reaches (s : Session) (given : List Ty) :
    Session ⊕ Leaf → Prop
  | start : Reaches s given (.inl s)
  | enter {t : Session} {scope : ScopeId} (ht : Reaches s given (.inl t))
      (hscope : Reaches s given (.inr (.home scope))) :
      Reaches s given (.inl { t with tree := t.tree.enter scope })
  | unfold {t : Session} (unfolding : List SymbolId)
      (ht : Reaches s given (.inl t)) :
      Reaches s given (.inl { t with unfolding })
  | record {t : Session} {id : SymbolId} {ty : Ty}
      (ht : Reaches s given (.inl t))
      (hid : Reaches s given (.inr (.symbol id)))
      (hty : ∀ leaf ∈ ty.leaves true, Reaches s given (.inr leaf)) :
      Reaches s given (.inl { t with
        tree := t.tree.updateSymbol id fun symbol =>
          { symbol with ty := some ty } })
  | infer {t : Session} {length : Expr} (n : Nat)
      (ht : Reaches s given (.inl t))
      (hlength : Reaches s given (.inr (.length length)))
      (hfold : t.evaluator.foldInt length = none) :
      Reaches s given (.inl ((Judge.limited n).infer length t).2)
  | given {ty : Ty} {leaf : Leaf} (hty : ty ∈ given)
      (hleaf : leaf ∈ ty.leaves true) : Reaches s given (.inr leaf)
  | current {t : Session} (ht : Reaches s given (.inl t)) :
      Reaches s given (.inr (.home t.tree.current))
  | found {t : Session} {name : String} {id : SymbolId}
      (ht : Reaches s given (.inl t))
      (hname : Reaches s given (.inr (.name name)))
      (hfound : t.tree.lookup name = some id)
      (hnamed : (t.tree.symbol id).isNamed = true) :
      Reaches s given (.inr (.symbol id))
  | scope {t : Session} {id : SymbolId} (ht : Reaches s given (.inl t))
      (hid : Reaches s given (.inr (.symbol id))) :
      Reaches s given (.inr (.home (t.tree.symbol id).scope))
  | recorded {t : Session} {id : SymbolId} {ty : Ty} {leaf : Leaf}
      (ht : Reaches s given (.inl t))
      (hid : Reaches s given (.inr (.symbol id)))
      (hty : (t.tree.symbol id).ty = some ty)
      (hleaf : leaf ∈ ty.leaves true) : Reaches s given (.inr leaf)
  | aliased {t : Session} {id : SymbolId} {ty : Ty} {leaf : Leaf}
      (ht : Reaches s given (.inl t))
      (hid : Reaches s given (.inr (.symbol id)))
      (hty : (t.tree.symbol id).info.aliased = some ty)
      (hleaf : leaf ∈ ty.leaves true) : Reaches s given (.inr leaf)

namespace Session

variable {s t : Session} {given : List Ty}

abbrev ComesTo (s : Session) (given : List Ty) (t : Session) : Prop :=
  s.Reaches given (.inl t)

abbrev Meets (s : Session) (given : List Ty) (leaf : Leaf) : Prop :=
  s.Reaches given (.inr leaf)

/-- What is reached is in every reading that has the given types and that
inferences do not leave. -/
theorem Reaches.within {stop : Session ⊕ Leaf} (h : s.Reaches given stop)
    (reading : Reading) (hdeep : reading.deep = true) (hs : reading.Admits s)
    (hgiven : ∀ ty ∈ given, reading.Reads ty)
    (hfree : ∀ t unfolding, reading.Admits t →
      reading.Admits { t with unfolding })
    (hinfer : ∀ t length n, reading.Admits t →
      reading.Holds (.length length) → t.evaluator.foldInt length = none →
      reading.Admits ((Judge.limited n).infer length t).2) :
    Sum.elim reading.Admits reading.Holds stop := by
  induction h with
  | start => exact hs
  | enter _ _ ht hscope => exact reading.enter ht hscope
  | unfold unfolding _ ht => exact hfree _ unfolding ht
  | record _ _ _ ht hid hty =>
    exact reading.record ht hid fun leaf hleaf => hty leaf (hdeep ▸ hleaf)
  | infer n _ _ hfold ht hlength => exact hinfer _ _ n ht hlength hfold
  | given hty hleaf => exact hgiven _ hty _ (hdeep ▸ hleaf)
  | current _ ht => exact reading.current ht
  | found _ _ hfound hnamed ht hname =>
    exact reading.found ht hname hfound hnamed
  | scope _ _ ht hid => exact reading.scope ht hid
  | recorded _ _ hty hleaf ht hid =>
    exact reading.recorded ht hid hty (hdeep ▸ hleaf)
  | aliased _ _ hty hleaf ht hid =>
    exact reading.aliased ht hid hty (hdeep ▸ hleaf)

/-- If all lengths that are met are folded, nothing is reported. -/
theorem ComesTo.diagnostics_eq
    (hfolds : ∀ length, s.Meets given (.length length) →
      s.evaluator.foldInt length ≠ none)
    (h : s.ComesTo given t) : t.diagnostics = s.diagnostics := by
  have hstill : ∀ stop, s.Reaches given stop →
      Sum.elim (fun t => t.diagnostics = s.diagnostics ∧
        t.evaluator = s.evaluator) (fun _ => True) stop := by
    intro stop hstop
    induction hstop with
    | start => exact ⟨rfl, rfl⟩
    | enter _ _ ht => exact ht
    | unfold _ _ ht => exact ht
    | record _ _ _ ht => exact ht
    | infer n _ hlength hfold ht =>
      rw [ht.2] at hfold
      exact absurd hfold (hfolds _ hlength)
    | _ => trivial
  exact (hstill _ h).1

/-- Lengths that are met are of a kind if all lengths of this kind are folded
and if those are of it that stand in the given types and in the types of the
symbols that can stand for types. -/
theorem Meets.of_kind {kind : Expr → Prop}
    (hgiven : ∀ ty ∈ given, ∀ leaf ∈ ty.leaves true, leaf.Fits kind s.tree)
    (hsymbols : ∀ id, (s.tree.symbol id).Readable true kind s.tree id)
    (hfolds : ∀ length, kind length → s.evaluator.foldInt length ≠ none)
    {length : Expr} (h : s.Meets given (.length length)) : kind length := by
  refine h.within (fitting .exhausted true kind s.tree s.evaluator) rfl
    ⟨rfl, hsymbols⟩ hgiven (fun _ _ ht => ht) ?_
  intro t length n ht hkind hfold
  rw [ht.1] at hfold
  exact absurd hfold (hfolds length hkind)

end Session

/-!
## Silent checks
-/

def Reading.reached (s : Session) (given : List Ty) (n : Nat) : Reading where
  judge := Judge.limited n
  twin := Judge.limited n
  deep := true
  Admits t := s.ComesTo given t
  Holds leaf := s.Meets given leaf
  current ht := .current ht
  enter ht hscope := .enter ht hscope
  found ht hname hfound hnamed := .found ht hname hfound hnamed
  scope ht hid := .scope ht hid
  recorded ht hid hty hleaf := .recorded ht hid hty hleaf
  aliased ht hid hty hleaf := .aliased ht hid hty hleaf
  record ht hid hty := .record ht hid hty

section

variable {s : Session} {given : List Ty} {n : Nat} {α : Type}

theorem Hears.constInt {length : Expr} (h : s.Meets given (.length length)) :
    Hears (reached s given n) (constInt length) := by
  intro t ht
  refine .ask (fun _ => rfl) ?_
  cases hfold : t.evaluator.foldInt length with
  | some value => exact Finds.pure trivial t ht
  | none =>
    have hinfer : Leads (reached s given n) (fun _ => True)
        (askType length) t := ⟨.infer n ht h hfold, trivial, rfl⟩
    refine hinfer.bind fun answer _ => ?_
    split <;> exact .pure trivial

theorem Finds.ofBelow {post : α → Prop} {ask rule : Rule α}
    (hrule : Finds (reached s given n) post rule)
    (hask : ∀ t, ask (Judge.limited (n + 1)) t = rule (Judge.limited n) t) :
    Finds (reached s given (n + 1)) post ask := by
  intro t ht
  obtain ⟨hu, ha, -⟩ := hrule t ht
  rw [show rule (reached s given n).judge t = ask (Judge.limited (n + 1)) t
    from (hask t).symm] at hu ha
  exact ⟨hu, ha, rfl⟩

theorem Leads.reached_alias {t : Session} {id : SymbolId} {name : String}
    {span : Span} (ht : s.ComesTo given t) (hid : s.Meets given (.symbol id))
    (hask : ∀ aliased, (reached s given n).Reads aliased →
      Finds (reached s given n) (WhenSome (reached s given n).Reads)
        (askResolved aliased span false)) :
    Leads (reached s given n) (WhenSome (reached s given n).Reads)
      (Rule.unfoldAlias id name span false) t := by
  refine .unfoldAlias ht hid fun aliased haliased _ => ?_
  have hentered := Session.Reaches.unfold (id :: t.unfolding) ht
  obtain ⟨hu, ha, -⟩ := hask aliased haliased _
    (.enter hentered (.scope ht hid))
  exact ⟨.unfold _ (.enter hu (.current hentered)), ha, rfl⟩

/-- By induction on the depth of the judge: what it answers comes from the
rules one level down. -/
theorem Reading.reached_silent (n : Nat) : (reached s given n).Silent := by
  induction n with
  | zero =>
    refine ⟨fun _ h => .constInt h, fun t id name span ht hid _ => ?_⟩
    exact .reached_alias ht hid fun _ _ u hu =>
      ⟨hu, fun _ hmem => absurd hmem (Option.not_mem_none _), rfl⟩
  | succ n ih =>
    refine ⟨fun _ h => .constInt h, fun t id name span ht hid _ => ?_⟩
    exact .reached_alias ht hid fun aliased haliased =>
      .ofBelow (ih.resolveTy span aliased haliased) fun _ => rfl

theorem Hears.askCompatible (n : Nat) {target source : Ty}
    (htarget : (reached s given n).Reads target)
    (hsource : (reached s given n).Reads source) :
    Hears (reached s given n) (askCompatible target source) := by
  induction n generalizing target source with
  | zero => exact fun t ht => ⟨ht, trivial, rfl⟩
  | succ n ih =>
    have hbelow : Hears (reached s given n) (Rule.compatible target source) :=
      (reached_silent n).compatible rfl (fun _ _ => ih) htarget hsource
    exact hbelow.ofBelow fun _ => rfl

theorem Hears.askCastable (n : Nat) {target source : Ty}
    (htarget : (reached s given n).Reads target)
    (hsource : (reached s given n).Reads source) :
    Hears (reached s given n) (askCastable target source) := by
  induction n generalizing target source with
  | zero => exact fun t ht => ⟨ht, trivial, rfl⟩
  | succ n ih =>
    have hbelow : Hears (reached s given n) (Rule.canCast target source) :=
      (reached_silent n).canCast rfl (fun _ _ => .askCompatible n)
        (fun _ _ => ih) htarget hsource
    exact hbelow.ofBelow fun _ => rfl

theorem comesTo_ask {rule : Rule α} (size : Nat)
    (h : ∀ n, ∃ post, Finds (reached s given n) post rule) :
    s.ComesTo given (Check.ask size rule s).2 := by
  obtain ⟨post, hrule⟩ := h (s.depth size)
  exact (hrule s .start).session

end

/-- Silent checks of two types lead only where reading these types leads, so
that nothing was reported but by inferring lengths that stand in them or in
the types of names that were read, and that the evaluator did not fold.  If it
folds all of these lengths, then nothing was reported at all. -/
theorem only_lengths_break_the_silence
    (s : Session)
    (target source : Ty)
    (t : Session)
    (h : t ∈ Check.silent target source s) :
    s.ComesTo [target, source] t ∧
      ((∀ length, s.Meets [target, source] (.length length) →
          s.evaluator.foldInt length ≠ none) →
        t.diagnostics = s.diagnostics) := by
  have htarget : ∀ n, (reached s [target, source] n).Reads target :=
    fun _ leaf hleaf => .given (List.mem_cons_self ..) hleaf
  have hsource : ∀ n, (reached s [target, source] n).Reads source :=
    fun _ leaf hleaf => .given (.tail _ (List.mem_singleton_self source)) hleaf
  have hcomes : s.ComesTo [target, source] t := by
    simp only [Check.silent, List.mem_cons, List.not_mem_nil, or_false] at h
    rcases h with rfl | rfl | rfl | rfl | rfl
    · exact comesTo_ask _ fun n => ⟨_, (reached_silent n).normalize (htarget n)⟩
    · exact comesTo_ask _ fun n =>
        ⟨_, (reached_silent n).resolveTy .none target (htarget n)⟩
    · exact comesTo_ask _ fun n =>
        ⟨_, (reached_silent n).layoutTy rfl layoutDepth (htarget n)⟩
    · exact comesTo_ask _ fun n => ⟨_, (reached_silent n).isCompatible rfl
        (fun _ _ => .askCompatible n) (htarget n) (hsource n)⟩
    · exact comesTo_ask _ fun n => ⟨_, (reached_silent n).canCast rfl
        (fun _ _ => .askCompatible n) (fun _ _ => .askCastable n)
        (htarget n) (hsource n)⟩
  exact ⟨hcomes, fun hfolds => hcomes.diagnostics_eq hfolds⟩

def synonymForPair : Session :=
  let s := Session.new (soleModule [declareSynonym 1 "Pair"
    (.array .bool (.expr ⟨⟨3⟩, .none, .literal (.int "2")⟩) false)]) {}
  { s with tree := s.tree.enter ⟨1⟩ }

theorem only_lengths_break_the_silence_of_pair :
    let pair : Ty := .named "Pair"
    let same : Ty := .array .bool (.fixed 2) false
    let t := (Check.canCast pair same synonymForPair).2
    t ∈ Check.silent pair same synonymForPair ∧
      (∀ length, synonymForPair.Meets [pair, same] (.length length) →
        synonymForPair.evaluator.foldInt length ≠ none) ∧
      t.diagnostics = synonymForPair.diagnostics := by
  intro pair same t
  have hmem : t ∈ Check.silent pair same synonymForPair := by
    simp [Check.silent, t]
  have hfolds : ∀ length,
      synonymForPair.Meets [pair, same] (.length length) →
        synonymForPair.evaluator.foldInt length ≠ none := by
    intro length hmeets
    refine hmeets.of_kind ?_ ?_ fun _ h => h
    · intro ty hty leaf hleaf
      simp only [List.mem_cons, List.not_mem_nil, or_false] at hty
      rcases hty with rfl | rfl
      · cases List.mem_singleton.mp hleaf
        trivial
      · cases hleaf
    · rintro ⟨index⟩
      refine ⟨rfl, fun hnamed ty hty leaf hleaf => ?_⟩
      have hsize : synonymForPair.tree.symbols.size = 1 := by decide +kernel
      have hknown : index < _ := ScopeTree.symbol_known_of_isNamed hnamed
      obtain rfl : index = 0 := by omega
      rcases hty with hty | hty
      · cases hty
      · cases hty
        cases List.mem_singleton.mp hleaf
        show synonymForPair.evaluator.foldInt _ ≠ none
        decide +kernel
  exact ⟨hmem, hfolds, (only_lengths_break_the_silence _ _ _ t hmem).2 hfolds⟩

def unknownLength : Ty :=
  .array (.int true 32) (.expr ⟨⟨1⟩, .none, .ident "nope"⟩) false

/-- Every silent check reports the undefined name, and the cast does so
twice. -/
theorem silence_is_broken_by_unknown_length :
    let s := Session.new (soleModule []) {}
    let nope : Problem := .undefinedIdentifier "nope"
    s.diagnostics.items = [] ∧
      (Check.silent unknownLength .bool s).map
          (·.diagnostics.items.map (·.problem)) =
        [[nope], [nope], [nope], [nope], [nope, nope]] := by
  decide +kernel

end StaticCheck
