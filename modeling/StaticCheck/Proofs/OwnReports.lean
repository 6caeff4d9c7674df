import StaticCheck.Proofs.Reading

/-!
# What a rule reports itself

A report is made by a rule itself or by an answer of the judge that the rule
asks.  What a rule itself may report is written in it, while the answers can
bring every kind of report, as they come from the rules for other parts of the
program.
-/

namespace StaticCheck

open Rule Reading

/-- On the way from one session to another, only problems of a kind were
reported, the answers of the judge apart. -/
inductive Session.ReportsOnly (judge : Judge) (kind : Problem → Prop) :
    Session → Session → Prop
  | still {s t : Session} (h : t.diagnostics = s.diagnostics) :
      ReportsOnly judge kind s t
  | report {s : Session} (finding : Finding) (h : kind finding.problem) :
      ReportsOnly judge kind s
        { s with diagnostics := s.diagnostics.push .error finding }
  | typed (expr : Expr) (s : Session) :
      ReportsOnly judge kind s (judge.infer expr s).2
  | validated (stmt : Stmt) (s : Session) :
      ReportsOnly judge kind s (judge.validate stmt s).2
  | resolved (ty : Ty) (span : Span) (loud : Bool) (s : Session) :
      ReportsOnly judge kind s (judge.resolve ty span loud s).2
  | compared (target source : Ty) (s : Session) :
      ReportsOnly judge kind s (judge.compatible target source s).2
  | trans {s t u : Session} (h : ReportsOnly judge kind s t)
      (h' : ReportsOnly judge kind t u) : ReportsOnly judge kind s u

def Reading.only (judge : Judge) (kind : Problem → Prop) (start : Session) :
    Reading where
  judge
  twin := judge
  deep := true
  Admits s := start.ReportsOnly judge kind s
  Holds _ := True
  current _ := trivial
  enter hs _ := hs.trans (.still rfl)
  found _ _ _ _ := trivial
  scope _ _ := trivial
  recorded _ _ _ _ := trivial
  aliased _ _ _ _ := trivial
  record hs _ _ := hs.trans (.still rfl)

variable {α : Type} {judge : Judge} {kind : Problem → Prop} {start : Session}

namespace Finds

variable {post : α → Prop} {rule : Rule α}

theorem of_only (h : ∀ s : Session, s.ReportsOnly judge kind (rule judge s).2)
    (hpost : ∀ a, post a) : Finds (.only judge kind start) post rule := by
  intro s hs
  exact ⟨hs.trans (h s), hpost _, rfl⟩

theorem of_run {s t : Session} {a : α}
    (hrule : Finds (.only judge kind s) post rule)
    (h : rule judge s = (a, t)) : s.ReportsOnly judge kind t := by
  have hreports := (hrule s (.still rfl)).session
  rwa [show (rule (Reading.only judge kind s).judge s).2 = t from
    congrArg Prod.snd h] at hreports

theorem askType (expr : Expr) :
    Finds (.only judge kind start) (WhenSome fun _ => True) (askType expr) := by
  exact .of_only (.typed expr) fun _ _ _ => trivial

theorem askValid (stmt : Stmt) :
    Hears (.only judge kind start) (askValid stmt) := by
  exact .of_only (.validated stmt) fun _ => trivial

theorem report {problem : Problem} {span : Span} (h : kind problem) :
    Hears (.only judge kind start) (report problem span) := by
  exact .of_only (fun _ => .report ⟨problem, span⟩ h) fun _ => trivial

theorem bracket (enter : Session → Session) {whole : Rule α}
    (hrule : Finds (.only judge kind start) post rule)
    (henter : ∀ s, (enter s).diagnostics = s.diagnostics)
    (hleave : ∀ s, ∃ t, whole judge s = ((rule judge (enter s)).1, t) ∧
      t.diagnostics = (rule judge (enter s)).2.diagnostics) :
    Finds (.only judge kind start) post whole := by
  intro s hs
  obtain ⟨t, hwhole, hsame⟩ := hleave s
  obtain ⟨ht, ha, -⟩ := hrule (enter s) (hs.trans (.still (henter s)))
  refine ⟨?_, ?_, rfl⟩
  · show start.ReportsOnly judge kind (whole judge s).2
    rw [hwhole]
    exact ht.trans (.still hsame)
  · show post (whole judge s).1
    rw [hwhole]
    exact ha

theorem withExpected {expected : Option Ty}
    (hrule : Finds (.only judge kind start) post rule) :
    Finds (.only judge kind start) post (withExpected expected rule) := by
  exact .bracket
    (fun s => { s with context := s.context.pushExpected expected })
    hrule (fun _ => rfl) fun _ => ⟨_, rfl, rfl⟩

theorem withSavedState (hrule : Finds (.only judge kind start) post rule) :
    Finds (.only judge kind start) post (withSavedState rule) := by
  exact .bracket id hrule (fun _ => rfl) fun _ => ⟨_, rfl, rfl⟩

end Finds

theorem Reading.only_silent : (only judge kind start).Silent where
  valued length _ := by
    intro s hs
    refine .ask (fun _ => rfl) ?_
    cases s.evaluator.foldInt length with
    | some value => exact Finds.pure trivial s hs
    | none =>
      refine .bind (Finds.askType length s hs) fun answer _ => ?_
      split <;> exact .pure trivial
  unfolded s id name span hs hid _ := by
    refine .unfoldAlias hs hid fun aliased _ _ =>
      ⟨?_, fun _ _ _ _ => trivial, rfl⟩
    let entered : Session :=
      { s with
        unfolding := id :: s.unfolding
        tree := s.tree.enter (s.tree.symbol id).scope }
    have hentered : s.ReportsOnly judge kind entered := .still rfl
    have hasked := hentered.trans (.resolved aliased span false entered)
    exact hs.trans (hasked.trans (.still rfl))

theorem Reading.only_isCompatible (target source : Ty) (expr : Option Expr) :
    Hears (only judge kind start) (isCompatible target source expr) := by
  exact only_silent.isCompatible rfl
    (fun target source _ _ =>
      .of_only (.compared target source) fun _ => trivial)
    (fun _ _ => trivial) fun _ _ => trivial

end StaticCheck
