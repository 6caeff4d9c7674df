import StaticCheck.Proofs.Pass
import StaticCheck.Proofs.Tandem

/-!
# Passes side by side

If the modules of a program stand on the chart, a pass over them stays within
the chart and does the same in the twin of the session.
-/

namespace StaticCheck

open Rule

variable {chart : Chart} {twin : Twin} {scope : ScopeId}

theorem KeepsTo.setModule {name path : String} :
    KeepsTo chart twin scope
      (updateContext fun context => context.setModule name path) := by
  intro _ _
  exact .change (fun _ hs => hs.setContext hs.expectations) (fun _ => rfl)
    fun _ _ => rfl

theorem KeepsTo.checkModule {module : Module} (hmodule : chart.Holds module) :
    KeepsTo chart twin scope (checkModule module) := by
  refine .seeTree fun tree htree => ?_
  split
  · next inner hscope =>
      have hbody : KeepsTo chart twin inner (checkStatements module.body) :=
        (Attested.checkStatements (R := chart.regime.loose)
          (htree.opened hmodule hscope)).keepsTo
      refine .bind .setModule fun _ _ => .bind (.withScope hbody) fun _ _ => ?_
      exact .pure (meets_ok ())
  · next hscope => exact .pure fun _ => htree.unopened hmodule hscope

namespace Check

theorem module_stays {index : Nat} {module : Module}
    (hindex : index < chart.modules) (hmodule : chart.Holds module) :
    Stays chart twin scope (Check.module index module) := by
  have hrule : KeepsTo chart twin scope
      (do reportFailure (← checkModule module)) :=
    .bind (.checkModule hmodule) fun _ hresult =>
      (Attested.reportFailure (fits_loose.mpr hresult)).keepsTo
  intro s hs
  have hmoved : { s with module := index }.LiesAt chart twin scope :=
    { hs with module := hindex }
  obtain ⟨hkept, htwin⟩ := hrule _ (Judge.limited_keepsTo (s.depth 0)) _ hmoved
  exact ⟨⟨hkept.answer, hkept.session, hkept.frame⟩, htwin⟩

theorem modules_stays {index : Nat} {modules : List Module}
    (hlength : index + modules.length ≤ chart.modules)
    (hmodules : ∀ module ∈ modules, chart.Holds module) :
    Stays chart twin scope (Check.modules index modules) := by
  induction modules generalizing index with
  | nil => exact .pure trivial
  | cons module rest ih =>
    rw [List.forall_mem_cons] at hmodules
    rw [List.length_cons] at hlength
    have hmodule : Stays chart twin scope (Check.module index module) :=
      module_stays (by omega) hmodules.1
    have hrest : Stays chart twin scope (Check.modules (index + 1) rest) :=
      ih (by omega) hmodules.2
    have hboth := Stays.bind hmodule fun _ _ => hrest
    exact hboth

theorem checked_twin {s : Session} (hs : s.LiesAt chart twin scope)
    (hlength : s.program.modules.length ≤ chart.modules)
    (hmodules : ∀ module ∈ s.program.modules, chart.Holds module) :
    (checked s).LiesAt chart twin scope ∧ checked (twin.of s) =
      twin.of (checked s) := by
  have hstays : Stays chart twin scope (Check.modules 0 s.program.modules) :=
    modules_stays (by omega) hmodules
  obtain ⟨hkept, htwin⟩ := hstays s hs
  exact ⟨hkept.session, congrArg Prod.snd htwin⟩

/-- The verdict of a pass is the same in the twin if both count from where the
pass started. -/
theorem handle_twin {s : Session} (hs : s.LiesAt chart twin scope)
    (hlength : s.program.modules.length ≤ chart.modules)
    (hmodules : ∀ module ∈ s.program.modules, chart.Holds module)
    (hstart : s.passStart = twin.before.length)
    (hinstead : twin.passStart = twin.instead.length) :
    (handle (twin.of s)).1 = (handle s).1 := by
  have htwin := (checked_twin hs hlength hmodules).2
  have hkept : (checked s).passStart = twin.before.length :=
    (checked_progress s).passStart.trans hstart
  have herrors : (twin.of (checked s)).diagnostics.errorsSince twin.passStart =
      (checked s).diagnostics.errorsSince twin.before.length := by
    simp only [Twin.of, Diagnostics.errorsSince, hinstead, List.drop_left]
  rw [handle_eq, handle_eq, htwin, hkept, ← herrors]
  rfl

end Check
end StaticCheck
