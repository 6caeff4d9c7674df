import StaticCheck.Proofs.Charted
import StaticCheck.Proofs.Visits

/-!
# Caches with room for a program

The cache remembers types under the module, the node and the form of an
expression, so a pass cannot remember more types than there are expressions in
the program, for each of its modules.  A cache with room for all of them never
drops one, and a pass does the same whatever its capacity is.  With less room an
expression may be inferred again, and by then the statements inside it have
declared their names.
-/

namespace StaticCheck

/-- How many types a pass over the program can remember. -/
def Program.room (program : Program) : Nat :=
  program.modules.length * program.expressions.length

theorem Program.room_eq (program : Program) (whole : Bool) :
    (program.chart whole).modules * (program.chart whole).parts.length =
      program.room := by
  cases hmodules : program.modules with
  | nil => simp [chart, room, expressions, pieces, hmodules]
  | cons module rest =>
    have hmax : (program.chart whole).modules = program.modules.length := by
      refine Nat.max_eq_right ?_
      rw [hmodules]
      exact Nat.succ_le_succ (Nat.zero_le _)
    rw [hmax]
    rfl

/-- A pass over a program gives the same verdict, makes the same reports, finds
out the same about the symbols and remembers the same types with any two
capacities that leave room for the program. -/
theorem pass_ignores_spare_capacity
    (program : Program)
    (options : Options)
    (evaluator : Evaluator)
    (capacity : Nat)
    (hroom : program.room ≤ options.cacheCapacity)
    (hspare : program.room ≤ capacity) :
    let first :=
      Check.handle ((Session.new program options).withEvaluator evaluator)
    let second := Check.handle ((Session.new program
      { options with cacheCapacity := capacity }).withEvaluator evaluator)
    second.1 = first.1 ∧ second.2.diagnostics = first.2.diagnostics ∧
      second.2.tree = first.2.tree ∧ second.2.cache.entries =
      first.2.cache.entries ∧
      first.2.cache.size ≤ program.room := by
  intro first second
  let twin : Twin :=
    { options := { options with cacheCapacity := capacity }
      capacity
      evaluator }
  let start : Session := (Session.new program options).withEvaluator evaluator
  have hpromises := Program.Promises.nothing program
  have hlies : start.LiesAt (program.chart false) twin
      program.collect.tree.current := by
    rw [← program.room_eq false] at hroom hspare
    exact Session.new_liesAt hpromises (.inr ⟨hroom, hspare⟩) rfl rfl rfl
  have hverdict := hlies.handle_twin hpromises rfl rfl rfl
  obtain ⟨hafter, htwin⟩ := hlies.checked_twin hpromises rfl
  have hsecond : second.2 = { twin.of (Check.checked start) with
      passStart := (twin.of (Check.checked start)).diagnostics.size } := by
    rw [← htwin]
    rfl
  refine ⟨hverdict, ?_, ?_, ?_, ?_⟩
  · rw [hsecond]
    rfl
  · rw [hsecond]
    rfl
  · rw [hsecond]
    rfl
  · rw [← program.room_eq false]
    exact hafter.cache.size_le

def shadowedInside : Program :=
  soleModule [
    ⟨⟨1⟩, .none, .func ⟨⟨2⟩, "f", .priv, [], some .void, none,
      ⟨⟨3⟩, [⟨⟨4⟩, .none, .expr ⟨⟨5⟩, .none, .ident "y"⟩⟩], .none⟩, .none⟩⟩,
    ⟨⟨6⟩, .none, .letDecl ⟨"x", .priv, false, some (.int true 32),
      some ⟨⟨7⟩, .none, .literal (.int "1")⟩⟩⟩,
    ⟨⟨8⟩, .none, .letDecl ⟨"y", .priv, false, none, some ⟨⟨9⟩, .none,
      .ifExpr ⟨⟨10⟩, .none, .literal (.bool true)⟩
        ⟨⟨11⟩, .none, .block ⟨⟨12⟩, [
          ⟨⟨13⟩, .none, .letDecl ⟨"a", .priv, false, some (.int true 32),
            some ⟨⟨14⟩, .none, .ident "x"⟩⟩⟩,
          ⟨⟨15⟩, .none, .letDecl ⟨"x", .priv, false, none,
            some ⟨⟨16⟩, .none, .literal (.bool true)⟩⟩⟩], .none⟩⟩ none⟩⟩⟩]

/-- Without a cache the initializer is inferred once more, and the inner
variable has been declared by then. -/
theorem verdict_depends_on_capacity :
    (Check.handle ((Session.new shadowedInside {}).withEvaluator .literal)).1 =
      true ∧
      (Check.handle
        ((Session.new shadowedInside { cacheCapacity := 0 }).withEvaluator
          .literal)).1 = false ∧
      (Check.handle
        ((Session.new shadowedInside { cacheCapacity := 0 }).withEvaluator
          .literal)).2.diagnostics.items.map (·.problem) =
          [.typeMismatch "i32" "bool"] := by
  decide +kernel

/-- There is room for the same program in a cache for six types. -/
theorem pass_ignores_spare_capacity_of_six :
    shadowedInside.room = 6 ∧
      (Check.handle
        ((Session.new shadowedInside { cacheCapacity := 6 }).withEvaluator
          .literal)).1 = true := by
  have hroom : shadowedInside.room = 6 := by decide +kernel
  have hplenty :
      (Check.handle
        ((Session.new shadowedInside {}).withEvaluator .literal)).1 =
      true := by
    decide +kernel
  have hsame := pass_ignores_spare_capacity shadowedInside {} .literal 6
    (by rw [hroom]; decide) (by rw [hroom])
  exact ⟨hroom, hsame.1.trans hplenty⟩

end StaticCheck
