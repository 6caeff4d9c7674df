import StaticCheck.Proofs.Charted
import StaticCheck.Proofs.Visits

/-!
# Checks that do not fail

A check fails, with a report of an internal error, if it looks up the scope of a
node or the symbol of a declaration and does not find it.  If no node opens two
scopes and the collector comes to all that is looked up, no such report is ever
made.  The collector does not come to statements in the default of a parameter
or a field, in a pattern or in the length of an array type.
-/

namespace StaticCheck

/-- If every node that opens a scope occurs once in the program, and no
statement that opens a scope or declares a name stands where the collector does
not come, then neither collecting the program nor any number of passes over it
reports an internal error. -/
theorem passes_are_faultless
    (program : Program)
    (options : Options)
    (evaluator : Evaluator)
    (hopeners : program.openers.Nodup)
    (hcollected : ∀ piece ∈ program.pieces, piece.isCollected = true)
    (n : Nat) :
    ∀ report ∈
      (Check.handle (program.session options evaluator n)).2.diagnostics.items,
      report.problem.isInternal = false := by
  have hpromises : program.Promises true :=
    ⟨Program.distinct hopeners, fun _ => hcollected, nofun⟩
  obtain ⟨scope, hlies⟩ := Program.session_liesAt hpromises options evaluator n
  exact (hlies.handle hpromises (Program.session_program n)).faultless rfl

def scopeOfEveryKind : Program :=
  soleModule [
    ⟨⟨1⟩, .none,
      .struct
      ⟨⟨2⟩, "Counter", .priv,
        [⟨"count", .int true 32, .pub, true, none, .none⟩],
        [⟨⟨3⟩, "spin", .pub, [], some .void, none, ⟨⟨4⟩, [
        ⟨⟨5⟩, .none, .whileLoop ⟨⟨6⟩, .none, .literal (.bool true)⟩
          ⟨⟨7⟩, [⟨⟨8⟩, .none, .breakStmt⟩], .none⟩⟩], .none⟩, .none⟩], .none⟩⟩,
    ⟨⟨9⟩, .none,
      .enum ⟨⟨10⟩, "Color", .priv, [⟨"Red", none, .none⟩], [], .none⟩⟩,
    ⟨⟨11⟩, .none, .defDecl ⟨"Fault", .priv, none,
      ⟨⟨12⟩, .none, .type (.errors ["Broken"])⟩⟩⟩,
    ⟨⟨13⟩, .none, .func ⟨⟨14⟩, "main", .priv, [], some .void, none, ⟨⟨15⟩, [
      ⟨⟨16⟩, .none,
        .forLoop "i"
        ⟨⟨17⟩, .none, .range (some ⟨⟨18⟩, .none, .literal (.int "0")⟩)
          (some ⟨⟨19⟩, .none, .literal (.int "3")⟩) false⟩
        ⟨⟨20⟩, [⟨⟨21⟩, .none, .letDecl ⟨"j", .priv, false, none,
          some ⟨⟨22⟩, .none, .ident "i"⟩⟩⟩], .none⟩⟩,
      ⟨⟨23⟩, .none, .letDecl ⟨"k", .priv, false, none, some ⟨⟨24⟩, .none,
        .catchExpr ⟨⟨25⟩, .none, .literal (.int "1")⟩ (some "e")
          ⟨⟨26⟩, .none, .block ⟨⟨27⟩, [], .none⟩⟩⟩⟩⟩,
      ⟨⟨28⟩, .none, .expr ⟨⟨29⟩, .none, .matchExpr ⟨⟨30⟩, .none, .ident "k"⟩
        [⟨[⟨⟨31⟩, .none, .literal (.int "1")⟩], ⟨⟨32⟩, .none, .block ⟨⟨33⟩, [
          ⟨⟨34⟩, .none, .letDecl ⟨"k", .priv, false, none,
            some ⟨⟨35⟩, .none, .literal (.bool true)⟩⟩⟩], .none⟩⟩⟩] none⟩⟩],
            .none⟩, .none⟩⟩]

theorem passes_are_faultless_of_every_kind :
    scopeOfEveryKind.openers.length = 13 ∧
      ∀ report ∈
      (Check.handle
        (scopeOfEveryKind.session {} .literal 1)).2.diagnostics.items,
        report.problem.isInternal = false := by
  have hopeners : scopeOfEveryKind.openers.Nodup := by decide +kernel
  have hcollected : ∀ piece ∈ scopeOfEveryKind.pieces,
      piece.isCollected = true := by
    decide +kernel
  exact ⟨by decide +kernel,
    passes_are_faultless scopeOfEveryKind {} .literal hopeners hcollected 1⟩

def blockInside : Expr :=
  ⟨⟨1⟩, .none, .ifExpr ⟨⟨2⟩, .none, .literal (.bool true)⟩
    ⟨⟨3⟩, .none, .block ⟨⟨4⟩, [], .none⟩⟩ none⟩

def fieldDefault (value : Expr) : Program :=
  soleModule [⟨⟨5⟩, .none, .struct ⟨⟨6⟩, "S", .priv,
    [⟨"a", .void, .pub, true, some value, .none⟩], [], .none⟩⟩]

def parameterDefault (value : Expr) : Program :=
  soleModule [⟨⟨5⟩, .none, .func ⟨⟨6⟩, "f", .priv,
    [⟨"p", .void, .priv, false, some value, .none⟩], some .void, none,
    ⟨⟨7⟩, [], .none⟩, .none⟩⟩]

def matchPattern (pattern : Expr) : Program :=
  soleModule
    [⟨⟨5⟩, .none,
      .expr ⟨⟨6⟩, .none, .matchExpr ⟨⟨7⟩, .none, .literal (.int "1")⟩
    [⟨[pattern], ⟨⟨8⟩, .none, .block ⟨⟨9⟩, [], .none⟩⟩⟩] none⟩⟩]

def arrayLength (length : Expr) : Program :=
  soleModule [⟨⟨5⟩, .none, .defDecl ⟨"A", .priv, none, ⟨⟨6⟩, .none,
    .type (.array .void (.expr length) false)⟩⟩⟩]

/-- In each of the four places the block has no scope, and the check of the
program fails, although every node that opens a scope occurs once. -/
theorem fault_of_block_not_collected :
    ([fieldDefault, parameterDefault, matchPattern, arrayLength].map
      fun place =>
      (Check.handle
        (Session.new (place blockInside) {})).2.diagnostics.items.map
        (·.problem)) =
        [[.internalError "block has no scope"],
          [.internalError "block has no scope"],
          [.internalError "block has no scope",
            .typeMismatch "comptime_int" "void"],
            [.internalError "block has no scope"]] ∧
    ∀ place ∈ [fieldDefault, parameterDefault, matchPattern, arrayLength],
      (place blockInside).openers.Nodup ∧
        (Check.handle (Session.new (place blockInside) {})).1 = false := by
  decide +kernel

end StaticCheck
