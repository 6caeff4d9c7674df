import StaticCheck.Proofs.Charted
import StaticCheck.Proofs.Visits

/-!
# Types of mutable bindings

A mutable binding without annotation gets the type of its initializer, but
with a sized number in place of each comptime number, as other values may be
assigned later.  The numbers are replaced in the elements of arrays and in the
fields of tuples, whether the binding is typed by its declaration or on its
first use, and no later check records another type.  The numbers in the
members of a struct, under an optional and in a union stay as they are.
-/

namespace StaticCheck

namespace Ty

/-- The members of an anonymous struct, the payload of an optional and the
alternatives of a union. -/
inductive Boxes : Ty → Ty → Prop
  | member {struct : StructTy} {member : Member}
      (hanonymous : struct.isAnonymous = true)
      (hmem : member ∈ struct.members) :
      Boxes (.struct struct) member.ty
  | payload {inner : Ty} : Boxes (.optional inner) inner
  | alternative {members : List Ty} {member : Ty} (hmem : member ∈ members) :
      Boxes (.union members) member

/-- The types of the values that are stored in a value of the type, itself
included. -/
def Stores : Ty → Ty → Prop :=
  Relation.ReflTransGen fun ty part => ty.Lays part ∨ ty.Boxes part

theorem boxed_of_stores {ty : Ty} {prim : Prim}
    (hstores : ty.Stores (.prim prim))
    (hlaid : ¬Relation.ReflTransGen Lays ty (.prim prim)) :
    ∃ inner box, Relation.ReflTransGen Lays ty inner ∧ inner.Boxes box ∧
      box.Stores (.prim prim) := by
  induction hstores using Relation.ReflTransGen.head_induction_on with
  | refl => exact absurd .refl hlaid
  | head hstep hrest ih =>
    rcases hstep with hlays | hboxes
    · obtain ⟨inner, box, hway, hbox⟩ := ih fun hway => hlaid (hway.head hlays)
      exact ⟨inner, box, hway.head hlays, hbox⟩
    · exact ⟨_, _, .refl, hboxes, hrest⟩

end Ty

/-- If every node that opens a scope occurs once in the program, no statement
that opens a scope or declares a name stands where the collector does not
come, and no name is declared twice in a scope, then after any number of
passes the type of each mutable binding without annotation has no comptime
number in itself, in array elements and in tuple fields, at any depth of
these.  Comptime numbers that a value of the type stores stand in a member of
an anonymous struct, in an optional or in a union. -/
theorem mutable_bindings_take_sized_numbers
    (program : Program)
    (options : Options)
    (evaluator : Evaluator)
    (n : Nat)
    (hopeners : program.openers.Nodup)
    (hcollected : ∀ piece ∈ program.pieces, piece.isCollected = true)
    (hunique : program.collect.diagnostics.duplicates = [])
    (id : SymbolId)
    (scope : ScopeId)
    (decl : LetDecl)
    (span : Span)
    (hdeclared : program.collect.tree.symbol id =
      { Symbol.ofLet decl span with id, scope })
    (hmutable : decl.mutable = true)
    (hplain : decl.ty = none)
    (ty : Ty)
    (hty :
      ((Check.handle (program.session options evaluator n)).2.tree.symbol
        id).ty = some ty)
    (prim : Prim)
    (hprim : prim.isComptime = true) :
    ¬Relation.ReflTransGen Ty.Lays ty (.prim prim) ∧
      (ty.Stores (.prim prim) →
        ∃ inner box, Relation.ReflTransGen Ty.Lays ty inner ∧ inner.Boxes box ∧
          box.Stores (.prim prim)) := by
  have hpromises : program.Promises true true :=
    ⟨Program.distinct hopeners, fun _ => hcollected, fun _ => hunique⟩
  have hid : (program.collect.tree.symbol id).pledge? = some .sized := by
    rw [hdeclared]
    simp [Symbol.pledge?, Symbol.ofLet, hmutable, hplain]
  obtain ⟨_, hlies⟩ := Program.session_liesAt hpromises options evaluator n
  have hafter := hlies.handle hpromises (Program.session_program n)
  have hsized := (hafter.tree.pledged id .sized ⟨rfl, rfl, hid⟩).2 ty hty
  have hlaid := hsized prim hprim
  exact ⟨hlaid, fun hstores => Ty.boxed_of_stores hstores hlaid⟩

def letMutable (value : ExprKind) : Program :=
  soleModule [⟨⟨1⟩, .none,
    .letDecl ⟨"x", .priv, true, none, some ⟨⟨2⟩, .none, value⟩⟩⟩]

def letBefore (value : Expr) : Program :=
  soleModule [
    ⟨⟨1⟩, .none, .letDecl ⟨"y", .priv, false, none,
      some ⟨⟨2⟩, .none, .ident "x"⟩⟩⟩,
    ⟨⟨3⟩, .none, .letDecl ⟨"x", .priv, true, none, some value⟩⟩]

def numberAndNumbers : Expr :=
  ⟨⟨4⟩, .none, .tuple [
    ⟨⟨5⟩, .none, .literal (.int "1")⟩,
    ⟨⟨6⟩, .none, .literal (.array [⟨⟨7⟩, .none, .literal (.float "2.5")⟩])⟩]⟩

theorem mutable_bindings_take_sized_numbers_of_tuple :
    ((Check.handle ((letBefore numberAndNumbers).session {} .literal
        0)).2.tree.symbol ⟨1⟩).ty.map Ty.text = some "(i32, [1]f64)" ∧
    ∀ ty, ((Check.handle ((letBefore numberAndNumbers).session {} .literal
        0)).2.tree.symbol ⟨1⟩).ty = some ty →
      ¬Relation.ReflTransGen Ty.Lays ty (.prim .comptimeFloat) := by
  have hopeners : (letBefore numberAndNumbers).openers.Nodup := by
    decide +kernel
  have hcollected : ∀ piece ∈ (letBefore numberAndNumbers).pieces,
      piece.isCollected = true := by
    decide +kernel
  have hunique : (letBefore numberAndNumbers).collect.diagnostics.duplicates =
      [] := by
    decide +kernel
  refine ⟨by decide +kernel, fun ty hty => ?_⟩
  exact (mutable_bindings_take_sized_numbers (letBefore numberAndNumbers)
    {} .literal 0 hopeners hcollected hunique ⟨1⟩ ⟨1⟩
    ⟨"x", .priv, true, none, some numberAndNumbers⟩ .none rfl rfl rfl ty hty
    .comptimeFloat rfl).1

/-- The struct keeps the number that its member was given first. -/
theorem comptime_members_are_kept :
    let s := (letMutable (.object none
      [⟨"a", ⟨⟨3⟩, .none, .literal (.int "1")⟩, .none⟩])).session {} .literal 0
    (Check.handle s).1 = true ∧
      ((Check.handle s).2.tree.symbol ⟨0⟩).ty.map Ty.text =
        some "struct \x7b a: comptime_int \x7d" := by
  decide +kernel

end StaticCheck
