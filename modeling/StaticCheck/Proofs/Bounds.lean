import StaticCheck.Proofs.Ranges

/-!
# Known indices and lengths

An index of known value is held against the length of the array, and a length of
known value becomes a part of the array type.  Both are numbers of 64 bits
there: what is below 2^64 is compared and taken as it is, and everything else
modulo 2^64.
-/

namespace StaticCheck

open Rule

def Session.reportIf (s : Session) (refused : Prop) [Decidable refused]
    (problem : Problem) (span : Span) : Session :=
  if refused then { s with diagnostics := s.diagnostics.error problem span }
    else s

theorem Session.reportIf_congr {s : Session} {refused refused' : Prop}
    [Decidable refused] [Decidable refused'] (h : refused ↔ refused')
    (problem : Problem) (span : Span) :
    s.reportIf refused problem span = s.reportIf refused' problem span := by
  unfold reportIf
  exact if_congr h rfl rfl

/-- The parts of `base[index]`, typed one after the other: the base is an array
of fixed length or a pointer to one, and the index an integer of known value. -/
inductive IndexesArray (judge : Judge) (s : Session) (base index : Expr)
    (n : Int) (element : Ty) (length : Nat) (t : Session) : Prop
  | intro {baseTy array : Ty} {mutable : Bool} {asked based indexed : Session}
      (hbase : askType base judge s = (some baseTy, asked))
      (harray : Rule.normalize baseTy judge asked = (array, based))
      (hindex : inferExpecting index (some .usize) judge based =
        (some (.comptimeInt (some n)), indexed))
      (hrange : index.isRange = false)
      (hderef : derefOnce array judge indexed =
        (.array element (.fixed length) mutable, t))

section

variable {judge : Judge} {s t u : Session} {n : Int} {element : Ty}
    {length : Nat} {span : Span}

theorem natCast_toNat_mod (h : 0 ≤ n) :
    ((n.toNat % pow2 64 : Nat) : Int) = n % 2 ^ 64 := by
  rw [Int.natCast_emod, Int.toNat_of_nonneg h]
  rfl

theorem outside_iff :
    n < 0 ∨ length ≤ n.toNat % pow2 64 ↔ n < 0 ∨
      (length : Int) ≤ n % 2 ^ 64 := by
  by_cases hn : n < 0
  · simp [hn]
  · rw [← natCast_toNat_mod (by omega), Int.ofNat_le]

theorem checkBounds_of_known (mutable : Bool) :
    checkBounds (.array element (.fixed length) mutable) (some n) span judge s =
      ((), s.reportIf (n < 0 ∨ (length : Int) ≤ n % 2 ^ 64)
        (.indexOutOfBounds n length) span) := by
  rw [← Session.reportIf_congr outside_iff]
  unfold Session.reportIf
  change (if n < 0 ∨ length ≤ n.toNat % pow2 64 then
    report (.indexOutOfBounds n length) span else pure ()) judge s = _
  split <;> rfl

theorem inferIndex_of_array {base index : Expr}
    (h : IndexesArray judge s base index n element length t) :
    inferIndex base index judge s =
      (some element, t.reportIf (n < 0 ∨ (length : Int) ≤ n % 2 ^ 64)
        (.indexOutOfBounds n length) index.span) := by
  obtain ⟨hbase, harray, hindex, hrange, hderef⟩ := h
  -- The type of the index is in normal form already; the base is looked through
  -- after it.
  unfold inferIndex
  simp only [hrange, Bool.false_eq_true, if_false]
  refine (bind_of_run hbase).trans
    ((bind_of_run harray).trans ((bind_of_run hindex).trans ?_))
  refine (bind_of_run (normalize_of_canonical rfl)).trans
    ((bind_of_run hderef).trans ?_)
  exact bind_of_run (checkBounds_of_known _)

theorem resolveExtent_of_known {length : Expr}
    (h : constInt length judge s = (some n, t)) :
    resolveExtent (.expr length) judge s =
      (if 0 ≤ n then .fixed (n % 2 ^ 64).toNat else .expr length, t) := by
  refine (bind_of_run h).trans ?_
  by_cases hn : 0 ≤ n
  · rw [if_pos hn, ← natCast_toNat_mod hn]
    exact congrFun (congrFun (if_pos hn) judge) t
  · rw [if_neg hn]
    exact congrFun (congrFun (if_neg hn) judge) t

theorem resolveTy_array {loud : Bool} {item : Ty} {extent extent' : Extent}
    (mutable : Bool)
    (hitem : resolveTy span loud item judge s = (some element, u))
    (hextent : resolveExtent extent judge u = (extent', t)) :
    resolveTy span loud (.array item extent mutable) judge s =
      (some (.array element extent' mutable), t) := by
  rw [resolveTy, bind_of_run hitem]
  exact bind_of_run hextent

theorem exists_array_of_length {ty : Ty} (hcanonical : ty.isCanonical = true)
    (h : ty.length? = some length) :
    ∃ element mutable, ty = .array element (.fixed length) mutable := by
  cases ty with
  | array element extent mutable =>
    cases extent with
    | fixed n =>
      cases h
      exact ⟨element, mutable, rfl⟩
    | _ => cases h
  | paren inner => cases hcanonical
  | _ => cases h

end

/-- Indices and lengths of known value are numbers of 64 bits.  An index `n` of
an array of fixed length, or of a pointer to one, is out of bounds just if it is
negative or not below the length modulo 2^64, and an array type whose length
folds to `n` has this length modulo 2^64, or keeps the expression if `n` is
negative.  So nothing is lost below 2^64. -/
theorem known_indices_and_lengths_wrap
    {judge : Judge}
    {s t : Session}
    {n : Int}
    {element : Ty} :
    (∀ base index length, IndexesArray judge s base index n element length t →
      inferIndex base index judge s =
      (some element, t.reportIf (n < 0 ∨ (length : Int) ≤ n % 2 ^ 64)
        (.indexOutOfBounds n length) index.span) ∧
      (n < 2 ^ 64 → inferIndex base index judge s =
        (some element, t.reportIf (n < 0 ∨ (length : Int) ≤ n)
          (.indexOutOfBounds n length) index.span))) ∧
    ∀ span loud item length mutable u,
      resolveTy span loud item judge s = (some element, u) →
      constInt length judge u = (some n, t) →
      (0 ≤ n →
        resolveTy span loud (.array item (.expr length) mutable) judge s =
        (some (.array element (.fixed (n % 2 ^ 64).toNat) mutable), t)) ∧
      (0 ≤ n → n < 2 ^ 64 →
        resolveTy span loud (.array item (.expr length) mutable) judge s =
        (some (.array element (.fixed n.toNat) mutable), t)) ∧
      (n < 0 →
        resolveTy span loud (.array item (.expr length) mutable) judge s =
        (some (.array element (.expr length) mutable), t)) := by
  constructor
  · intro base index length h
    have hrun := inferIndex_of_array h
    refine ⟨hrun, fun hn =>
      hrun.trans (congrArg (Prod.mk _) (Session.reportIf_congr ?_ _ _))⟩
    omega
  · intro span loud item length mutable u hitem hlength
    have hrun := resolveTy_array mutable hitem (resolveExtent_of_known hlength)
    refine ⟨fun hn => ?_, fun hn hword => ?_, fun hn => ?_⟩
    · rw [hrun, if_pos hn]
    · rw [hrun, if_pos hn, Int.emod_eq_of_lt hn hword]
    · rw [hrun, if_neg (by omega)]

def threeElements : Program := soleModule [
  ⟨⟨1⟩, .none,
    .letDecl ⟨"a", .priv, false, some (.array (.int true 32) (.fixed 3) false),
      some ⟨⟨2⟩, .none, .literal .undefined⟩⟩⟩,
  ⟨⟨3⟩, .none, .letDecl ⟨"p", .priv, false,
    some (.pointer (.array (.int true 32) (.fixed 3) false) false),
    some ⟨⟨4⟩, .none, .literal .undefined⟩⟩⟩]

def inThreeElements : Session :=
  { Session.new threeElements {} with
    tree := (Session.new threeElements {}).tree.enter ⟨1⟩ }

def pointerToThree : Expr := ⟨⟨5⟩, .none, .ident "p"⟩

def pointerToThreeTy : Ty :=
  ((askType pointerToThree (Judge.limited 3) inThreeElements).1).getD .void

def beforeIndex : Ty × Session :=
  Rule.normalize pointerToThreeTy (Judge.limited 3)
    (askType pointerToThree (Judge.limited 3) inThreeElements).2

def beforeElement : Ty × Session :=
  derefOnce beforeIndex.1 (Judge.limited 3)
    (inferExpecting (numeral 6 "3") (some .usize) (Judge.limited 3)
      beforeIndex.2).2

theorem indexesArray_pointerToThree :
    ∃ element, IndexesArray (Judge.limited 3) inThreeElements pointerToThree
      (numeral 6 "3") 3 element 3 beforeElement.2 := by
  have hsome : (askType pointerToThree (Judge.limited 3) inThreeElements).1 ≠
      none := by
    decide +kernel
  have hbase : (askType pointerToThree (Judge.limited 3) inThreeElements).1 =
      some pointerToThreeTy := (Option.getD_of_ne_none hsome _).symm
  have hindex : (inferExpecting (numeral 6 "3") (some .usize) (Judge.limited 3)
      beforeIndex.2).1 = some (.comptimeInt (some 3)) := by
    decide +kernel
  have hcanonical : beforeElement.1.isCanonical = true := by decide +kernel
  have hlength : beforeElement.1.length? = some 3 := by decide +kernel
  obtain ⟨element, mutable, harray⟩ := exists_array_of_length hcanonical hlength
  exact ⟨element, .intro (Prod.ext hbase rfl) rfl (Prod.ext hindex rfl) rfl
    (Prod.ext harray rfl)⟩

/-- Behind the pointer, 3 is out of bounds; and three more than 2^64 is a length
of 3. -/
theorem known_indices_and_lengths_wrap_of_pointer :
    (∃ element : Ty, inferIndex pointerToThree (numeral 6 "3")
      (Judge.limited 3) inThreeElements = (some element, { beforeElement.2 with
        diagnostics := beforeElement.2.diagnostics.error
          (.indexOutOfBounds 3 3) .none })) ∧
    ∃ t,
    resolveTy .none false
    (.array .bool (.expr (numeral 5 "18446744073709551619")) true)
      (Judge.limited 3) inThreeElements =
      (some (.array .bool (.fixed 3) true), t) := by
  constructor
  · obtain ⟨element, hindexes⟩ := indexesArray_pointerToThree
    exact ⟨element, (known_indices_and_lengths_wrap.1 _ _ _ hindexes).1⟩
  · have hlength :
        (constInt (numeral 5 "18446744073709551619") (Judge.limited 3)
        inThreeElements).1 = some 18446744073709551619 := by decide +kernel
    have hword := (known_indices_and_lengths_wrap.2 .none false .bool
      (numeral 5 "18446744073709551619") true inThreeElements
      rfl (Prod.ext hlength rfl)).1 (by decide)
    exact ⟨_, hword⟩

/-- Of the indices 3, 2^64 and 2^64 + 3 of three elements the second is
accepted, and an array of 2^64 + 3 elements is one of three. -/
theorem wide_indices_and_lengths_are_accepted :
    ["3", "18446744073709551616", "18446744073709551619"].map (fun text =>
      (Check.infer
        ⟨⟨5⟩, .none, .index ⟨⟨6⟩, .none, .ident "a"⟩ (numeral 7 text)⟩
        inThreeElements).2.diagnostics.items.map (·.problem)) =
      [[.indexOutOfBounds 3 3], [],
        [.indexOutOfBounds 18446744073709551619 3]] ∧
    (Check.resolveType
      (.array (.int true 32) (.expr (numeral 5 "18446744073709551619")) false)
      .none inThreeElements).1.bind Ty.length? = some 3 := by
  decide +kernel

end StaticCheck
