import StaticCheck.Proofs.Folding
import StaticCheck.Proofs.Layouts
import Mathlib.Data.Nat.Digits.Defs

/-!
# What literals write

An integer literal writes the digits of a number in one of four radices, after
zeros, between separators and behind a sign; it is read as that number if the
number has less than 128 bits.  A character literal writes a character or an
escape.  It has a code point, which is what the rules use; but it is folded to
its first character, and so every escape is folded to the backslash.
-/

namespace StaticCheck

inductive Radix
  | binary
  | octal
  | decimal
  | hexadecimal
  deriving DecidableEq, Repr

namespace Radix

def base : Radix → Nat
  | binary => 2
  | octal => 8
  | decimal => 10
  | hexadecimal => 16

def mark : Radix → List Char
  | binary => ['0', 'b']
  | octal => ['0', 'o']
  | decimal => []
  | hexadecimal => ['0', 'x']

theorem one_lt_base (radix : Radix) : 1 < radix.base := by
  cases radix with
  | _ => decide

theorem base_le (radix : Radix) : radix.base ≤ 16 := by
  cases radix with
  | _ => decide

end Radix

namespace Numeral

def WritesDigit (d : Nat) (c : Char) : Prop :=
  c = d.digitChar ∨ c = d.digitChar.toUpper

instance : DecidableRel WritesDigit := fun d c =>
  inferInstanceAs (Decidable (c = d.digitChar ∨ c = d.digitChar.toUpper))

/-- The digits of the number, the most significant first, after any number of
zeros. -/
def Writes (radix : Radix) (n : Nat) (digits : List Char) : Prop :=
  digits ≠ [] ∧ ∃ zeros, List.Forall₂ WritesDigit
    (List.replicate zeros 0 ++ (Nat.digits radix.base n).reverse) digits

/-- The second text is the first one with `_` put in at any places. -/
inductive Separated : List Char → List Char → Prop
  | nil : Separated [] []
  | separator {plain text : List Char} (h : Separated plain text) :
      Separated plain ('_' :: text)
  | keep (c : Char) {plain text : List Char} (h : Separated plain text) :
      Separated (c :: plain) (c :: text)

/-- The text is a sign, if the number is `negative`, the mark of the radix and
digits that write `n`, with `_` put in at any places. -/
def Spells (radix : Radix) (negative : Bool) (n : Nat) (text : String) : Prop :=
  ∃ digits, Writes radix n digits ∧
    Separated ((if negative then ['-'] else []) ++ (radix.mark ++ digits))
    text.toList

/-!
## Digits
-/

section Digits

variable {radix d : Nat} {c : Char}

theorem digit?_of_lt (h : digit? 16 c = some d) (hd : d < radix) :
    digit? radix c = some d := by
  unfold digit? at h ⊢
  rw [Option.filter_eq_some_iff] at h ⊢
  exact ⟨h.1, decide_eq_true hd⟩

theorem digit?_of_writesDigit (h : WritesDigit d c) (hsixteen : d < 16)
    (hd : d < radix) : digit? radix c = some d := by
  have hvalue : ∀ d < 16, digit? 16 d.digitChar = some d ∧
      digit? 16 d.digitChar.toUpper = some d := by
    decide
  apply digit?_of_lt _ hd
  rcases h with rfl | rfl
  · exact (hvalue d hsixteen).1
  · exact (hvalue d hsixteen).2

theorem ne_of_writesDigit (h : WritesDigit d c) (hd : d < 16) :
    c ≠ '_' ∧ c ≠ '-' ∧ c ≠ '+' ∧ c ≠ 'x' ∧ c ≠ 'o' ∧ (d < 10 → c ≠ 'b') := by
  have hdigit : digit? 16 c = some d := digit?_of_writesDigit h hd hd
  have hne {mark : Char} (hmark : digit? 16 mark = none) : c ≠ mark := by
    rintro rfl
    rw [hmark] at hdigit
    cases hdigit
  refine ⟨hne rfl, hne rfl, hne rfl, hne rfl, hne rfl, ?_⟩
  -- In radix 16 the mark of binary numbers is a digit, but not one below ten.
  rintro hlt rfl
  have hb : digit? 16 'b' = some 11 := rfl
  rw [hb] at hdigit
  cases hdigit
  exact absurd hlt (by decide)

theorem digitsFrom?_of_forall₂ {ds : List Nat} {cs : List Char}
    (h : List.Forall₂ WritesDigit ds cs) (hds : ∀ d ∈ ds, d < 16 ∧ d < radix)
    (acc : Nat) :
    digitsFrom? radix acc cs =
      some (Nat.ofDigits radix (ds.reverse ++ [acc])) := by
  induction h generalizing acc with
  | nil => simp [digitsFrom?]
  | cons hdigit _ ih =>
    rw [List.forall_mem_cons] at hds
    rw [digitsFrom?, digit?_of_writesDigit hdigit hds.1.1 hds.1.2,
      Option.bind_some, ih hds.2]
    simp only [List.reverse_cons, List.append_assoc, Nat.ofDigits_append,
      List.cons_append, List.nil_append, Nat.ofDigits_cons, Nat.ofDigits_nil,
      Nat.mul_zero, Nat.add_zero]
    rw [Nat.add_comm (acc * radix), Nat.mul_comm acc]

end Digits

variable {radix : Radix} {n : Nat} {digits : List Char}

theorem Writes.digits_lt {zeros d : Nat}
    (hd : d ∈ List.replicate zeros 0 ++ (Nat.digits radix.base n).reverse) :
    d < radix.base := by
  have hbase := radix.one_lt_base
  rcases List.mem_append.mp hd with hzero | hdigit
  · rw [List.eq_of_mem_replicate hzero]
    omega
  · exact Nat.digits_lt_base hbase (List.mem_reverse.mp hdigit)

theorem Writes.natural?_eq (h : Writes radix n digits) :
    natural? radix.base digits = some n := by
  obtain ⟨hne, zeros, hdigits⟩ := h
  have hlt : ∀ d ∈ List.replicate zeros 0 ++ (Nat.digits radix.base n).reverse,
      d < 16 ∧ d < radix.base := fun d hd =>
    have := Writes.digits_lt hd
    ⟨this.trans_le radix.base_le, this⟩
  have hread : natural? radix.base digits =
      digitsFrom? radix.base 0 digits := by
    cases digits with
    | nil => exact absurd rfl hne
    | cons c rest => rfl
  have hzeros :
      (List.replicate zeros 0 ++ (Nat.digits radix.base n).reverse).reverse ++
      [0] =
      Nat.digits radix.base n ++ List.replicate (zeros + 1) 0 := by
    simp [List.replicate_succ']
  rw [hread, digitsFrom?_of_forall₂ hdigits hlt, hzeros,
    Nat.ofDigits_append_replicate_zero, Nat.ofDigits_digits]

theorem Writes.exists_digit (h : Writes radix n digits) {c : Char}
    (hc : c ∈ digits) : ∃ d < radix.base, WritesDigit d c := by
  obtain ⟨-, zeros, hdigits⟩ := h
  obtain ⟨d, hd, hdigit⟩ := exists_mem_of_forall₂ hdigits.flip hc
  exact ⟨d, Writes.digits_lt hd, hdigit⟩

theorem Writes.ne_of_mem (h : Writes radix n digits) {c : Char}
    (hc : c ∈ digits) : c ≠ '_' ∧ c ≠ '-' ∧ c ≠ '+' := by
  obtain ⟨d, hd, hdigit⟩ := h.exists_digit hc
  obtain ⟨hseparator, hminus, hplus, -⟩ :=
    ne_of_writesDigit hdigit (hd.trans_le radix.base_le)
  exact ⟨hseparator, hminus, hplus⟩

theorem Writes.signed?_eq (h : Writes radix n digits) :
    signed? radix.base digits = some (n : Int) := by
  have hread := h.natural?_eq
  cases digits with
  | nil => exact absurd rfl h.1
  | cons c rest =>
    obtain ⟨-, hminus, hplus⟩ := h.ne_of_mem List.mem_cons_self
    simp [signed?, unsigned?, hminus, hplus, hread]

theorem Writes.magnitude?_eq (h : Writes radix n digits) :
    magnitude? (radix.mark ++ digits) = Wide.within n := by
  have hmarked : magnitude? (radix.mark ++ digits) =
      (signed? radix.base digits).bind Wide.within := by
    cases radix with
    | binary | octal | hexadecimal => rfl
    | decimal =>
      have hsecond : ∀ c rest, digits = '0' :: c :: rest → c ≠ 'x' ∧ c ≠ 'o' ∧
          c ≠ 'b' := by
        rintro c rest rfl
        obtain ⟨d, hd, hdigit⟩ := h.exists_digit (.tail _ (.head _))
        obtain ⟨-, -, -, hx, ho, hb⟩ :=
          ne_of_writesDigit hdigit (hd.trans (by decide))
        exact ⟨hx, ho, hb hd⟩
      show magnitude? digits = _
      unfold magnitude?
      split
      · exact absurd rfl (hsecond _ _ rfl).1
      · exact absurd rfl (hsecond _ _ rfl).2.1
      · exact absurd rfl (hsecond _ _ rfl).2.2
      · rfl
  rw [hmarked, h.signed?_eq, Option.bind_some]

theorem within_natCast (n : Nat) :
    Wide.within n = if n < 2 ^ 127 then some (n : Int) else none := by
  have hrange : (Wide.least ≤ (n : Int) ∧ (n : Int) ≤ Wide.greatest) ↔
      n < 2 ^ 127 := by
    simp only [Wide.least, Wide.greatest, pow2, Nat.pow_eq]
    omega
  simp only [Wide.within, hrange]

theorem bmod_neg_of_within {n : Nat} {m : Int} (h : Wide.within n = some m) :
    (-m).bmod (pow2 128) = -m := by
  rw [within_natCast] at h
  split at h
  · cases h
    apply Int.bmod_eq_of_le
    all_goals
      simp only [pow2, Nat.pow_eq]
      omega
  · cases h

/-!
## Texts
-/

theorem Separated.filter_eq {plain text : List Char} (h : Separated plain text)
    (hplain : ∀ c ∈ plain, c ≠ '_') : text.filter (· != '_') = plain := by
  induction h with
  | nil => rfl
  | separator _ ih => exact ih hplain
  | keep c _ ih =>
    rw [List.forall_mem_cons] at hplain
    have hc : (c != '_') = true := bne_iff_ne.mpr hplain.1
    simp [hc, ih hplain.2]

theorem Separated.of_filter {plain text : List Char}
    (h : text.filter (· != '_') = plain) : Separated plain text := by
  subst h
  induction text with
  | nil => exact .nil
  | cons c rest ih =>
    by_cases hc : c = '_'
    · subst hc
      exact .separator ih
    · rw [List.filter_cons_of_pos (p := (· != '_')) (bne_iff_ne.mpr hc)]
      exact .keep c ih

theorem ne_of_mem_mark (radix : Radix) {c : Char} (hc : c ∈ radix.mark) :
    c ≠ '_' ∧ c ≠ '-' := by
  cases radix with
  | decimal => cases hc
  | _ =>
    rw [Radix.mark, List.mem_pair] at hc
    rcases hc with rfl | rfl <;> decide

theorem Writes.ne_of_mem_marked (h : Writes radix n digits) {c : Char}
    (hc : c ∈ radix.mark ++ digits) : c ≠ '_' ∧ c ≠ '-' := by
  rcases List.mem_append.mp hc with hmark | hdigit
  · exact ne_of_mem_mark radix hmark
  · exact ⟨(h.ne_of_mem hdigit).1, (h.ne_of_mem hdigit).2.1⟩

theorem literal?_of_spells {negative : Bool} {text : String}
    (h : Spells radix negative n text) :
    literal? text = (Wide.within n).map fun m =>
      if negative then -m else m := by
  obtain ⟨digits, hdigits, htext⟩ := h
  have hmarked : ∀ c ∈ radix.mark ++ digits, c ≠ '_' ∧ c ≠ '-' := fun c =>
    hdigits.ne_of_mem_marked
  rw [← hdigits.magnitude?_eq]
  unfold literal?
  cases negative with
  | true =>
    have hfilter : text.toList.filter (· != '_') =
        '-' :: (radix.mark ++ digits) :=
      htext.filter_eq
        (List.forall_mem_cons.mpr ⟨by decide, fun c hc => (hmarked c hc).1⟩)
    rw [hfilter]
    refine Option.map_congr fun m hm => ?_
    rw [hdigits.magnitude?_eq] at hm
    exact bmod_neg_of_within hm
  | false =>
    have hfilter : text.toList.filter (· != '_') = radix.mark ++ digits :=
      htext.filter_eq fun c hc => (hmarked c hc).1
    rw [hfilter]
    split
    · next hsign =>
        exact absurd rfl (hmarked '-' (hsign ▸ List.mem_cons_self)).2
    · simp

end Numeral

/-- An integer literal is read as the number its digits write, with its sign, if
the number has less than 128 bits, and not at all otherwise. -/
theorem integer_literals_decode
    {radix : Radix}
    {negative : Bool}
    {n : Nat}
    {text : String}
    (h : Numeral.Spells radix negative n text) :
    Numeral.literal? text =
      if n < 2 ^ 127 then some (if negative then -(n : Int) else n)
      else none := by
  rw [Numeral.literal?_of_spells h, Numeral.within_natCast]
  by_cases hn : n < 2 ^ 127
  · rw [if_pos hn, if_pos hn, Option.map_some]
  · rw [if_neg hn, if_neg hn, Option.map_none]

theorem integer_literals_decode_at_limits :
    (Numeral.Spells .hexadecimal true 2047 "-_0_x00_7fF_" ∧
      Numeral.literal? "-_0_x00_7fF_" = some (-2047)) ∧
    Numeral.Spells .hexadecimal false
      (2 ^ 127) "0x8000_0000_0000_0000_0000_0000_0000_0000" ∧
      Numeral.literal? "0x8000_0000_0000_0000_0000_0000_0000_0000" = none := by
  have hsmall : Numeral.Spells .hexadecimal true 2047 "-_0_x00_7fF_" := by
    refine ⟨['0', '0', '7', 'f', 'F'], ⟨by simp, 2, ?_⟩, .of_filter (by decide)⟩
    have hdigits : Nat.digits Radix.hexadecimal.base 2047 =
        [15, 15, 7] := by decide
    rw [hdigits]
    decide
  have hlarge : Numeral.Spells .hexadecimal false (2 ^ 127)
      "0x8000_0000_0000_0000_0000_0000_0000_0000" := by
    refine ⟨'8' :: List.replicate 31 '0', ⟨by simp, 0, ?_⟩,
      .of_filter (by decide)⟩
    have hdigits : Nat.digits Radix.hexadecimal.base (2 ^ 127) =
        List.replicate 31 0 ++ [8] := by
      decide
    rw [hdigits]
    decide
  exact ⟨⟨hsmall, integer_literals_decode hsmall⟩, hlarge,
    integer_literals_decode hlarge⟩

/-!
## Characters
-/

namespace CharLiteral

inductive WritesBackslash : List Char → Prop
  | itself (rest : List Char) : WritesBackslash ('\\' :: rest)
  | hex {digits : List Char} (hcode : hexCode? digits = some 92) :
      WritesBackslash ('x' :: digits)
  | braced {digits : List Char} (hcode : hexCode? digits = some 92) :
      WritesBackslash ('u' :: '\x7b' :: (digits ++ ['\x7d']))

theorem braced?_eq_some_iff {text inner : List Char} :
    braced? text = some inner ↔ text = '\x7b' :: (inner ++ ['\x7d']) := by
  cases text with
  | nil => simp [braced?]
  | cons opening rest =>
    rw [braced?, Option.ite_none_right_eq_some, List.cons.injEq, and_assoc]
    refine and_congr_right fun _ => ⟨?_, ?_⟩
    · rintro ⟨hlast, hinner⟩
      obtain ⟨front, rfl⟩ := List.getLast?_eq_some_iff.mp hlast
      rw [List.dropLast_concat, Option.some.injEq] at hinner
      rw [hinner]
    · rintro rfl
      simp

theorem escapeCode?_eq_backslash_iff {escape : List Char} :
    escapeCode? escape = some 92 ↔ WritesBackslash escape := by
  constructor
  · intro h
    unfold escapeCode? at h
    split at h
    · cases h
    · cases h
    · cases h
    · cases h
    · cases h
    · exact .hex h
    · obtain ⟨digits, hbraced, hcode⟩ := Option.bind_eq_some_iff.mp h
      obtain rfl := braced?_eq_some_iff.mp hbraced
      exact .braced hcode
    · next c rest _ _ _ _ _ _ =>
        obtain rfl : c = '\\' := Char.toNat_inj.mp (Option.some.inj h)
        exact .itself rest
  · rintro (rest | hcode | hcode)
    · rfl
    · exact hcode
    · show (braced? _).bind hexCode? = _
      rw [braced?_eq_some_iff.mpr rfl]
      exact hcode

theorem code?_of_escape {text : String} {escape : List Char}
    (h : text.toList = '\\' :: escape) : code? text = escapeCode? escape := by
  rw [code?, h]
  rfl

theorem code?_of_plain {text : String}
    (h : ∀ escape, text.toList ≠ '\\' :: escape) :
    code? text = text.toList.head?.map Char.toNat := by
  unfold code?
  split
  · next hempty => rw [hempty]; rfl
  · next escape hescape => exact absurd hescape (h escape)
  · next hfirst => rw [hfirst]; rfl

end CharLiteral

theorem Evaluator.literal_foldInt_char (id : NodeId) (span : Span)
    (text : String) : literal.foldInt ⟨id, span, .literal (.char text)⟩ =
      text.toList.head?.map fun c => (c.toNat : Int) := by
  rw [literal_foldInt]
  show (text.toList.head?.map fun c => Value.int c.toNat).bind Value.int? = _
  cases text.toList.head? with
  | _ => rfl

/-- A character literal is folded to its first character.  That is the code
point it writes, unless the first character is the backslash of an escape that
writes another one. -/
theorem characters_are_folded_without_escapes
    (id : NodeId)
    (span : Span)
    (text : String) :
    (Evaluator.literal.foldInt ⟨id, span, .literal (.char text)⟩ =
      (CharLiteral.code? text).map (fun code : Nat => (code : Int)) ↔
      ∀ escape, text.toList = '\\' :: escape →
      CharLiteral.WritesBackslash escape) ∧
    ∀ escape, text.toList = '\\' :: escape →
      Evaluator.literal.foldInt ⟨id, span, .literal (.char text)⟩ =
      some 92 := by
  have hfold := Evaluator.literal_foldInt_char id span text
  have hbackslash : ∀ escape, text.toList = '\\' :: escape →
      Evaluator.literal.foldInt ⟨id, span, .literal (.char text)⟩ =
      some 92 := by
    intro escape htext
    rw [hfold, htext]
    rfl
  refine ⟨⟨fun hagree escape htext => ?_, fun hescapes => ?_⟩, hbackslash⟩
  · rw [hbackslash escape htext, CharLiteral.code?_of_escape htext] at hagree
    obtain ⟨code, hcode, hvalue⟩ := Option.map_eq_some_iff.mp hagree.symm
    rw [← CharLiteral.escapeCode?_eq_backslash_iff, hcode,
      Int.ofNat_inj.mp hvalue]
  · by_cases hplain : ∀ escape, text.toList ≠ '\\' :: escape
    · rw [hfold, CharLiteral.code?_of_plain hplain, Option.map_map]
      rfl
    · obtain ⟨escape, htext⟩ := not_forall_not.mp hplain
      have hcode :=
        CharLiteral.escapeCode?_eq_backslash_iff.mpr (hescapes escape htext)
      rw [hbackslash escape htext, CharLiteral.code?_of_escape htext, hcode]
      rfl

/-- The escape of a line feed and one without digits are both folded to the
backslash. -/
theorem escapes_are_folded_to_the_backslash :
    ["\\n", "\\x"].map (fun text =>
      (Evaluator.literal.foldInt ⟨⟨1⟩, .none, .literal (.char text)⟩,
        CharLiteral.code? text)) =
      [(some 92, some 10), (some 92, none)] := by
  decide

end StaticCheck
