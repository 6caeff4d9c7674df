import StaticCheck.Types.Layout
import Mathlib.Algebra.Group.Nat.Defs
import Mathlib.Data.List.Forall2
import Mathlib.Logic.Relation

/-!
# Sizes and alignments

Every layout is aligned to a power of two up to 16, and its size is a multiple
of the alignment, so that the elements of an array and the parts of a whole stay
aligned.  The alignment of a whole is the greatest one of its parts, and each
part costs less than that in padding, as long as the bytes of the whole can be
counted with 64 bits.  A type has no layout only because of something it holds
by value: a type without a size, or an array of too many bytes.
-/

namespace StaticCheck

namespace Layout

/-!
## Rounding
-/

section Rounding

variable {n a : Nat}

theorem le_alignTo (ha : 0 < a) : n ≤ alignTo n a := by
  have hdiv := Nat.div_add_mod' (n + a - 1) a
  have hmod := Nat.mod_lt (n + a - 1) ha
  rw [alignTo, if_neg (by omega)]
  omega

theorem alignTo_le : alignTo n a ≤ n + (a - 1) := by
  unfold alignTo
  split
  · omega
  · have hdiv := Nat.div_mul_le_self (n + a - 1) a
    omega

theorem dvd_alignTo (ha : 0 < a) : a ∣ alignTo n a := by
  rw [alignTo, if_neg (by omega)]
  exact Nat.dvd_mul_left a _

theorem alignTo_zero : alignTo 0 a = 0 := by
  unfold alignTo
  split
  · rfl
  · rw [Nat.div_eq_of_lt (by omega), Nat.zero_mul]

end Rounding

def IsAlignment (a : Nat) : Prop := ∃ k ≤ 4, a = 2 ^ k

namespace IsAlignment

variable {a b : Nat}

theorem one : IsAlignment 1 := ⟨0, by omega, rfl⟩

theorem pos (h : IsAlignment a) : 0 < a := by
  obtain ⟨k, -, rfl⟩ := h
  exact Nat.two_pow_pos k

theorem le (h : IsAlignment a) : a ≤ 16 := by
  obtain ⟨k, hk, rfl⟩ := h
  exact Nat.pow_le_pow_right (by decide) hk

theorem max (ha : IsAlignment a) (hb : IsAlignment b) :
    IsAlignment (max a b) := by
  rcases Nat.le_total a b with hle | hle
  · rwa [Nat.max_eq_right hle]
  · rwa [Nat.max_eq_left hle]

theorem max_one (h : IsAlignment a) : Max.max a 1 = a := Nat.max_eq_left h.pos

theorem dvd_sizeLimit (h : IsAlignment a) : a ∣ sizeLimit := by
  obtain ⟨k, hk, rfl⟩ := h
  exact Nat.pow_dvd_pow 2 (by omega : k ≤ 64)

end IsAlignment

structure Sound (l : Layout) : Prop where
  alignment : IsAlignment l.align
  dvd : l.align ∣ l.size

section Parts

variable {l : Layout}

theorem sound_rounded (h : IsAlignment l.align) : l.rounded.Sound := by
  exact ⟨h, (Nat.dvd_mod_iff h.dvd_sizeLimit).mpr (dvd_alignTo h.pos)⟩

theorem wrapped_of_lt (h : l.size < sizeLimit) : l.wrapped = l := by
  rw [wrapped, Nat.mod_eq_of_lt h]

theorem le_size_padded (h : IsAlignment l.align) : l.size ≤ l.padded.size :=
  le_alignTo h.pos

theorem rounded_of_lt (hroom : l.padded.size < sizeLimit) :
    l.rounded = l.padded :=
  wrapped_of_lt hroom

theorem rounded_wrapped (h : IsAlignment l.align)
    (hroom : l.padded.size < sizeLimit) : l.wrapped.rounded = l.padded := by
  have hsize : l.size < sizeLimit := Nat.lt_of_le_of_lt (le_size_padded h) hroom
  rw [wrapped_of_lt hsize, rounded_of_lt hroom]

theorem size_lt_tagged (h : IsAlignment l.align)
    (hroom : l.marked.padded.size < sizeLimit) : l.size < l.tagged.size := by
  have hmarked : l.marked.size ≤ l.marked.padded.size := le_size_padded h
  rw [tagged, rounded_wrapped (l := l.marked) h hroom]
  exact Nat.lt_of_succ_le hmarked

theorem exists_powerOfTwoAbove (n : Nat) : ∃ k, powerOfTwoAbove n = 2 ^ k := by
  unfold powerOfTwoAbove
  split
  · exact ⟨0, rfl⟩
  · exact ⟨_, rfl⟩

theorem sound_number (bits : Nat) : (number bits).Sound := by
  obtain ⟨k, hk⟩ := exists_powerOfTwoAbove ((bits + 7) / 8)
  have hnumber : number bits = ⟨2 ^ k, min (2 ^ k) (2 ^ 4)⟩ := by
    unfold number
    rw [hk]
    rfl
  rw [hnumber]
  rcases Nat.le_total k 4 with hle | hle
  · rw [Nat.min_eq_left (Nat.pow_le_pow_right (by decide) hle)]
    exact ⟨⟨k, hle, rfl⟩, Nat.dvd_refl _⟩
  · rw [Nat.min_eq_right (Nat.pow_le_pow_right (by decide) hle)]
    exact ⟨⟨4, Nat.le_refl 4, rfl⟩, Nat.pow_dvd_pow 2 hle⟩

theorem array_eq_some_iff {length : Nat} {whole : Layout} :
    l.array length = some whole ↔
      l.size * length < sizeLimit ∧ whole = ⟨l.size * length, l.align⟩ := by
  unfold array
  split
  · next hlt => simp [hlt, eq_comm]
  · next hlt => simp [hlt]

theorem array_eq_none_iff {length : Nat} :
    l.array length = none ↔ sizeLimit ≤ l.size * length := by
  unfold array
  split
  · next hlt => simp [hlt]
  · next hlt => simp [Nat.le_of_not_lt hlt]

theorem isAlignment_tagSize (variants : Nat) :
    IsAlignment (tagSize variants) := by
  unfold tagSize
  split
  · exact .one
  · split
    · exact ⟨1, by omega, rfl⟩
    · exact ⟨2, by omega, rfl⟩

theorem sound_enum (variants : Nat) (h : IsAlignment l.align) :
    (enum variants l).Sound := by
  have htag := isAlignment_tagSize variants
  unfold enum
  split
  · exact ⟨htag, Nat.dvd_refl _⟩
  · exact sound_rounded (l := (numbered variants l).wrapped) (h.max htag)

theorem le_size_enum (variants : Nat) (h : IsAlignment l.align)
    (hroom : (numbered variants l).padded.size < sizeLimit) :
    tagSize variants + l.size ≤ (enum variants l).size := by
  have hnumbered : IsAlignment (numbered variants l).align :=
    h.max (isAlignment_tagSize variants)
  unfold enum
  split
  · next hempty => exact Nat.le_of_eq (by rw [hempty, Nat.add_zero])
  · rw [rounded_wrapped hnumbered hroom]
    calc tagSize variants + l.size
        ≤ (numbered variants l).size :=
          Nat.add_le_add_right (le_alignTo h.pos) l.size
      _ ≤ (numbered variants l).padded.size := le_size_padded hnumbered

end Parts

/-!
## Parts side by side and parts in one place
-/

def totalSize : List Layout → Nat
  | [] => 0
  | part :: rest => part.size + totalSize rest

section Wholes

variable {parts : List Layout} {l : Layout}

theorem isAlignment_foldl {join : Layout → Layout → Layout}
    (hjoin : ∀ l part, IsAlignment l.align → part.Sound →
      IsAlignment (join l part).align)
    (h : IsAlignment l.align) (hparts : ∀ part ∈ parts, part.Sound) :
    IsAlignment (parts.foldl join l).align := by
  induction parts generalizing l with
  | nil => exact h
  | cons part rest ih =>
    rw [List.forall_mem_cons] at hparts
    exact ih (hjoin l part h hparts.1) hparts.2

theorem isAlignment_follow (l part : Layout) (h : IsAlignment l.align)
    (hpart : part.Sound) : IsAlignment (l.follow part).align := by
  exact h.max (hpart.alignment.max .one)

theorem isAlignment_append (l part : Layout) (h : IsAlignment l.align)
    (hpart : part.Sound) : IsAlignment (l.append part).align := by
  exact isAlignment_follow l part h hpart

theorem isAlignment_overlay (l part : Layout) (h : IsAlignment l.align)
    (hpart : part.Sound) : IsAlignment (l.overlay part).align :=
  h.max hpart.alignment

theorem align_le_foldl_follow (parts : List Layout) (l : Layout) :
    l.align ≤ (parts.foldl follow l).align := by
  induction parts generalizing l with
  | nil => exact Nat.le_refl _
  | cons part rest ih =>
    have hpart : l.align ≤ (l.follow part).align := Nat.le_max_left _ _
    exact Nat.le_trans hpart (ih _)

theorem le_size_foldl_follow (parts : List Layout) (l : Layout) :
    l.size + totalSize parts ≤ (parts.foldl follow l).size := by
  induction parts generalizing l with
  | nil => exact Nat.le_refl _
  | cons part rest ih =>
    have hrest := ih (l.follow part)
    have hpart : l.size + part.size ≤ (l.follow part).size :=
      Nat.add_le_add_right (le_alignTo (by omega)) part.size
    rw [totalSize, List.foldl_cons]
    omega

theorem size_foldl_follow_le (parts : List Layout) (l : Layout) :
    (parts.foldl follow l).size ≤
      l.size + totalSize parts + parts.length *
      ((parts.foldl follow l).align - 1) := by
  induction parts generalizing l with
  | nil => simp
  | cons part rest ih =>
    have hrest := ih (l.follow part)
    have halign := align_le_foldl_follow rest (l.follow part)
    have hpadding : (l.follow part).size ≤ l.size + (max part.align 1 - 1) +
        part.size :=
      Nat.add_le_add_right alignTo_le part.size
    have hpart : max part.align 1 ≤ (l.follow part).align :=
      Nat.le_max_right _ _
    rw [totalSize, List.length_cons, Nat.succ_mul, List.foldl_cons]
    omega

theorem foldl_append_of_lt (h : (parts.foldl follow l).size < sizeLimit) :
    parts.foldl append l = parts.foldl follow l := by
  induction parts generalizing l with
  | nil => rfl
  | cons part rest ih =>
    have hgrows := le_size_foldl_follow rest (l.follow part)
    have hpart : l.append part = l.follow part := by
      apply wrapped_of_lt
      rw [List.foldl_cons] at h
      omega
    rw [List.foldl_cons, List.foldl_cons, hpart]
    exact ih h

/-- The whole is as large as its parts and has, for each of them, less padding
than its alignment.
-/
def Encloses (whole : Layout) (parts : List Layout) : Prop :=
  totalSize parts ≤ whole.size ∧
    whole.size ≤ totalSize parts + parts.length * (whole.align - 1)

/-- Parts one after the other, as their sizes add up without a bound. -/
def record (parts : List Layout) : Layout := (parts.foldl follow ⟨0, 1⟩).padded

theorem isAlignment_record (hparts : ∀ part ∈ parts, part.Sound) :
    IsAlignment (record parts).align := by
  exact isAlignment_foldl isAlignment_follow .one hparts

theorem rounded_append_of_lt (hparts : ∀ part ∈ parts, part.Sound)
    (hroom : (record parts).size < sizeLimit) :
    (parts.foldl append ⟨0, 1⟩).rounded = record parts := by
  have hsize : (parts.foldl follow ⟨0, 1⟩).size ≤ (record parts).size :=
    le_size_padded (isAlignment_record hparts)
  rw [foldl_append_of_lt (Nat.lt_of_le_of_lt hsize hroom),
    rounded_of_lt hroom, record]

theorem encloses_record (hparts : ∀ part ∈ parts, part.Sound) :
    (record parts).Encloses parts := by
  constructor
  · have hsize := le_size_foldl_follow parts ⟨0, 1⟩
    rw [Nat.zero_add] at hsize
    exact Nat.le_trans hsize (le_size_padded (isAlignment_record hparts))
  · cases parts with
    | nil => exact Nat.le_refl _
    | cons first rest =>
      -- There is no padding before the first part, but there may be some behind
      -- the last.
      have hfirst : (follow ⟨0, 1⟩ first).size = first.size :=
        (congrArg (· + first.size) alignTo_zero).trans (Nat.zero_add _)
      have hrest := size_foldl_follow_le rest (follow ⟨0, 1⟩ first)
      rw [hfirst] at hrest
      rw [totalSize, List.length_cons, Nat.succ_mul, record, List.foldl_cons]
      generalize rest.foldl follow (follow ⟨0, 1⟩ first) = whole at hrest ⊢
      have hround : whole.padded.size ≤ whole.size + (whole.align - 1) :=
        alignTo_le
      have hsame : whole.padded.align = whole.align := rfl
      rw [hsame]
      omega

theorem le_size_foldl_overlay (parts : List Layout) (l : Layout) :
    l.size ≤ (parts.foldl overlay l).size := by
  induction parts generalizing l with
  | nil => exact Nat.le_refl _
  | cons part rest ih =>
    have hpart : l.size ≤ (l.overlay part).size := Nat.le_max_left _ _
    exact Nat.le_trans hpart (ih _)

theorem size_le_foldl_overlay {part : Layout} (h : part ∈ parts) :
    part.size ≤ (parts.foldl overlay l).size := by
  induction parts generalizing l with
  | nil => cases h
  | cons first rest ih =>
    rcases List.mem_cons.mp h with rfl | h
    · have hpart : part.size ≤ (l.overlay part).size := Nat.le_max_right _ _
      exact Nat.le_trans hpart (le_size_foldl_overlay rest _)
    · exact ih h

end Wholes

end Layout

/-!
## Layouts of lists of types
-/

def Ty.LaidOut (tys : List Ty) (parts : List Layout) : Prop :=
  List.Forall₂ (fun ty part => ty.layout? = some part) tys parts

/-- The layouts of types are joined to a first one, one after the other. -/
structure Layout.Joins (join : Layout → Layout → Layout)
    (joined : Layout → List Ty → Option Layout) : Prop where
  nil : ∀ l, joined l [] = some l
  cons : ∀ l ty rest, joined l (ty :: rest) = ty.layout?.bind fun part =>
    joined (join l part) rest

namespace Layout.Joins

variable {join : Layout → Layout → Layout}
    {joined : Layout → List Ty → Option Layout}
  {l whole : Layout} {tys : List Ty}

theorem eq_some_iff (h : Joins join joined) :
    joined l tys = some whole ↔ ∃ parts, Ty.LaidOut tys parts ∧
      whole = parts.foldl join l := by
  induction tys generalizing l with
  | nil => simp [h.nil, Ty.LaidOut, eq_comm]
  | cons ty rest ih =>
    rw [h.cons, Option.bind_eq_some_iff]
    simp only [ih, Ty.LaidOut, List.forall₂_cons_left_iff]
    constructor
    · rintro ⟨part, hpart, parts, hparts, rfl⟩
      exact ⟨_, ⟨part, parts, hpart, hparts, rfl⟩, rfl⟩
    · rintro ⟨_, ⟨part, parts, hpart, hparts, rfl⟩, rfl⟩
      exact ⟨part, hpart, parts, hparts, rfl⟩

theorem exists_of_map (h : Joins join joined) {finish : Layout → Layout}
    (hmap : (joined l tys).map finish = some whole) :
    ∃ parts, Ty.LaidOut tys parts ∧ whole = finish (parts.foldl join l) := by
  obtain ⟨result, hresult, rfl⟩ := Option.map_eq_some_iff.mp hmap
  obtain ⟨parts, hparts, rfl⟩ := h.eq_some_iff.mp hresult
  exact ⟨parts, hparts, rfl⟩

theorem eq_none_iff (h : Joins join joined) :
    joined l tys = none ↔ ∃ ty ∈ tys, ty.layout? = none := by
  induction tys generalizing l with
  | nil => simp [h.nil]
  | cons ty rest ih =>
    rw [h.cons]
    cases hty : ty.layout? with
    | none => simp [hty]
    | some part => simp [ih, hty]

end Layout.Joins

theorem Ty.joins_layoutRecord :
    Layout.Joins Layout.append Ty.layoutRecord? where
  nil _ := rfl
  cons _ _ _ := rfl

theorem Ty.joins_layoutUnion : Layout.Joins Layout.overlay Ty.layoutUnion? where
  nil _ := rfl
  cons _ _ _ := rfl

theorem Member.layoutRecord?_eq (l : Layout) (members : List Member) :
    Member.layoutRecord? l members = Ty.layoutRecord? l
      (members.map Member.ty) := by
  induction members generalizing l with
  | nil => rfl
  | cons member rest ih =>
    obtain ⟨name, ty⟩ := member
    rw [List.map_cons, Ty.layoutRecord?, Member.layoutRecord?]
    simp only [ih]

theorem Variant.layoutPayload?_eq (l : Layout) (variants : List Variant) :
    Variant.layoutPayload? l variants = Ty.layoutUnion? l
      (variants.filterMap Variant.payload) := by
  induction variants generalizing l with
  | nil => rfl
  | cons variant rest ih =>
    obtain ⟨name, payload⟩ := variant
    cases payload with
    | none => exact ih l
    | some ty =>
      have hcons :
          (⟨name, some ty⟩ :: rest : List Variant).filterMap Variant.payload =
          ty :: rest.filterMap Variant.payload := List.filterMap_cons_some rfl
      rw [hcons, Variant.layoutPayload?, Ty.layoutUnion?]
      simp only [ih]

theorem Ty.layout?_struct (struct : StructTy) :
    (Ty.struct struct).layout? =
      (Ty.layoutRecord? ⟨0, 1⟩ (struct.members.map Member.ty)).map
      Layout.rounded := by
  obtain ⟨name, members, scope⟩ := struct
  rw [Ty.layout?, Member.layoutRecord?_eq]

theorem Ty.layout?_enum (enum : EnumTy) :
    (Ty.enum enum).layout? =
      (Ty.layoutUnion? ⟨0, 1⟩ (enum.variants.filterMap Variant.payload)).map
      fun payload =>
        Layout.enum enum.variants.length payload := by
  obtain ⟨name, variants, scope⟩ := enum
  rw [Ty.layout?, Variant.layoutPayload?_eq]

/-!
## What a type holds by value
-/

/-- A type whose layout is a part of the layout of the first. -/
inductive Ty.Embeds : Ty → Ty → Prop
  | paren {inner : Ty} : Embeds (.paren inner) inner
  | optional {inner : Ty} (hpointer : inner.isPointer = false) :
      Embeds (.optional inner) inner
  | element {element : Ty} {length : Nat} {mutable : Bool} :
      Embeds (.array element (.fixed length) mutable) element
  | field {fields : List Ty} {ty : Ty} (hmem : ty ∈ fields) :
      Embeds (.tuple fields) ty
  | member {struct : StructTy} {member : Member}
      (hmem : member ∈ struct.members) : Embeds (.struct struct) member.ty
  | payload {enum : EnumTy} {variant : Variant} {ty : Ty}
      (hmem : variant ∈ enum.variants)
      (hpayload : variant.payload = some ty) : Embeds (.enum enum) ty
  | alternative {members : List Ty} {ty : Ty} (hmem : ty ∈ members) :
      Embeds (.union members) ty

/-- A type that has no size of its own: a name that is not resolved, a comptime
number, `any` and `type`. -/
inductive Ty.Unsized : Ty → Prop
  | named (name : String) : Unsized (.named name)
  | comptimeInt (value : Option Int) : Unsized (.comptimeInt value)
  | comptimeFloat : Unsized .comptimeFloat
  | any : Unsized .any
  | type : Unsized .type

/-- An array with more bytes than 64 bits can count. -/
inductive Ty.Oversized : Ty → Prop
  | intro {element : Ty} {length : Nat} (mutable : Bool) {part : Layout}
      (helement : element.layout? = some part)
      (hsize : 2 ^ 64 ≤ length * part.size) :
      Oversized (.array element (.fixed length) mutable)

theorem Ty.Embeds.of_mem_members {struct : StructTy} {ty : Ty}
    (h : ty ∈ struct.members.map Member.ty) : (Ty.struct struct).Embeds ty := by
  obtain ⟨member, hmember, rfl⟩ := List.mem_map.mp h
  exact .member hmember

theorem Ty.Embeds.of_mem_payloads {enum : EnumTy} {ty : Ty}
    (h : ty ∈ enum.variants.filterMap Variant.payload) :
    (Ty.enum enum).Embeds ty := by
  obtain ⟨variant, hvariant, hpayload⟩ := List.mem_filterMap.mp h
  exact .payload hvariant hpayload

theorem Ty.Embeds.sizeOf_lt {ty part : Ty} (h : ty.Embeds part) :
    sizeOf part < sizeOf ty := by
  cases h with
  | paren | optional _ => simp
  | element =>
    simp
    omega
  | field hmem | alternative hmem =>
    have hlt := List.sizeOf_lt_of_mem hmem
    simp
    omega
  | @member struct member hmem =>
    obtain ⟨_, members, _⟩ := struct
    obtain ⟨_, ty⟩ := member
    have hlt := List.sizeOf_lt_of_mem hmem
    simp at hlt ⊢
    omega
  | @payload enum variant ty hmem hpayload =>
    obtain ⟨_, variants, _⟩ := enum
    obtain ⟨_, payload⟩ := variant
    obtain rfl : payload = some part := hpayload
    have hlt := List.sizeOf_lt_of_mem hmem
    simp at hlt ⊢
    omega

theorem Ty.Embeds.induction {P : Ty → Prop}
    (step : ∀ ty : Ty, (∀ part, ty.Embeds part → P part) → P ty) (ty : Ty) :
    P ty := by
  exact step ty fun part hpart =>
    have := hpart.sizeOf_lt
    Ty.Embeds.induction step part
termination_by sizeOf ty

theorem Ty.unsized_prim_iff {prim : Prim} :
    (Ty.prim prim).Unsized ↔ prim.layout? = none := by
  cases prim with
  | comptimeInt value => simp [Prim.layout?, Ty.Unsized.comptimeInt]
  | comptimeFloat => simp [Prim.layout?, Ty.Unsized.comptimeFloat]
  | any => simp [Prim.layout?, Ty.Unsized.any]
  | type => simp [Prim.layout?, Ty.Unsized.type]
  | _ =>
    constructor
    · intro h
      cases h
    · intro h
      cases h

theorem Ty.layout?_of_embeds {ty part : Ty} (hpart : ty.Embeds part)
    (h : part.layout? = none) : ty.layout? = none := by
  cases hpart with
  | paren => exact h
  | optional hpointer => simp [layout?, hpointer, h]
  | element => simp [layout?, h]
  | field hmem =>
    rw [layout?, Option.map_eq_none_iff, joins_layoutRecord.eq_none_iff]
    exact ⟨part, hmem, h⟩
  | member hmem =>
    rw [layout?_struct, Option.map_eq_none_iff, joins_layoutRecord.eq_none_iff]
    exact ⟨_, List.mem_map_of_mem hmem, h⟩
  | payload hmem hpayload =>
    rw [layout?_enum, Option.map_eq_none_iff, joins_layoutUnion.eq_none_iff]
    exact ⟨part, List.mem_filterMap.mpr ⟨_, hmem, hpayload⟩, h⟩
  | alternative hmem =>
    rw [layout?, Option.map_eq_none_iff, joins_layoutUnion.eq_none_iff]
    exact ⟨part, hmem, h⟩

theorem Ty.embeds_of_layout? {ty : Ty} (h : ty.layout? = none) :
    (ty.Unsized ∨ ty.Oversized) ∨ ∃ part, ty.Embeds part ∧
      part.layout? = none := by
  cases ty with
  | prim prim => exact .inl (.inl (unsized_prim_iff.mpr h))
  | named name => exact .inl (.inl (.named name))
  | paren inner => exact .inr ⟨inner, .paren, h⟩
  | pointer _ _ | function _ _ _ | errors _ => cases h
  | optional inner =>
    rw [layout?] at h
    cases hpointer : inner.isPointer with
    | true => simp [hpointer] at h
    | false =>
      rw [hpointer, if_neg Bool.false_ne_true, Option.map_eq_none_iff] at h
      exact .inr ⟨inner, .optional hpointer, h⟩
  | array element extent mutable =>
    cases extent with
    | fixed length =>
      rw [layout?] at h
      cases hpart : element.layout? with
      | none => exact .inr ⟨element, .element, hpart⟩
      | some part =>
        rw [hpart, Option.bind_some, Layout.array_eq_none_iff,
          Nat.mul_comm] at h
        exact .inl (.inr (.intro mutable hpart h))
    | slice | expr _ => cases h
  | tuple fields =>
    rw [layout?, Option.map_eq_none_iff, joins_layoutRecord.eq_none_iff] at h
    obtain ⟨part, hmem, hpart⟩ := h
    exact .inr ⟨part, .field hmem, hpart⟩
  | struct struct =>
    rw [layout?_struct, Option.map_eq_none_iff,
      joins_layoutRecord.eq_none_iff] at h
    obtain ⟨part, hmem, hpart⟩ := h
    exact .inr ⟨part, .of_mem_members hmem, hpart⟩
  | enum enum =>
    rw [layout?_enum, Option.map_eq_none_iff,
      joins_layoutUnion.eq_none_iff] at h
    obtain ⟨part, hmem, hpart⟩ := h
    exact .inr ⟨part, .of_mem_payloads hmem, hpart⟩
  | union members =>
    rw [layout?, Option.map_eq_none_iff, joins_layoutUnion.eq_none_iff] at h
    obtain ⟨part, hmem, hpart⟩ := h
    exact .inr ⟨part, .alternative hmem, hpart⟩

/-- A type without a layout holds the reason by value, however deep. -/
theorem Ty.layout?_eq_none_iff (ty : Ty) :
    ty.layout? = none ↔
      ∃ part, Relation.ReflTransGen Ty.Embeds ty part ∧
      (part.Unsized ∨ part.Oversized) := by
  constructor
  · induction ty using Ty.Embeds.induction with
    | step ty ih =>
      intro h
      rcases embeds_of_layout? h with hreason | ⟨part, hpart, hnone⟩
      · exact ⟨ty, .refl, hreason⟩
      · obtain ⟨inner, hway, hreason⟩ := ih part hpart hnone
        exact ⟨inner, .head hpart hway, hreason⟩
  · rintro ⟨part, hway, hreason⟩
    induction hway using Relation.ReflTransGen.head_induction_on with
    | refl =>
      rcases hreason with hunsized | hoversized
      · cases hunsized <;> rfl
      · cases hoversized with
        | intro mutable helement hsize =>
          rw [layout?, helement, Option.bind_some, Layout.array_eq_none_iff,
            Nat.mul_comm]
          exact hsize
    | head hpart _ ih => exact layout?_of_embeds hpart ih

/-!
## Layouts that exist
-/

theorem Prim.sound_of_layout? {prim : Prim} {l : Layout}
    (h : prim.layout? = some l) : l.Sound := by
  cases prim with
  | int _ bits | float bits =>
    cases h
    exact Layout.sound_number bits
  | bool =>
    cases h
    exact ⟨.one, Nat.dvd_refl 1⟩
  | err =>
    cases h
    exact ⟨⟨1, by omega, rfl⟩, Nat.dvd_refl 2⟩
  | void | noreturn | null | undefined =>
    cases h
    exact ⟨.one, Nat.dvd_zero 1⟩
  | comptimeInt _ | comptimeFloat | any | type => cases h

section Existing

variable {tys : List Ty} {parts : List Layout} {l : Layout}

theorem exists_mem_of_forall₂ {α β : Type} {R : α → β → Prop} {as : List α}
    {bs : List β} (h : List.Forall₂ R as bs) {a : α} (ha : a ∈ as) :
    ∃ b ∈ bs, R a b := by
  induction h with
  | nil => cases ha
  | cons hfirst _ ih =>
    rcases List.mem_cons.mp ha with rfl | ha
    · exact ⟨_, List.mem_cons_self, hfirst⟩
    · obtain ⟨b, hmem, hb⟩ := ih ha
      exact ⟨b, List.mem_cons_of_mem _ hmem, hb⟩

theorem Ty.LaidOut.unique {others : List Layout} (h : Ty.LaidOut tys parts)
    (h' : Ty.LaidOut tys others) : parts = others := by
  induction h generalizing others with
  | nil =>
    cases h'
    rfl
  | cons hfirst _ ih =>
    cases h' with
    | cons hother hrest =>
      obtain rfl := Option.some.inj (hfirst.symm.trans hother)
      rw [ih hrest]

theorem Ty.LaidOut.sound (h : Ty.LaidOut tys parts)
    (hsound : ∀ ty ∈ tys, ∀ l, ty.layout? = some l → l.Sound) :
    ∀ part ∈ parts, part.Sound := by
  intro part hpart
  obtain ⟨ty, hmem, hty⟩ := exists_mem_of_forall₂ h.flip hpart
  exact hsound ty hmem part hty

theorem Ty.sound_of_layout? (ty : Ty) : ∀ l, ty.layout? = some l → l.Sound := by
  induction ty using Ty.Embeds.induction with
  | step ty ih =>
    intro l h
    cases ty with
    | prim prim => exact Prim.sound_of_layout? h
    | named name => cases h
    | paren inner => exact ih inner .paren l h
    | pointer _ _ | function _ _ _ =>
      cases h
      exact ⟨⟨3, by omega, rfl⟩, Nat.dvd_refl 8⟩
    | errors _ =>
      cases h
      exact ⟨⟨1, by omega, rfl⟩, Nat.dvd_refl 2⟩
    | optional inner =>
      rw [layout?] at h
      cases hpointer : inner.isPointer with
      | true =>
        rw [hpointer] at h
        cases h
        exact ⟨⟨3, by omega, rfl⟩, Nat.dvd_refl 8⟩
      | false =>
        rw [hpointer, if_neg Bool.false_ne_true] at h
        obtain ⟨part, hpart, rfl⟩ := Option.map_eq_some_iff.mp h
        have halign := (ih inner (.optional hpointer) part hpart).alignment
        exact Layout.sound_rounded (l := (Layout.marked _).wrapped)
          (halign.max .one)
    | array element extent mutable =>
      cases extent with
      | fixed length =>
        obtain ⟨part, hpart, harray⟩ := Option.bind_eq_some_iff.mp h
        obtain ⟨-, rfl⟩ := Layout.array_eq_some_iff.mp harray
        have hsound := ih element .element part hpart
        exact ⟨hsound.alignment, Nat.dvd_mul_right_of_dvd hsound.dvd length⟩
      | slice | expr _ =>
        cases h
        exact ⟨⟨3, by omega, rfl⟩, ⟨2, rfl⟩⟩
    | tuple fields =>
      obtain ⟨parts, hparts, rfl⟩ := joins_layoutRecord.exists_of_map h
      have hsound := hparts.sound fun ty hmem => ih ty (.field hmem)
      exact Layout.sound_rounded
        (Layout.isAlignment_foldl Layout.isAlignment_append .one hsound)
    | struct struct =>
      rw [layout?_struct] at h
      obtain ⟨parts, hparts, rfl⟩ := joins_layoutRecord.exists_of_map h
      have hsound := hparts.sound fun ty hmem => ih ty (.of_mem_members hmem)
      exact Layout.sound_rounded
        (Layout.isAlignment_foldl Layout.isAlignment_append .one hsound)
    | enum enum =>
      rw [layout?_enum] at h
      obtain ⟨parts, hparts, rfl⟩ := joins_layoutUnion.exists_of_map h
      have hsound := hparts.sound fun ty hmem => ih ty (.of_mem_payloads hmem)
      exact Layout.sound_enum _
        (Layout.isAlignment_foldl Layout.isAlignment_overlay .one hsound)
    | union members =>
      obtain ⟨parts, hparts, rfl⟩ := joins_layoutUnion.exists_of_map h
      have hsound := hparts.sound fun ty hmem => ih ty (.alternative hmem)
      exact Layout.sound_rounded (l := (Layout.marked _).wrapped)
        (Layout.isAlignment_foldl Layout.isAlignment_overlay .one hsound)

theorem Ty.encloses_of_record
    (h : (Ty.layoutRecord? ⟨0, 1⟩ tys).map Layout.rounded = some l) :
    ∃ parts, Ty.LaidOut tys parts ∧
      ((Layout.record parts).size < 2 ^ 64 → l.Encloses parts) := by
  obtain ⟨parts, hparts, rfl⟩ := joins_layoutRecord.exists_of_map h
  have hsound := hparts.sound fun ty _ => ty.sound_of_layout?
  refine ⟨parts, hparts, fun hroom => ?_⟩
  rw [Layout.rounded_append_of_lt hsound hroom]
  exact Layout.encloses_record hsound

theorem Ty.size_lt_union (h : (Ty.union tys).layout? = some l) :
    ∃ parts, Ty.LaidOut tys parts ∧
      ((parts.foldl Layout.overlay ⟨0, 1⟩).marked.padded.size < 2 ^ 64 →
        ∀ part ∈ parts, part.size < l.size) := by
  obtain ⟨parts, hparts, rfl⟩ := joins_layoutUnion.exists_of_map h
  have hsound := hparts.sound fun ty _ => ty.sound_of_layout?
  refine ⟨parts, hparts, fun hroom part hpart => ?_⟩
  have halign := Layout.isAlignment_foldl Layout.isAlignment_overlay
    (l := ⟨0, 1⟩) .one hsound
  calc part.size
      ≤ (parts.foldl Layout.overlay ⟨0, 1⟩).size :=
        Layout.size_le_foldl_overlay hpart
    _ < _ := Layout.size_lt_tagged halign hroom

theorem Ty.size_lt_optional {inner : Ty} (hpointer : inner.isPointer = false)
    (h : (Ty.optional inner).layout? = some l) :
    ∃ part, inner.layout? = some part ∧
      (part.marked.padded.size < 2 ^ 64 → part.size < l.size) := by
  rw [layout?, hpointer, if_neg Bool.false_ne_true] at h
  obtain ⟨part, hpart, rfl⟩ := Option.map_eq_some_iff.mp h
  have halign := (inner.sound_of_layout? part hpart).alignment
  refine ⟨part, hpart, fun hroom => ?_⟩
  rw [halign.max_one]
  exact Layout.size_lt_tagged halign hroom

theorem Ty.le_size_enum {enum : EnumTy} (h : (Ty.enum enum).layout? = some l) :
    ∃ parts, Ty.LaidOut (enum.variants.filterMap Variant.payload) parts ∧
      ((Layout.numbered enum.variants.length
          (parts.foldl Layout.overlay ⟨0, 1⟩)).padded.size < 2 ^ 64 →
        ∀ part ∈ parts, part.size + Layout.tagSize enum.variants.length ≤
        l.size) := by
  rw [layout?_enum] at h
  obtain ⟨parts, hparts, rfl⟩ := joins_layoutUnion.exists_of_map h
  have hsound := hparts.sound fun ty _ => ty.sound_of_layout?
  refine ⟨parts, hparts, fun hroom part hpart => ?_⟩
  have halign := Layout.isAlignment_foldl Layout.isAlignment_overlay
    (l := ⟨0, 1⟩) .one hsound
  have hpayload : part.size ≤ (parts.foldl Layout.overlay ⟨0, 1⟩).size :=
    Layout.size_le_foldl_overlay hpart
  calc part.size + Layout.tagSize enum.variants.length
      ≤ Layout.tagSize enum.variants.length +
      (parts.foldl Layout.overlay ⟨0, 1⟩).size := by omega
    _ ≤ _ := Layout.le_size_enum _ halign hroom

theorem Ty.size_array {element : Ty} {length : Nat} {mutable : Bool}
    (h : (Ty.array element (.fixed length) mutable).layout? = some l) :
    ∃ part, element.layout? = some part ∧ l.size = length * part.size := by
  obtain ⟨part, hpart, harray⟩ := Option.bind_eq_some_iff.mp h
  obtain ⟨-, rfl⟩ := Layout.array_eq_some_iff.mp harray
  exact ⟨part, hpart, Nat.mul_comm _ _⟩

end Existing

def paddedStruct : StructTy :=
  ⟨"S", [⟨"tag", .u8⟩, ⟨"body", .optional .usize⟩,
    ⟨"kind", .enum ⟨"E", [⟨"A", some (.float 32)⟩, ⟨"B", none⟩], none⟩⟩,
    ⟨"row", .array (.int false 16) (.fixed 3) false⟩], none⟩

def paddedParts : List Layout := [⟨1, 1⟩, ⟨16, 8⟩, ⟨8, 4⟩, ⟨6, 2⟩]

/-- No element of this array is ever laid out, and still its type counts. -/
def emptyRows : Ty := .tuple [.bool, .array (.named "T") (.fixed 0) false]

end StaticCheck
