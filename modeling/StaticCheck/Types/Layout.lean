import StaticCheck.Number.Power
import StaticCheck.Types.Basic

/-!
# Memory layout

Byte size and alignment of a type, parts being placed at their natural
alignment.  Comptime numbers, `any`, `type` and names have none, and neither has
a type that holds one of them by value.  Sums of sizes wrap around at 64 bits;
only the size of an array is checked.
-/

namespace StaticCheck

structure Layout where
  size : Nat
  align : Nat
  deriving DecidableEq, Repr, Inhabited

namespace Layout

/-- Sizes are numbers of 64 bits. -/
def sizeLimit : Nat := pow2 64

def pointer : Layout := ⟨8, 8⟩

/-- A slice is a pointer and a length. -/
def slice : Layout := ⟨16, 8⟩

def error : Layout := ⟨2, 2⟩

def alignTo (offset align : Nat) : Nat :=
  if align = 0 then offset else (offset + align - 1) / align * align

def powerOfTwoAbove (n : Nat) : Nat :=
  if n ≤ 1 then 1 else pow2 ((n - 1).log2 + 1)

def number (bits : Nat) : Layout :=
  let size := powerOfTwoAbove ((bits + 7) / 8)
  ⟨size, min size 16⟩

def overlay (a b : Layout) : Layout :=
  ⟨max a.size b.size, max a.align b.align⟩

def wrapped (a : Layout) : Layout :=
  ⟨a.size % sizeLimit, a.align⟩

/-- Room for `b` after `a`, not yet rounded to the alignment of the whole. -/
def follow (a b : Layout) : Layout :=
  let align := max b.align 1
  ⟨alignTo a.size align + b.size, max a.align align⟩

def append (a b : Layout) : Layout :=
  (a.follow b).wrapped

def padded (a : Layout) : Layout :=
  ⟨alignTo a.size a.align, a.align⟩

def rounded (a : Layout) : Layout :=
  a.padded.wrapped

/-- The layout with one byte more, which tells what it holds. -/
def marked (a : Layout) : Layout :=
  ⟨a.size + 1, a.align⟩

def tagged (a : Layout) : Layout :=
  a.marked.wrapped.rounded

def array (element : Layout) (length : Nat) : Option Layout :=
  if element.size * length <
    sizeLimit then some ⟨element.size * length, element.align⟩ else none

def tagSize (variants : Nat) : Nat :=
  if variants ≤ 256 then 1 else if variants ≤ 65536 then 2 else 4

/-- A payload behind the number of its variant. -/
def numbered (variants : Nat) (payload : Layout) : Layout :=
  let tag := tagSize variants
  ⟨alignTo tag payload.align + payload.size, max payload.align tag⟩

def enum (variants : Nat) (payload : Layout) : Layout :=
  if payload.size = 0 then ⟨tagSize variants, tagSize variants⟩
  else (numbered variants payload).wrapped.rounded

end Layout

def Prim.layout? : Prim → Option Layout
  | .int _ bits | .float bits => some (Layout.number bits)
  | .bool => some ⟨1, 1⟩
  | .err => some Layout.error
  | .void | .noreturn | .null | .undefined => some ⟨0, 1⟩
  | .comptimeInt _ | .comptimeFloat | .any | .type => none

mutual

def Ty.layout? : Ty → Option Layout
  | .prim prim => prim.layout?
  | .named _ => none
  | .paren inner => inner.layout?
  | .pointer .. | .function .. => some Layout.pointer
  | .optional inner =>
    if inner.isPointer then some Layout.pointer
    else inner.layout?.map fun l => Layout.tagged ⟨l.size, max l.align 1⟩
  | .array element (.fixed length) _ =>
    element.layout?.bind fun l => l.array length
  | .array _ _ _ => some Layout.slice
  | .tuple fields => (Ty.layoutRecord? ⟨0, 1⟩ fields).map Layout.rounded
  | .struct ⟨_, members, _⟩ =>
    (Member.layoutRecord? ⟨0, 1⟩ members).map Layout.rounded
  | .enum ⟨_, variants, _⟩ =>
    (Variant.layoutPayload? ⟨0, 1⟩ variants).map fun payload =>
      Layout.enum variants.length payload
  | .errors _ => some Layout.error
  | .union members => (Ty.layoutUnion? ⟨0, 1⟩ members).map Layout.tagged

def Ty.layoutRecord? (placed : Layout) : List Ty → Option Layout
  | [] => some placed
  | ty :: rest =>
    ty.layout?.bind fun l => Ty.layoutRecord? (placed.append l) rest

def Member.layoutRecord? (placed : Layout) : List Member → Option Layout
  | [] => some placed
  | ⟨_, ty⟩ :: rest =>
    ty.layout?.bind fun l => Member.layoutRecord? (placed.append l) rest

def Ty.layoutUnion? (room : Layout) : List Ty → Option Layout
  | [] => some room
  | ty :: rest => ty.layout?.bind fun l => Ty.layoutUnion? (room.overlay l) rest

def Variant.layoutPayload? (room : Layout) : List Variant → Option Layout
  | [] => some room
  | ⟨_, payload⟩ :: rest =>
    match payload with
    | none => Variant.layoutPayload? room rest
    | some ty =>
      ty.layout?.bind fun l => Variant.layoutPayload? (room.overlay l) rest

end

end StaticCheck
