import StaticCheck.Number.Power
import StaticCheck.Types.Basic

/-!
# Numeric types

Which values an integer type holds, and the type of an arithmetic operation on
two numbers.
-/

namespace StaticCheck

/-- Whether `value`, an integer of 128 bits, is a value of the integer type of
the given shape. -/
def fitsInt (value : Int) (signed : Bool) (bits : Nat) : Bool :=
  if signed then
    if 128 ≤ bits then true
    else -(pow2 (bits - 1) : Int) ≤ value && value < pow2 (bits - 1)
  else if 127 ≤ bits then 0 ≤ value
  else 0 ≤ value && value < pow2 bits

/-- Widths of the builtin floats, in ascending order. -/
def floatWidths : List Nat := [16, 32, 64, 80, 128]

/-- The narrowest builtin float of at least `bits` bits, or the widest one. -/
def floatWidth (bits : Nat) : Nat :=
  (floatWidths.find? (bits ≤ ·)).getD 128

/-- The greater of the widths of two types, as far as they have one. -/
def maxBits (left right : Ty) : Nat :=
  match left.bits?, right.bits? with
  | some a, some b => max a b
  | some a, none => a
  | none, some b => b
  | none, none => 32

/-- The type of an arithmetic operation on two numbers.  A comptime number takes
the type of the other side, and an integer with a float gives the narrowest
float as wide as both. -/
def promote (left right : Ty) : Ty :=
  match left.isComptime, right.isComptime with
  | true, true =>
    if left.isFloat || right.isFloat then .comptimeFloat else .comptimeInt none
  | true, false => right.unparen
  | false, true => left.unparen
  | false, false =>
    if left.isFloat || right.isFloat then
      .float (floatWidth (maxBits left right))
    else .int (left.isSigned || right.isSigned) (maxBits left right)

end StaticCheck
