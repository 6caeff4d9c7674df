import StaticCheck.Number.Binary64

/-!
# Shortest decimals

A finite double is written with the fewest digits that read back as the same
double and, among those, with the digits nearest to it; of two equally near the
greater is taken.  The digits are placed without an exponent, and a whole number
has no point.
-/

namespace StaticCheck
namespace Shortest

/-- A fraction and the interval of the reals that round to it, over the common
denominator `den`. -/
structure Interval where
  low : Nat
  value : Nat
  high : Nat
  den : Nat
  closed : Bool

def interval (mantissa : Nat) (exponent : Int) : Interval :=
  let below :=
    if mantissa = pow2 52 ∧ Binary64.leastExponent < exponent then 1 else 2
  let num := pow2 exponent.toNat
  let den := 4 * pow2 (-exponent).toNat
  ⟨(4 * mantissa - below) * num, 4 * mantissa * num,
    (4 * mantissa + 2) * num, den, mantissa % 2 = 0⟩

def Interval.holds (i : Interval) (digits : Nat) (exponent : Int) : Bool :=
  let num := digits * pow10 exponent.toNat * i.den
  let scale := pow10 (-exponent).toNat
  if i.closed then i.low * scale ≤ num && num ≤ i.high * scale
  else i.low * scale < num && num < i.high * scale

/-- The two neighbours of the value among the multiples of `10 ^ exponent`,
given by the lower. -/
def Interval.floor (i : Interval) (exponent : Int) : Nat :=
  i.value * pow10 (-exponent).toNat / (i.den * pow10 exponent.toNat)

/-- The multiple of `10 ^ exponent` in the interval that is nearest to the
value. -/
def Interval.pick? (i : Interval) (exponent : Int) : Option Nat :=
  let lower := i.floor exponent
  match i.holds lower exponent, i.holds (lower + 1) exponent with
  | true, true =>
    let twice := 2 * i.value * pow10 (-exponent).toNat
    let middle := (2 * lower + 1) * i.den * pow10 exponent.toNat
    some (if twice < middle then lower else lower + 1)
  | true, false => some lower
  | false, true => some (lower + 1)
  | false, false => none

/-- The greatest `e` in a window below `start` with `10 ^ e` at most the
value. -/
def Interval.leading (i : Interval) : Nat → Int → Int
  | 0, e => e
  | steps + 1, e =>
    if pow10 e.toNat * i.den ≤ i.value * pow10 (-e).toNat then e
      else i.leading steps (e - 1)

/-- Digits and exponent of the shortest decimal in the interval, trying ever
finer grids. -/
def Interval.search (i : Interval) : Nat → Int → Nat × Int
  | 0, exponent => (i.floor exponent, exponent)
  | steps + 1, exponent =>
    match i.pick? exponent with
    | some digits => (digits, exponent)
    | none => i.search steps (exponent - 1)

def decimal (mantissa : Nat) (exponent : Int) : Nat × Int :=
  let i := interval mantissa exponent
  i.search 20 (i.leading 700 310)

def placed (digits : Nat) (exponent : Int) : String :=
  let written := Nat.toDigits 10 digits
  if 0 ≤ exponent then
    String.ofList (written ++ List.replicate exponent.toNat '0')
  else
    let places := (-exponent).toNat
    let padded := List.replicate (places + 1 - written.length) '0' ++ written
    let split := padded.length - places
    let fraction := ((padded.drop split).reverse.dropWhile (· = '0')).reverse
    let whole := padded.take split
    String.ofList (if fraction.isEmpty then whole else whole ++ '.' :: fraction)

def text (x : Float) : String :=
  if x.isNaN then "NaN"
  else
    let body :=
      match Binary64.magnitude? x with
      | none => "inf"
      | some (0, _) => "0"
      | some (mantissa, exponent) =>
        let d := decimal mantissa exponent
        placed d.1 d.2
    if Binary64.signBit x then "-" ++ body else body

end Shortest
end StaticCheck
