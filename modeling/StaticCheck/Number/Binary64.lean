import StaticCheck.Number.Power

/-!
# Doubles as fractions

A finite double is `mantissa * 2 ^ exponent`.  `ofRatio` gives the double
nearest to a fraction, an exact half going to the even mantissa, and
`magnitude?` reads mantissa and exponent back.
-/

namespace StaticCheck
namespace Binary64

def leastExponent : Int := -1074

def greatestExponent : Int := 971

/-- The quotient rounded to the nearest integer, an exact half to the even
one. -/
def roundHalfEven (num den : Nat) : Nat :=
  let quotient := num / den
  let twice := 2 * (num % den)
  if twice < den then quotient
  else if den < twice then quotient + 1
  else quotient + quotient % 2

/-- `num / den * 2 ^ (-exponent)` as a fraction. -/
def scaled (num den : Nat) (exponent : Int) : Nat × Nat :=
  if 0 ≤ exponent then (num, den * pow2 exponent.toNat)
  else (num * pow2 (-exponent).toNat, den)

/-- The exponent at which the mantissa of `num / den` has 53 bits, but at least
the least one. -/
def exponentOf (num den : Nat) : Int :=
  let guess : Int := (num.log2 : Int) - (den.log2 : Int) - 52
  let parts := scaled num den guess
  let exact := if parts.1 < parts.2 * pow2 52 then guess - 1 else guess
  max leastExponent exact

def infinity : Float := Float.ofBits 0x7ff0000000000000

def nan : Float := Float.ofBits 0x7ff8000000000000

def ofParts (mantissa : Nat) (exponent : Int) : Float :=
  if mantissa < pow2 52 then Float.ofBits mantissa.toUInt64
  else
    let shifted : Nat × Int :=
      if mantissa < pow2 53 then (mantissa, exponent)
        else (pow2 52, exponent + 1)
    if greatestExponent < shifted.2 then infinity
    else
      let biased := (shifted.2 - leastExponent + 1).toNat
      Float.ofBits (biased * pow2 52 + (shifted.1 - pow2 52)).toUInt64

def ofRatio (num den : Nat) : Float :=
  if num = 0 then Float.ofBits 0
  else
    let exponent := exponentOf num den
    let parts := scaled num den exponent
    ofParts (roundHalfEven parts.1 parts.2) exponent

def ofInt (n : Int) : Float :=
  if n < 0 then -(ofRatio n.natAbs 1) else ofRatio n.natAbs 1

def signBit (x : Float) : Bool :=
  pow2 63 ≤ x.toBits.toNat

def magnitude? (x : Float) : Option (Nat × Int) :=
  let bits := x.toBits.toNat % pow2 63
  let biased : Nat := bits / pow2 52
  let fraction := bits % pow2 52
  if biased = 0x7ff then none
  else if biased = 0 then some (fraction, leastExponent)
  else some (fraction + pow2 52, (biased : Int) - 1 + leastExponent)

end Binary64
end StaticCheck
