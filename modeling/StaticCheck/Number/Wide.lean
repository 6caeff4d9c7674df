import StaticCheck.Number.Power

/-!
# Integers of 128 bits

Values known to the checker are signed integers of 128 bits.  An operation whose
result lies outside that range has no answer, with one exception: a shift to the
left drops the bits it moves out.
-/

namespace StaticCheck
namespace Wide

def least : Int := -(pow2 127 : Int)

def greatest : Int := (pow2 127 : Int) - 1

def within (n : Int) : Option Int :=
  if least ≤ n ∧ n ≤ greatest then some n else none

/-- A shift amount or exponent: a number of 32 bits without sign. -/
def amount? (n : Int) : Option Nat :=
  if 0 ≤ n ∧ n < pow2 32 then some n.toNat else none

def add? (a b : Int) : Option Int := within (a + b)

def sub? (a b : Int) : Option Int := within (a - b)

def mul? (a b : Int) : Option Int := within (a * b)

def neg? (a : Int) : Option Int := within (-a)

def div? (a b : Int) : Option Int :=
  if b = 0 then none else within (a.tdiv b)

/-- The remainder, with the sign of `a`.  It exists only where the quotient
does. -/
def rem? (a b : Int) : Option Int :=
  (div? a b).map fun _ => a.tmod b

/-- The power.  An exponent of 128 or more is in range only for the bases `-1`,
`0` and `1`, where the result depends on its parity. -/
def pow? (base exponent : Int) : Option Int :=
  (amount? exponent).bind fun n =>
    if n < 128 then within (Int.pow base n)
    else if base.natAbs ≤ 1 then some (if n % 2 = 0 then base * base else base)
    else none

def shiftLeft? (a shift : Int) : Option Int :=
  (amount? shift).bind fun n =>
    if n < 128 then some ((a * pow2 n).bmod (pow2 128)) else none

def shiftRight? (a shift : Int) : Option Int :=
  (amount? shift).bind fun n =>
    if n < 128 then some (a >>> n) else none

def bitAnd (a b : Int) : Int :=
  (BitVec.ofInt 128 a &&& BitVec.ofInt 128 b).toInt

def bitOr (a b : Int) : Int :=
  (BitVec.ofInt 128 a ||| BitVec.ofInt 128 b).toInt

def bitXor (a b : Int) : Int :=
  (BitVec.ofInt 128 a ^^^ BitVec.ofInt 128 b).toInt

def bitNot (a : Int) : Int := -a - 1

end Wide
end StaticCheck
