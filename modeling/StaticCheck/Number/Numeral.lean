import StaticCheck.Number.Wide

/-!
# Reading integers

Digits of a radix from 2 to 16, in either letter case, with an optional sign.
The text of an integer literal may hold `_` anywhere, starts with at most one
`-` of its own, and names its radix by `0x`, `0o` or `0b`.
-/

namespace StaticCheck
namespace Numeral

def digit? (radix : Nat) (c : Char) : Option Nat :=
  let value? :=
    if '0' ≤ c ∧ c ≤ '9' then some (c.toNat - '0'.toNat)
    else if 'a' ≤ c ∧ c ≤ 'f' then some (c.toNat - 'a'.toNat + 10)
    else if 'A' ≤ c ∧ c ≤ 'F' then some (c.toNat - 'A'.toNat + 10)
    else none
  value?.filter (· < radix)

def digitsFrom? (radix : Nat) : Nat → List Char → Option Nat
  | acc, [] => some acc
  | acc, c :: rest =>
    (digit? radix c).bind fun d => digitsFrom? radix (acc * radix + d) rest

def natural? (radix : Nat) : List Char → Option Nat
  | [] => none
  | digits => digitsFrom? radix 0 digits

def unsigned? (radix : Nat) : List Char → Option Nat
  | '+' :: digits => natural? radix digits
  | digits => natural? radix digits

def signed? (radix : Nat) : List Char → Option Int
  | '-' :: digits => (natural? radix digits).map fun n => -(n : Int)
  | digits => (unsigned? radix digits).map fun n => (n : Int)

def magnitude? : List Char → Option Int
  | '0' :: 'x' :: digits => (signed? 16 digits).bind Wide.within
  | '0' :: 'o' :: digits => (signed? 8 digits).bind Wide.within
  | '0' :: 'b' :: digits => (signed? 2 digits).bind Wide.within
  | digits => (signed? 10 digits).bind Wide.within

/-- The value of an integer literal, if it has one of 128 bits.  A second sign
can ask for the negation of the least number, which is that number again. -/
def literal? (text : String) : Option Int :=
  match text.toList.filter (· != '_') with
  | '-' :: digits => (magnitude? digits).map fun n => (-n).bmod (pow2 128)
  | digits => magnitude? digits

end Numeral
end StaticCheck
