import StaticCheck.Number.Binary64

/-!
# Reading decimals

A decimal is an optional sign followed by `inf`, `infinity` or `nan` in any
letter case, or by digits with at most one point among them and an optional
exponent.  Its value is the nearest double.
-/

namespace StaticCheck
namespace Decimal

def isDigit (c : Char) : Bool := '0' ≤ c && c ≤ '9'

def digitsValue (digits : List Char) : Nat :=
  digits.foldl (fun acc c => acc * 10 + (c.toNat - '0'.toNat)) 0

def exponent? : List Char → Option Int
  | [] => some 0
  | mark :: rest =>
    if mark = 'e' ∨ mark = 'E' then
      let parts : Bool × List Char :=
        match rest with
        | '-' :: digits => (true, digits)
        | '+' :: digits => (false, digits)
        | digits => (false, digits)
      if parts.2.isEmpty ∨ ¬ parts.2.all isDigit then none
      else
        let value : Int := digitsValue parts.2
        some (if parts.1 then -value else value)
    else none

/-- The double nearest to `digits * 10 ^ exponent`.  Beyond the range of doubles
the power of ten is not worked out. -/
def nearest (digits : List Char) (exponent : Int) : Float :=
  let significant := digits.dropWhile (· = '0')
  let width : Int := significant.length + exponent
  if significant.isEmpty then Float.ofBits 0
  else if 400 < width then Binary64.infinity
  else if width < -400 then Float.ofBits 0
  else if 0 ≤ exponent then
    Binary64.ofRatio (digitsValue significant * pow10 exponent.toNat) 1
  else
    Binary64.ofRatio (digitsValue significant) (pow10 (-exponent).toNat)

def number? (text : List Char) : Option Float :=
  let whole := text.takeWhile isDigit
  let afterWhole := text.dropWhile isDigit
  let parts : List Char × List Char :=
    match afterWhole with
    | '.' :: rest => (rest.takeWhile isDigit, rest.dropWhile isDigit)
    | rest => ([], rest)
  if whole.isEmpty ∧ parts.1.isEmpty then none
  else (exponent? parts.2).map fun exponent =>
    nearest (whole ++ parts.1) (exponent - parts.1.length)

def unsigned? (text : List Char) : Option Float :=
  let word := text.map Char.toLower
  if word = "inf".toList ∨ word = "infinity".toList then some Binary64.infinity
  else if word = "nan".toList then some Binary64.nan
  else number? text

def read? (text : String) : Option Float :=
  match text.toList with
  | '-' :: rest => (unsigned? rest).map fun x => -x
  | '+' :: rest => unsigned? rest
  | rest => unsigned? rest

end Decimal
end StaticCheck
