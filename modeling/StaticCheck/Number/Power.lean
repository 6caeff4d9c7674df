/-!
# Powers of two and ten

The scales of binary words and of decimal places.
-/

namespace StaticCheck

abbrev pow2 (n : Nat) : Nat := Nat.pow 2 n

abbrev pow10 (n : Nat) : Nat := Nat.pow 10 n

end StaticCheck
