import StaticCheck.Number.Numeral

/-!
# Character literals

The text of a character literal is a character or an escape: a backslash with
`n`, `t`, `r`, `0`, a code point in hexadecimal digits after `x`, or one in
braces after `u`.
-/

namespace StaticCheck
namespace CharLiteral

def hexCode? (digits : List Char) : Option Nat :=
  (Numeral.unsigned? 16 digits).filter (· < pow2 32)

def braced? : List Char → Option (List Char)
  | opening :: rest =>
    if opening = '\x7b' ∧ rest.getLast? =
      some '\x7d' then some rest.dropLast else none
  | [] => none

def escapeCode? : List Char → Option Nat
  | [] => none
  | 'n' :: _ => some 10
  | 't' :: _ => some 9
  | 'r' :: _ => some 13
  | '0' :: _ => some 0
  | 'x' :: digits => hexCode? digits
  | 'u' :: rest => (braced? rest).bind hexCode?
  | c :: _ => some c.toNat

def code? (text : String) : Option Nat :=
  match text.toList with
  | [] => none
  | '\\' :: escape => escapeCode? escape
  | c :: _ => some c.toNat

end CharLiteral
end StaticCheck
