import StaticCheck.Text.EscapedRuns

/-!
# Quoted names

Messages show names between double quotes.  Quotes, backslashes and the common
control characters have short escapes, and every other character of
`escapedRuns` is written by its code point.
-/

namespace StaticCheck
namespace Text

def hexDigits (n : Nat) : List Char :=
  Nat.toDigits 16 n

def escapeChar (c : Char) : List Char :=
  if c = '"' then ['\\', '"']
  else if c = '\\' then ['\\', '\\']
  else if c = '\n' then ['\\', 'n']
  else if c = '\r' then ['\\', 'r']
  else if c = '\t' then ['\\', 't']
  else if c.toNat = 0 then ['\\', '0']
  else if isEscaped c then
    '\\' :: 'u' :: Char.ofNat 0x7b :: (hexDigits c.toNat ++ [Char.ofNat 0x7d])
  else [c]

def quoted (name : String) : String :=
  String.ofList ('"' :: (name.toList.flatMap escapeChar ++ ['"']))

def quotedList (names : List String) : String :=
  "[" ++ ", ".intercalate (names.map quoted) ++ "]"

end Text
end StaticCheck
