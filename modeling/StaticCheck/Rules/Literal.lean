import StaticCheck.Rules.Flow

/-!
# Literals and tuples
-/

namespace StaticCheck
namespace Rule

/-- A character within ASCII is a byte, any other a code point of 21 bits.  An
empty literal takes the integer type that is expected. -/
def inferChar (text : String) : Rule Ty := do
  match CharLiteral.code? text with
  | some code => return if code ≤ 127 then .u8 else .int false 21
  | none =>
    match ← expected? with
    | some expected => return if expected.isInteger then expected else .u8
    | none => return .u8

def expectedElement? : Option Ty → Option Ty
  | some (.array element _ _) => some element
  | _ => none

def checkElement (element : Ty) (expected : Option Ty) (other : Expr) :
    Rule Unit := do
  let some ty ← inferExpecting other expected | return ()
  if !(← isCompatible element ty (some other)) then
    reportMismatch element.text ty.text other.span

/-- An array has the type of its first element; the value of a comptime integer
is forgotten. -/
def inferArray : List Expr → Rule (Option Ty)
  | [] => return some (.array .any (.fixed 0) false)
  | first :: rest => do
    let expected := expectedElement? (← expected?)
    let some element ← inferExpecting first expected | return none
    forEach (checkElement element expected) rest
    let element :=
      match element with
      | .prim (.comptimeInt _) => .comptimeInt none
      | element => element
    return some (.array element (.fixed (rest.length + 1)) false)

def inferLiteral (literal : Literal) (span : Span) : Rule (Option Ty) :=
  match literal with
  | .str text => return some (.string text.utf8ByteSize)
  | .int text =>
    match Numeral.literal? text with
    | some value => return some (.comptimeInt (some value))
    | none => do
      report (.arithmeticOverflow text "comptime_int") span
      return some (.comptimeInt none)
  | .float _ => return some .comptimeFloat
  | .char text => return some (← inferChar text)
  | .bool _ => return some .bool
  | .null => return some .null
  | .undefined => return some .undefined
  | .array elements => inferArray elements

def expectedFields : Option Ty → Nat → List Ty
  | some (.tuple types), length => if types.length == length then types else []
  | _, _ => []

def inferFields : List Ty → List Expr → Rule (Option (List Ty))
  | _, [] => return some []
  | expected, field :: rest => do
    let some ty ← inferExpecting field expected.head? | return none
    let some types ← inferFields expected.tail rest | return none
    return some (ty :: types)

def inferTuple (fields : List Expr) : Rule (Option Ty) := do
  let expected := expectedFields (← expected?) fields.length
  return (← inferFields expected fields).map .tuple

end Rule
end StaticCheck
