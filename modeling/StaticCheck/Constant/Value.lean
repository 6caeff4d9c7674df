import StaticCheck.Lang.Operator
import StaticCheck.Number.Shortest
import StaticCheck.Number.Wide

/-!
# Values known while checking

Integers of 128 bits, doubles and booleans, and the operators on them.  An
operation without an answer, such as a division by zero or an integer out of
range, gives `none`.
-/

namespace StaticCheck

inductive Value
  | int (value : Int)
  | float (value : Float)
  | bool (value : Bool)
  deriving Inhabited

namespace Value

def int? : Value → Option Int
  | int value => some value
  | _ => none

def float? : Value → Option Float
  | float value => some value
  | int value => some (Binary64.ofInt value)
  | bool _ => none

def text : Value → String
  | int value => toString value
  | float value => Shortest.text value
  | bool true => "true"
  | bool false => "false"

def arithmetic? (op : BinaryOp) (a b : Int) : Option Int :=
  match op with
  | .add => Wide.add? a b
  | .sub => Wide.sub? a b
  | .mul => Wide.mul? a b
  | .div => Wide.div? a b
  | .rem => Wide.rem? a b
  | .pow => Wide.pow? a b
  | .shiftLeft => Wide.shiftLeft? a b
  | .shiftRight => Wide.shiftRight? a b
  | .bitAnd => some (Wide.bitAnd a b)
  | .bitOr => some (Wide.bitOr a b)
  | .bitXor => some (Wide.bitXor a b)
  | _ => none

def intComparison? (op : BinaryOp) (a b : Int) : Option Bool :=
  match op with
  | .eq => some (a == b)
  | .notEq => some (a != b)
  | .less => some (a < b)
  | .lessEq => some (a ≤ b)
  | .greater => some (b < a)
  | .greaterEq => some (b ≤ a)
  | _ => none

def logic? (op : BinaryOp) (a b : Bool) : Option Bool :=
  match op with
  | .and => some (a && b)
  | .or => some (a || b)
  | .eq => some (a == b)
  | .notEq => some (a != b)
  | _ => none

/-- The operators on doubles.  A division by zero has no answer, and equality is
not decided. -/
def floatOp? (op : BinaryOp) (a b : Float) : Option Value :=
  match op with
  | .add => some (float (a + b))
  | .sub => some (float (a - b))
  | .mul => some (float (a * b))
  | .div => if b == 0.0 then none else some (float (a / b))
  | .pow => some (float (Float.pow a b))
  | .less => some (bool (a < b))
  | .lessEq => some (bool (a ≤ b))
  | .greater => some (bool (b < a))
  | .greaterEq => some (bool (b ≤ a))
  | _ => none

def binary? (op : BinaryOp) : Value → Value → Option Value
  | int a, int b =>
    match intComparison? op a b with
    | some answer => some (bool answer)
    | none => (arithmetic? op a b).map int
  | bool a, bool b => (logic? op a b).map bool
  | left, right =>
    left.float?.bind fun a => right.float?.bind fun b => floatOp? op a b

def unary? : UnaryOp → Value → Option Value
  | .plus, value => some value
  | .minus, int value => (Wide.neg? value).map int
  | .minus, float value => some (float (-value))
  | .not, bool value => some (bool (!value))
  | .bitNot, int value => some (int (Wide.bitNot value))
  | _, _ => none

end Value
end StaticCheck
