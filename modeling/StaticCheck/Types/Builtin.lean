import StaticCheck.Number.Numeral
import StaticCheck.Report.Problem
import StaticCheck.Text.DecimalDigit
import StaticCheck.Types.Numeric

/-!
# Builtin types and functions

The types that have a name without being declared, the sized numbers among them,
and the functions whose names start with `@`.
-/

namespace StaticCheck
namespace Builtin

def namedTypes : List (String × Ty) :=
  [("bool", .bool), ("void", .void), ("noreturn", .noreturn), ("any", .any),
    ("type", .type), ("err", .err), ("isize", .int true 64), ("usize", .usize),
    ("comptime_int", .comptimeInt none),
    ("comptime_float", .comptimeFloat)]

def greatestIntWidth : Nat := 128

/-- The number a width writes, if it is written in the digits `0` to `9`. -/
def width? (digits : List Char) : Option Nat :=
  Numeral.natural? 10 digits

/-- A nonempty width, in the digits of any script. -/
def isWidth (digits : List Char) : Bool :=
  !digits.isEmpty && digits.all Text.isDecimalDigit

def sizedInt? (signed : Bool) (digits : List Char) : Option Ty :=
  match width? digits with
  | some bits =>
    if 1 ≤ bits ∧ bits ≤ greatestIntWidth then some (.int signed bits) else none
  | none => none

def sizedFloat? (digits : List Char) : Option Ty :=
  match width? digits with
  | some bits => if bits ∈ floatWidths then some (.float bits) else none
  | none => none

/-- The type that a name has without being declared.  There is none for an
ordinary name, and a name shaped like a sized number of a width the language
lacks is a problem. -/
def type? (name : String) : Except Problem (Option Ty) :=
  match namedTypes.lookup name with
  | some ty => .ok (some ty)
  | none =>
    let sized (answer : Option Ty) : Except Problem (Option Ty) :=
      match answer with
      | some ty => .ok (some ty)
      | none => .error (.invalidTypeWidth name)
    match name.toList with
    | 'i' :: digits =>
      if isWidth digits then sized (sizedInt? true digits) else .ok none
    | 'u' :: digits =>
      if isWidth digits then sized (sizedInt? false digits) else .ok none
    | 'f' :: digits =>
      if isWidth digits then sized (sizedFloat? digits) else .ok none
    | _ => .ok none

/-- What a builtin function takes in one position. -/
inductive Arg
  | any
  | bool
  | integer
  | string
  | type
  deriving DecidableEq, Repr, Inhabited

def Arg.name : Arg → String
  | any => "Any"
  | bool => "Bool"
  | integer => "Integer"
  | string => "String"
  | type => "Type"

inductive Result
  | fixed (ty : Ty)
  /-- The type given as the first argument. -/
  | firstArg

def Result.answer (first : Option Ty) : Result → Option Ty
  | fixed ty => some ty
  | firstArg => first

structure Function where
  name : String
  params : List Arg
  /-- Whether further arguments of any type may follow. -/
  variadic : Bool
  result : Result

def functions : List Function :=
  [⟨"@print", [], true, .fixed .void⟩,
    ⟨"@println", [], true, .fixed .void⟩,
    ⟨"@assert", [.bool], false, .fixed .void⟩,
    ⟨"@panic", [.string], false, .fixed .noreturn⟩,
    ⟨"@intCast", [.type, .integer], false, .firstArg⟩,
    ⟨"@truncate", [.type, .integer], false, .firstArg⟩]

def function? (name : String) : Option Function :=
  functions.find? (·.name == name)

def isName (name : String) : Bool :=
  name.toList.head? == some '@'

end Builtin
end StaticCheck
