import StaticCheck.Lang.Tree

/-!
# Questions about one type

Short names for the types without parts, and the questions that can be answered
from a type alone.  They look through parentheses around the whole type and
nowhere else.
-/

namespace StaticCheck

namespace Prim

def isNumeric : Prim → Bool
  | .int .. | .float _ | .comptimeInt _ | .comptimeFloat => true
  | _ => false

def isInteger : Prim → Bool
  | .int .. | .comptimeInt _ => true
  | _ => false

def isFloat : Prim → Bool
  | .float _ | .comptimeFloat => true
  | _ => false

def isComptime : Prim → Bool
  | .comptimeInt _ | .comptimeFloat => true
  | _ => false

def bits? : Prim → Option Nat
  | .int _ bits | .float bits => some bits
  | _ => none

def isSigned : Prim → Bool
  | .int signed _ => signed
  | .float _ | .comptimeFloat => true
  | .comptimeInt (some value) => value < 0
  | _ => false

end Prim

namespace Ty

abbrev int (signed : Bool) (bits : Nat) : Ty := .prim (.int signed bits)
abbrev i32 : Ty := int true 32
abbrev u8 : Ty := int false 8
abbrev usize : Ty := int false 64
abbrev float (bits : Nat) : Ty := .prim (.float bits)
abbrev comptimeInt (value : Option Int) : Ty := .prim (.comptimeInt value)
abbrev comptimeFloat : Ty := .prim .comptimeFloat
abbrev bool : Ty := .prim .bool
abbrev null : Ty := .prim .null
abbrev undefined : Ty := .prim .undefined
abbrev void : Ty := .prim .void
abbrev noreturn : Ty := .prim .noreturn
abbrev any : Ty := .prim .any
abbrev type : Ty := .prim .type
abbrev err : Ty := .prim .err

/-- The type of a string literal of `length` bytes. -/
abbrev string (length : Nat) : Ty := .array u8 (.fixed length) false

def unparen : Ty → Ty
  | .paren inner => inner.unparen
  | ty => ty

def prim? (ty : Ty) : Option Prim :=
  match ty.unparen with
  | .prim p => some p
  | _ => none

def isPrim (ty : Ty) (p : Prim) : Bool :=
  ty.prim? == some p

def isNumeric (ty : Ty) : Bool := ty.prim?.any Prim.isNumeric
def isInteger (ty : Ty) : Bool := ty.prim?.any Prim.isInteger
def isFloat (ty : Ty) : Bool := ty.prim?.any Prim.isFloat
def isComptime (ty : Ty) : Bool := ty.prim?.any Prim.isComptime
def isBool (ty : Ty) : Bool := ty.isPrim .bool
def isNull (ty : Ty) : Bool := ty.isPrim .null
def isVoid (ty : Ty) : Bool := ty.isPrim .void
def isNoreturn (ty : Ty) : Bool := ty.isPrim .noreturn
def isAny (ty : Ty) : Bool := ty.isPrim .any
def isMeta (ty : Ty) : Bool := ty.isPrim .type
def isErr (ty : Ty) : Bool := ty.isPrim .err
def isSigned (ty : Ty) : Bool := ty.prim?.any Prim.isSigned
def bits? (ty : Ty) : Option Nat := ty.prim?.bind Prim.bits?

def isOptional (ty : Ty) : Bool :=
  match ty.unparen with
  | .optional _ => true
  | _ => false

def isPointer (ty : Ty) : Bool :=
  match ty.unparen with
  | .pointer .. => true
  | _ => false

/-- Arrays of bytes serve as strings. -/
def isString (ty : Ty) : Bool :=
  match ty.unparen with
  | .array element _ _ => element.isPrim (.int false 8)
  | _ => false

def length? (ty : Ty) : Option Nat :=
  match ty.unparen with
  | .array _ (.fixed length) _ => some length
  | _ => none

def isMutableArray : Ty → Bool
  | .array _ _ mutable => mutable
  | _ => false

/-- Value of a comptime integer, where the type is one and the value is
known. -/
def knownInt? (ty : Ty) : Option Int :=
  match ty.prim? with
  | some (.comptimeInt value) => value
  | _ => none

end Ty

def anonymousName : String := "Anonymous"

namespace StructTy

def isAnonymous (struct : StructTy) : Bool := struct.name == anonymousName

def member? (struct : StructTy) (name : String) : Option Member :=
  struct.members.find? (·.name == name)

end StructTy

namespace EnumTy

def variant? (enum : EnumTy) (name : String) : Option Variant :=
  enum.variants.find? (·.name == name)

end EnumTy

namespace ErrorClause

def toTy : ErrorClause → Ty
  | any => .err
  | named name => .named name
  | group names => .errors names
  | selfGroup names => .errors names

end ErrorClause
end StaticCheck
