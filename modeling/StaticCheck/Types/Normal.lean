import StaticCheck.Types.Basic

/-!
# Plain and concrete forms

`stripParens` drops the parentheses of a type, also inside pointers, optionals,
arrays, tuples and unions.  `concretize` fixes comptime numbers, the elements of
arrays and the fields of tuples to the default types of running programs.
-/

namespace StaticCheck

mutual

def Ty.stripParens : Ty → Ty
  | .paren inner => inner.stripParens
  | .pointer target mutable => .pointer target.stripParens mutable
  | .optional inner => .optional inner.stripParens
  | .array element extent mutable => .array element.stripParens extent mutable
  | .tuple fields => .tuple (Ty.stripParensAll fields)
  | .union members => .union (Ty.stripParensAll members)
  | ty => ty

def Ty.stripParensAll : List Ty → List Ty
  | [] => []
  | ty :: rest => ty.stripParens :: Ty.stripParensAll rest

end

mutual

def Ty.concretize : Ty → Ty
  | .prim (.comptimeInt _) => .i32
  | .prim .comptimeFloat => .float 64
  | .array element extent mutable => .array element.concretize extent mutable
  | .tuple fields => .tuple (Ty.concretizeAll fields)
  | ty => ty

def Ty.concretizeAll : List Ty → List Ty
  | [] => []
  | ty :: rest => ty.concretize :: Ty.concretizeAll rest

end

end StaticCheck
