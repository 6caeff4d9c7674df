import StaticCheck.Types.Basic

/-!
# Types in messages

How a type is written in a message.  A declared struct or enum is written by its
name, a struct written in place by its members.
-/

namespace StaticCheck

def Prim.text : Prim → String
  | .int true bits => "i" ++ toString bits
  | .int false bits => "u" ++ toString bits
  | .float bits => "f" ++ toString bits
  | .comptimeInt _ => "comptime_int"
  | .comptimeFloat => "comptime_float"
  | .bool => "bool"
  | .null => "null"
  | .undefined => "undefined"
  | .void => "void"
  | .noreturn => "noreturn"
  | .any => "any"
  | .type => "type"
  | .err => "err"

def Extent.text : Extent → String
  | .slice => "[]"
  | .fixed length => "[" ++ toString length ++ "]"
  | .expr _ => "[_]"

mutual

def Ty.text : Ty → String
  | .prim prim => prim.text
  | .named name => name
  | .pointer target true => "*" ++ target.text
  | .pointer target false => "*const " ++ target.text
  | .optional inner => "?" ++ inner.text
  | .array element extent _ => extent.text ++ element.text
  | .tuple fields => "(" ++ ", ".intercalate (Ty.texts fields) ++ ")"
  | .struct ⟨name, members, _⟩ =>
    if name == anonymousName then
      "struct \x7b " ++ ", ".intercalate (Member.texts members) ++ " \x7d"
    else name
  | .enum enum => enum.name
  | .errors names => "error\x7b" ++ ", ".intercalate names ++ "\x7d"
  | .union members => " | ".intercalate (Ty.texts members)
  | .function params result error =>
    "fn(" ++ ", ".intercalate (Ty.texts params) ++ ") " ++ result.text ++
      Ty.errorText error
  | .paren inner => "(" ++ inner.text ++ ")"

def Ty.errorText : Option Ty → String
  | none => ""
  | some error => " !" ++ error.text

def Ty.texts : List Ty → List String
  | [] => []
  | ty :: rest => ty.text :: Ty.texts rest

def Member.texts : List Member → List String
  | [] => []
  | ⟨name, ty⟩ :: rest => (name ++ ": " ++ ty.text) :: Member.texts rest

end

end StaticCheck
