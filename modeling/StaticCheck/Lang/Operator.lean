/-!
# Operators

The operators of expressions.  The typing rules of binary operators are written
per class.
-/

namespace StaticCheck

inductive BinaryOp
  | assign
  | addAssign
  | subAssign
  | mulAssign
  | divAssign
  | add
  | sub
  | mul
  | div
  | rem
  | pow
  | shiftLeft
  | shiftRight
  | bitAnd
  | bitOr
  | bitXor
  | eq
  | notEq
  | less
  | lessEq
  | greater
  | greaterEq
  | and
  | or
  deriving DecidableEq, Repr, Inhabited

inductive OpClass
  | assignment
  | additive
  | multiplicative
  | power
  | shift
  | bitwise
  | equality
  | relational
  | logical
  deriving DecidableEq, Repr, Inhabited

def OpClass.name : OpClass → String
  | assignment => "Assignment"
  | additive => "Additive"
  | multiplicative => "Multiplicative"
  | power => "Power"
  | shift => "Shift"
  | bitwise => "Bitwise"
  | equality => "Equality"
  | relational => "Relational"
  | logical => "Logical"

namespace BinaryOp

def all : List BinaryOp :=
  [assign, addAssign, subAssign, mulAssign, divAssign, add, sub, mul, div, rem,
    pow, shiftLeft, shiftRight, bitAnd, bitOr, bitXor, eq, notEq, less, lessEq,
    greater, greaterEq, and, or]

def opClass : BinaryOp → OpClass
  | assign | addAssign | subAssign | mulAssign | divAssign => .assignment
  | add | sub => .additive
  | mul | div | rem => .multiplicative
  | pow => .power
  | shiftLeft | shiftRight => .shift
  | bitAnd | bitOr | bitXor => .bitwise
  | eq | notEq => .equality
  | less | lessEq | greater | greaterEq => .relational
  | and | or => .logical

def symbol : BinaryOp → String
  | assign => "="
  | addAssign => "+="
  | subAssign => "-="
  | mulAssign => "*="
  | divAssign => "/="
  | add => "+"
  | sub => "-"
  | mul => "*"
  | div => "/"
  | rem => "%"
  | pow => "**"
  | shiftLeft => "<<"
  | shiftRight => ">>"
  | bitAnd => "&"
  | bitOr => "|"
  | bitXor => "^"
  | eq => "=="
  | notEq => "!="
  | less => "<"
  | lessEq => "<="
  | greater => ">"
  | greaterEq => ">="
  | and => "and"
  | or => "or"

def ofSymbol? (text : String) : Option BinaryOp :=
  all.find? fun op => op.symbol == text

end BinaryOp

inductive UnaryOp
  | plus
  | minus
  | increment
  | decrement
  | not
  | bitNot
  | reference
  deriving DecidableEq, Repr, Inhabited

namespace UnaryOp

def all : List UnaryOp :=
  [plus, minus, increment, decrement, not, bitNot, reference]

def symbol : UnaryOp → String
  | plus => "+"
  | minus => "-"
  | increment => "++"
  | decrement => "--"
  | not => "!"
  | bitNot => "~"
  | reference => "&"

def ofSymbol? (text : String) : Option UnaryOp :=
  all.find? fun op => op.symbol == text

end UnaryOp
end StaticCheck
