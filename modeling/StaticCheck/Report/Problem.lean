import StaticCheck.Lang.Basic
import StaticCheck.Text.Quoted

/-!
# Problems

Everything the checker can find wrong.  Each problem has a code, a message and,
for some, a tip on how to mend it.
-/

namespace StaticCheck

inductive Problem
  | typeMismatch (expected received : String)
  | cannotInferType (subject : String)
  | unknownType (name : String)
  | symbolNotFound (name : String)
  | symbolNotAccessible (name : String)
  | symbolNotExported (name module : String)
  | duplicateSymbol (name : String)
  | undefinedIdentifier (name : String)
  | undefinedBuiltin (name : String)
  | invalidStaticAccess (name detail : String)
  | mutabilityMismatch (name detail : String)
  | arraySizeMismatch (expected received : Nat)
  | tooFewArguments (expected received : Nat)
  | tooManyArguments (expected received : Nat)
  | notCallable (type : String)
  | missingReturnStatement (function : String)
  | returnOutsideFunction
  | controlFlowOutsideLoop (keyword : String)
  | unreachableCode
  | throwWithoutErrorType (function : String)
  | throwTypeMismatch (expected received : String)
  | errorMemberNotFound (set member : String)
  | indexOutOfBounds (index : Int) (length : Nat)
  | invalidTypeWidth (name : String)
  | arithmeticOverflow (value type : String)
  | circularTypeDependency (name : String)
  | nonExhaustiveMatch (missing : List String)
  | missingStructField (struct field : String)
  | invalidReference
  | invalidParameterVisibility (name : String)
  | invalidCast (source target : String)
  | moduleNotFound (module : String)
  | internalError (message : String)
  deriving DecidableEq, Repr, Inhabited

namespace Problem

def code : Problem → String
  | typeMismatch .. => "TypeMismatch"
  | cannotInferType .. => "CannotInferType"
  | unknownType .. => "UnknownType"
  | symbolNotFound .. => "SymbolNotFound"
  | symbolNotAccessible .. => "SymbolNotAccessible"
  | symbolNotExported .. => "SymbolNotExported"
  | duplicateSymbol .. => "DuplicateSymbol"
  | undefinedIdentifier .. => "UndefinedIdentifier"
  | undefinedBuiltin .. => "UndefinedBuiltin"
  | invalidStaticAccess .. => "InvalidStaticAccess"
  | mutabilityMismatch .. => "MutabilityMismatch"
  | arraySizeMismatch .. => "ArraySizeMismatch"
  | tooFewArguments .. => "TooFewArguments"
  | tooManyArguments .. => "TooManyArguments"
  | notCallable .. => "NotCallable"
  | missingReturnStatement .. => "MissingReturnStatement"
  | returnOutsideFunction => "ReturnOutsideFunction"
  | controlFlowOutsideLoop .. => "ControlFlowOutsideLoop"
  | unreachableCode => "UnreachableCode"
  | throwWithoutErrorType .. => "ThrowWithoutErrorType"
  | throwTypeMismatch .. => "ThrowTypeMismatch"
  | errorMemberNotFound .. => "ErrorMemberNotFound"
  | indexOutOfBounds .. => "IndexOutOfBounds"
  | invalidTypeWidth .. => "InvalidTypeWidth"
  | arithmeticOverflow .. => "ArithmeticOverflow"
  | circularTypeDependency .. => "CircularTypeDependency"
  | nonExhaustiveMatch .. => "NonExhaustiveMatch"
  | missingStructField .. => "MissingStructField"
  | invalidReference => "InvalidReference"
  | invalidParameterVisibility .. => "InvalidParameterVisibility"
  | invalidCast .. => "InvalidCast"
  | moduleNotFound .. => "ModuleNotFound"
  | internalError .. => "InternalError"

open Text in
def message : Problem → String
  | typeMismatch expected received =>
    "types do not match: expected " ++ expected ++ ", received " ++ received
  | cannotInferType subject => "cannot infer type of " ++ subject
  | unknownType name => "unknown type " ++ name ++ " found"
  | symbolNotFound name => "symbol " ++ quoted name ++ " not found"
  | symbolNotAccessible name =>
    "symbol " ++ quoted name ++ " is not accessible here"
  | symbolNotExported name module =>
    "symbol " ++ quoted name ++ " is not exported by module " ++ quoted module
  | duplicateSymbol name =>
    "symbol " ++ quoted name ++ " already declared in this scope"
  | undefinedIdentifier name => "undefined identifier " ++ quoted name
  | undefinedBuiltin name => "undefined builtin " ++ quoted name
  | invalidStaticAccess name detail =>
    "invalid static access to " ++ quoted name ++ ": " ++ detail
  | mutabilityMismatch name detail =>
    "cannot assign to " ++ quoted name ++ ": " ++ detail
  | arraySizeMismatch expected received =>
    "array size mismatch: expected " ++ toString expected ++ ", received " ++
      toString received
  | tooFewArguments expected received =>
    "too few arguments: expected " ++ toString expected ++ ", received " ++
      toString received
  | tooManyArguments expected received =>
    "too many arguments: expected " ++ toString expected ++ ", received " ++
      toString received
  | notCallable type => "value of type " ++ type ++ " is not callable"
  | missingReturnStatement function =>
    "function " ++ quoted function ++ " is missing a return statement"
  | returnOutsideFunction => "return statement outside of a function"
  | controlFlowOutsideLoop keyword => keyword ++ " outside of a loop"
  | unreachableCode => "unreachable code"
  | throwWithoutErrorType function =>
    "function " ++ quoted function ++ " throws but declares no error type"
  | throwTypeMismatch expected received =>
    "thrown error does not match: expected " ++ expected ++
      ", received " ++ received
  | errorMemberNotFound set member =>
    "error " ++ quoted member ++ " is not a member of " ++ set
  | indexOutOfBounds index length =>
    "index " ++ toString index ++ " out of bounds for length " ++
      toString length
  | invalidTypeWidth name => "invalid type width in " ++ name
  | arithmeticOverflow value type => "value " ++ value ++ " overflows " ++ type
  | circularTypeDependency name =>
    "type " ++ quoted name ++ " depends on itself"
  | nonExhaustiveMatch missing =>
    "match is not exhaustive, missing " ++ quotedList missing
  | missingStructField struct field =>
    "struct " ++ quoted struct ++ " is missing field " ++ quoted field
  | invalidReference =>
    "cannot take a reference to a value that is not stored anywhere"
  | invalidParameterVisibility name =>
    "parameter " ++ quoted name ++ " cannot be static or public"
  | invalidCast source target => "cannot cast " ++ source ++ " to " ++ target
  | moduleNotFound module => "module " ++ quoted module ++ " not found"
  | internalError message => "internal error: " ++ message

/-- How to mend the problem; empty where there is nothing to say. -/
def tip : Problem → String
  | typeMismatch expected received =>
    "Expected type `" ++ expected ++ "`, received `" ++ received ++ "`"
  | unknownType name => "Unknown type `" ++ name ++ "` found"
  | symbolNotAccessible name =>
    "`" ++ name ++ "` is private, mark it `pub` to use it here"
  | symbolNotExported name module =>
    "`" ++ name ++ "` is not public in module `" ++ module ++ "`"
  | invalidStaticAccess name _ =>
    "Access `" ++ name ++
      "` through an instance, or through the type if it is static"
  | arraySizeMismatch expected received =>
    "Expected " ++ toString expected ++ " elements, received " ++
      toString received
  | tooFewArguments expected received | tooManyArguments expected received =>
    "Expected " ++ toString expected ++ " arguments, received " ++
      toString received
  | missingReturnStatement function =>
    "Add a `return` to `" ++ function ++ "` or declare its return type `void`"
  | throwWithoutErrorType function =>
    "Declare an error type on `" ++ function ++ "`, e.g. `!err`"
  | circularTypeDependency name =>
    "Break the cycle through `" ++ name ++ "` with a pointer or an optional"
  | nonExhaustiveMatch missing =>
    "Add cases for " ++ ", ".intercalate missing ++ " or a default case"
  | invalidReference =>
    "Store the value in a variable before taking its address"
  | internalError _ => "This is a bug in the checker, not in the program"
  | _ => ""

end Problem

structure Finding where
  problem : Problem
  span : Span
  deriving DecidableEq, Repr, Inhabited

namespace Finding

def fault (message : String) (span : Span) : Finding :=
  ⟨.internalError message, span⟩

/-- The finding, wrapped as an internal error unless it is one. -/
def asInternal (finding : Finding) : Finding :=
  match finding.problem with
  | .internalError _ => finding
  | problem => fault problem.message finding.span

end Finding
end StaticCheck
