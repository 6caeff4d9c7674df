import StaticCheck.Lang.CharLiteral
import StaticCheck.Rules.Compatible

/-!
# Values that flow into typed places

Initializers, arguments, results and assigned values are checked for
compatibility and, if they are integers of known value, for range.  An array
literal is checked element by element after its length.
-/

namespace StaticCheck
namespace Rule

/-- Reports an integer of known value that the integer type it flows into cannot
hold. -/
def checkRange (target source : Ty) (span : Span) : Rule Unit := do
  let some value := source.knownInt? | return ()
  match ← normalize target with
  | .prim (.int signed bits) =>
    if !fitsInt value signed bits then
      report (.arithmeticOverflow (toString value) target.text) span
  | _ => return ()

/-- Checks that a value of a known type fits its place; `span` is where a
mismatch is reported. -/
def checkFlow (target source : Ty) (value : Expr) (span : Span) :
    Rule Bool := do
  if ← isCompatible target source (some value) then
    checkRange target source value.span
    return true
  else
    reportMismatch target.text source.text span
    return false

/-- Infers a value for a place of the given type and checks that it fits. -/
def checkPassed (target : Ty) (value : Expr) : Rule Unit := do
  let some source ← inferExpecting value (some target) | return ()
  discard (checkFlow target source value value.span)

def checkInitializer (target : Ty) (value : Expr) : Rule Unit := do
  let resolved ← normalize target
  match value.unparen.kind, resolved with
  | .literal (.array elements), .array element extent _ =>
    if let .fixed length := extent then
      if elements.length != length then
        report (.arraySizeMismatch length elements.length) value.span
        return ()
    forEach (askValue element) elements
  | .literal (.char text), .prim (.int false bits) =>
    if let some code := CharLiteral.code? text then
      if !fitsInt code false bits then
        report (.arithmeticOverflow ("'" ++ text ++ "'") resolved.text)
          value.span
  | _, _ => checkPassed target value

end Rule
end StaticCheck
