import StaticCheck.Rules.Flow

/-!
# Returns and throws

Both are checked against the frame of the function around them, and recorded in
it.
-/

namespace StaticCheck

/-- The errors that a throw may raise: the named one for `Set.Name`, otherwise
the whole set. -/
def thrownErrors (value : Expr) : Ty → List String
  | .errors names =>
    match value.unparen.kind with
    | .member _ name => if names.contains name then [name] else names
    | _ => names
  | _ => []

/-- The error of the function itself that a value names, as in
`selferr.Name`. -/
def Expr.ownError? (value : Expr) : Option String :=
  match value.unparen.kind with
  | .member base name =>
    if base.identName? == some selfErrName then some name else none
  | _ => none

namespace Rule

def updateFrame (f : Frame → Frame) : Rule Unit :=
  update fun s => { s with frame := s.frame.map f }

def checkReturned (expected : Ty) (source : Ty) (value : Expr) : Rule Unit := do
  let resolved ← normalize expected
  if source.isMeta && !resolved.isMeta then
    reportMismatch expected.text "type" value.span
  else discard (checkFlow expected source value value.span)

def checkBareReturn (expected : Option Ty) (span : Span) : Rule Unit := do
  let some expected := expected | return ()
  if !(← normalize expected).isVoid then
    reportMismatch expected.text "void" span

def checkReturn (value : Option Expr) (span : Span) : Rule Unit := do
  match ← frame? with
  | none =>
    report .returnOutsideFunction span
    forEach (fun value => discard (askType value)) value.toList
  | some frame =>
    updateFrame fun frame => { frame with hasReturn := true }
    let some value := value | checkBareReturn frame.result span
    let some source ← inferExpecting value frame.result | return ()
    let some expected := frame.result | return ()
    checkReturned expected source value

def reportThrown (expected : String) (thrown : Ty) (value : Expr) : Rule Unit :=
  report (.throwTypeMismatch expected thrown.text) value.span

def checkRaised (frame : Frame) (thrown : Ty) (value : Expr) : Rule Unit := do
  let some errorType := frame.errorType | return ()
  let .errors allowed ← normalize errorType | return ()
  let raised := thrownErrors value thrown
  if raised.isEmpty || raised.any (fun name => !allowed.contains name) then
    reportThrown (Ty.errors allowed).text thrown value

def checkThrown (frame : Frame) (mode : ErrorMode) (thrown : Ty)
    (value : Expr) : Rule Unit := do
  match mode with
  | .anyError =>
    match thrown with
    | .errors _ => return ()
    | thrown => if !thrown.isErr then reportThrown "err" thrown value
  | .selfGroup =>
    if !(value.ownError?.any frame.ownErrors.contains) then
      let group :=
        selfErrName ++ "\x7b" ++ ", ".intercalate frame.ownErrors ++ "\x7d"
      reportThrown group thrown value
  | .namedSet | .group => checkRaised frame thrown value

/-- Checks a throw.  Outside a function with an error clause nothing can be
thrown. -/
def checkThrow (value : Expr) (span : Span) : Rule Unit := do
  let frame ← frame?
  match frame, frame.bind (·.errorMode) with
  | some frame, some mode =>
    updateFrame fun frame => { frame with hasThrow := true }
    let some thrown ← askType value | return ()
    checkThrown frame mode (← normalize thrown) value
  | frame, _ =>
    report (.throwWithoutErrorType ((frame.map (·.name)).getD "<module>")) span
    discard (askType value)

end Rule
end StaticCheck
