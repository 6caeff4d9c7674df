import StaticCheck.Rules.Special

/-!
# Matches

The patterns of a match against its subject.  A match on an enum or a boolean
without a default has to cover every value.
-/

namespace StaticCheck

/-- The variant that a pattern names: `Red`, `Color.Red` or `Color.Rgb(c)`. -/
def Expr.variantName? : Expr → Option String
  | ⟨_, _, .paren inner⟩ => inner.variantName?
  | ⟨_, _, .ident name⟩ => some name
  | ⟨_, _, .member _ name⟩ => some name
  | ⟨_, _, .call callee _⟩ => callee.variantName?
  | _ => none

def Expr.boolValue? (expr : Expr) : Option Bool :=
  match expr.unparen.kind with
  | .literal (.bool value) => some value
  | _ => none

/-- What the patterns of a match leave uncovered, in the order of
declaration. -/
def missingCases (subject : Ty) (patterns : List Expr) : List String :=
  match subject with
  | .enum enum =>
    let covered := patterns.filterMap Expr.variantName?
    (enum.variants.map (·.name)).filter fun name => !covered.contains name
  | subject =>
    if subject.isBool then
      let covered := patterns.filterMap Expr.boolValue?
      ([true, false].filter fun value => !covered.contains value).map
        fun value =>
        if value then "true" else "false"
    else []

namespace Rule

def checkVariantPattern (enum : EnumTy) (pattern : Expr) : Rule Unit := do
  match pattern.variantName? with
  | some name =>
    if (enum.variant? name).isNone then
      report (.symbolNotFound (enum.name ++ "." ++ name)) pattern.span
  | none => reportMismatch enum.name "pattern" pattern.span

def checkPattern (subject : Option Ty) (pattern : Expr) : Rule Unit := do
  match subject with
  | some (.enum enum) => checkVariantPattern enum pattern
  | _ =>
    if pattern.isRange then discard (askType pattern)
    else
      let some subject := subject | return ()
      let some ty ← inferExpecting pattern (some subject) | return ()
      if !(← isCompatible subject ty (some pattern)) then
        reportMismatch subject.text ty.text pattern.span

def checkCase (subject : Option Ty) (case : MatchCase) : Rule Unit := do
  forEach (checkPattern subject) case.patterns
  checkBranch case.body

def checkBranches (subject : Option Ty) (cases : List MatchCase)
    (default : Option Stmt) (span : Span) : Rule Unit := do
  forEach (checkCase subject) cases
  forEach checkBranch default.toList
  if default.isNone then
    if let some ty := subject then
      let missing := missingCases ty (cases.flatMap (·.patterns))
      if !missing.isEmpty then report (.nonExhaustiveMatch missing) span

def checkMatch (subject : Expr) (cases : List MatchCase) (default : Option Stmt)
    (span : Span) : Rule Unit := do
  match ← askType subject with
  | some ty => checkBranches (some (← normalize ty)) cases default span
  | none => checkBranches none cases default span

end Rule
end StaticCheck
