import StaticCheck.Rules.Infer
import StaticCheck.Rules.Validate

/-!
# Judges of limited depth

The judge of depth `n + 1` applies the rules with the judge of depth `n`.  A
judge of depth zero knows nothing and changes nothing.  Its answers cannot be
told from others, but a run that never asks it is the same over every other
judge in its place.
-/

namespace StaticCheck
namespace Judge

open Rule

def exhausted : Judge where
  infer _ := return none
  validate _ := return .ok ()
  resolve _ _ _ := return none
  compatible _ _ := return false
  castable _ _ := return false
  checkValue _ _ := return ()
  peel ty := return (0, ty)

/-- The judge that asks `last` what is nested below `n` questions. -/
def above (last : Judge) : Nat → Judge
  | 0 => last
  | n + 1 =>
    { infer := fun expr s => inferExpr expr (last.above n) s
      validate := fun stmt s => validateStmt stmt (last.above n) s
      resolve := fun ty span loud s => resolveTy span loud ty (last.above n) s
      compatible :=
        fun target source s => Rule.compatible target source (last.above n) s
      castable := fun target source s => canCast target source (last.above n) s
      checkValue :=
        fun target value s => checkInitializer target value (last.above n) s
      peel := fun ty s => peelOptionals ty (last.above n) s }

/-- The judge whose answers nest at most `n` questions. -/
def limited (n : Nat) : Judge := exhausted.above n

end Judge
end StaticCheck
