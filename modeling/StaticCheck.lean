import StaticCheck.Proofs.Blindness
import StaticCheck.Proofs.Cycles
import StaticCheck.Proofs.Restoration
import StaticCheck.Proofs.Trials
import StaticCheck.Proofs.Typing
import StaticCheck.Proofs.Cache.Room
import StaticCheck.Proofs.Faultless
import StaticCheck.Proofs.Reachability
import StaticCheck.Proofs.Renaming.Program
import StaticCheck.Proofs.Parentheses.Comparison
import StaticCheck.Proofs.Promotion
import StaticCheck.Proofs.Nominal
import StaticCheck.Proofs.Arity
import StaticCheck.Proofs.MemberWrites
import StaticCheck.Proofs.Matches
import StaticCheck.Proofs.Throws
import StaticCheck.Proofs.ExactFolding
import StaticCheck.Proofs.Unreachable
import StaticCheck.Proofs.LayoutResolution
import StaticCheck.Proofs.Silence
import StaticCheck.Proofs.Storage
