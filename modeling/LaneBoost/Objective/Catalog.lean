import LaneBoost.Name
import LaneBoost.Objective.Basic

/-!
# Objectives by name
-/
namespace LaneBoost

/-- The names that objectives are registered under. -/
inductive Registration where
  | rmse
  | logLoss
  deriving DecidableEq, Repr

namespace Registration

def label : Registration → String
  | rmse => "rmse"
  | logLoss => "log_loss"

/-- In the order in which a name is looked up. -/
def all : List Registration := [rmse, logLoss]

/-- Whether a trimmed text is the name. -/
def isNamed (r : Registration) (text : List Char) : Bool :=
  Name.sameLetters r.label.toList text

/-- The objective for a configuration. -/
def create? (c : Config) : Registration → Except Failure Objective
  | rmse => Objective.squaredError? c
  | logLoss => Objective.logLoss? c

/-- The name that some bytes spell. -/
def find? (bytes : List UInt8) : Option Registration := do
  let text ← Name.decode? bytes
  all.find? (·.isNamed (Name.trim text))

end Registration

end LaneBoost
