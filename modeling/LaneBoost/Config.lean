/-!
# What is asked of an objective
-/
namespace LaneBoost

/-- Number of model outputs, and whether boosting keeps differential privacy. -/
structure Config where
  outputs : Nat := 1
  differentialPrivacy : Bool := false
  deriving DecidableEq, Repr

namespace Config

/-- One output. -/
def regression : Config := {}

/-- One output for each class. -/
def classification (classes : Nat) : Config := { outputs := classes }

def withDifferentialPrivacy (c : Config) (on : Bool) : Config :=
  { c with differentialPrivacy := on }

end Config

end LaneBoost
