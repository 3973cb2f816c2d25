import LaneBoost.Config
import LaneBoost.Status
import LaneBoost.Zone

/-!
# Objectives

An objective is the loss that boosting minimises, together with the facts about it that a caller may
ask for. Squared error has one number as its target; the log losses have a class.
-/
namespace LaneBoost

/-- How scores become predictions. A handle that serves no objective has an unset link. -/
inductive Link where
  | unset
  | identity
  | logit
  | multinomialLogit
  | log
  deriving DecidableEq, Repr

namespace Link

def label : Link → String
  | unset => "Error"
  | identity => "Identity"
  | logit => "Logit"
  | multinomialLogit => "Mlogit"
  | log => "Log"

def code : Link → Nat
  | unset => 0
  | identity => 1
  | logit => 2
  | multinomialLogit => 3
  | log => 4

end Link

/-- Factors on the learning rate and on the gain, by the way of boosting. -/
structure Adjustments where
  privateRate : Binary64
  gradientRate : Binary64
  hessianRate : Binary64
  gradientGain : Binary64
  hessianGain : Binary64
  deriving DecidableEq, Repr

namespace Adjustments

/-- One factor for all. -/
def uniform (x : Binary64) : Adjustments := ⟨x, x, x, x, x⟩

/-- The hessian of a log loss is a quarter at most, and boosting on gradients alone makes up for it. -/
def logLoss : Adjustments :=
  ⟨Binary.ofNat 4, Binary.ofNat 4, 1, Binary.ofNat 4, 1⟩

def toList (a : Adjustments) : List Binary64 :=
  [a.privateRate, a.gradientRate, a.hessianRate, a.gradientGain, a.hessianGain]

end Adjustments

inductive Objective where
  /-- Root of the mean squared error. -/
  | squaredError
  /-- Log loss of two classes, on one score. -/
  | binary (differentialPrivacy : Bool)
  /-- Log loss of several classes, on one score for each. -/
  | multiclass (classes : Nat) (differentialPrivacy : Bool)
  deriving DecidableEq, Repr

namespace Objective

/-- Squared error has exactly one output. -/
def squaredError? (c : Config) : Except Failure Objective :=
  if c.outputs = 1 then .ok squaredError else .error .illegalParameter

/-- Log loss has an output for each of two or more classes. -/
def logLoss? (c : Config) : Except Failure Objective :=
  if c.outputs < 2 then .error .illegalParameter
  else if c.outputs = 2 then .ok (binary c.differentialPrivacy)
  else .ok (multiclass c.outputs c.differentialPrivacy)

def link : Objective → Link
  | squaredError => .identity
  | binary _ => .logit
  | multiclass _ _ => .multinomialLogit

def isSquaredError : Objective → Bool
  | squaredError => true
  | _ => false

/-- Whether larger metrics are better. They are losses, so none is. -/
def maximizesMetric : Objective → Bool
  | _ => false

/-- Scores of a sample. -/
def scores : Objective → Nat
  | squaredError => 1
  | binary _ => 1
  | multiclass classes _ => classes

/-- Whether hessians vary. Those of squared error are constant, and none are shown under
differential privacy. -/
def hasHessian : Objective → Bool
  | squaredError => false
  | binary differentialPrivacy => !differentialPrivacy
  | multiclass _ differentialPrivacy => !differentialPrivacy

/-- The parameter of the link. No link here takes one, which a NaN says. -/
def linkParameter : Objective → Binary64
  | _ => Binary.nan

def adjustments : Objective → Adjustments
  | squaredError => .uniform 1
  | binary _ => .logLoss
  | multiclass _ _ => .logLoss

/-- Factor between the gradients given and those of the loss. -/
def gradientConstant : Objective → Binary64
  | squaredError => Binary.ofNat 2
  | binary _ => 1
  | multiclass _ _ => 1

/-- Factor between the hessians given and those of the loss. -/
def hessianConstant : Objective → Binary64
  | squaredError => Binary.ofNat 2
  | binary _ => 1
  | multiclass _ _ => 1

/-- The metric as it is reported, from the mean over the samples. -/
def finishMetric : Objective → Binary64 → Binary64
  | squaredError, x => x.sqrt
  | binary _, x => x
  | multiclass _ _, x => x

/-- Whether a target is a finite number or one of the classes. -/
def acceptsTarget {F : Type} {w lanes : Nat} (m : Machine F w lanes) (target : BitVec w) :
    Objective → Bool
  | squaredError => (m.widen (m.ofCell target)).isFinite
  | binary _ => decide (target.toNat < 2)
  | multiclass classes _ => decide (target.toNat < classes)

end Objective

end LaneBoost
