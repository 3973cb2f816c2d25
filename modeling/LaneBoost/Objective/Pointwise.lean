import LaneBoost.Objective.Basic

/-!
# Losses of one score

The loss of a sample, its gradient and its hessian depend on the sample's score and target alone.
They are computed on whole lane vectors; `termAt`, `gradientAt` and `hessianAt` are the same formulas
for one sample.
-/
namespace LaneBoost

/-- `1 / (1 + e ^ -x)`. -/
def sigmoid {α : Type} [One α] [Add α] [Div α] [Neg α] (exp : α → α) (x : α) : α :=
  1 / (1 + exp (-x))

namespace Lanes

variable {F : Type} [Arithmetic F] {n : Nat}

/-- `ln (1 + e ^ x)`, with an exponent that is never positive. -/
def softplus (x : Lanes F n) : Lanes F n :=
  whereLess x 0 0 x + (1 + (-x.abs).exp).ln

end Lanes

namespace Arithmetic

variable {F : Type} [Arithmetic F]

/-- `ln (1 + e ^ x)`, with an exponent that is never positive. -/
def softplus (x : F) : F := (if less x 0 then 0 else x) + ln (1 + exp (-abs x))

end Arithmetic

@[simp] theorem Lanes.get_sigmoid {F : Type} [Arithmetic F] {n : Nat} (x : Lanes F n)
    (l : Fin n) : (sigmoid Lanes.exp x).get l = sigmoid Arithmetic.exp (x.get l) := by
  simp [sigmoid]

@[simp] theorem Lanes.get_softplus {F : Type} [Arithmetic F] {n : Nat} (x : Lanes F n)
    (l : Fin n) : x.softplus.get l = Arithmetic.softplus (x.get l) := by
  simp [Lanes.softplus, Arithmetic.softplus]

/-- Squared error, and the log loss of two classes. -/
inductive Pointwise where
  | squaredError
  | logistic
  deriving DecidableEq, Repr

namespace Pointwise

variable {F : Type} [Arithmetic F] {w lanes : Nat}

/-- A target as a number: the cell itself, or the number of the class. -/
def targetAt (m : Machine F w lanes) : Pointwise → BitVec w → F
  | squaredError => m.ofCell
  | logistic => m.ofWord

variable (m : Machine F w lanes) (score : Lanes F lanes) (target : Lanes (BitVec w) lanes)

def targets (p : Pointwise) : Lanes F lanes := target.map (p.targetAt m)

/-- What a sample adds to the metric. The logistic loss looks at the score from the side of the
target: `(1 - y) - y` is 1 for class 0 and -1 for class 1. -/
def term : Pointwise → Lanes F lanes
  | squaredError =>
    let error := score - squaredError.targets m target
    error * error
  | logistic =>
    let y := logistic.targets m target
    (score * (1 - y - y)).softplus

def gradient : Pointwise → Lanes F lanes
  | squaredError => score - squaredError.targets m target
  | logistic => sigmoid Lanes.exp score - logistic.targets m target

def hessian : Pointwise → Lanes F lanes
  | squaredError => 1
  | logistic =>
    let p := sigmoid Lanes.exp score
    p * (1 - p)

/-- The term of one sample. -/
def termAt (p : Pointwise) (score : F) (target : BitVec w) : F :=
  let y := p.targetAt m target
  match p with
  | squaredError => (score - y) * (score - y)
  | logistic => Arithmetic.softplus (score * (1 - y - y))

/-- The gradient of one sample. -/
def gradientAt (p : Pointwise) (score : F) (target : BitVec w) : F :=
  let y := p.targetAt m target
  match p with
  | squaredError => score - y
  | logistic => sigmoid Arithmetic.exp score - y

/-- The hessian of one sample. -/
def hessianAt (p : Pointwise) (score : F) : F :=
  match p with
  | squaredError => 1
  | logistic => sigmoid Arithmetic.exp score * (1 - sigmoid Arithmetic.exp score)

@[simp] theorem get_term (p : Pointwise) (l : Fin lanes) :
    (p.term m score target).get l = p.termAt m (score.get l) (target.get l) := by
  cases p <;> simp [term, termAt, targets]

@[simp] theorem get_gradient (p : Pointwise) (l : Fin lanes) :
    (p.gradient m score target).get l = p.gradientAt m (score.get l) (target.get l) := by
  cases p <;> simp [gradient, gradientAt, targets]

@[simp] theorem get_hessian (p : Pointwise) (l : Fin lanes) :
    (p.hessian score).get l = p.hessianAt (score.get l) := by
  cases p <;> simp [hessian, hessianAt]

end Pointwise

end LaneBoost
