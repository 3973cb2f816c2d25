import LaneBoost.Lane.Block
import LaneBoost.Objective.Basic

/-!
# The log loss of several classes

The scores of a lane group lie in a block, one vector for each class. The largest score is taken off
before exponentials are formed, so none of them overflows. The exponentials are kept in a scratch
block until their total is known; gradients and hessians are written from there.
-/
namespace LaneBoost

/-- What a call computes beside the new scores. -/
structure Wanted where
  gradients : Bool
  hessians : Bool
  metric : Bool
  deriving DecidableEq, Repr

namespace Softmax

variable {F : Type} [Arithmetic F] {w n : Nat}

/-- The largest score of each lane; of equal ones the first. -/
def peak (classes : Nat) (score : Nat → Lanes F n) : Lanes F n :=
  (List.range' 1 (classes - 1)).foldl
    (fun top k => Lanes.whereLess top (score k) (score k) top) (score 0)

/-- What is summed over the classes. -/
structure Sums (F : Type) (n : Nat) where
  scratch : Array F
  /-- Sum of the exponentials so far. -/
  total : Lanes F n
  /-- Score of the target, once its class has been passed. -/
  targetScore : Lanes F n

/-- The word of a class, in every lane. -/
def classNumber (k : Nat) : Lanes (BitVec w) n := Lanes.splat (BitVec.ofNat w k)

/-- Adds the exponential of one class. -/
def Sums.add (metric : Bool) (score : Nat → Lanes F n) (top : Lanes F n)
    (target : Lanes (BitVec w) n) (block : Block) (s : Sums F n) (k : Nat) : Sums F n :=
  let e := (score k - top).exp
  { scratch := block.store s.scratch k e
    total := s.total + e
    targetScore :=
      if metric then Lanes.whereEqual target (classNumber k) (score k) s.targetScore
      else s.targetScore }

/-- The sums over all classes. -/
def sums (classes : Nat) (metric : Bool) (score : Nat → Lanes F n) (top : Lanes F n)
    (target : Lanes (BitVec w) n) (block : Block) (scratch : Array F) : Sums F n :=
  (List.range classes).foldl (Sums.add metric score top target block) ⟨scratch, 0, 0⟩

/-- Writes the gradient of one class and, if they are wanted, its hessian. -/
def writeClass (hessians : Bool) (target : Lanes (BitVec w) n) (inverse : Lanes F n)
    (scratchBlock : Block) (scratch : Array F) (gradientBlock hessianBlock : Block)
    (gradients : Array F) (k : Nat) : Array F :=
  let p := scratchBlock.load scratch k * inverse
  let y : Lanes F n := Lanes.whereEqual target (classNumber k) 1 0
  let gradients := gradientBlock.store gradients k (p - y)
  if hessians then hessianBlock.store gradients k (p * (1 - p)) else gradients

/-- What a call leaves behind for a lane group. -/
structure Result (F : Type) (n : Nat) where
  gradients : Array F
  scratch : Array F
  /-- What the group adds to the metric; zero when that is not wanted. -/
  term : Lanes F n

/-- Gradients, hessians and metric of one lane group, as far as they are wanted. -/
def update (classes : Nat) (wanted : Wanted) (scores : Array F) (scoreBlock : Block)
    (target : Lanes (BitVec w) n) (gradients : Array F) (gradientBlock hessianBlock : Block)
    (scratch : Array F) (scratchBlock : Block) : Result F n :=
  let score := fun k => scoreBlock.load scores k
  let top := peak classes score
  let s := sums classes wanted.metric score top target scratchBlock scratch
  let gradients :=
    if wanted.gradients then
      (List.range classes).foldl
        (writeClass wanted.hessians target (1 / s.total) scratchBlock s.scratch gradientBlock
          hessianBlock)
        gradients
    else gradients
  { gradients
    scratch := s.scratch
    term := if wanted.metric then s.total.ln + top - s.targetScore else 0 }

end Softmax

end LaneBoost
