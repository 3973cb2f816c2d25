import LaneBoost.Backend
import LaneBoost.Number.Arithmetic

/-!
# Comparing the results of two zones

Two results agree when they differ by no more than a tolerance, taken absolutely for small numbers
and relative to the larger one otherwise.
-/
namespace LaneBoost

/-- Tolerances for plain arithmetic and for results that pass through `exp` or `ln`. -/
structure Tolerance where
  arithmetic : Binary64
  transcendental : Binary64
  deriving DecidableEq, Repr

namespace Tolerance

/-- The number nearest to `10 ^ -n`. -/
def tenth (n : Nat) : Binary64 := Binary.ofRatio false 1 (Nat.pow 10 n)

def standard : Tolerance := ⟨tenth 6, tenth 5⟩

/-- Only equal results agree. -/
def strict : Tolerance := ⟨0, 0⟩

/-- For long sums. -/
def relaxed : Tolerance := ⟨tenth 5, tenth 4⟩

/-- A backend has to agree exactly with itself. -/
def between (t : Tolerance) (a b : Backend) (transcendental : Bool) : Binary64 :=
  if a = b then 0 else if transcendental then t.transcendental else t.arithmetic

/-- Equal numbers and two NaNs agree. Other pairs are compared by their difference, as it is rounded,
against the tolerance scaled by the largest of one and the two magnitudes. -/
def close (a b tolerance : Binary64) : Bool :=
  a.same b || (a.isNaN && b.isNaN) ||
    (a - b).abs.atMost (tolerance * (a.abs.larger b.abs).larger 1)

/-- Lists of one length whose entries agree in pairs. -/
def allClose (xs ys : List Binary64) (tolerance : Binary64) : Bool :=
  xs.length == ys.length && (xs.zip ys).all fun p => close p.1 p.2 tolerance

end Tolerance

end LaneBoost
