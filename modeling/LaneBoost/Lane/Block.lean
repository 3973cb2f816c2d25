import LaneBoost.Lane.Vector

/-!
# Evenly spaced lane vectors

A block names the lane vectors of a buffer that start at `base`, `base + stride`, and so on.
-/
namespace LaneBoost

structure Block where
  base : Nat
  stride : Nat
  deriving DecidableEq, Repr

namespace Block

variable {α : Type} {n : Nat}

/-- The vector number `k` of a block. -/
def load [Zero α] (b : Block) (memory : Array α) (k : Nat) : Lanes α n :=
  Lanes.load memory (b.base + k * b.stride)

/-- Replaces the vector number `k` of a block. -/
def store (b : Block) (memory : Array α) (k : Nat) (v : Lanes α n) : Array α :=
  v.store memory (b.base + k * b.stride)

end Block

end LaneBoost
