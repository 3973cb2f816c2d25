import LaneBoost.Number.Exponential

/-!
# The arithmetic of one lane

The kernels use a number only through these operations, so they can be read over the floating-point
formats and over an ordered field alike.
-/
namespace LaneBoost

class Arithmetic (F : Type) extends Zero F, One F, Add F, Sub F, Mul F, Div F, Neg F where
  abs : F → F
  sqrt : F → F
  exp : F → F
  ln : F → F
  /-- Ordered comparison. -/
  less : F → F → Bool

instance (φ : Format) : Arithmetic (Binary φ) where
  abs := Binary.abs
  sqrt := Binary.sqrt
  exp := Binary.exp
  ln := Binary.ln
  less := Binary.less

end LaneBoost
