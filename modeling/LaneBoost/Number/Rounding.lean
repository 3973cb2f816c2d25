import LaneBoost.Number.Format

/-!
# Rounding to nearest, ties to even

An exact positive value is given as a quotient of natural numbers, counted in units of the target
format. It is rounded once, on the grid that its leading bit selects.
-/
namespace LaneBoost

/-- The whole number nearest to `num / den`; half way between two, the even one. -/
def halfEven (num den : Nat) : Nat :=
  let q := num / den
  let r := num % den
  if 2 * r < den ∨ (2 * r = den ∧ q % 2 = 0) then q else q + 1

/-- Rounds `num / den` units to a count of units with at most `fractionBits + 1` leading bits. -/
def Format.roundUnits (φ : Format) (num den : Nat) : Nat :=
  let shift := (num / den).log2 - φ.fractionBits
  halfEven num (den <<< shift) <<< shift

namespace Binary

variable {φ : Format}

/-- The number nearest to `num / den` units. -/
def ofUnits (negative : Bool) (num den : Nat) : Binary φ :=
  ofMagnitude negative (φ.magnitude (φ.roundUnits num den))

/-- The number nearest to `num / den`. -/
def ofRatio (negative : Bool) (num den : Nat) : Binary φ :=
  ofUnits negative (num <<< φ.scale) den

def ofNat (n : Nat) : Binary φ := ofRatio false n 1

def ofInt (i : Int) : Binary φ := ofRatio (decide (i < 0)) i.natAbs 1

/-- The number of another format nearest to `x`. From a narrower format it is `x` itself. -/
def convert (ψ : Format) (x : Binary φ) : Binary ψ :=
  match x.toDatum with
  | .nan => nan
  | .infinite s => infinite s
  | .finite s u => ofRatio s u (twoPow φ.scale)

end Binary

end LaneBoost
