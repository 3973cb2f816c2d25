import LaneBoost.Number.Arithmetic

/-!
# Exponential and natural logarithm

Both are computed in whole numbers that count parts of size `2 ^ -p`, with four times as many bits
as a number of the format has. Outside the arguments that are settled exactly, neither function
takes a value half way between two numbers, and the closest approach in the formats in use needs
about a hundred bits; so the one rounding at the end gives the correctly rounded result.
-/
namespace LaneBoost

namespace FixedPoint

/-- Adds `power`, `power * x / 1`, `power * x² / (1 * 2)`, … in parts of `2 ^ -p`, until a term
vanishes. -/
def exponentialTail (p : Nat) (x : Nat) : (fuel n power total : Nat) → Nat
  | 0, _, _, total => total
  | fuel + 1, n, power, total =>
    if power = 0 then total
    else exponentialTail p x fuel (n + 1) (((power * x) >>> p) / n) (total + power)

/-- `e ^ x` for `x` from 0 up to 1, both in parts of `2 ^ -p`. -/
def exponential (p x : Nat) : Nat := exponentialTail p x (p + 2) 1 (1 <<< p) 0

/-- Adds `power / n`, `power * square / (n + 2)`, … in parts of `2 ^ -p`, until a power vanishes. -/
def logarithmTail (p : Nat) (square : Nat) : (fuel n power total : Nat) → Nat
  | 0, _, _, total => total
  | fuel + 1, n, power, total =>
    if power = 0 then total
    else logarithmTail p square fuel (n + 2) ((power * square) >>> p) (total + power / n)

/-- `ln ((den + num) / (den - num))` for `num` below `den`, in parts of `2 ^ -p`: twice the sum of
the odd powers of the quotient over their exponents. -/
def logRatio (p num den : Nat) : Nat :=
  let z := (num <<< p) / den
  2 * logarithmTail p ((z * z) >>> p) (p + 2) 1 z 0

/-- The logarithm of two, in parts of `2 ^ -p`. -/
def logTwo (p : Nat) : Nat := logRatio p 1 3

end FixedPoint

namespace Binary

variable {φ : Format}

/-- Bits after the point in the two functions of this module. -/
def workingBits (φ : Format) : Nat := 4 * φ.width

/-- Splits the exponent into a multiple `k` of the logarithm of two and a rest below it; the result
is the exponential of the rest, shifted by `k`. Exponents of `2 ^ exponentBits` and more are beyond
every finite result. -/
def exp (x : Binary φ) : Binary φ :=
  match x.toDatum with
  | .nan => nan
  | .infinite s => if s then zero false else infinite false
  | .finite s u =>
    if u = 0 then 1
    else if twoPow (φ.scale + φ.exponentBits) ≤ u then (if s then zero false else infinite false)
    else
      let p := workingBits φ
      let exponent := signed s ((u <<< p) >>> φ.scale)
      let two : Int := FixedPoint.logTwo p
      let k := exponent / two
      let rest := (exponent - k * two).toNat
      let power := 2 * FixedPoint.exponential p rest + 1
      let shift := k + φ.scale - (p + 1 : Nat)
      ofUnits false (power <<< shift.toNat) (1 <<< (-shift).toNat)

/-- Writes the argument as `2 ^ k` times a factor between the square roots of one half and of two,
so that the two parts of the logarithm do not cancel. -/
def ln (x : Binary φ) : Binary φ :=
  match x.toDatum with
  | .nan => nan
  | .infinite s => if s then nan else infinite false
  | .finite s u =>
    if u = 0 then infinite true
    else if s then nan
    else if u = twoPow φ.scale then zero false
    else
      let p := workingBits φ
      let low := u.log2
      let top := if twoPow (2 * low + 1) ≤ u * u then low + 1 else low
      let one := twoPow top
      let factor :=
        if one ≤ u then signed false (FixedPoint.logRatio p (u - one) (u + one))
        else signed true (FixedPoint.logRatio p (one - u) (u + one))
      let result := ((top : Int) - φ.scale) * FixedPoint.logTwo p + factor
      ofRatio (decide (result < 0)) result.natAbs (twoPow p)

end Binary

end LaneBoost
