import LaneBoost.TwoPow

/-!
# Binary floating-point numbers

A number of a format is its bit pattern: a sign, an exponent field and a fraction field. Its
*magnitude* is the pattern without the sign. Magnitudes count upwards through the subnormal and the
normal numbers to infinity and then the NaNs, so they order the numbers.

Every finite value is a whole number of *units*, the unit being the least positive number of the
format. Sums of finite values are therefore exact natural numbers before they are rounded, and no
other representation of an exact value is needed.
-/
namespace LaneBoost

/-- Widths of the two fields that follow the sign bit. -/
structure Format where
  exponentBits : Nat
  fractionBits : Nat
  deriving DecidableEq, Repr

namespace Format

/-- The 32-bit interchange format. -/
def single : Format := ⟨8, 23⟩

/-- The 64-bit interchange format. -/
def double : Format := ⟨11, 52⟩

/-- Bits of the whole pattern. -/
def width (φ : Format) : Nat := 1 + φ.exponentBits + φ.fractionBits

/-- Bytes of the whole pattern. -/
def bytes (φ : Format) : Nat := φ.width / 8

/-- The number one is `2 ^ scale` units. -/
def scale (φ : Format) : Nat := twoPow (φ.exponentBits - 1) + φ.fractionBits - 2

/-- The magnitude of infinity; the magnitudes above it are those of the NaNs. -/
def infinity (φ : Format) : Nat := (twoPow φ.exponentBits - 1) * twoPow φ.fractionBits

/-- Units of a finite magnitude. A zero exponent field marks the subnormal numbers, the others have
a leading one before the fraction. -/
def units (φ : Format) (magnitude : Nat) : Nat :=
  let exponent := magnitude / twoPow φ.fractionBits
  let fraction := magnitude % twoPow φ.fractionBits
  if exponent = 0 then fraction else (twoPow φ.fractionBits + fraction) * twoPow (exponent - 1)

/-- Magnitude of a value that the format represents, or infinity when it is too large. Adding the
shifted units to the exponent field carries their leading one into it. -/
def magnitude (φ : Format) (units : Nat) : Nat :=
  let shift := units.log2 - φ.fractionBits
  min (shift * twoPow φ.fractionBits + units / twoPow shift) φ.infinity

end Format

/-- A number of the format `φ`. -/
structure Binary (φ : Format) where
  bits : BitVec φ.width
  deriving DecidableEq, Repr

abbrev Binary32 := Binary .single
abbrev Binary64 := Binary .double

/-- What a bit pattern stands for. A finite value is a sign and a count of units. -/
inductive Datum where
  | nan
  | infinite (negative : Bool)
  | finite (negative : Bool) (units : Nat)
  deriving DecidableEq, Repr

namespace Binary

variable {φ : Format}

/-- The pattern with the given sign and magnitude. -/
def ofMagnitude (negative : Bool) (magnitude : Nat) : Binary φ :=
  ⟨BitVec.ofNat φ.width ((if negative then twoPow (φ.width - 1) else 0) + magnitude)⟩

def zero (negative : Bool) : Binary φ := ofMagnitude negative 0

def infinite (negative : Bool) : Binary φ := ofMagnitude negative φ.infinity

/-- The NaN that operations return: a clear sign and only the leading fraction bit set. -/
def nan : Binary φ := ofMagnitude false (φ.infinity + twoPow (φ.fractionBits - 1))

/-- The sign bit, also of zeros and NaNs. -/
def negative (x : Binary φ) : Bool := x.bits.msb

def magnitude (x : Binary φ) : Nat := x.bits.toNat % twoPow (φ.width - 1)

def isNaN (x : Binary φ) : Bool := φ.infinity < x.magnitude

def isFinite (x : Binary φ) : Bool := x.magnitude < φ.infinity

def toDatum (x : Binary φ) : Datum :=
  if x.isNaN then .nan
  else if x.isFinite then .finite x.negative (φ.units x.magnitude)
  else .infinite x.negative

/-- The place of a number in the order. Both zeros have place 0; a NaN's place is not used. -/
def place (x : Binary φ) : Int := if x.negative then -(x.magnitude : Int) else x.magnitude

/-- Ordered comparison: a NaN is not below and not above anything. -/
def less (x y : Binary φ) : Bool := !x.isNaN && !y.isNaN && decide (x.place < y.place)

def atMost (x y : Binary φ) : Bool := !x.isNaN && !y.isNaN && decide (x.place ≤ y.place)

/-- Numeric equality: the two zeros are equal, a NaN equals nothing. -/
def same (x y : Binary φ) : Bool := !x.isNaN && !y.isNaN && decide (x.place = y.place)

/-- The larger number; a NaN gives way to the other operand. -/
def larger (x y : Binary φ) : Binary φ :=
  if x.isNaN then y else if x.less y then y else x

/-- Flips the sign bit, also of zeros and NaNs. -/
def neg (x : Binary φ) : Binary φ := ofMagnitude (!x.negative) x.magnitude

/-- Clears the sign bit. -/
def abs (x : Binary φ) : Binary φ := ofMagnitude false x.magnitude

instance : Neg (Binary φ) := ⟨neg⟩
instance : Inhabited (Binary φ) := ⟨zero false⟩

end Binary

end LaneBoost
