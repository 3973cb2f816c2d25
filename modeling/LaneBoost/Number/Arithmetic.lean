import LaneBoost.Number.Rounding

/-!
# The four operations and the square root

Each operation is exact on the units of its operands and rounds once. The sign of an exact zero, the
infinities and the invalid operations are settled before rounding.
-/
namespace LaneBoost.Binary

variable {φ : Format}

/-- Units with their sign. -/
def signed (negative : Bool) (units : Nat) : Int := if negative then -(units : Int) else units

/-- An exact zero sum is positive unless both operands are negative. -/
def add (x y : Binary φ) : Binary φ :=
  match x.toDatum, y.toDatum with
  | .nan, _ | _, .nan => nan
  | .infinite s, .infinite t => if s = t then infinite s else nan
  | .infinite s, .finite _ _ => infinite s
  | .finite _ _, .infinite t => infinite t
  | .finite s u, .finite t v =>
    let sum := signed s u + signed t v
    if sum = 0 then zero (s && t) else ofUnits (decide (sum < 0)) sum.natAbs 1

def sub (x y : Binary φ) : Binary φ := add x (neg y)

def mul (x y : Binary φ) : Binary φ :=
  match x.toDatum, y.toDatum with
  | .nan, _ | _, .nan => nan
  | .infinite s, .infinite t => infinite (s != t)
  | .infinite s, .finite t v => if v = 0 then nan else infinite (s != t)
  | .finite s u, .infinite t => if u = 0 then nan else infinite (s != t)
  | .finite s u, .finite t v => ofUnits (s != t) (u * v) (twoPow φ.scale)

def div (x y : Binary φ) : Binary φ :=
  match x.toDatum, y.toDatum with
  | .nan, _ | _, .nan => nan
  | .infinite _, .infinite _ => nan
  | .infinite s, .finite t _ => infinite (s != t)
  | .finite s _, .infinite t => zero (s != t)
  | .finite s u, .finite t v =>
    if v = 0 then (if u = 0 then nan else infinite (s != t))
    else ofUnits (s != t) (u <<< φ.scale) v

/-- The root has more whole units than a fraction has bits. An odd numerator over two marks a root
that is not whole, so rounding sees on which side of a tie it lies. -/
def sqrt (x : Binary φ) : Binary φ :=
  match x.toDatum with
  | .nan => nan
  | .infinite s => if s then nan else infinite false
  | .finite s u =>
    if u = 0 then zero s
    else if s then nan
    else
      let square := u <<< φ.scale
      let root := square.sqrt
      ofUnits false (2 * root + if root * root = square then 0 else 1) 2

instance : Add (Binary φ) := ⟨add⟩
instance : Sub (Binary φ) := ⟨sub⟩
instance : Mul (Binary φ) := ⟨mul⟩
instance : Div (Binary φ) := ⟨div⟩
instance : Zero (Binary φ) := ⟨zero false⟩
instance : One (Binary φ) := ⟨ofNat 1⟩

end LaneBoost.Binary
