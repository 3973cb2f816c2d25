import LaneBoost.TwoPow

/-!
# Unsigned words

A word of a zone is a bit vector as wide as the zone's numbers. Arithmetic on it is modular.
-/
namespace LaneBoost.Word

variable {w : Nat}

instance instZero : Zero (BitVec w) := ⟨0#(w)⟩

theorem zero_eq : (0 : BitVec w) = 0#(w) := rfl

/-- Low `bits` bits set; all of them when there are no more than `bits`. -/
def lowMask (w bits : Nat) : BitVec w :=
  if w ≤ bits then BitVec.allOnes w else BitVec.ofNat w (twoPow bits - 1)

end LaneBoost.Word
