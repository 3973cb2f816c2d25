import LaneBoost.TwoPow

/-!
# Checked sizes

Sizes and positions are natural numbers below `2 ^ 64`. A computation that leaves that range, divides
by zero or reaches outside its buffer breaks a rule that its caller has to keep; it stops with a
`Violation` and has no result.
-/
namespace LaneBoost

/-- A broken rule. -/
inductive Violation where
  | overflow
  | divisionByZero
  | outOfRange
  /-- A bin that the buffer does not have. -/
  | noSuchBin (index bins : Nat)
  /-- An entry point of one zone was handed an objective of another, or of none. -/
  | foreignObjective
  /-- More items to a word than the word has bits. -/
  | tooManyItems
  /-- A bin sum would touch memory past the end of the bins. -/
  | pastEnd
  deriving DecidableEq, Repr

namespace Violation

/-- The text that goes with the violation, for those that have one. -/
def message? : Violation → Option String
  | noSuchBin index bins => some s!"bin {index} out of range ({bins} bins)"
  | _ => none

end Violation

abbrev Checked := Except Violation

/-- Sizes are below this bound. -/
def sizeBound : Nat := twoPow 64

/-- The size `n`, if it is one. -/
def size (n : Nat) : Checked Nat := if n < sizeBound then .ok n else .error .overflow

theorem size_of_lt {n : Nat} (h : n < sizeBound) : size n = .ok n := if_pos h

theorem size_of_le {n : Nat} (h : sizeBound ≤ n) : size n = .error .overflow :=
  if_neg (Nat.not_lt.2 h)

end LaneBoost
