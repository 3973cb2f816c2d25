/-!
# Powers of two

Widths, bounds and fixed-point scales are powers of two. They are natural numbers throughout.
-/
namespace LaneBoost

/-- Two to the power `n`. -/
def twoPow (n : Nat) : Nat := Nat.pow 2 n

@[simp] theorem twoPow_zero : twoPow 0 = 1 := rfl

theorem twoPow_succ (n : Nat) : twoPow (n + 1) = 2 * twoPow n := Nat.mul_comm _ _

theorem twoPow_pos (n : Nat) : 0 < twoPow n := Nat.pow_pos (by decide)

theorem twoPow_add (m n : Nat) : twoPow (m + n) = twoPow m * twoPow n := Nat.pow_add 2 m n

theorem shiftLeft_eq_mul_twoPow (n k : Nat) : n <<< k = n * twoPow k := Nat.shiftLeft_eq n k

end LaneBoost
