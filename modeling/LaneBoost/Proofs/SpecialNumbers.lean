import LaneBoost.Number.Arithmetic
import Mathlib.Algebra.Group.Nat.Defs

/-!
# Signs, magnitudes and special numbers

A number is its sign and its magnitude. Negation and absolute value touch the sign alone, and positive
numbers are ordered by their magnitudes. Where an operand is infinite, differences and products have
fixed values, whatever the other operand is.
-/
namespace LaneBoost

namespace Format

variable (φ : Format)

/-- One bit is the sign. -/
theorem two_pow_width : 2 ^ φ.width = 2 * twoPow (φ.width - 1) := by
  have sign : φ.width = φ.width - 1 + 1 := by rw [width]; omega
  rw [← twoPow_succ, ← sign]
  rfl

/-- Infinity leaves the sign bit free. -/
theorem infinity_lt : φ.infinity < twoPow (φ.width - 1) := by
  have fields : φ.width - 1 = φ.exponentBits + φ.fractionBits := by rw [width]; omega
  have below : twoPow φ.exponentBits - 1 < twoPow φ.exponentBits :=
    Nat.sub_lt (twoPow_pos _) Nat.one_pos
  rw [fields, twoPow_add, infinity]
  exact Nat.mul_lt_mul_of_pos_right below (twoPow_pos _)

theorem magnitude_le_infinity (units : Nat) : φ.magnitude units ≤ φ.infinity := Nat.min_le_right _ _

/-- Only the zeros have no units. -/
theorem units_eq_zero_iff (m : Nat) : φ.units m = 0 ↔ m = 0 := by
  have one := twoPow_pos φ.fractionBits
  simp only [units]
  by_cases subnormal : m / twoPow φ.fractionBits = 0
  · rw [if_pos subnormal]
    have small := (Nat.div_eq_zero_iff.1 subnormal).resolve_left (Nat.ne_of_gt one)
    rw [Nat.mod_eq_of_lt small]
  · rw [if_neg subnormal]
    have some_units := Nat.mul_pos (Nat.add_pos_left one (m % twoPow φ.fractionBits))
      (twoPow_pos (m / twoPow φ.fractionBits - 1))
    refine ⟨fun none => absurd none (Nat.ne_of_gt some_units), ?_⟩
    rintro rfl
    exact absurd (Nat.zero_div _) subnormal

end Format

namespace Binary

variable {φ : Format}

/-! ### Sign and magnitude -/

theorem toNat_ofMagnitude (s : Bool) {m : Nat} (h : m < twoPow (φ.width - 1)) :
    (ofMagnitude s m : Binary φ).bits.toNat = (if s then twoPow (φ.width - 1) else 0) + m := by
  have fits : (if s then twoPow (φ.width - 1) else 0) + m < 2 ^ φ.width := by
    rw [φ.two_pow_width]
    cases s <;> simp <;> omega
  rw [ofMagnitude, BitVec.toNat_ofNat, Nat.mod_eq_of_lt fits]

theorem magnitude_ofMagnitude (s : Bool) {m : Nat} (h : m < twoPow (φ.width - 1)) :
    (ofMagnitude s m : Binary φ).magnitude = m := by
  rw [magnitude, toNat_ofMagnitude s h]
  cases s <;> simp [Nat.mod_eq_of_lt h]

theorem negative_ofMagnitude (s : Bool) {m : Nat} (h : m < twoPow (φ.width - 1)) :
    (ofMagnitude s m : Binary φ).negative = s := by
  rw [negative, BitVec.msb_eq_decide, toNat_ofMagnitude s h]
  show decide (twoPow (φ.width - 1) ≤ _) = s
  cases s <;> simp [h]

theorem magnitude_lt (x : Binary φ) : x.magnitude < twoPow (φ.width - 1) :=
  Nat.mod_lt _ (twoPow_pos _)

/-- Sign and magnitude are all there is to a number. -/
theorem ofMagnitude_eq (x : Binary φ) : ofMagnitude x.negative x.magnitude = x := by
  have whole : x.bits.toNat < 2 * twoPow (φ.width - 1) := φ.two_pow_width ▸ x.bits.isLt
  have same : (ofMagnitude x.negative x.magnitude : Binary φ).bits = x.bits := by
    apply BitVec.eq_of_toNat_eq
    rw [toNat_ofMagnitude _ x.magnitude_lt, negative, magnitude, BitVec.msb_eq_decide]
    show (if decide (twoPow (φ.width - 1) ≤ x.bits.toNat) then _ else _) + _ = _
    by_cases top : twoPow (φ.width - 1) ≤ x.bits.toNat
    · rw [decide_eq_true top, if_pos rfl, Nat.mod_eq_sub_mod top, Nat.mod_eq_of_lt (by omega)]
      omega
    · rw [decide_eq_false top, Nat.mod_eq_of_lt (Nat.lt_of_not_le top)]
      exact Nat.zero_add _
  exact congrArg mk same

@[simp] theorem magnitude_abs (x : Binary φ) : x.abs.magnitude = x.magnitude :=
  magnitude_ofMagnitude false x.magnitude_lt

@[simp] theorem negative_abs (x : Binary φ) : x.abs.negative = false :=
  negative_ofMagnitude false x.magnitude_lt

@[simp] theorem magnitude_neg (x : Binary φ) : x.neg.magnitude = x.magnitude :=
  magnitude_ofMagnitude _ x.magnitude_lt

@[simp] theorem magnitude_infinite (s : Bool) : (infinite s : Binary φ).magnitude = φ.infinity :=
  magnitude_ofMagnitude s φ.infinity_lt

@[simp] theorem negative_infinite (s : Bool) : (infinite s : Binary φ).negative = s :=
  negative_ofMagnitude s φ.infinity_lt

theorem neg_infinite (s : Bool) : (infinite s : Binary φ).neg = infinite (!s) := by
  rw [neg, negative_infinite, magnitude_infinite, infinite]

theorem abs_infinite (s : Bool) : (infinite s : Binary φ).abs = infinite false := by
  rw [abs, magnitude_infinite, infinite]

/-! ### NaN, infinite or finite -/

theorem isNaN_eq_false_iff (x : Binary φ) : x.isNaN = false ↔ x.magnitude ≤ φ.infinity := by
  simp [isNaN]

theorem isNaN_of_isFinite {x : Binary φ} (h : x.isFinite = true) : x.isNaN = false :=
  x.isNaN_eq_false_iff.2 (Nat.le_of_lt (of_decide_eq_true h))

@[simp] theorem isNaN_abs (x : Binary φ) : x.abs.isNaN = x.isNaN := by simp [isNaN]

@[simp] theorem isNaN_infinite (s : Bool) : (infinite s : Binary φ).isNaN = false := by
  simp [isNaN]

@[simp] theorem isFinite_infinite (s : Bool) : (infinite s : Binary φ).isFinite = false := by
  simp [isFinite]

/-- A number that is neither a NaN nor finite is one of the two infinities. -/
theorem exists_infinite {x : Binary φ} (number : x.isNaN = false) (unbounded : x.isFinite = false) :
    ∃ s, x = infinite s := by
  have most := x.isNaN_eq_false_iff.1 number
  have least : φ.infinity ≤ x.magnitude := by simpa [isFinite] using unbounded
  refine ⟨x.negative, ?_⟩
  rw [infinite, ← Nat.le_antisymm most least, ofMagnitude_eq]

theorem toDatum_of_isNaN {x : Binary φ} (h : x.isNaN = true) : x.toDatum = .nan := by
  rw [toDatum, if_pos h]

theorem toDatum_infinite (s : Bool) : (infinite s : Binary φ).toDatum = .infinite s := by
  simp [toDatum]

theorem toDatum_of_isFinite {x : Binary φ} (h : x.isFinite = true) :
    x.toDatum = .finite x.negative (φ.units x.magnitude) := by
  rw [toDatum, isNaN_of_isFinite h, h]
  rfl

/-- Rounding ends at infinity at most. -/
theorem isNaN_ofUnits (s : Bool) (num den : Nat) : (ofUnits s num den : Binary φ).isNaN = false := by
  have le := φ.magnitude_le_infinity (φ.roundUnits num den)
  rw [isNaN_eq_false_iff, ofUnits, magnitude_ofMagnitude s (Nat.lt_of_le_of_lt le φ.infinity_lt)]
  exact le

theorem isNaN_one : (1 : Binary φ).isNaN = false := isNaN_ofUnits false _ 1

theorem negative_one : (1 : Binary φ).negative = false :=
  negative_ofMagnitude false (Nat.lt_of_le_of_lt (φ.magnitude_le_infinity _) φ.infinity_lt)

/-! ### Order -/

theorem zero_place : (0 : Binary φ).place = 0 := by
  have zero : (0 : Binary φ).magnitude = 0 := magnitude_ofMagnitude false (twoPow_pos _)
  rw [place, zero]
  split <;> rfl

theorem isNaN_zero : (0 : Binary φ).isNaN = false := by
  have zero : (0 : Binary φ).magnitude = 0 := magnitude_ofMagnitude false (twoPow_pos _)
  rw [isNaN_eq_false_iff, zero]
  exact Nat.zero_le _

theorem zero_atMost_iff (x : Binary φ) :
    (0 : Binary φ).atMost x = true ↔
      x.isNaN = false ∧ (x.negative = true → x.magnitude = 0) := by
  rw [atMost, zero_place, isNaN_zero, place]
  cases x.negative <;> simp

theorem zero_less_iff (x : Binary φ) :
    (0 : Binary φ).less x = true ↔
      x.isNaN = false ∧ x.negative = false ∧ x.magnitude ≠ 0 := by
  rw [less, zero_place, isNaN_zero, place]
  cases x.negative <;> simp [Nat.pos_iff_ne_zero]

theorem same_self {x : Binary φ} (number : x.isNaN = false) : x.same x = true := by
  simp [same, number]

/-- Of two positive numbers the larger one has the larger magnitude. -/
theorem larger_of_positive {x y : Binary φ} (hx : x.isNaN = false) (hy : y.isNaN = false)
    (sx : x.negative = false) (sy : y.negative = false) :
    x.larger y = ofMagnitude false (max x.magnitude y.magnitude) := by
  have left := x.ofMagnitude_eq
  have right := y.ofMagnitude_eq
  rw [sx] at left
  rw [sy] at right
  simp only [larger, less, hx, hy, place, sx, sy]
  by_cases below : x.magnitude < y.magnitude
  · rw [Nat.max_eq_right (Nat.le_of_lt below), right]
    simp [below]
  · rw [Nat.max_eq_left (Nat.le_of_not_lt below), left]
    simp [below]

/-! ### Operations with an infinite operand -/

theorem sub_of_isNaN {x y : Binary φ} (h : x.isNaN = true ∨ y.isNaN = true) : x - y = nan := by
  show add x y.neg = nan
  rcases h with left | right
  · rw [add, toDatum_of_isNaN left]
  · have negated : y.neg.isNaN = true := by simpa [isNaN] using right
    rw [add, toDatum_of_isNaN negated]
    cases x.toDatum <;> rfl

/-- Numbers that are not both finite and not equal have an infinite difference. -/
theorem abs_sub_of_apart {x y : Binary φ} (left : x.isNaN = false) (right : y.isNaN = false)
    (unbounded : ¬ (x.isFinite = true ∧ y.isFinite = true)) (apart : x.same y = false) :
    (x - y).abs = infinite false := by
  show (add x y.neg).abs = infinite false
  cases bounded : x.isFinite with
  | false =>
    obtain ⟨s, rfl⟩ := exists_infinite left bounded
    cases bounded' : y.isFinite with
    | false =>
      obtain ⟨t, rfl⟩ := exists_infinite right bounded'
      have signs : s = !t := by
        cases s <;> cases t <;> first | rfl | exact absurd (same_self left) (by simp [apart])
      rw [add, neg_infinite, toDatum_infinite, toDatum_infinite]
      simp only [signs, if_true, abs_infinite]
    | true =>
      have negated : y.neg.isFinite = true := by simpa [isFinite] using bounded'
      rw [add, toDatum_infinite, toDatum_of_isFinite negated]
      exact abs_infinite s
  | true =>
    have bounded' : y.isFinite = false := by
      rw [← Bool.not_eq_true]
      exact fun finite => unbounded ⟨bounded, finite⟩
    obtain ⟨t, rfl⟩ := exists_infinite right bounded'
    rw [add, neg_infinite, toDatum_infinite, toDatum_of_isFinite bounded]
    exact abs_infinite _

/-- No zero times infinity is a number. -/
theorem mul_infinite {x : Binary φ} (h : x.isFinite = true) (s : Bool) :
    x * infinite s = if x.magnitude = 0 then nan else infinite (x.negative != s) := by
  show mul x (infinite s) = _
  rw [mul, toDatum_of_isFinite h, toDatum_infinite]
  simp only [Format.units_eq_zero_iff]

end Binary

end LaneBoost
