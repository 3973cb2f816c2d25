import LaneBoost.Proofs.SpecialNumbers
import LaneBoost.Zone

/-!
# Rounding what needs no rounding

A value that the format represents is rounded to itself, whatever quotient it is given as. So a product
with the number one is the other factor, unless that is a NaN.
-/
namespace LaneBoost

theorem halfEven_mul {den : Nat} (h : 0 < den) (q : Nat) : halfEven (q * den) den = q := by
  simp [halfEven, Nat.mul_div_cancel q h, h]

namespace Format

variable (φ : Format)

/-- A magnitude stands for its leading bits, shifted. Subnormal magnitudes are counts of units; the
others have a leading one before the fraction, which carries into the exponent. -/
theorem exists_leading (m : Nat) : ∃ leading shift,
    φ.units m = leading * twoPow shift ∧ (φ.units m).log2 - φ.fractionBits = shift ∧
      m = shift * twoPow φ.fractionBits + leading := by
  have one := twoPow_pos φ.fractionBits
  have fields := Nat.div_add_mod' m (twoPow φ.fractionBits)
  have fraction := Nat.mod_lt m one
  by_cases subnormal : m / twoPow φ.fractionBits = 0
  · have small := (Nat.div_eq_zero_iff.1 subnormal).resolve_left (Nat.ne_of_gt one)
    have units : φ.units m = m := by
      simp only [Format.units, if_pos subnormal, Nat.mod_eq_of_lt small]
    have short : m.log2 ≤ φ.fractionBits := by
      rcases Nat.eq_zero_or_pos m with rfl | some_units
      · exact Nat.zero_le _
      · exact Nat.le_of_lt ((Nat.log2_lt (Nat.ne_of_gt some_units)).2 small)
    refine ⟨m, 0, ?_, ?_, ?_⟩
    · rw [units, twoPow_zero, Nat.mul_one]
    · rw [units, Nat.sub_eq_zero_of_le short]
    · rw [Nat.zero_mul, Nat.zero_add]
  · obtain ⟨e, exponent⟩ := Nat.exists_eq_succ_of_ne_zero subnormal
    let r := m % twoPow φ.fractionBits
    have units : φ.units m = (twoPow φ.fractionBits + r) * twoPow e := by
      simp only [Format.units, exponent, Nat.succ_sub_one]
      rfl
    -- Between these bounds the leading one of the fraction is the leading one of the units.
    have least : twoPow (φ.fractionBits + e) ≤ (twoPow φ.fractionBits + r) * twoPow e := by
      rw [twoPow_add]
      exact Nat.mul_le_mul_right _ (Nat.le_add_right _ _)
    have most : (twoPow φ.fractionBits + r) * twoPow e < twoPow (φ.fractionBits + e + 1) := by
      rw [twoPow_succ, twoPow_add, ← Nat.mul_assoc]
      exact Nat.mul_lt_mul_of_pos_right (by omega) (twoPow_pos e)
    have leading : (φ.units m).log2 = φ.fractionBits + e := by
      have some_units := Nat.lt_of_lt_of_le (twoPow_pos _) least
      rw [units]
      exact (Nat.log2_eq_iff (Nat.ne_of_gt some_units)).2 ⟨least, most⟩
    refine ⟨twoPow φ.fractionBits + r, e, units, ?_, ?_⟩
    · rw [leading, Nat.add_sub_cancel_left]
    · rw [exponent, Nat.succ_mul, Nat.add_assoc] at fields
      exact fields.symm

/-- Units that the format has are rounded to themselves. -/
theorem roundUnits_units_mul (m : Nat) {den : Nat} (h : 0 < den) :
    φ.roundUnits (φ.units m * den) den = φ.units m := by
  obtain ⟨leading, shift, units, log, -⟩ := φ.exists_leading m
  have scaled : φ.units m * den = leading * (den * twoPow shift) := by
    rw [units, Nat.mul_assoc, Nat.mul_comm (twoPow shift)]
  have den_pos : 0 < den * twoPow shift := Nat.mul_pos h (twoPow_pos shift)
  simp only [roundUnits, Nat.mul_div_cancel _ h, log]
  rw [shiftLeft_eq_mul_twoPow, shiftLeft_eq_mul_twoPow, scaled, halfEven_mul den_pos, units]

/-- And they have one magnitude. -/
theorem magnitude_units {m : Nat} (h : m ≤ φ.infinity) : φ.magnitude (φ.units m) = m := by
  obtain ⟨leading, shift, units, log, whole⟩ := φ.exists_leading m
  simp only [magnitude, log]
  rw [units, Nat.mul_div_cancel _ (twoPow_pos shift), ← whole, Nat.min_eq_left h]

end Format

namespace Binary

variable {φ : Format}

/-- A finite number is the number nearest to its own units. -/
theorem ofUnits_units_mul {x : Binary φ} (finite : x.isFinite = true) {den : Nat} (h : 0 < den) :
    ofUnits x.negative (φ.units x.magnitude * den) den = x := by
  have bounded : x.magnitude < φ.infinity := of_decide_eq_true finite
  rw [ofUnits, φ.roundUnits_units_mul _ h, φ.magnitude_units (Nat.le_of_lt bounded), ofMagnitude_eq]

theorem mul_of_isNaN {x : Binary φ} (h : x.isNaN = true) (y : Binary φ) : x * y = nan := by
  show mul x y = nan
  rw [mul, toDatum_of_isNaN h]

theorem add_of_isNaN (x : Binary φ) {y : Binary φ} (h : y.isNaN = true) : x + y = nan := by
  show add x y = nan
  rw [add, toDatum_of_isNaN h]
  cases x.toDatum <;> rfl

/-- One is a power of two, so a product with it is the quotient that the other factor started as. -/
theorem mul_one_of_number (one : (1 : Binary φ).toDatum = .finite false (twoPow φ.scale))
    {x : Binary φ} (number : x.isNaN = false) : x * 1 = x := by
  show mul x 1 = x
  cases bounded : x.isFinite with
  | true =>
    rw [mul, toDatum_of_isFinite bounded, one]
    simp only [Bool.bne_false]
    exact ofUnits_units_mul bounded (twoPow_pos φ.scale)
  | false =>
    obtain ⟨s, rfl⟩ := exists_infinite number bounded
    rw [mul, toDatum_infinite, one]
    simp only [Bool.bne_false, if_neg (Nat.ne_of_gt (twoPow_pos φ.scale))]

end Binary

namespace Zone

/-- The numbers zero and one are exact in every zone. -/
theorem toDatum_ofNat (z : Zone) {n : Nat} (h : n < 2) :
    (Binary.ofNat n : z.Number).toDatum = .finite false (n * twoPow z.format.scale) := by
  obtain rfl | rfl : n = 0 ∨ n = 1 := by omega
  · cases z <;> decide +kernel
  · cases z <;> decide +kernel

theorem toDatum_one (z : Zone) :
    (1 : z.Number).toDatum = .finite false (twoPow z.format.scale) := by
  rw [← Nat.one_mul (twoPow z.format.scale)]
  exact z.toDatum_ofNat (by decide)

end Zone

end LaneBoost
