import LaneBoost.Proofs.SpecialNumbers
import LaneBoost.Tolerance
import Mathlib.Data.List.Forall2

/-!
# When two results agree

Finite numbers agree when their difference is within the tolerance, taken relative to the largest of
one and the two magnitudes. Next to an infinity that comparison has no meaning: the difference is
infinite, and so is every positive tolerance times an infinite scale. So an infinity agrees with all
numbers, unless the tolerance is zero.
-/
namespace LaneBoost.Tolerance

open Binary (infinite)

/-! ### The scale of a tolerance -/

/-- The largest of one and the two magnitudes. -/
def scale (a b : Binary64) : Binary64 :=
  .ofMagnitude false (max (1 : Binary64).magnitude (max a.magnitude b.magnitude))

theorem larger_eq_scale {a b : Binary64} (left : a.isNaN = false) (right : b.isNaN = false) :
    (a.abs.larger b.abs).larger 1 = scale a b := by
  have most : max a.magnitude b.magnitude ≤ Format.double.infinity :=
    Nat.max_le.2 ⟨a.isNaN_eq_false_iff.1 left, b.isNaN_eq_false_iff.1 right⟩
  have fits := Nat.lt_of_le_of_lt most Format.double.infinity_lt
  have larger : a.abs.larger b.abs = .ofMagnitude false (max a.magnitude b.magnitude) := by
    rw [Binary.larger_of_positive (a.isNaN_abs.trans left) (b.isNaN_abs.trans right)
      a.negative_abs b.negative_abs, a.magnitude_abs, b.magnitude_abs]
  have number : (Binary.ofMagnitude false (max a.magnitude b.magnitude) : Binary64).isNaN = false := by
    rwa [Binary.isNaN_eq_false_iff, Binary.magnitude_ofMagnitude false fits]
  rw [larger, Binary.larger_of_positive number Binary.isNaN_one
    (Binary.negative_ofMagnitude false fits) Binary.negative_one,
    Binary.magnitude_ofMagnitude false fits, Nat.max_comm, scale]

/-- Next to an infinity the scale is infinite. -/
theorem scale_of_unbounded {a b : Binary64} (left : a.isNaN = false) (right : b.isNaN = false)
    (unbounded : ¬ (a.isFinite = true ∧ b.isFinite = true)) : scale a b = infinite false := by
  have hm := a.isNaN_eq_false_iff.1 left
  have hn := b.isNaN_eq_false_iff.1 right
  have one := (Binary.isNaN_eq_false_iff (1 : Binary64)).1 Binary.isNaN_one
  have top : Format.double.infinity ≤ max a.magnitude b.magnitude := by
    simp only [Binary.isFinite, decide_eq_true_eq] at unbounded
    omega
  have largest : max (1 : Binary64).magnitude (max a.magnitude b.magnitude) =
      Format.double.infinity := by omega
  rw [scale, largest, infinite]

/-! ### Agreement -/

/-- Finite numbers whose difference, as it is rounded, is within the scaled tolerance. -/
structure Near (tolerance a b : Binary64) : Prop where
  left_finite : a.isFinite = true
  right_finite : b.isFinite = true
  within : (a - b).abs.atMost (tolerance * scale a b) = true

/-- Equal numbers agree, two NaNs agree, and so do finite numbers that are near. -/
def Agree (tolerance a b : Binary64) : Prop :=
  a.same b = true ∨ (a.isNaN = true ∧ b.isNaN = true) ∨ Near tolerance a b

/-- Two different numbers, at least one of them infinite, under a positive tolerance. -/
structure Unbounded (tolerance a b : Binary64) : Prop where
  positive : (0 : Binary64).less tolerance = true
  left_number : a.isNaN = false
  right_number : b.isNaN = false
  different : a.same b = false
  not_finite : ¬ (a.isFinite = true ∧ b.isFinite = true)

/-! ### The comparison, case by case -/

section Close

variable {a b tolerance : Binary64}

theorem close_of_same (same : a.same b = true) : close a b tolerance = true := by
  rw [close, same]
  rfl

/-- A NaN agrees with a NaN and with nothing else. -/
theorem close_of_isNaN (nan : a.isNaN = true ∨ b.isNaN = true) :
    close a b tolerance = (a.isNaN && b.isNaN) := by
  have different : a.same b = false := by
    rcases nan with left | right
    · simp [Binary.same, left]
    · simp [Binary.same, right]
  have difference : (a - b).abs.isNaN = true := by
    rw [Binary.sub_of_isNaN nan, Binary.isNaN_abs]
    decide
  have nowhere : (a - b).abs.atMost (tolerance * (a.abs.larger b.abs).larger 1) = false := by
    rw [Binary.atMost, difference]
    rfl
  rw [close, different, nowhere, Bool.false_or, Bool.or_false]

/-- Different numbers are compared by their difference. -/
theorem close_of_different (left : a.isNaN = false) (right : b.isNaN = false)
    (different : a.same b = false) :
    close a b tolerance = (a - b).abs.atMost (tolerance * scale a b) := by
  rw [close, different, left, larger_eq_scale left right]
  rfl

theorem close_of_near (near : Near tolerance a b) : close a b tolerance = true := by
  cases same : a.same b with
  | true => exact close_of_same same
  | false =>
    rw [close_of_different (Binary.isNaN_of_isFinite near.left_finite)
      (Binary.isNaN_of_isFinite near.right_finite) same]
    exact near.within

section Tolerated

variable (finite : tolerance.isFinite = true) (nonneg : (0 : Binary64).atMost tolerance = true)

include finite nonneg

/-- An infinite difference is within a tolerance that is positive, since infinity times that is
infinite; infinity times zero is a NaN, and nothing is within that. -/
theorem within_infinite : (infinite false : Binary64).atMost (tolerance * infinite false) =
    (0 : Binary64).less tolerance := by
  obtain ⟨number, positive⟩ := (Binary.zero_atMost_iff tolerance).1 nonneg
  rw [Binary.mul_infinite finite, Bool.eq_iff_iff, Binary.zero_less_iff]
  by_cases zero : tolerance.magnitude = 0
  · rw [if_pos zero]
    exact ⟨fun within => absurd within (by decide), fun h => absurd zero h.2.2⟩
  · have sign : tolerance.negative = false := by
      rw [← Bool.not_eq_true]
      exact fun negative => zero (positive negative)
    rw [if_neg zero, sign]
    exact ⟨fun _ => ⟨number, rfl, zero⟩, fun _ => by decide⟩

/-- Next to an infinity it is the tolerance alone that counts. -/
theorem close_of_unbounded (left : a.isNaN = false) (right : b.isNaN = false)
    (different : a.same b = false) (unbounded : ¬ (a.isFinite = true ∧ b.isFinite = true)) :
    close a b tolerance = (0 : Binary64).less tolerance := by
  rw [close_of_different left right different,
    Binary.abs_sub_of_apart left right unbounded different, scale_of_unbounded left right unbounded,
    within_infinite finite nonneg]

theorem close_eq_true_iff : close a b tolerance = true ↔
    Agree tolerance a b ∨ Unbounded tolerance a b := by
  constructor
  · intro agreed
    cases same : a.same b with
    | true => exact .inl (.inl same)
    | false =>
      by_cases nan : a.isNaN = true ∨ b.isNaN = true
      · rw [close_of_isNaN nan, Bool.and_eq_true] at agreed
        exact .inl (.inr (.inl agreed))
      · obtain ⟨left, right⟩ : a.isNaN = false ∧ b.isNaN = false := by simpa using nan
        by_cases bounded : a.isFinite = true ∧ b.isFinite = true
        · rw [close_of_different left right same] at agreed
          exact .inl (.inr (.inr ⟨bounded.1, bounded.2, agreed⟩))
        · rw [close_of_unbounded finite nonneg left right same bounded] at agreed
          exact .inr ⟨agreed, left, right, same, bounded⟩
  · rintro ((same | nans | near) | unbounded)
    · exact close_of_same same
    · rw [close_of_isNaN (.inl nans.1), nans.1, nans.2]
      rfl
    · exact close_of_near near
    · rw [close_of_unbounded finite nonneg unbounded.left_number unbounded.right_number
        unbounded.different unbounded.not_finite]
      exact unbounded.positive

end Tolerated

end Close

/-- Lists agree when they have one length and their entries agree in pairs. -/
theorem allClose_eq_true_iff (xs ys : List Binary64) (tolerance : Binary64) :
    allClose xs ys tolerance = true ↔
      List.Forall₂ (fun a b => close a b tolerance = true) xs ys := by
  simp only [allClose, Bool.and_eq_true, beq_iff_eq, List.all_eq_true, List.forall₂_iff_zip]
  exact and_congr_right fun _ => ⟨fun h _ _ pair => h _ pair, fun h _ pair => h pair⟩

/-- An infinity is the same as no other number. -/
theorem same_infinite_iff (s : Bool) (b : Binary64) :
    (infinite s : Binary64).same b = true ↔ b = infinite s := by
  constructor
  · intro same
    have placed : (infinite s : Binary64).place = b.place := by
      simp only [Binary.same, Bool.and_eq_true, decide_eq_true_eq] at same
      exact same.2
    have positive : 0 < Format.double.infinity := by decide
    rw [Binary.place, Binary.place, Binary.negative_infinite, Binary.magnitude_infinite] at placed
    have parts : b.negative = s ∧ b.magnitude = Format.double.infinity := by
      cases s <;> cases sign : b.negative <;> simp [sign] at placed ⊢ <;> omega
    rw [← b.ofMagnitude_eq, parts.1, parts.2, infinite]
  · rintro rfl
    exact Binary.same_self (Binary.isNaN_infinite s)

theorem close_infinite_iff {tolerance : Binary64} (finite : tolerance.isFinite = true)
    (nonneg : (0 : Binary64).atMost tolerance = true) (s : Bool) (b : Binary64) :
    close (infinite s) b tolerance = true ↔
      b = infinite s ∨ ((0 : Binary64).less tolerance = true ∧ b.isNaN = false) := by
  rw [← same_infinite_iff]
  cases same : (infinite s : Binary64).same b with
  | true => simp [close_of_same same]
  | false =>
    cases nan : b.isNaN with
    | true => simp [close_of_isNaN (.inr nan)]
    | false =>
      have unbounded : ¬ ((infinite s : Binary64).isFinite = true ∧ b.isFinite = true) := by simp
      rw [close_of_unbounded finite nonneg (Binary.isNaN_infinite s) nan same unbounded]
      simp

/-- For a tolerance that is finite and not negative, two numbers agree if and only if they are equal,
both NaN, or finite and near; or, where the tolerance is not zero, if they are two different numbers of
which one is infinite. So an infinity agrees with itself alone under a zero tolerance, and with every
number under any other, but never with a NaN. Lists agree when they have one length and their entries
do. -/
theorem infinity_close_to_all_numbers (tolerance : Binary64) (finite : tolerance.isFinite = true)
    (nonneg : (0 : Binary64).atMost tolerance = true) :
    (∀ a b, close a b tolerance = true ↔ Agree tolerance a b ∨ Unbounded tolerance a b) ∧
      (∀ s b, close (infinite s) b tolerance = true ↔
        b = infinite s ∨ ((0 : Binary64).less tolerance = true ∧ b.isNaN = false)) ∧
      ∀ xs ys, allClose xs ys tolerance = true ↔
        List.Forall₂ (fun a b => Agree tolerance a b ∨ Unbounded tolerance a b) xs ys := by
  refine ⟨fun a b => close_eq_true_iff finite nonneg,
    fun s b => close_infinite_iff finite nonneg s b, fun xs ys => ?_⟩
  rw [allClose_eq_true_iff]
  simp only [close_eq_true_iff finite nonneg]

/-- Under a positive tolerance infinity agrees with one, in lists too. -/
theorem infinity_close_to_one :
    close (infinite false) 1 (tenth 6) = true ∧ allClose [infinite false] [1] (tenth 6) = true := by
  have finite : (tenth 6).isFinite = true := by decide +kernel
  have nonneg : (0 : Binary64).atMost (tenth 6) = true := by decide +kernel
  have positive : (0 : Binary64).less (tenth 6) = true := by decide +kernel
  have number : (1 : Binary64).isNaN = false := by decide +kernel
  have single := infinity_close_to_all_numbers (tenth 6) finite nonneg
  have close_one := (single.2.1 false 1).2 (.inr ⟨positive, number⟩)
  exact ⟨close_one, (single.2.2 _ _).2 (.cons ((single.1 _ _).1 close_one) .nil)⟩

/-- Infinity and one are not equal, not both NaN and not both finite, yet they agree. -/
theorem infinity_and_one_taken_for_close :
    (tenth 6).isFinite = true ∧ (0 : Binary64).atMost (tenth 6) = true ∧
      close (infinite false) 1 (tenth 6) = true ∧ ¬ Agree (tenth 6) (infinite false) 1 := by
  refine ⟨by decide +kernel, by decide +kernel, by decide +kernel, ?_⟩
  rintro (same | nans | near)
  · exact absurd same (by decide +kernel)
  · exact absurd nans.1 (by decide +kernel)
  · exact absurd near.left_finite (by decide +kernel)

end LaneBoost.Tolerance
