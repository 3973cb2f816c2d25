import Mathlib.Algebra.BigOperators.Field
import Mathlib.Algebra.Order.BigOperators.Group.Finset
import Mathlib.Data.Rat.Cast.Order
import Mathlib.Tactic.Linarith
import Mathlib.Tactic.Positivity
import LaneBoost.Proofs.UpdateLoop

/-!
# The log loss of several classes in exact arithmetic

Over an ordered field nothing is rounded, and then the exponential may be any function with positive
values. The probabilities of the classes of a sample are positive and sum to one. As the gradient is
lower by one for the class that the target names, the gradients sum to zero.
-/
namespace LaneBoost

open Finset

/-- An ordered field as the arithmetic of a lane. Lanes compare as the field does, and the exponential
is positive; the other functions may be any. -/
class ExactArithmetic (K : Type) extends Field K, LinearOrder K, IsStrictOrderedRing K,
    Arithmetic K where
  less_eq (x y : K) : less x y = decide (x < y)
  exp_pos (x : K) : 0 < exp x

namespace Softmax

variable {K : Type} [ExactArithmetic K] {w n : Nat}

/-! ### Probabilities -/

section Probabilities

variable (classes : Nat) (score : Nat → K)

theorem exponentialOf_pos (k : Nat) : 0 < exponentialOf classes score k :=
  ExactArithmetic.exp_pos _

theorem totalUpTo_eq_sum (k : Nat) :
    totalUpTo classes score k = ∑ j ∈ range k, exponentialOf classes score j := by
  induction k with
  | zero => rfl
  | succ k ih => rw [totalUpTo_succ, sum_range_succ, ih]

variable {classes}

theorem totalUpTo_pos {k : Nat} (some_class : 0 < k) : 0 < totalUpTo classes score k := by
  rw [totalUpTo_eq_sum]
  exact sum_pos (fun j _ => exponentialOf_pos classes score j) (nonempty_range_iff.2 some_class.ne')

variable (some_class : 0 < classes)

include some_class

theorem probabilityOf_pos (k : Nat) : 0 < probabilityOf classes score k :=
  mul_pos (exponentialOf_pos classes score k) (one_div_pos.2 (totalUpTo_pos score some_class))

theorem sum_probabilityOf : ∑ k ∈ range classes, probabilityOf classes score k = 1 := by
  simp only [probabilityOf]
  rw [← sum_mul, ← totalUpTo_eq_sum]
  exact mul_one_div_cancel (totalUpTo_pos score some_class).ne'

omit some_class in
theorem probabilityOf_le_one {k : Nat} (hk : k < classes) : probabilityOf classes score k ≤ 1 := by
  have some_class := Nat.zero_lt_of_lt hk
  rw [← sum_probabilityOf score some_class]
  exact single_le_sum (fun j _ => (probabilityOf_pos score some_class j).le) (mem_range.2 hk)

end Probabilities

/-! ### Gradients and hessians -/

/-- Gradients and hessians of a sample, of whose classes some are named: those of probabilities, with
one taken off each named class. -/
structure Balanced (classes : Nat) (names : Nat → Prop) [DecidablePred names] (hessians : Bool)
    (gradient hessian : Nat → K) : Prop where
  named_mem : ∀ k, k < classes → names k → gradient k ∈ Set.Ioc (-1) 0
  other_mem : ∀ k, k < classes → ¬ names k → gradient k ∈ Set.Ioc 0 1
  sum_eq : ∑ k ∈ range classes, gradient k = 1 - (#{k ∈ range classes | names k} : K)
  hessian_mem : hessians = true → ∀ k, k < classes → hessian k ∈ Set.Icc 0 (1 / 4)
  hessian_eq : hessians = true → ∀ k, k < classes →
    hessian k = (gradient k + if names k then 1 else 0) *
      (1 - (gradient k + if names k then 1 else 0))

section Sample

variable {classes : Nat} (score : Nat → K) (target : BitVec w)

theorem sum_namedGradientOf (some_class : 0 < classes) :
    ∑ k ∈ range classes, namedGradientOf classes score target k =
      1 - (#{k ∈ range classes | target = BitVec.ofNat w k} : K) := by
  simp only [namedGradientOf]
  rw [sum_sub_distrib, sum_probabilityOf score some_class, sum_boole]

theorem hessianOf_mem {k : Nat} (hk : k < classes) :
    hessianOf classes score k ∈ Set.Icc 0 (1 / 4) := by
  have positive := probabilityOf_pos score (Nat.zero_lt_of_lt hk) k
  have at_most := probabilityOf_le_one score hk
  have square := sq_nonneg (probabilityOf classes score k - 1 / 2)
  constructor
  · exact mul_nonneg positive.le (sub_nonneg.2 at_most)
  · rw [hessianOf]
    linarith

/-- The formulas of a sample are balanced. -/
theorem balanced_namedGradientOf (some_class : 0 < classes) (hessians : Bool)
    {gradient hessian : Nat → K}
    (gradient_eq : ∀ k, k < classes → gradient k = namedGradientOf classes score target k)
    (hessian_eq : hessians = true → ∀ k, k < classes → hessian k = hessianOf classes score k) :
    Balanced classes (fun k => target = BitVec.ofNat w k) hessians gradient hessian := by
  have probability_eq : ∀ k, k < classes →
      gradient k + (if target = BitVec.ofNat w k then 1 else 0) = probabilityOf classes score k := by
    intro k hk
    rw [gradient_eq k hk, namedGradientOf, sub_add_cancel]
  constructor
  · intro k hk named
    have positive := probabilityOf_pos score some_class k
    have at_most := probabilityOf_le_one score hk
    rw [gradient_eq k hk, namedGradientOf, if_pos named]
    exact ⟨by linarith, by linarith⟩
  · intro k hk other
    rw [gradient_eq k hk, namedGradientOf, if_neg other, sub_zero]
    exact ⟨probabilityOf_pos score some_class k, probabilityOf_le_one score hk⟩
  · rw [sum_congr rfl fun k hk => gradient_eq k (mem_range.1 hk)]
    exact sum_namedGradientOf score target some_class
  · intro wanted k hk
    rw [hessian_eq wanted k hk]
    exact hessianOf_mem score hk
  · intro wanted k hk
    rw [hessian_eq wanted k hk, probability_eq k hk, hessianOf]

end Sample

/-- Where words can name every class, a target below the number of classes names one of them. -/
theorem card_named {classes : Nat} (named : classes ≤ 2 ^ w) {target : BitVec w}
    (inside : target.toNat < classes) :
    #{k ∈ range classes | target = BitVec.ofNat w k} = 1 := by
  obtain ⟨k, found, unique⟩ := existsUnique_class named inside
  refine card_eq_one.2 ⟨k, Finset.ext fun j => ?_⟩
  rw [mem_filter, mem_range, mem_singleton]
  exact ⟨unique j, fun here => here ▸ found⟩

section Group

variable {classes : Nat} (some_class : 1 ≤ classes) (hessians metric : Bool) (scores : Array K)
  (scoreBlock : Block) (target : Lanes (BitVec w) n) {gradients scratch : Array K} (g : Nat)
  (scratch_room : classes * n ≤ scratch.size)
  (room : (g + 1) * classes * Layout.perScore hessians * n ≤ gradients.size) (l : Fin n)

include some_class scratch_room room

/-- What is written for a lane of a group is balanced. -/
theorem balanced_updateGroup :
    let left := (updateGroup classes hessians metric scores scoreBlock target gradients scratch
      g).gradients
    Balanced classes (fun k => target.get l = BitVec.ofNat w k) hessians
      (fun k => ((gradientsAt classes n hessians g).load left k : Lanes K n).get l)
      (fun k => ((hessiansAt classes n hessians g).load left k : Lanes K n).get l) := by
  have written := fun k (hk : k < classes) =>
    get_updateGroup hessians metric scores scoreBlock target g scratch_room room hk l
  exact balanced_namedGradientOf (fun k => (scoreBlock.load scores k : Lanes K n).get l)
    (target.get l) some_class hessians (fun k hk => (written k hk).1)
    fun wanted k hk => (written k hk).2 wanted

end Group

/-- A step of the loop leaves balanced gradients and hessians for the samples of its group. -/
theorem balanced_stepSeveral (m : Machine K w n) (r : Update.Request K w) (hessians metric : Bool)
    (s : Update.State K w n) (g : Nat) (some_class : 1 ≤ r.scores)
    (scratch_room : r.scores * n ≤ s.scratch.size)
    (room : (g + 1) * r.scores * Layout.perScore hessians * n ≤ s.gradients.size) (l : Fin n) :
    let left := (Update.stepSeveral m r ⟨true, hessians, metric⟩ s g).gradients
    Balanced r.scores (fun k => Update.targetOf r (g * n + l.val) = BitVec.ofNat w k) hessians
      (fun k => ((gradientsAt r.scores n hessians g).load left k : Lanes K n).get l)
      (fun k => ((hessiansAt r.scores n hessians g).load left k : Lanes K n).get l) := by
  rw [Update.stepSeveral_gradients, ← Update.get_targets l]
  exact balanced_updateGroup some_class hessians metric _ _ (Update.targets r g) g scratch_room room
    l

/-- In exact arithmetic the total of the exponentials of a lane is positive, and the gradients and
hessians that are written for the lane are balanced: the gradient of a class that has the word of the
target lies above -1 and is not positive, that of another class is positive and at most 1, and a
hessian is the product of a probability and its complement, so at most a quarter. Where words can name
every class, only the target has its word, and the gradients sum to zero. -/
theorem exact_gradients_balanced {classes : Nat} (some_class : 1 ≤ classes) (hessians metric : Bool)
    (scores : Array K) (scoreBlock : Block) (target : Lanes (BitVec w) n) (gradients scratch : Array K)
    (g : Nat) (scratch_room : classes * n ≤ scratch.size)
    (room : (g + 1) * classes * Layout.perScore hessians * n ≤ gradients.size) (l : Fin n) :
    let score : Nat → Lanes K n := fun k => scoreBlock.load scores k
    let left := (updateGroup classes hessians metric scores scoreBlock target gradients scratch
      g).gradients
    let gradient : Nat → K := fun k =>
      ((gradientsAt classes n hessians g).load left k : Lanes K n).get l
    let hessian : Nat → K := fun k =>
      ((hessiansAt classes n hessians g).load left k : Lanes K n).get l
    0 < (sums classes metric score (peak classes score) target ⟨0, n⟩ scratch).total.get l ∧
      Balanced classes (fun k => target.get l = BitVec.ofNat w k) hessians gradient hessian ∧
      (classes ≤ 2 ^ w → (target.get l).toNat < classes →
        (∀ k, k < classes → (target.get l = BitVec.ofNat w k ↔ k = (target.get l).toNat)) ∧
          ∑ k ∈ range classes, gradient k = 0) := by
  intro score left gradient hessian
  have balanced := balanced_updateGroup some_class hessians metric scores scoreBlock target g
    scratch_room room l
  refine ⟨?_, balanced, fun named inside => ⟨fun k hk => ?_, ?_⟩⟩
  · rw [get_sums_total]
    exact totalUpTo_pos _ some_class
  · rw [eq_classNumber_iff (Nat.lt_of_lt_of_le hk named), eq_comm]
  · rw [balanced.sum_eq, card_named named inside, Nat.cast_one, sub_self]

/-- The rational numbers, with a positive and growing function for the exponential. -/
@[reducible] def rationalArithmetic : ExactArithmetic ℚ where
  __ := (inferInstance : Field ℚ)
  __ := (inferInstance : LinearOrder ℚ)
  __ := (inferInstance : IsStrictOrderedRing ℚ)
  abs x := |x|
  sqrt x := x
  exp x := if x < 0 then 1 / (1 - x) else 1 + x
  ln x := x
  less x y := decide (x < y)
  less_eq _ _ := rfl
  exp_pos x := by
    split_ifs with negative
    · exact one_div_pos.2 (by linarith)
    · linarith

/-- Three classes, of which a sample has the last. -/
theorem three_classes_balanced :
    letI := rationalArithmetic
    let left := (updateGroup 3 true true #[1 / 2, -1, 2] ⟨0, 1⟩ (Lanes.splat 2 : Lanes (BitVec 32) 1)
      (Array.replicate 6 (0 : ℚ)) #[0, 0, 0] 0).gradients
    let gradient : Nat → ℚ := fun k => ((gradientsAt 3 1 true 0).load left k : Lanes ℚ 1).get 0
    gradient 2 ∈ Set.Ioc (-1) 0 ∧ ∑ k ∈ range 3, gradient k = 0 := by
  let := rationalArithmetic
  have some_class : 1 ≤ 3 := by decide
  obtain ⟨-, balanced, centred⟩ := exact_gradients_balanced some_class true true #[1 / 2, -1, 2]
    ⟨0, 1⟩ (Lanes.splat 2 : Lanes (BitVec 32) 1) (Array.replicate 6 (0 : ℚ)) #[0, 0, 0] 0 (by decide)
    (by decide) 0
  obtain ⟨-, sum⟩ := centred (by decide) (by decide)
  exact ⟨balanced.named_mem 2 (by decide) (by decide), sum⟩

end Softmax

end LaneBoost
