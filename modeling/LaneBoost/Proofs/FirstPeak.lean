import Mathlib.Order.Bounds.Defs
import Mathlib.Order.RelClasses
import LaneBoost.Proofs.SoftmaxLanes
import LaneBoost.Zone.Choice

/-!
# The score that is taken off

The loop over the scores of a lane ends with the first of the highest ones. For this the comparison
only has to rank the scores, as it does where none of them is a NaN. The exponents that follow are
differences from a score that none exceeds.
-/
namespace LaneBoost

/-- Comparison ranks the elements that are numbers: those that it does not tell apart share a rank, and
the ranks stand in a line. -/
abbrev Arithmetic.Ranks {F : Type} [Arithmetic F] (number : F → Prop) : Prop :=
  IsStrictWeakOrder {x // number x} fun x y => less x.1 y.1 = true

namespace Arithmetic.Ranks

variable {F : Type} [Arithmetic F] {number : F → Prop} (ranked : Ranks number) {x y z : F}

include ranked

theorem less_self (hx : number x) : less x x = false :=
  Bool.eq_false_iff.2 (ranked.irrefl ⟨x, hx⟩)

theorem less_trans (hx : number x) (hy : number y) (hz : number z) (first : less x y = true)
    (second : less y z = true) : less x z = true :=
  ranked.trans ⟨x, hx⟩ ⟨y, hy⟩ ⟨z, hz⟩ first second

/-- A third number is above the lower of two or below the higher. -/
theorem less_or_less (hx : number x) (hy : number y) (hz : number z) (apart : less x z = true) :
    less x y = true ∨ less y z = true := by
  by_contra neither
  obtain ⟨not_above, not_below⟩ := not_or.1 neither
  have same_low : ¬ less y x = true := fun h => not_below (ranked.less_trans hy hx hz h apart)
  have same_high : ¬ less z y = true := fun h => not_above (ranked.less_trans hx hz hy apart h)
  exact (ranked.incomp_trans ⟨x, hx⟩ ⟨y, hy⟩ ⟨z, hz⟩ ⟨not_above, same_low⟩
    ⟨not_below, same_high⟩).1 apart

end Arithmetic.Ranks

namespace Binary

variable {φ : Format}

theorem less_iff_place_lt {x y : Binary φ} (hx : x.isNaN = false) (hy : y.isNaN = false) :
    Arithmetic.less x y = true ↔ x.place < y.place := by
  show x.less y = true ↔ x.place < y.place
  simp [less, hx, hy]

/-- In every format the numbers that are not NaNs are ranked by their places. -/
theorem ranks_numbers (φ : Format) : Arithmetic.Ranks fun x : Binary φ => x.isNaN = false where
  irrefl x := by
    rw [less_iff_place_lt x.2 x.2]
    exact lt_irrefl _
  trans x y z := by
    rw [less_iff_place_lt x.2 y.2, less_iff_place_lt y.2 z.2, less_iff_place_lt x.2 z.2]
    exact lt_trans
  incomp_trans x y z := by
    rw [less_iff_place_lt x.2 y.2, less_iff_place_lt y.2 x.2, less_iff_place_lt y.2 z.2,
      less_iff_place_lt z.2 y.2, less_iff_place_lt x.2 z.2, less_iff_place_lt z.2 x.2]
    omega

end Binary

namespace Softmax

open Arithmetic (less Ranks)

variable {F : Type} [Arithmetic F] {w n : Nat}

/-! ### One sample -/

section Sample

variable (score : Nat → F)

/-- The classes whose score no score exceeds. -/
def highest (classes : Nat) : Set Nat :=
  {k | k < classes ∧ ∀ j, j < classes → less (score k) (score j) = false}

/-- One class more. -/
theorem peakOf_succ {k : Nat} (hk : 1 ≤ k) :
    peakOf (k + 1) score =
      if less (peakOf k score) (score k) then score k else peakOf k score := by
  obtain ⟨k, rfl⟩ := Nat.exists_eq_add_of_le hk
  simp only [peakOf, Nat.add_sub_cancel, Nat.add_sub_cancel_left]
  rw [Nat.add_comm 1 k, List.range'_1_concat, List.foldl_append, Nat.add_comm 1 k]
  rfl

variable {score}

theorem mem_highest_succ_iff {k m : Nat} :
    m ∈ highest score (k + 1) ↔
      m < k + 1 ∧ (∀ j, j < k → less (score m) (score j) = false) ∧
        less (score m) (score k) = false :=
  and_congr Iff.rfl Nat.forall_lt_succ_right

variable {number : F → Prop} (ranked : Ranks number)

include ranked

/-- The first of the highest scores stays the first until it is exceeded, and then the score that
exceeds it is the only highest one. -/
theorem isLeast_highest_succ {k first : Nat} (numbers : ∀ j, j < k + 1 → number (score j))
    (before : IsLeast (highest score k) first) :
    IsLeast (highest score (k + 1)) (if less (score first) (score k) then k else first) := by
  obtain ⟨⟨inside, none_above⟩, earliest⟩ := before
  have held : number (score first) := numbers first (Nat.lt_succ_of_lt inside)
  have next : number (score k) := numbers k (Nat.lt_succ_self k)
  split_ifs with exceeded
  · constructor
    · refine mem_highest_succ_iff.2 ⟨Nat.lt_succ_self k, fun j hj => ?_, ranked.less_self next⟩
      refine Bool.eq_false_iff.2 fun above => ?_
      have := ranked.less_trans held next (numbers j (Nat.lt_succ_of_lt hj)) exceeded above
      simp [none_above j hj] at this
    · intro m hm
      obtain ⟨bound, -, not_below⟩ := mem_highest_succ_iff.1 hm
      refine Nat.le_of_not_lt fun earlier => ?_
      -- An earlier class would have to exceed the score held, or be exceeded by the next.
      obtain above | below := ranked.less_or_less held (numbers m bound) next exceeded
      · simp [none_above m earlier] at above
      · simp [not_below] at below
  · constructor
    · exact mem_highest_succ_iff.2
        ⟨Nat.lt_succ_of_lt inside, none_above, Bool.eq_false_iff.2 exceeded⟩
    · intro m hm
      obtain ⟨bound, highest_before, -⟩ := mem_highest_succ_iff.1 hm
      obtain earlier | rfl := Nat.lt_succ_iff_lt_or_eq.1 bound
      · exact earliest ⟨earlier, highest_before⟩
      · exact Nat.le_of_lt inside

/-- The loop ends with the first of the highest scores. -/
theorem exists_isLeast_highest {classes : Nat} (some_class : 1 ≤ classes)
    (numbers : ∀ k, k < classes → number (score k)) :
    ∃ first, IsLeast (highest score classes) first ∧ peakOf classes score = score first := by
  induction classes, some_class using Nat.le_induction with
  | base =>
    refine ⟨0, ⟨⟨Nat.one_pos, fun j hj => ?_⟩, fun _ _ => Nat.zero_le _⟩, rfl⟩
    obtain rfl : j = 0 := by omega
    exact ranked.less_self (numbers 0 Nat.one_pos)
  | succ k hk ih =>
    obtain ⟨first, least, reached⟩ := ih fun j hj => numbers j (Nat.lt_succ_of_lt hj)
    refine ⟨_, isLeast_highest_succ ranked numbers least, ?_⟩
    rw [peakOf_succ score hk, reached]
    split_ifs <;> rfl

end Sample

/-! ### The lanes of a group -/

/-- The score of a class in one lane of a block. -/
def scoreAt (scores : Array F) (scoreBlock : Block) (l : Fin n) (k : Nat) : F :=
  (scoreBlock.load scores k : Lanes F n).get l

/-- What an update takes off the scores of a lane is the score of class `first`. -/
structure PeakAt (classes : Nat) (scores : Array F) (scoreBlock : Block) (l : Fin n)
    (first : Nat) : Prop where
  least : IsLeast (highest (scoreAt scores scoreBlock l) classes) first
  peak_eq : (peak classes fun k => (scoreBlock.load scores k : Lanes F n)).get l =
    scoreAt scores scoreBlock l first
  none_above : ∀ k, k < classes →
    less ((peak classes fun k => (scoreBlock.load scores k : Lanes F n)).get l)
      (scoreAt scores scoreBlock l k) = false
  /-- The exponentials of the lane are those of differences from that score. -/
  exponential_eq : ∀ {w : Nat} (wanted : Wanted) (target : Lanes (BitVec w) n)
    (gradients : Array F) (gradientBlock hessianBlock : Block) (scratch : Array F),
    classes * n ≤ scratch.size → ∀ k, k < classes →
      scoreAt (update classes wanted scores scoreBlock target gradients gradientBlock hessianBlock
          scratch ⟨0, n⟩).scratch ⟨0, n⟩ l k =
        Arithmetic.exp (scoreAt scores scoreBlock l k - scoreAt scores scoreBlock l first)
  /-- No other lane has a part in it. -/
  alone : ∀ {m : Nat} (others : Nat → Lanes F m) (j : Fin m),
    (∀ k, k < classes → (others k).get j = scoreAt scores scoreBlock l k) →
      (peak classes others).get j = scoreAt scores scoreBlock l first

/-- Every lane has the exponentials of its sample. -/
theorem get_update_exponential (classes : Nat) (wanted : Wanted) (scores : Array F)
    (scoreBlock : Block) (target : Lanes (BitVec w) n) (gradients : Array F)
    (gradientBlock hessianBlock : Block) {scratch : Array F} (room : classes * n ≤ scratch.size)
    {k : Nat} (hk : k < classes) (l : Fin n) :
    scoreAt (update classes wanted scores scoreBlock target gradients gradientBlock hessianBlock
        scratch ⟨0, n⟩).scratch ⟨0, n⟩ l k =
      exponentialOf classes (scoreAt scores scoreBlock l) k := by
  obtain ⟨scoreOf, loaded⟩ := Lanes.exists_table fun k => (scoreBlock.load scores k : Lanes F n)
  have summed := summed_sums (fun k (_ : k < classes) l => loaded k l) wanted.metric target scratch
  have scores_eq : scoreAt scores scoreBlock l = scoreOf l := funext fun k => loaded k l
  rw [scores_eq]
  exact summed.get_exponential room hk l

end Softmax

/-- The loop over the scores of a lane group, with the choices of a zone. -/
def Zone.peak (z : Zone) (classes : Nat) (score : Nat → Lanes z.Number z.lanes) :
    Lanes z.Number z.lanes :=
  (List.range' 1 (classes - 1)).foldl
    (fun top k => z.whereLess top (score k) (score k) top) (score 0)

theorem Zone.peak_eq (z : Zone) (classes : Nat) (score : Nat → Lanes z.Number z.lanes) :
    z.peak classes score = Softmax.peak classes score := by
  simp only [peak, Softmax.peak, whereLess_eq]

/-- In every zone the comparison ranks the numbers that are not NaNs, and the loop over the scores comes
to the same, however the zone chooses. Wherever the comparison ranks numbers and the scores of a lane
are numbers, the loop ends with the score of the first class that no class of the lane exceeds. It is
what the exponentials take off, so no score is above it there, and the other lanes have no part in
it. -/
theorem Softmax.peak_first_of_highest :
    (∀ z : Zone, Arithmetic.Ranks (fun x : z.Number => x.isNaN = false) ∧
      ∀ (classes : Nat) (score : Nat → Lanes z.Number z.lanes),
        z.peak classes score = peak classes score) ∧
      ∀ (F : Type) [Arithmetic F] (number : F → Prop), Arithmetic.Ranks number →
        ∀ (n classes : Nat) (scores : Array F) (scoreBlock : Block) (l : Fin n), 1 ≤ classes →
          (∀ k, k < classes → number (scoreAt scores scoreBlock l k)) →
            ∃ first, PeakAt classes scores scoreBlock l first := by
  refine ⟨fun z => ⟨Binary.ranks_numbers z.format, z.peak_eq⟩, ?_⟩
  intro F _ number ranked n classes scores scoreBlock l some_class numbers
  obtain ⟨first, least, reached⟩ := exists_isLeast_highest ranked some_class numbers
  have top : (peak classes fun k => (scoreBlock.load scores k : Lanes F n)).get l =
      scoreAt scores scoreBlock l first := (get_peak _ _ l).trans reached
  refine ⟨first, least, top, fun k hk => ?_, ?_, ?_⟩
  · rw [top]
    exact least.1.2 k hk
  · intro w wanted target gradients gradientBlock hessianBlock scratch room k hk
    rw [get_update_exponential _ _ _ _ _ _ _ _ room hk, exponentialOf, reached]
  · intro m others j same
    rw [get_peak, peakOf_congr same some_class, reached]

/-- Three classes in four lanes. The first lane has its highest score twice, and others have NaNs. -/
theorem Softmax.first_of_equal_scores :
    let number : Nat → Zone.sse2.Number := Binary.ofNat
    let scores : Array Zone.sse2.Number := #[
      number 1, Binary.nan, 0, 0,
      number 3, number 2, 0, number 5,
      number 3, number 1, Binary.nan, 0]
    let lane : Fin Zone.sse2.lanes := ⟨0, by decide⟩
    (∀ k, k < 3 → (scoreAt scores ⟨0, 4⟩ lane k).isNaN = false) ∧ PeakAt 3 scores ⟨0, 4⟩ lane 1 := by
  intro number scores lane
  have numbers : ∀ k, k < 3 → (scoreAt scores ⟨0, 4⟩ lane k).isNaN = false := by decide +kernel
  obtain ⟨zones, lanes⟩ := peak_first_of_highest
  obtain ⟨first, peakAt⟩ := lanes Zone.sse2.Number (fun x => x.isNaN = false) (zones .sse2).1
    Zone.sse2.lanes 3 scores ⟨0, 4⟩ lane (by decide) numbers
  have second : 1 ∈ highest (scoreAt scores ⟨0, 4⟩ lane) 3 := ⟨by decide, by decide +kernel⟩
  have first_exceeded : Arithmetic.less (scoreAt scores ⟨0, 4⟩ lane 0)
      (scoreAt scores ⟨0, 4⟩ lane 1) = true := by decide +kernel
  have at_most := peakAt.least.2 second
  obtain rfl | rfl : first = 0 ∨ first = 1 := by omega
  · have := peakAt.least.1.2 1 (by decide)
    rw [first_exceeded] at this
    cases this
  · exact ⟨numbers, peakAt⟩

end LaneBoost
