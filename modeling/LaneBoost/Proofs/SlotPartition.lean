import LaneBoost.Proofs.LayoutSlots
import Mathlib.Data.Set.Function
import Mathlib.Order.Interval.Set.Defs

/-!
# Slots as a partition of the buffers

A buffer has one slot for every score of every sample, and a gradient buffer has one for every gradient
and one for every hessian: none is shared and none is left over. Slots are counted group after group, so
the samples of the first groups fill the first slots, however many samples follow them.
-/
namespace LaneBoost.Layout

variable {samples scores lanes : Nat}

/-! ### Scores -/

/-- A slot tells the vector and the lane. -/
theorem scoreSlot_div (lanes_pos : 0 < lanes) (s k : Nat) :
    scoreSlot s k scores lanes / lanes = s / lanes * scores + k :=
  @lane_div lanes (s / lanes * scores + k) ⟨s % lanes, Nat.mod_lt s lanes_pos⟩

theorem scoreSlot_mod (lanes_pos : 0 < lanes) (s k : Nat) :
    scoreSlot s k scores lanes % lanes = s % lanes :=
  @lane_mod lanes (s / lanes * scores + k) ⟨s % lanes, Nat.mod_lt s lanes_pos⟩

/-- The vector tells the group and the score, which together with the lane tell the sample. -/
theorem scoreSlot_injective (lanes_pos : 0 < lanes) {s s' k k' : Nat} (hk : k < scores)
    (hk' : k' < scores) (h : scoreSlot s k scores lanes = scoreSlot s' k' scores lanes) :
    s = s' ∧ k = k' := by
  have lane : s % lanes = s' % lanes := by
    rw [← scoreSlot_mod lanes_pos s k, h, scoreSlot_mod lanes_pos]
  have vector : s / lanes * scores + k = s' / lanes * scores + k' := by
    rw [← scoreSlot_div lanes_pos, h, scoreSlot_div lanes_pos]
  -- The vectors of a group are numbered like the lanes of one, so their quotient is the group.
  have group : s / lanes = s' / lanes := by
    have groups := congrArg (· / scores) vector
    rwa [@lane_div scores _ ⟨k, hk⟩, @lane_div scores _ ⟨k', hk'⟩] at groups
  rw [group] at vector
  refine ⟨?_, Nat.add_left_cancel vector⟩
  rw [← Nat.div_add_mod s lanes, group, lane, Nat.div_add_mod]

/-- The first slots are those of the samples of the first groups. -/
theorem scoreSlot_lt_iff (whole : lanes ∣ samples) {s k : Nat} (hk : k < scores) :
    scoreSlot s k scores lanes < samples * scores ↔ s < samples := by
  refine ⟨fun inside => ?_, fun hs => scoreSlot_lt whole hs hk⟩
  by_contra later
  have groups : samples / lanes ≤ s / lanes := Nat.div_le_div_right (Nat.le_of_not_lt later)
  have vectors : samples / lanes * scores ≤ s / lanes * scores + k :=
    Nat.le_add_right_of_le (Nat.mul_le_mul_right scores groups)
  have slots := Nat.mul_le_mul_right lanes vectors
  rw [vectors_mul_lanes whole] at slots
  rw [scoreSlot] at inside
  omega

/-- The scores of some samples: pairs of a sample and a score. -/
def scoresOf (samples scores : Nat) : Set (Nat × Nat) := {p | p.1 < samples ∧ p.2 < scores}

theorem scoreSlot_bijOn (whole : lanes ∣ samples) :
    Set.BijOn (fun p : Nat × Nat => scoreSlot p.1 p.2 scores lanes) (scoresOf samples scores)
      (Set.Iio (samples * scores)) := by
  refine ⟨fun p hp => scoreSlot_lt whole hp.1 hp.2, fun p hp q hq same => ?_, fun j hj => ?_⟩
  · have lanes_pos := lanes_pos_of_lt whole hp.1
    exact Prod.ext_iff.2 (scoreSlot_injective lanes_pos hp.2 hq.2 same)
  · obtain ⟨s, hs, k, hk, rfl⟩ := exists_scoreSlot whole hj
    exact ⟨(s, k), ⟨hs, hk⟩, rfl⟩

/-! ### Gradients and hessians -/

/-- One number of a gradient buffer: the gradient of a score of a sample, or its hessian. -/
structure Part where
  sample : Nat
  score : Nat
  isHessian : Bool
  deriving DecidableEq, Repr

/-- The gradients of some samples, with their hessians where the buffer has any. -/
def partsOf (samples scores : Nat) (hessian : Bool) : Set Part :=
  {p | p.sample < samples ∧ p.score < scores ∧ (p.isHessian = true → hessian = true)}

namespace Part

/-- Slot of a gradient or hessian. -/
def slot (scores : Nat) (hessian : Bool) (lanes : Nat) (p : Part) : Nat :=
  if p.isHessian then hessianSlot p.sample p.score scores lanes
  else gradientSlot p.sample p.score scores hessian lanes

/-- The checked form. -/
def slot? (scores : Nat) (hessian : Bool) (lanes : Nat) (p : Part) : Checked Nat :=
  if p.isHessian then hessianSlot? p.sample p.score scores lanes
  else gradientSlot? p.sample p.score scores hessian lanes

theorem slot?_eq (scores : Nat) (hessian : Bool) (lanes : Nat) (p : Part) :
    p.slot? scores hessian lanes = checked lanes (p.slot scores hessian lanes) := by
  unfold slot? slot
  split <;> rfl

/-- Which of the vectors of a sample holds the part: the gradients of a score come before its
hessians. -/
def vector (hessian : Bool) (p : Part) : Nat :=
  p.score * perScore hessian + if p.isHessian then 1 else 0

variable {hessian : Bool}

theorem vector_lt {p : Part} (hp : p ∈ partsOf samples scores hessian) :
    p.vector hessian < scores * perScore hessian := by
  obtain ⟨-, score, kind⟩ := hp
  unfold vector
  cases hessian with
  | false => simpa [Bool.eq_false_iff.2 fun h => Bool.noConfusion (kind h)] using score
  | true => rw [perScore_true]; split <;> omega

theorem vector_injective {p q : Part} (hp : p ∈ partsOf samples scores hessian)
    (hq : q ∈ partsOf samples scores hessian) (h : p.vector hessian = q.vector hessian) :
    p.score = q.score ∧ p.isHessian = q.isHessian := by
  obtain ⟨-, -, kind⟩ := hp
  obtain ⟨-, -, kind'⟩ := hq
  unfold vector at h
  cases hessian <;> cases left : p.isHessian <;> cases right : q.isHessian <;>
    simp_all <;> omega

/-- To the layout, gradients and hessians are scores of which there are more. -/
theorem slot_eq {p : Part} (hp : p ∈ partsOf samples scores hessian) :
    p.slot scores hessian lanes =
      scoreSlot p.sample (p.vector hessian) (scores * perScore hessian) lanes := by
  obtain ⟨-, -, kind⟩ := hp
  have vectors : p.sample / lanes * (scores * perScore hessian) + p.score * perScore hessian =
      (p.sample / lanes * scores + p.score) * perScore hessian := by
    rw [Nat.add_mul, Nat.mul_assoc]
  unfold slot vector
  rw [scoreSlot, ← Nat.add_assoc, vectors]
  split
  case isTrue here => rw [hessianSlot_eq, kind here, perScore_true]
  case isFalse => rfl

end Part

theorem gradientSlots_eq (samples scores : Nat) (hessian : Bool) :
    gradientSlots samples scores hessian = samples * (scores * perScore hessian) :=
  Nat.mul_assoc _ _ _

/-- The first slots of a gradient buffer are those of the samples of the first groups. -/
theorem slot_lt_iff {hessian : Bool} {m : Nat} (whole : lanes ∣ m) {p : Part}
    (hp : p ∈ partsOf samples scores hessian) :
    p.slot scores hessian lanes < gradientSlots m scores hessian ↔ p.sample < m := by
  rw [Part.slot_eq hp, gradientSlots_eq]
  exact scoreSlot_lt_iff whole (Part.vector_lt hp)

theorem slot_bijOn (whole : lanes ∣ samples) (hessian : Bool) :
    Set.BijOn (Part.slot scores hessian lanes) (partsOf samples scores hessian)
      (Set.Iio (gradientSlots samples scores hessian)) := by
  refine ⟨fun p hp => ?_, fun p hp q hq same => ?_, fun j hj => ?_⟩
  · exact (slot_lt_iff whole hp).2 hp.1
  · -- As slots of scores they tell the sample and the vector, and the vector tells the part.
    rw [Part.slot_eq hp, Part.slot_eq hq] at same
    obtain ⟨sample, vector⟩ := scoreSlot_injective (lanes_pos_of_lt whole hp.1) (Part.vector_lt hp)
      (Part.vector_lt hq) same
    obtain ⟨score, kind⟩ := Part.vector_injective hp hq vector
    cases p
    cases q
    simp_all
  · obtain ⟨s, hs, k, hk, rfl | ⟨rfl, rfl⟩⟩ := exists_gradientSlot whole hessian hj
    · exact ⟨⟨s, k, false⟩, ⟨hs, hk, nofun⟩, rfl⟩
    · exact ⟨⟨s, k, true⟩, ⟨hs, hk, fun _ => rfl⟩, rfl⟩

/-! ### Slots that are sizes -/

theorem checked_eq_ok {slot : Nat} (lanes_pos : 0 < lanes) (small : slot < sizeBound) :
    checked lanes slot = .ok slot := by
  rw [checked, if_neg (Nat.ne_of_gt lanes_pos), size_of_lt small]

/-- Whole groups of samples have one slot for every score, and one for every gradient and hessian. All
of these are sizes if the length of the buffer is one. The samples before the start of a group have the
first slots of the gradient buffer, which are all that a buffer for these samples alone has. -/
theorem slots_partition (whole : lanes ∣ samples) (hessian : Bool) :
    (Set.BijOn (fun p : Nat × Nat => scoreSlot p.1 p.2 scores lanes) (scoresOf samples scores)
        (Set.Iio (samples * scores)) ∧
      (samples * scores ≤ sizeBound → ∀ p ∈ scoresOf samples scores,
        scoreSlot? p.1 p.2 scores lanes = .ok (scoreSlot p.1 p.2 scores lanes))) ∧
    (Set.BijOn (Part.slot scores hessian lanes) (partsOf samples scores hessian)
        (Set.Iio (gradientSlots samples scores hessian)) ∧
      ∀ len, gradientSlots? samples scores hessian = .ok len →
        len = gradientSlots samples scores hessian ∧
          ∀ p ∈ partsOf samples scores hessian,
            p.slot? scores hessian lanes = .ok (p.slot scores hessian lanes)) ∧
    ∀ m, lanes ∣ m →
      Part.slot scores hessian lanes '' partsOf m scores hessian =
          Set.Iio (gradientSlots m scores hessian) ∧
        ∀ p ∈ partsOf samples scores hessian,
          p.slot scores hessian lanes < gradientSlots m scores hessian ↔ p.sample < m := by
  refine ⟨⟨scoreSlot_bijOn whole, fun small p hp => ?_⟩,
    ⟨slot_bijOn whole hessian, fun len sized => ?_⟩, fun m starts => ⟨?_, fun p hp => ?_⟩⟩
  · exact checked_eq_ok (lanes_pos_of_lt whole hp.1)
      (Nat.lt_of_lt_of_le (scoreSlot_lt whole hp.1 hp.2) small)
  · have small : gradientSlots samples scores hessian < sizeBound := by
      by_contra large
      rw [gradientSlots?, size_of_le (Nat.le_of_not_lt large)] at sized
      cases sized
    rw [gradientSlots?, size_of_lt small] at sized
    refine ⟨(Except.ok.inj sized).symm, fun p hp => ?_⟩
    rw [Part.slot?_eq]
    exact checked_eq_ok (lanes_pos_of_lt whole hp.1)
      (Nat.lt_trans ((slot_bijOn whole hessian).mapsTo hp) small)
  · exact (slot_bijOn starts hessian).image_eq
  · exact slot_lt_iff starts hp

/-- Eight samples of three classes in groups of four, with hessians. -/
theorem eight_samples_partitioned :
    4 ∣ 8 ∧
      Set.BijOn (fun p : Nat × Nat => scoreSlot p.1 p.2 3 4) (scoresOf 8 3) (Set.Iio 24) ∧
      Set.BijOn (Part.slot 3 true 4) (partsOf 8 3 true) (Set.Iio 48) ∧
      (∀ p ∈ partsOf 8 3 true, p.slot? 3 true 4 = .ok (p.slot 3 true 4)) ∧
      Part.slot 3 true 4 '' partsOf 4 3 true = Set.Iio 24 := by
  have whole : 4 ∣ 8 := by decide
  obtain ⟨⟨scores, -⟩, ⟨parts, sized⟩, first⟩ := @slots_partition 8 3 4 whole true
  exact ⟨whole, scores, parts, (sized 48 (by decide)).2, (first 4 (by decide)).1⟩

end LaneBoost.Layout
