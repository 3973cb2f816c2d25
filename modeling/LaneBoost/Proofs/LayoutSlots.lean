import LaneBoost.Layout
import LaneBoost.Proofs.LaneGroups

/-!
# Slots and the samples that have them

Every slot below the number of scores is the slot of one sample and score, and every slot of a gradient
buffer is that of a gradient or a hessian. So a kernel that writes the slots of all samples leaves
nothing between them.
-/
namespace LaneBoost.Layout

variable {samples scores lanes : Nat}

theorem perScore_pos (hessian : Bool) : 0 < perScore hessian := by cases hessian <;> decide

/-! ### Vectors -/

/-- A score of a sample is in a vector of the samples' groups. -/
theorem vector_lt (whole : lanes ∣ samples) {s k : Nat} (hs : s < samples) (hk : k < scores) :
    s / lanes * scores + k < samples / lanes * scores := by
  obtain ⟨groups, rfl⟩ := whole
  have lanes_pos : 0 < lanes := Nat.pos_of_ne_zero (by rintro rfl; simp at hs)
  rw [Nat.mul_div_cancel_left _ lanes_pos]
  exact @lane_lt scores groups _ (Nat.div_lt_of_lt_mul hs) ⟨k, hk⟩

/-- Vectors of scores hold as many slots as there are scores. -/
theorem vectors_mul_lanes (whole : lanes ∣ samples) :
    samples / lanes * scores * lanes = samples * scores := by
  rw [Nat.mul_right_comm, Nat.div_mul_cancel whole]

/-- A lane of a vector is one of the slots. -/
theorem slot_lt_of_vector_lt {u v l : Nat} (hu : u < v) (hl : l < lanes) :
    u * lanes + l < v * lanes :=
  lane_lt hu ⟨l, hl⟩

/-! ### Scores -/

theorem scoreSlot_lt (whole : lanes ∣ samples) {s k : Nat} (hs : s < samples) (hk : k < scores) :
    scoreSlot s k scores lanes < samples * scores := by
  rw [← vectors_mul_lanes whole]
  exact slot_lt_of_vector_lt (vector_lt whole hs hk) (Nat.mod_lt s (lanes_pos_of_lt whole hs))

theorem exists_scoreSlot (whole : lanes ∣ samples) {j : Nat} (hj : j < samples * scores) :
    ∃ s, s < samples ∧ ∃ k, k < scores ∧ j = scoreSlot s k scores lanes := by
  rw [← vectors_mul_lanes whole] at hj
  have lanes_pos : 0 < lanes := Nat.pos_of_ne_zero (by rintro rfl; simp at hj)
  have hu : j / lanes < samples / lanes * scores := Nat.div_lt_of_lt_mul (by rwa [Nat.mul_comm])
  obtain ⟨g, hg, k, hk⟩ := exists_lane (Nat.dvd_mul_left scores (samples / lanes)) hu
  have scores_pos : 0 < scores := Nat.zero_lt_of_lt k.isLt
  rw [Nat.mul_div_cancel _ scores_pos] at hg
  let l : Fin lanes := ⟨j % lanes, Nat.mod_lt j lanes_pos⟩
  refine ⟨g * lanes + l.val, lane_lt_samples whole hg l, k.val, k.isLt, ?_⟩
  rw [scoreSlot, lane_div, lane_mod, ← hk]
  exact (Nat.div_add_mod' j lanes).symm

/-! ### Gradients and hessians -/

theorem gradientSlot_lt (whole : lanes ∣ samples) {s k : Nat} (hessian : Bool) (hs : s < samples)
    (hk : k < scores) :
    gradientSlot s k scores hessian lanes < gradientSlots samples scores hessian := by
  have hl := Nat.mod_lt s (lanes_pos_of_lt whole hs)
  have vectors := Nat.mul_lt_mul_of_pos_right (vector_lt whole hs hk) (perScore_pos hessian)
  have slots : gradientSlots samples scores hessian =
      samples / lanes * scores * perScore hessian * lanes := by
    rw [gradientSlots, Nat.mul_right_comm _ _ lanes, vectors_mul_lanes whole]
  rw [gradientSlot, slots]
  exact slot_lt_of_vector_lt vectors hl

theorem hessianSlot_eq (s k : Nat) :
    hessianSlot s k scores lanes =
      ((s / lanes * scores + k) * 2 + 1) * lanes + s % lanes := by
  rw [hessianSlot, gradientSlot, perScore_true, Nat.succ_mul]
  omega

theorem hessianSlot_lt (whole : lanes ∣ samples) {s k : Nat} (hs : s < samples)
    (hk : k < scores) : hessianSlot s k scores lanes < gradientSlots samples scores true := by
  have hl := Nat.mod_lt s (lanes_pos_of_lt whole hs)
  have vectors := vector_lt whole hs hk
  have slots : gradientSlots samples scores true = samples / lanes * scores * 2 * lanes := by
    rw [gradientSlots, perScore_true, Nat.mul_right_comm _ _ lanes, vectors_mul_lanes whole]
  rw [hessianSlot_eq, slots]
  exact slot_lt_of_vector_lt (by omega) hl

/-- A slot of a gradient buffer is that of a gradient, or of a hessian where there are any. -/
theorem exists_gradientSlot (whole : lanes ∣ samples) (hessian : Bool) {j : Nat}
    (hj : j < gradientSlots samples scores hessian) :
    ∃ s, s < samples ∧ ∃ k, k < scores ∧
      (j = gradientSlot s k scores hessian lanes ∨
        hessian = true ∧ j = hessianSlot s k scores lanes) := by
  have slots : gradientSlots samples scores hessian =
      samples / lanes * (scores * perScore hessian) * lanes := by
    rw [gradientSlots, vectors_mul_lanes whole, Nat.mul_assoc]
  rw [slots, vectors_mul_lanes whole] at hj
  obtain ⟨s, hs, part, hpart, rfl⟩ := exists_scoreSlot whole hj
  cases hessian with
  | false =>
    refine ⟨s, hs, part, by simpa using hpart, Or.inl ?_⟩
    simp [scoreSlot, gradientSlot]
  | true =>
    rw [perScore_true] at hpart
    refine ⟨s, hs, part / 2, by omega, ?_⟩
    have twice : s / lanes * (scores * 2) = s / lanes * scores * 2 := by rw [Nat.mul_assoc]
    rw [hessianSlot_eq, gradientSlot, scoreSlot, perScore_true, twice]
    rcases Nat.mod_two_eq_zero_or_one part with even | odd
    · left
      have vector : s / lanes * scores * 2 + part = (s / lanes * scores + part / 2) * 2 := by omega
      rw [vector]
    · right
      have vector : s / lanes * scores * 2 + part =
          (s / lanes * scores + part / 2) * 2 + 1 := by omega
      exact ⟨rfl, by rw [vector]⟩

end LaneBoost.Layout
