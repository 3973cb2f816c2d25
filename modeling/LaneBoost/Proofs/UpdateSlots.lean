import LaneBoost.Proofs.UpdateLoop

/-!
# An update, slot by slot

What a call leaves in the caller's buffers: at the slots of the layout the new scores, gradients and
hessians of the samples, and everywhere else what was there. A call of an objective with one score and
one with several differ only in the formulas for a sample.
-/
namespace LaneBoost

namespace Layout

variable {α : Type} {samples scores lanes : Nat}

/-- `new` is `old` with the scores of the samples put at their slots. -/
structure ScoresPut (old new : Array α) (samples scores lanes : Nat) (score : Nat → Nat → α) :
    Prop where
  size_eq : new.size = old.size
  at_slot : ∀ s, s < samples → ∀ k, k < scores →
    new[scoreSlot s k scores lanes]? = some (score s k)
  elsewhere : ∀ j, (∀ s, s < samples → ∀ k, k < scores → j ≠ scoreSlot s k scores lanes) →
    new[j]? = old[j]?

/-- `new` is `old` with the gradients of the samples put at their slots, and their hessians where
there are any. -/
structure GradientsPut (old new : Array α) (samples scores : Nat) (hessian : Bool) (lanes : Nat)
    (gradient hess : Nat → Nat → α) : Prop where
  size_eq : new.size = old.size
  gradient_at : ∀ s, s < samples → ∀ k, k < scores →
    new[gradientSlot s k scores hessian lanes]? = some (gradient s k)
  hessian_at : hessian = true → ∀ s, s < samples → ∀ k, k < scores →
    new[hessianSlot s k scores lanes]? = some (hess s k)
  elsewhere : ∀ j, (∀ s, s < samples → ∀ k, k < scores →
      j ≠ gradientSlot s k scores hessian lanes ∧
        (hessian = true → j ≠ hessianSlot s k scores lanes)) →
    new[j]? = old[j]?
  beyond : ∀ j, gradientSlots samples scores hessian ≤ j → new[j]? = old[j]?

/-- Refilling the vectors of all groups puts the scores of all samples. -/
theorem scoresPut_refill (whole : lanes ∣ samples) (a : Array α)
    (room : samples * scores ≤ a.size) (score : Nat → Nat → α) :
    ScoresPut a (refill lanes a (samples / lanes * scores) (scoreVector scores lanes score))
      samples scores lanes score := by
  constructor
  · exact size_refill _ _ _
  · intro s hs k hk
    have inside := Nat.lt_of_lt_of_le (scoreSlot_lt whole hs hk) room
    obtain ⟨g, hg, l, rfl⟩ := exists_lane whole hs
    rw [scoreSlot_lane] at inside ⊢
    have vector : g * scores + k < samples / lanes * scores := @lane_lt scores _ g hg ⟨k, hk⟩
    rw [getElem?_refill_lane a _ _ vector l inside, scoreVector_group _ g hk]
  · intro j other
    refine getElem?_refill_of_le a _ _ ?_
    rw [vectors_mul_lanes whole]
    apply Nat.le_of_not_lt
    intro hj
    obtain ⟨s, hs, k, hk, rfl⟩ := exists_scoreSlot whole hj
    exact other s hs k hk rfl

/-- Refilling the vectors of all groups puts the gradients and hessians of all samples. -/
theorem gradientsPut_refill (whole : lanes ∣ samples) (a : Array α) (hessian : Bool)
    (room : gradientSlots samples scores hessian ≤ a.size) (gradient hess : Nat → Nat → α) :
    GradientsPut a
      (refill lanes a (samples / lanes * scores * perScore hessian)
        (gradientVector scores hessian lanes gradient hess))
      samples scores hessian lanes gradient hess := by
  have beyond : ∀ j, gradientSlots samples scores hessian ≤ j →
      (refill lanes a (samples / lanes * scores * perScore hessian)
        (gradientVector scores hessian lanes gradient hess))[j]? = a[j]? := by
    intro j hj
    refine getElem?_refill_of_le a _ _ ?_
    rwa [Nat.mul_right_comm, vectors_mul_lanes whole]
  constructor
  · exact size_refill _ _ _
  · intro s hs k hk
    have inside := Nat.lt_of_lt_of_le (gradientSlot_lt whole hessian hs hk) room
    obtain ⟨g, hg, l, rfl⟩ := exists_lane whole hs
    have vector : (g * scores + k) * perScore hessian <
        samples / lanes * scores * perScore hessian :=
      Nat.mul_lt_mul_of_pos_right (@lane_lt scores _ g hg ⟨k, hk⟩) (perScore_pos hessian)
    rw [gradientSlot, lane_div, lane_mod] at inside ⊢
    rw [getElem?_refill_lane a _ _ vector l inside, gradientVector_gradient _ _ hessian g hk]
  · intro some_hessians s hs k hk
    subst some_hessians
    have inside := Nat.lt_of_lt_of_le (hessianSlot_lt whole hs hk) room
    obtain ⟨g, hg, l, rfl⟩ := exists_lane whole hs
    have vector : (g * scores + k) * 2 + 1 < samples / lanes * scores * perScore true := by
      have score : g * scores + k < samples / lanes * scores := @lane_lt scores _ g hg ⟨k, hk⟩
      rw [perScore_true]
      omega
    rw [hessianSlot_eq, lane_div, lane_mod] at inside ⊢
    rw [getElem?_refill_lane a _ _ vector l inside, gradientVector_hessian _ _ g hk]
  · intro j other
    apply beyond
    apply Nat.le_of_not_lt
    intro hj
    obtain ⟨s, hs, k, hk, here | ⟨some_hessians, here⟩⟩ := exists_gradientSlot whole hessian hj
    · exact (other s hs k hk).1 here
    · exact (other s hs k hk).2 some_hessians here
  · exact beyond

end Layout

namespace Zone

/-- In every zone a word below `2 ^ 31` names the element of its number. -/
theorem place_of_lt (z : Zone) (x : BitVec z.width) (h : x.toNat < 2 ^ 31) :
    z.machine.place x = x.toNat := by
  cases z with
  | cpu64 => rfl
  | accel32 => rfl
  | sse2 => rfl
  | avx2 =>
    have half : 2 * x.toNat < 2 ^ Zone.avx2.width := by
      show 2 * x.toNat < 2 ^ 32
      omega
    exact BitVec.toInt_eq_toNat_of_lt half

/-- A word below half of all becomes the same number, whether it is taken for signed or not. -/
theorem ofInt_toInt (z : Zone) (x : BitVec z.width) (half : 2 * x.toNat < 2 ^ z.width) :
    (Binary.ofInt x.toInt : z.Number) = Binary.ofNat x.toNat := by
  rw [BitVec.toInt_eq_toNat_of_lt half, Binary.ofInt, Binary.ofNat, Int.natAbs_natCast]
  exact congrArg (fun s => Binary.ofRatio s x.toNat 1) (decide_eq_false (by omega))

/-- So in every zone a word below `2 ^ 31` becomes the number that it counts. -/
theorem ofWord_of_lt (z : Zone) (x : BitVec z.width) (h : x.toNat < 2 ^ 31) :
    z.machine.ofWord x = Binary.ofNat x.toNat := by
  have signed : 2 ^ 32 ≤ 2 ^ z.width → (Binary.ofInt x.toInt : z.Number) = Binary.ofNat x.toNat :=
    fun wide => z.ofInt_toInt x (by omega)
  cases z with
  | cpu64 => rfl
  | accel32 => rfl
  | sse2 => exact signed (Nat.le_refl _)
  | avx2 => exact signed (Nat.le_refl _)

theorem wide (z : Zone) : 31 ≤ z.width := by cases z <;> decide

end Zone

namespace Update

/-- What a call leaves of its scores and gradients. A gradient buffer that is not there stays away. -/
structure Puts {F : Type} (b b' : Buffers F) (samples scores : Nat) (hessian : Bool) (lanes : Nat)
    (score gradient hess : Nat → Nat → F) : Prop where
  scores_put : Layout.ScoresPut b.scores b'.scores samples scores lanes score
  gradients_put : ∀ a, b.gradients = some a → ∃ a', b'.gradients = some a' ∧
    Layout.GradientsPut a a' samples scores hessian lanes gradient hess
  no_gradients : b.gradients = none → b'.gradients = none

/-- Only the values at the slots count. -/
theorem Puts.congr {F : Type} {b b' : Buffers F} {samples scores lanes : Nat} {hessian : Bool}
    {score gradient hess score' gradient' hess' : Nat → Nat → F}
    (puts : Puts b b' samples scores hessian lanes score gradient hess)
    (score_eq : ∀ s, s < samples → ∀ k, k < scores → score s k = score' s k)
    (gradient_eq : ∀ s, s < samples → ∀ k, k < scores → gradient s k = gradient' s k)
    (hess_eq : ∀ s, s < samples → ∀ k, k < scores → hess s k = hess' s k) :
    Puts b b' samples scores hessian lanes score' gradient' hess' := by
  constructor
  · obtain ⟨size_eq, at_slot, elsewhere⟩ := puts.scores_put
    exact ⟨size_eq, fun s hs k hk => score_eq s hs k hk ▸ at_slot s hs k hk, elsewhere⟩
  · intro a ha
    obtain ⟨a', ha', size_eq, gradient_at, hessian_at, elsewhere, beyond⟩ := puts.gradients_put a ha
    exact ⟨a', ha', size_eq, fun s hs k hk => gradient_eq s hs k hk ▸ gradient_at s hs k hk,
      fun some s hs k hk => hess_eq s hs k hk ▸ hessian_at some s hs k hk, elsewhere, beyond⟩
  · exact puts.no_gradients

variable {F : Type} [Arithmetic F] {w lanes : Nat}

/-- A call that fits puts the new scores and gradients of all samples. -/
theorem puts_of_fits {m : Machine F w lanes} {o : Objective} {r : Request F w} {b : Buffers F}
    (fits : Fits m o r b)
    (gradient_room : ∀ a, b.gradients = some a →
      Layout.gradientSlots r.samples r.scores (r.hessianNeeded && o.hasHessian) ≤ a.size)
    {b' : Buffers F} (scores : b'.scores = newScores r b lanes)
    (gradients : b'.gradients = b.gradients.map (newGradients m o r b)) :
    Puts b b' r.samples r.scores (r.hessianNeeded && o.hasHessian) lanes (scoreAfter r b lanes)
      (gradientAfter m o r b) (hessianAfter o r b lanes) := by
  constructor
  · rw [scores]
    exact Layout.scoresPut_refill fits.whole b.scores fits.room _
  · intro a ha
    refine ⟨newGradients m o r b a, by rw [gradients, ha]; rfl, ?_⟩
    exact Layout.gradientsPut_refill fits.whole a _ (gradient_room a ha) _ _
  · intro none
    rw [gradients, none]
    rfl

/-- A call that fits answers `ok` and puts the new scores and gradients of all samples. Neither
depends on the weights or on whether the metric is wanted. -/
theorem run_puts {m : Machine F w lanes} {o : Objective} {r : Request F w} {b : Buffers F}
    (fits : Fits m o r b)
    (gradient_room : ∀ a, b.gradients = some a →
      Layout.gradientSlots r.samples r.scores (r.hessianNeeded && o.hasHessian) ≤ a.size) :
    ∃ b', run m r o b = .ok (.ok, b') ∧ b'.scores = newScores r b lanes ∧
      b'.gradients = b.gradients.map (newGradients m o r b) ∧
      Puts b b' r.samples r.scores (r.hessianNeeded && o.hasHessian) lanes (scoreAfter r b lanes)
        (gradientAfter m o r b) (hessianAfter o r b lanes) := by
  obtain ⟨scratch, answer⟩ := run_eq fits
  exact ⟨_, answer, rfl, rfl, puts_of_fits fits gradient_room rfl rfl⟩

/-! ### One score -/

/-- The only score of a sample after the update. -/
def singleAfter (r : Request F w) (b : Buffers F) (lanes s : Nat) : F :=
  b.scores.getD s 0 + r.tensor.getD (rowOf r lanes s) 0

theorem scoreAfter_single {r : Request F w} (b : Buffers F) (single : r.scores = 1) (lanes s : Nat) :
    scoreAfter r b lanes s 0 = singleAfter r b lanes s := by
  have slot : Layout.scoreSlot s 0 1 lanes = s := by
    rw [Layout.scoreSlot, Nat.mul_one, Nat.add_zero, Nat.div_add_mod']
  rw [scoreAfter, single, slot, entryOf, single, Nat.mul_one, Nat.add_zero, singleAfter]

theorem fits_single {z : Zone} {o : Objective} {p : Pointwise} (pointwise : o.pointwise? = some p)
    {r : Request z.Number z.width} {b : Buffers z.Number} (single : r.scores = 1)
    (whole : z.lanes ∣ r.samples) (items : r.items ≤ z.width) (tensor_lt : r.tensor.size < 2 ^ 31)
    (inside : ∀ s, s < r.samples → rowOf r z.lanes s < r.tensor.size)
    (room : r.samples ≤ b.scores.size) : Fits z.machine o r b where
  scores_eq := single.trans (Objective.scores_of_pointwise pointwise).symm
  scores_pos := by omega
  whole := whole
  items_le := items
  wide := z.wide
  place_eq := z.place_of_lt
  entry_lt s hs k hk := by
    have entry := inside s hs
    rw [single] at hk ⊢
    omega
  room := by rwa [single, Nat.mul_one]
  scratch_room classes privacy several := by
    subst several
    cases pointwise

/-- In every zone, an update of an objective with one score answers `ok`. It adds to the score of each
sample the entry of the tensor that the sample's index selects, and puts the gradient and the hessian
at the new score where the layout has them; no other element of the buffers changes. With other
weights, or with or without the metric, the scores and gradients are the same. -/
theorem zone_update_single (z : Zone) (o : Objective) {p : Pointwise}
    (pointwise : o.pointwise? = some p) (r : Request z.Number z.width) (b : Buffers z.Number)
    (single : r.scores = 1) (whole : z.lanes ∣ r.samples) (items : r.items ≤ z.width)
    (tensor_lt : r.tensor.size < 2 ^ 31)
    (inside : ∀ s, s < r.samples → rowOf r z.lanes s < r.tensor.size)
    (room : r.samples ≤ b.scores.size)
    (gradient_room : ∀ a, b.gradients = some a →
      Layout.gradientSlots r.samples 1 (r.hessianNeeded && o.hasHessian) ≤ a.size) :
    ∃ b', run z.machine r o b = .ok (.ok, b') ∧
      (∀ s, s < r.samples → b'.scores[s]? = some (singleAfter r b z.lanes s)) ∧
      Puts b b' r.samples 1 (r.hessianNeeded && o.hasHessian) z.lanes
        (fun s _ => singleAfter r b z.lanes s)
        (fun s _ => p.gradientAt z.machine (singleAfter r b z.lanes s) (targetOf r s))
        (fun s _ => p.hessianAt (singleAfter r b z.lanes s)) ∧
      ∀ calcMetric weights, ∃ b'', run z.machine { r with calcMetric, weights } o b = .ok (.ok, b'') ∧
        b''.scores = b'.scores ∧ b''.gradients = b'.gradients := by
  have fits := fits_single pointwise single whole items tensor_lt inside room
  obtain ⟨b', answer, scores, gradients, puts⟩ := run_puts fits (by rwa [single])
  have score_eq : ∀ s, scoreAfter r b z.lanes s 0 = singleAfter r b z.lanes s :=
    scoreAfter_single b single z.lanes
  rw [single] at puts
  have single_puts : Puts b b' r.samples 1 (r.hessianNeeded && o.hasHessian) z.lanes
      (fun s _ => singleAfter r b z.lanes s)
      (fun s _ => p.gradientAt z.machine (singleAfter r b z.lanes s) (targetOf r s))
      (fun s _ => p.hessianAt (singleAfter r b z.lanes s)) := by
    refine puts.congr (fun s _ k hk => ?_) (fun s _ k _ => ?_) fun s _ k _ => ?_
    · obtain rfl := Nat.lt_one_iff.1 hk
      exact score_eq s
    · rw [gradientAfter, Objective.gradientAt_of_pointwise pointwise, score_eq]
    · rw [hessianAfter, Objective.hessianAt_of_pointwise pointwise, score_eq]
  refine ⟨b', answer, ?_, single_puts, ?_⟩
  · intro s hs
    have put := single_puts.scores_put.at_slot s hs 0 (by decide)
    rwa [Layout.scoreSlot, Nat.mul_one, Nat.add_zero, Nat.div_add_mod'] at put
  · intro calcMetric weights
    have other : Fits z.machine o { r with calcMetric, weights } b :=
      fits_single pointwise single whole items tensor_lt inside room
    obtain ⟨scratch, answer'⟩ := run_eq other
    exact ⟨_, answer', scores.symm, gradients.symm⟩

/-- Four samples of a log loss, the middle two of which take the second entry. -/
def fourOfTwoClasses : Request Zone.sse2.Number Zone.sse2.width where
  samples := 4
  items := 32
  hessianNeeded := true
  tensor := #[1, 0]
  packed := some #[0, 1, 1, 0]
  targets := #[0, 1, 0, 1]

def singleBuffers : Buffers Zone.sse2.Number where
  scores := #[0, 1, 0, 1, 1]
  gradients := some (Array.replicate 9 1)

theorem four_of_two_classes_updated :
    ∃ b', run Zone.sse2.machine fourOfTwoClasses (.binary false) singleBuffers = .ok (.ok, b') ∧
      (∀ s, s < 4 → b'.scores[s]? = some (singleAfter fourOfTwoClasses singleBuffers 4 s)) ∧
      Puts singleBuffers b' 4 1 true 4
        (fun s _ => singleAfter fourOfTwoClasses singleBuffers 4 s)
        (fun s _ => Pointwise.logistic.gradientAt Zone.sse2.machine
          (singleAfter fourOfTwoClasses singleBuffers 4 s) (targetOf fourOfTwoClasses s))
        (fun s _ => Pointwise.logistic.hessianAt
          (singleAfter fourOfTwoClasses singleBuffers 4 s)) ∧
      ∀ calcMetric weights, ∃ b'',
        run Zone.sse2.machine { fourOfTwoClasses with calcMetric, weights } (.binary false)
            singleBuffers = .ok (.ok, b'') ∧
          b''.scores = b'.scores ∧ b''.gradients = b'.gradients :=
  zone_update_single .sse2 (.binary false) rfl fourOfTwoClasses singleBuffers rfl ⟨1, rfl⟩
    (by decide) (by decide) (by decide) (by decide) (by
      intro a ha
      cases ha
      decide)

/-! ### Several scores -/

theorem fits_several {z : Zone} {classes : Nat} {privacy : Bool} {r : Request z.Number z.width}
    {b : Buffers z.Number} (some_classes : 0 < classes) (scores_eq : r.scores = classes)
    (whole : z.lanes ∣ r.samples) (items : r.items ≤ z.width) (tensor_lt : r.tensor.size < 2 ^ 31)
    (inside : ∀ s, s < r.samples → (rowOf r z.lanes s + 1) * classes ≤ r.tensor.size)
    (room : r.samples * classes ≤ b.scores.size)
    (scratch_room : (b.gradients.isSome || r.calcMetric) = true →
      ∃ scratch, b.scratch = some scratch ∧ classes * z.lanes ≤ scratch.size) :
    Fits z.machine (.multiclass classes privacy) r b where
  scores_eq := scores_eq
  scores_pos := scores_eq ▸ some_classes
  whole := whole
  items_le := items
  wide := z.wide
  place_eq := z.place_of_lt
  entry_lt s hs k hk := by
    have row := inside s hs
    rw [Nat.succ_mul] at row
    rw [scores_eq] at hk ⊢
    omega
  room := scores_eq ▸ room
  scratch_room classes' privacy' several computed := by
    cases several
    obtain ⟨scratch, present, size⟩ := scratch_room computed
    rw [present]
    exact ⟨rfl, size⟩

/-- In every zone, an update of an objective with several scores answers `ok`. It adds to the scores
of each sample the row of the tensor that the sample's index selects, and puts the gradients and the
hessians that the exponentials of the new scores make at the slots of the layout; no other element of
the buffers changes. -/
theorem zone_update_several (z : Zone) (classes : Nat) (privacy : Bool)
    (r : Request z.Number z.width) (b : Buffers z.Number) (several : 3 ≤ classes)
    (scores_eq : r.scores = classes) (whole : z.lanes ∣ r.samples) (items : r.items ≤ z.width)
    (tensor_lt : r.tensor.size < 2 ^ 31)
    (inside : ∀ s, s < r.samples → (rowOf r z.lanes s + 1) * classes ≤ r.tensor.size)
    (room : r.samples * classes ≤ b.scores.size)
    (gradient_room : ∀ a, b.gradients = some a →
      Layout.gradientSlots r.samples classes (r.hessianNeeded && !privacy) ≤ a.size)
    (scratch_room : (b.gradients.isSome || r.calcMetric) = true →
      ∃ scratch, b.scratch = some scratch ∧ classes * z.lanes ≤ scratch.size) :
    ∃ b', run z.machine r (.multiclass classes privacy) b = .ok (.ok, b') ∧
      Puts b b' r.samples classes (r.hessianNeeded && !privacy) z.lanes
        (fun s k => b.scores.getD (Layout.scoreSlot s k classes z.lanes) 0 +
          r.tensor.getD (rowOf r z.lanes s * classes + k) 0)
        (fun s k => Softmax.gradientOf classes (scoreAfter r b z.lanes s) (targetOf r s) k)
        (fun s k => Softmax.hessianOf classes (scoreAfter r b z.lanes s) k) := by
  subst scores_eq
  have fits := @fits_several z r.scores privacy r b (Nat.lt_of_lt_of_le (by decide) several) rfl whole
    items tensor_lt inside room scratch_room
  obtain ⟨b', answer, -, -, puts⟩ := run_puts fits gradient_room
  exact ⟨b', answer, puts⟩

/-- Four samples of three classes, the middle two of which take the second row. -/
def fourOfThreeClasses : Request Zone.sse2.Number Zone.sse2.width where
  scores := 3
  samples := 4
  items := 32
  hessianNeeded := true
  calcMetric := true
  tensor := #[1, 0, 0, 0, 1, 0]
  packed := some #[0, 1, 1, 0]
  targets := #[0, 1, 2, 1]

def severalBuffers : Buffers Zone.sse2.Number where
  scores := Array.replicate 12 0
  gradients := some (Array.replicate 25 1)
  scratch := some (Array.replicate 12 1)

theorem four_of_three_classes_updated :
    ∃ b', run Zone.sse2.machine fourOfThreeClasses (.multiclass 3 false) severalBuffers =
        .ok (.ok, b') ∧
      Puts severalBuffers b' 4 3 true 4
        (fun s k => severalBuffers.scores.getD (Layout.scoreSlot s k 3 4) 0 +
          fourOfThreeClasses.tensor.getD (rowOf fourOfThreeClasses 4 s * 3 + k) 0)
        (fun s k => Softmax.gradientOf 3 (scoreAfter fourOfThreeClasses severalBuffers 4 s)
          (targetOf fourOfThreeClasses s) k)
        (fun s k => Softmax.hessianOf 3 (scoreAfter fourOfThreeClasses severalBuffers 4 s) k) :=
  zone_update_several .sse2 3 false fourOfThreeClasses severalBuffers (by decide) rfl ⟨1, rfl⟩
    (by decide) (by decide) (by decide) (by decide) (by
      intro a ha
      cases ha
      decide) fun _ => ⟨_, rfl, by decide⟩

end Update

end LaneBoost
