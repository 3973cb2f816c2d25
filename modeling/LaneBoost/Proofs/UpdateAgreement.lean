import LaneBoost.Objective.Catalog
import LaneBoost.Proofs.SingleZones

/-!
# Updates without lanes

A data set is a table with one row for each sample. What an update makes of it is a matter of the rows
alone: in every zone with numbers of 32 bits the call answers the same and leaves, at the slots of that
zone, the same tables.
-/
namespace LaneBoost

theorem Registration.scores_pos {registration : Registration} {c : Config} {o : Objective}
    (created : registration.create? c = .ok o) : 0 < o.scores := by
  cases registration with
  | rmse =>
    rw [create?, Objective.squaredError?] at created
    split at created
    · cases created
      decide
    · cases created
  | logLoss =>
    rw [create?, Objective.logLoss?] at created
    split at created
    · cases created
    · rename_i enough
      split at created
      · cases created
        exact Nat.one_pos
      · cases created
        exact Nat.lt_of_lt_of_le (by decide) (Nat.le_of_not_lt enough)

/-- The gradients of a target that the objective takes do not depend on the zone. -/
theorem SingleZone.gradientAt_eq (z z' : SingleZone) {o : Objective} {target : BitVec 32}
    (small : ∀ privacy, o = .binary privacy → target.toNat < 2) (score : Nat → Binary32) (k : Nat) :
    o.gradientAt z.machine score target k = o.gradientAt z'.machine score target k := by
  cases o with
  | squaredError =>
    simp only [Objective.gradientAt, Pointwise.gradientAt, Pointwise.targetAt, z.ofCell_eq z']
  | binary privacy =>
    have bound : target.toNat < 2 ^ 31 := Nat.lt_trans (small privacy rfl) (by decide)
    simp only [Objective.gradientAt, Pointwise.gradientAt, Pointwise.targetAt,
      ofWord_of_lt _ target bound]
  | multiclass classes privacy => rfl

namespace Update

/-- Scores, gradients and hessians of samples, by sample and score. -/
structure Tables where
  score : Nat → Nat → Binary32
  gradient : Nat → Nat → Binary32
  hess : Nat → Nat → Binary32

/-- What is updated, before it is laid out for a zone. -/
structure Dataset where
  samples : Nat
  scores : Nat
  /-- The row of the tensor for each sample; the first one for all, if there are none. -/
  indexes : Option (Array Nat)
  tensor : Array Binary32
  targets : Array (BitVec 32)
  weights : Option (Array Binary32)
  hessianNeeded : Bool
  calcMetric : Bool
  /-- Whether the caller passes a buffer for gradients. -/
  wantsGradients : Bool
  /-- Whether the caller passes a scratch block. -/
  hasScratch : Bool
  before : Tables

namespace Dataset

variable (d : Dataset) (o : Objective)

def hessians : Bool := d.hessianNeeded && o.hasHessian

def target (s : Nat) : BitVec 32 := d.targets.getD s 0

/-- Whether there is a scratch block for an objective that needs one. -/
def scratchFits : Objective → Bool
  | .squaredError | .binary _ => true
  | .multiclass _ _ => d.hasScratch || !(d.calcMetric || d.wantsGradients)

/-- The answer of the call. -/
def status : Status :=
  if d.scores = o.scores ∧ d.scratchFits o = true then .ok else .illegalParameter

/-- The new scores. -/
def scoreAfter (s k : Nat) : Binary32 :=
  d.before.score s k + d.tensor.getD (Pack.indexOf d.indexes s * d.scores + k) 0

/-- The tables that the call leaves. One that is turned down leaves them as they were. -/
def after : Tables :=
  if d.scores = o.scores ∧ d.scratchFits o = true then
    { score := d.scoreAfter
      gradient s k := o.gradientAt SingleZone.accel32.machine (d.scoreAfter s) (d.target s) k
      hess s k := o.hessianAt (d.scoreAfter s) k }
  else d.before

/-- A request for the data set in a zone. -/
structure Asks (z : SingleZone) (r : Request Binary32 32) : Prop where
  scores_eq : r.scores = d.scores
  samples_eq : r.samples = d.samples
  hessianNeeded_eq : r.hessianNeeded = d.hessianNeeded
  calcMetric_eq : r.calcMetric = d.calcMetric
  tensor_eq : r.tensor = d.tensor
  targets_eq : r.targets = d.targets
  weights_eq : r.weights = d.weights
  packed : Pack.PacksAs z.lanes d.samples r.items d.indexes r.packed

/-- Buffers with these tables at the slots of a zone. -/
structure Holds (z : SingleZone) (b : Buffers Binary32) (t : Tables) : Prop where
  scores_held : Layout.HoldsScores b.scores d.samples d.scores z.lanes t.score
  gradients_given : b.gradients.isSome = d.wantsGradients
  gradients_held : ∀ a, b.gradients = some a →
    Layout.HoldsGradients a d.samples d.scores (d.hessians o) z.lanes t.gradient t.hess

/-- A call for the data set in a zone. -/
structure Laid (z : SingleZone) (r : Request Binary32 32) (b : Buffers Binary32) : Prop where
  asks : d.Asks z r
  holds : d.Holds o z b d.before
  scratch_given : b.scratch.isSome = d.hasScratch
  scratch_room : ∀ a, b.scratch = some a → d.scores * z.lanes ≤ a.size

/-- The samples fill groups of the zone, and every entry has a place below `2 ^ 31`. -/
structure Fitting (z : SingleZone) : Prop where
  whole : z.lanes ∣ d.samples
  entry_lt : ∀ s, s < d.samples → ∀ k, k < d.scores →
    Pack.indexOf d.indexes s * d.scores + k < 2 ^ 31

/-- The targets pass the check of a zone. -/
def Accepted (z : SingleZone) : Prop :=
  (d.targets.toList.take d.samples).all (o.acceptsTarget z.machine) = true

variable {d o} {z : SingleZone} {r : Request Binary32 32} {b : Buffers Binary32}

/-- A target that is accepted as one of two classes is one of them, whichever zone has checked it. -/
theorem Accepted.target_lt (h : d.Accepted o z) {s : Nat} (hs : s < d.samples) (privacy : Bool)
    (binary : o = .binary privacy) : (d.target s).toNat < 2 := by
  subst binary
  by_cases inside : s < d.targets.size
  · have member : d.targets[s] ∈ d.targets.toList.take d.samples :=
      List.mem_take_iff_getElem.2 ⟨s, by simp; omega, by simp⟩
    have two := List.all_eq_true.1 h _ member
    have there : d.target s = d.targets[s] := by simp [target, inside]
    rw [there]
    exact of_decide_eq_true two
  · have absent : d.target s = 0 := by simp [target, inside]
    rw [absent]
    decide

/-- The rows that a zone reads are those of the data set. -/
theorem Asks.rowOf_eq (h : d.Asks z r) {s : Nat} (hs : s < d.samples) :
    rowOf r z.lanes s = Pack.indexOf d.indexes s :=
  h.packed.toNat_indexAt hs

/-- The new scores of a zone are those of the data set. -/
theorem Laid.scoreAfter_eq (h : d.Laid o z r b) {s k : Nat} (hs : s < d.samples)
    (hk : k < d.scores) : Update.scoreAfter r b z.lanes s k = d.scoreAfter s k := by
  rw [Update.scoreAfter, entryOf, h.asks.rowOf_eq hs, h.asks.scores_eq, h.asks.tensor_eq,
    h.holds.scores_held.getD_eq hs hk, Dataset.scoreAfter]

theorem Laid.hasScratch_eq (h : d.Laid o z r b) :
    Update.hasScratch o r b = d.scratchFits o := by
  cases o with
  | squaredError => rfl
  | binary privacy => rfl
  | multiclass classes privacy =>
    rw [Update.hasScratch, scratchFits, h.scratch_given, h.asks.calcMetric_eq,
      h.holds.gradients_given]

theorem Laid.fits (h : d.Laid o z r b) (fitting : d.Fitting z) (some_scores : 0 < o.scores)
    (scores : d.scores = o.scores) (scratch : d.scratchFits o = true) : Fits z.machine o r b where
  scores_eq := h.asks.scores_eq.trans scores
  scores_pos := (h.asks.scores_eq.trans scores) ▸ some_scores
  whole := h.asks.samples_eq ▸ fitting.whole
  items_le := h.asks.packed.items_le
  wide := by decide
  place_eq := z.place_of_lt
  entry_lt s hs k hk := by
    rw [h.asks.samples_eq] at hs
    rw [h.asks.scores_eq] at hk ⊢
    rw [h.asks.rowOf_eq hs]
    exact fitting.entry_lt s hs k hk
  room := by
    rw [h.asks.samples_eq, h.asks.scores_eq]
    exact h.holds.scores_held.room fitting.whole
  scratch_room classes privacy several computed := by
    subst several
    have given : d.hasScratch = true := by
      rw [h.asks.calcMetric_eq, h.holds.gradients_given, Bool.or_comm] at computed
      rwa [scratchFits, computed, Bool.not_true, Bool.or_false] at scratch
    rw [← h.scratch_given] at given
    obtain ⟨a, present⟩ := Option.isSome_iff_exists.1 given
    have size := h.scratch_room a present
    rw [scores] at size
    rw [present]
    exact ⟨rfl, size⟩

/-- What a call that is accepted puts at the slots of a zone is made of the rows alone. -/
theorem Laid.puts_after (h : d.Laid o z r b) (scores : d.scores = o.scores)
    (small : ∀ s, s < d.samples → ∀ privacy, o = .binary privacy → (d.target s).toNat < 2)
    {b' : Buffers Binary32}
    (puts : Puts b b' d.samples d.scores (d.hessians o) z.lanes (Update.scoreAfter r b z.lanes)
      (gradientAfter z.machine o r b) (hessianAfter o r b z.lanes)) :
    Puts b b' d.samples d.scores (d.hessians o) z.lanes d.scoreAfter
      (fun s k => o.gradientAt SingleZone.accel32.machine (d.scoreAfter s) (d.target s) k)
      (fun s k => o.hessianAt (d.scoreAfter s) k) := by
  have target_eq : ∀ s, targetOf r s = d.target s := fun s => by
    rw [targetOf, h.asks.targets_eq, target]
  have score_eq : ∀ s, s < d.samples → ∀ k, k < o.scores →
      Update.scoreAfter r b z.lanes s k = d.scoreAfter s k :=
    fun s hs k hk => h.scoreAfter_eq hs (scores ▸ hk)
  refine puts.congr (fun s hs k hk => score_eq s hs k (scores ▸ hk)) (fun s hs k hk => ?_)
    fun s hs k hk => Objective.hessianAt_congr (score_eq s hs) (scores ▸ hk)
  rw [gradientAfter, target_eq,
    Objective.gradientAt_congr z.machine (score_eq s hs) _ (scores ▸ hk)]
  exact z.gradientAt_eq .accel32 (small s hs) _ k

/-- A call that is turned down changes nothing. -/
theorem Laid.run_refused (h : d.Laid o z r b)
    (refused : ¬ (d.scores = o.scores ∧ d.scratchFits o = true)) :
    run z.machine r o b = .ok (.illegalParameter, b) := by
  rw [run]
  by_cases scores : r.scores ≠ o.scores
  · rw [if_pos scores]
    rfl
  · have scratch : Update.hasScratch o r b = false := by
      rw [h.hasScratch_eq, ← Bool.not_eq_true]
      exact fun fits => refused ⟨h.asks.scores_eq ▸ not_not.1 scores, fits⟩
    rw [if_neg scores, scratch]
    rfl

/-- In every zone the call answers what it answers for the data set, and leaves the tables that it
leaves for the data set. -/
theorem Laid.run_eq (h : d.Laid o z r b) (fitting : d.Fitting z) (some_scores : 0 < o.scores)
    (small : ∀ s, s < d.samples → ∀ privacy, o = .binary privacy → (d.target s).toNat < 2) :
    ∃ b', run z.machine r o b = .ok (d.status o, b') ∧ d.Holds o z b' (d.after o) := by
  by_cases taken : d.scores = o.scores ∧ d.scratchFits o = true
  · have fits := h.fits fitting some_scores taken.1 taken.2
    have hessians : (r.hessianNeeded && o.hasHessian) = d.hessians o := by
      rw [h.asks.hessianNeeded_eq, hessians]
    have gradient_room : ∀ a, b.gradients = some a →
        Layout.gradientSlots r.samples r.scores (r.hessianNeeded && o.hasHessian) ≤ a.size := by
      intro a ha
      rw [h.asks.samples_eq, h.asks.scores_eq, hessians]
      exact (h.holds.gradients_held a ha).room fitting.whole
    obtain ⟨b', answer, -, gradients, puts⟩ := run_puts fits gradient_room
    rw [hessians, h.asks.samples_eq, h.asks.scores_eq] at puts
    have rows := h.puts_after taken.1 small puts
    rw [status, if_pos taken, after, if_pos taken]
    refine ⟨b', answer, rows.scores_put.at_slot, ?_, ?_⟩
    · rw [gradients, Option.isSome_map, h.holds.gradients_given]
    · intro a ha
      cases given : b.gradients with
      | none => rw [rows.no_gradients given] at ha; cases ha
      | some a₀ =>
        obtain ⟨a', ha', put⟩ := rows.gradients_put a₀ given
        cases ha'.symm.trans ha
        exact ⟨put.gradient_at, put.hessian_at⟩
  · rw [status, if_neg taken, after, if_neg taken]
    exact ⟨b, h.run_refused taken, h.holds⟩

end Dataset

/-- For every objective that the factory makes, and every data set laid out for both zones, an update
answers the same in both and leaves the same tables. -/
def Agree (z₁ z₂ : SingleZone) : Prop :=
  ∀ (c : Config) (registration : Registration) (o : Objective), registration.create? c = .ok o →
    ∀ (d : Dataset), d.Fitting z₁ → d.Fitting z₂ → d.Accepted o z₁ →
      ∀ r₁ b₁ r₂ b₂, d.Laid o z₁ r₁ b₁ → d.Laid o z₂ r₂ b₂ →
        ∃ status after b₁' b₂', run z₁.machine r₁ o b₁ = .ok (status, b₁') ∧
          run z₂.machine r₂ o b₂ = .ok (status, b₂') ∧
          d.Holds o z₁ b₁' after ∧ d.Holds o z₂ b₂' after

theorem updates_agree (z₁ z₂ : SingleZone) : Agree z₁ z₂ := by
  intro c registration o created d fitting₁ fitting₂ accepted r₁ b₁ r₂ b₂ laid₁ laid₂
  have some_scores := Registration.scores_pos created
  have small := fun s (hs : s < d.samples) => accepted.target_lt hs
  obtain ⟨b₁', answer₁, holds₁⟩ := laid₁.run_eq fitting₁ some_scores small
  obtain ⟨b₂', answer₂, holds₂⟩ := laid₂.run_eq fitting₂ some_scores small
  exact ⟨d.status o, d.after o, b₁', b₂', answer₁, answer₂, holds₁, holds₂⟩

end Update

end LaneBoost
