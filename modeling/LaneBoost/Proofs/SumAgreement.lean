import LaneBoost.Proofs.SingleZones
import LaneBoost.Proofs.TableSums
import Mathlib.Data.List.Forall2

/-!
# Sums without lanes

What a sample adds to its bin is a matter of its row: its count, its weight, its gradients and
hessians. In every zone with numbers of 32 bits a call for one feature or for several leaves the buffer
that one gets by adding the rows in their order.
-/
namespace LaneBoost.BinSums

/-- Samples to sum, before they are laid out for a zone. -/
structure Rows where
  samples : Nat
  scores : Nat
  hessian : Bool
  gradient : Nat → Nat → Binary32
  hess : Nat → Nat → Binary32
  weights : Option (Array Binary32)

namespace Rows

variable (d : Rows)

/-- A request for the samples in a zone. -/
structure Asks (z : SingleZone) (r : Request Binary32) : Prop where
  samples_eq : r.samples = d.samples
  scores_eq : r.scores = d.scores
  hessian_eq : r.hessian = d.hessian
  weights_eq : r.weights = d.weights
  gradients_held : Layout.HoldsGradients r.gradients d.samples d.scores d.hessian z.lanes d.gradient
    d.hess

/-- The part of a request that has no lanes. -/
def base : Request Binary32 := { weights := d.weights }

/-- What a row adds. -/
def share (counts : Option (Array (BitVec 8))) (s : Nat) : Share Binary32 32 where
  count := countOf counts s
  weight := weightOf SingleZone.accel32.machine d.base counts s
  gradient k := timesWeight d.base s (d.gradient s k)
  hessian k := if d.hessian then some (timesWeight d.base s (d.hess s k)) else none

/-- Adds the rows in their order, each to the bin that it selects. -/
def inOrder (counts : Option (Array (BitVec 8))) (bin : Nat → Nat) (slots : Nat) (cells : Cells) :
    Cells :=
  (List.range d.samples).foldl
    (fun cells s =>
      cells.changes ((d.share counts s).changes SingleZone.accel32.machine (bin s * slots) d.scores
        (Layout.perScore d.hessian)))
    cells

/-- A buffer for the samples, if there is a score to sum at all. -/
structure Served (b : BinBuffer) : Prop where
  allotted : b.Allotted
  shape_eq : d.scores ≠ 0 → b.shape.format = .single ∧ b.shape.scores = d.scores ∧
    b.shape.hessian = d.hessian

/-- The samples fill groups of the zone. Where no bin bounds the gradients of a group, they have to be
a size. -/
structure Fitting (b : BinBuffer) (z : SingleZone) : Prop where
  whole : z.lanes ∣ d.samples
  sized : b.bins = 0 → d.scores * Layout.perScore d.hessian * z.lanes < sizeBound

variable {d} {z : SingleZone} {r : Request Binary32} {b : BinBuffer}

theorem numberAdded_eq (z z' : SingleZone) :
    (numberAdded z.machine : Nat → Binary32 → Cells.Change 32) = numberAdded z'.machine := by
  funext slot x
  simp only [numberAdded, z.toCell_eq z', z.ofCell_eq z']

theorem Asks.weightOf_eq (h : d.Asks z r) (counts : Option (Array (BitVec 8))) (s : Nat) :
    weightOf z.machine r counts s = weightOf SingleZone.accel32.machine d.base counts s := by
  simp only [weightOf, base, h.weights_eq, z.narrow_eq .accel32]

theorem Asks.timesWeight_eq (h : d.Asks z r) (s : Nat) (x : Binary32) :
    timesWeight r s x = timesWeight d.base s x := by
  simp only [timesWeight, base, h.weights_eq]

/-- In every zone a sample changes what its row changes. -/
theorem Asks.changes_eq (h : d.Asks z r) (counts : Option (Array (BitVec 8))) (first : Nat) {s : Nat}
    (hs : s < d.samples) :
    (shareOf z.machine r counts s).changes z.machine first r.scores (Layout.perScore r.hessian) =
      (d.share counts s).changes SingleZone.accel32.machine first d.scores
        (Layout.perScore d.hessian) := by
  rw [h.scores_eq, h.hessian_eq]
  have head : (shareOf z.machine r counts s).head z.machine first =
      (d.share counts s).head SingleZone.accel32.machine first := by
    simp only [Share.head, shareOf, share, numberAdded_eq z .accel32, h.weightOf_eq]
  refine congrArg₂ (· ++ ·) head (List.flatMap_congr fun k hk => ?_)
  have score := List.mem_range.1 hk
  have gradient : (shareOf z.machine r counts s).gradient k = (d.share counts s).gradient k := by
    simp only [shareOf, share, h.scores_eq, h.hessian_eq, h.timesWeight_eq,
      h.gradients_held.getD_gradient hs score]
  have hessian : (shareOf z.machine r counts s).hessian k = (d.share counts s).hessian k := by
    simp only [shareOf, share, h.scores_eq, h.hessian_eq, h.timesWeight_eq]
    cases wanted : d.hessian with
    | false => rfl
    | true =>
      have there := h.gradients_held.getD_hessian wanted hs score
      simp only [there, if_true]
  rw [Share.score, Share.score, gradient, hessian, numberAdded_eq z .accel32]

/-- In every zone the samples are added as the rows are. -/
theorem Asks.inSampleOrder_eq (h : d.Asks z r) (counts : Option (Array (BitVec 8)))
    {bin bin' : Nat → Nat} (same : ∀ s, s < d.samples → bin s = bin' s) (slots : Nat)
    (cells : Cells) :
    inSampleOrder z.machine r counts bin slots cells = d.inOrder counts bin' slots cells := by
  rw [inSampleOrder, inOrder, h.samples_eq]
  refine foldl_range_congr _ _ _ _ fun s cells hs => ?_
  rw [addTo, same s hs, h.changes_eq counts _ hs]

theorem Asks.serves (h : d.Asks z r) (served : d.Served b) (scores : d.scores ≠ 0) :
    Serves b .single r := by
  obtain ⟨format, scores, hessian⟩ := served.shape_eq scores
  exact ⟨format, scores.trans h.scores_eq.symm, hessian.trans h.hessian_eq.symm⟩

end Rows

/-! ### One feature -/

/-- A call in a zone for one feature with these indexes, into a buffer at an address. Where there is a
score to sum, every index selects a bin of it. -/
structure Boosting.Laid (d : Rows) (indexes : Option (Array Nat))
    (counts : Option (Array (BitVec 8))) (b : BinBuffer) (z : SingleZone) (r : Boosting Binary32 32)
    (start : BitVec 64) : Prop where
  rows : d.Asks z r.toRequest
  counts_eq : r.counts = counts
  packed : Pack.PacksAs z.lanes d.samples r.items indexes r.packed
  served : d.Served b
  fitting : d.Fitting b z
  room : start.toNat + b.span < 2 ^ 64
  inside : d.scores ≠ 0 → ∀ s, s < d.samples → Pack.indexOf indexes s < b.bins

/-- The answer of a call for one feature. -/
def Rows.status (d : Rows) : Status := if d.scores = 0 then .illegalParameter else .ok

/-- The cells that it leaves. -/
def Rows.sums (d : Rows) (indexes : Option (Array Nat)) (counts : Option (Array (BitVec 8)))
    (b : BinBuffer) : Cells :=
  if d.scores = 0 then b.cells
  else d.inOrder counts (Pack.indexOf indexes) b.shape.slots b.cells

theorem Boosting.Laid.boosting_eq {d : Rows} {indexes : Option (Array Nat)}
    {counts : Option (Array (BitVec 8))} {b : BinBuffer} {z : SingleZone} {r : Boosting Binary32 32}
    {start : BitVec 64} (h : Boosting.Laid d indexes counts b z r start) (guarded : Bool) :
    boosting z.machine (Span.over b start guarded) r b.cells =
      .ok (d.status, d.sums indexes counts b) := by
  have whole : z.lanes ∣ r.samples := h.rows.samples_eq ▸ h.fitting.whole
  by_cases none : d.scores = 0
  · have refused : r.samples % z.lanes ≠ 0 ∨ r.scores = 0 := Or.inr (h.rows.scores_eq.trans none)
    rw [boosting, if_pos refused, Rows.status, if_pos none, Rows.sums, if_pos none]
    rfl
  · have bin_eq : ∀ s, s < d.samples → r.binOf z.lanes s = Pack.indexOf indexes s :=
      fun s hs => h.packed.toNat_indexAt hs
    have sized : b.bins = 0 → r.scores * Layout.perScore r.hessian * z.lanes < sizeBound := by
      rw [h.rows.scores_eq, h.rows.hessian_eq]
      exact h.fitting.sized
    have selects : ∀ s, s < r.samples → r.binOf z.lanes s < b.bins := by
      intro s hs
      rw [h.rows.samples_eq] at hs
      rw [bin_eq s hs]
      exact h.inside none s hs
    rw [Rows.status, if_neg none, Rows.sums, if_neg none, ← h.rows.inSampleOrder_eq counts bin_eq,
      ← h.counts_eq]
    exact @boosting_over Binary32 _ z.lanes .single z.machine z.few_lanes r b
      (h.rows.serves h.served none) h.served.allotted start h.room guarded sized whole
      (.inr h.packed.items_le) selects

/-! ### Several features -/

/-- A feature of a table, before its indexes are packed. -/
structure FeatureRows where
  bins : Nat
  indexes : Option (Array Nat)

/-- The place that a row selects, `distances` being those of the features. -/
def placeOfRow (features : List FeatureRows) (distances : List Nat) (s : Nat) : BitVec 32 :=
  (features.zip distances).foldl
    (fun place a => place + BitVec.ofNat 32 (Pack.indexOf a.1.indexes s) * BitVec.ofNat 32 a.2) 0

/-- A feature as it is handed to a zone. -/
structure Feature.Asks (samples : Nat) (z : SingleZone) (f : FeatureRows) (g : Feature 32) : Prop where
  bins_eq : g.bins = f.bins
  packed : Pack.PacksAs z.lanes samples g.items f.indexes g.packed

/-- Whether a call for that many features is turned down. -/
def Rows.Refused (d : Rows) (dimensions : Nat) : Prop :=
  d.scores = 0 ∨ dimensions = 0 ∨ maxFeatures < dimensions

instance (d : Rows) (dimensions : Nat) : Decidable (d.Refused dimensions) :=
  inferInstanceAs (Decidable (_ ∨ _ ∨ _))

/-- A call in a zone for several features, of which there may be too few or too many, into a buffer at
an address. Unless it is turned down, every place is one of its bins. -/
structure Interaction.Laid (d : Rows) (dimensions : Nat) (features : List FeatureRows)
    (ds : List Nat) (b : BinBuffer) (z : SingleZone) (r : Interaction Binary32 32)
    (start : BitVec 64) : Prop where
  rows : d.Asks z r.toRequest
  dimensions_eq : r.dimensions = dimensions
  features_eq : List.Forall₂ (Feature.Asks d.samples z) features r.used
  walked : ¬ d.Refused dimensions → distances (features.map (·.bins)) = .ok ds
  served : d.Served b
  fitting : d.Fitting b z
  room : start.toNat + b.span < 2 ^ 64
  inside : ¬ d.Refused dimensions → ∀ s, s < d.samples → (placeOfRow features ds s).toNat < b.bins

theorem placeFrom_eq {samples : Nat} {z : SingleZone} {features : List FeatureRows}
    {used : List (Feature 32)} (h : List.Forall₂ (Feature.Asks samples z) features used) {s : Nat}
    (hs : s < samples) (distances : List Nat) (start : BitVec 32) :
    placeFrom z.lanes s start (used.zip distances) =
      (features.zip distances).foldl
        (fun place a => place + BitVec.ofNat 32 (Pack.indexOf a.1.indexes s) * BitVec.ofNat 32 a.2)
        start := by
  induction h generalizing distances start with
  | nil => rfl
  | cons first rest ih =>
    cases distances with
    | nil => rfl
    | cons distance distances =>
      rw [List.zip_cons_cons, List.zip_cons_cons, List.foldl_cons, ← first.packed.toNat_indexAt hs,
        BitVec.ofNat_toNat, BitVec.setWidth_eq, ← ih]
      rfl

theorem map_bins_eq {samples : Nat} {z : SingleZone} {features : List FeatureRows}
    {used : List (Feature 32)} (h : List.Forall₂ (Feature.Asks samples z) features used) :
    used.map (·.bins) = features.map (·.bins) := by
  induction h with
  | nil => rfl
  | cons first rest ih => rw [List.map_cons, List.map_cons, first.bins_eq, ih]

theorem items_le_of_forall₂ {samples : Nat} {z : SingleZone} {features : List FeatureRows}
    {used : List (Feature 32)} (h : List.Forall₂ (Feature.Asks samples z) features used) :
    ∀ g ∈ used, g.items ≤ 32 := by
  induction h with
  | nil => simp
  | cons first rest ih =>
    intro g hg
    rcases List.mem_cons.1 hg with rfl | hg
    · exact first.packed.items_le
    · exact ih g hg

/-- The answer of a call for several features. -/
def Rows.tableStatus (d : Rows) (dimensions : Nat) : Status :=
  if d.Refused dimensions then .illegalParameter else .ok

/-- The cells that it leaves. -/
def Rows.tableSums (d : Rows) (dimensions : Nat) (features : List FeatureRows)
    (distances : List Nat) (b : BinBuffer) : Cells :=
  if d.Refused dimensions then b.cells
  else d.inOrder none (fun s => (placeOfRow features distances s).toNat) b.shape.slots b.cells

theorem Interaction.Laid.interaction_eq {d : Rows} {dimensions : Nat} {features : List FeatureRows}
    {ds : List Nat} {b : BinBuffer} {z : SingleZone} {r : Interaction Binary32 32}
    {start : BitVec 64} (h : Interaction.Laid d dimensions features ds b z r start) (guarded : Bool) :
    interaction z.machine (Span.over b start guarded) r b.cells =
      .ok (d.tableStatus dimensions, d.tableSums dimensions features ds b) := by
  have whole : z.lanes ∣ r.samples := h.rows.samples_eq ▸ h.fitting.whole
  by_cases none : d.Refused dimensions
  · have refused : r.samples % z.lanes ≠ 0 ∨ r.scores = 0 ∨ r.dimensions = 0 ∨
        maxFeatures < r.dimensions := by
      rw [h.rows.scores_eq, h.dimensions_eq]
      exact Or.inr none
    rw [interaction, if_pos refused, Rows.tableStatus, if_pos none, Rows.tableSums, if_pos none]
    rfl
  · obtain ⟨some_scores, some_features, few_features⟩ :
        d.scores ≠ 0 ∧ dimensions ≠ 0 ∧ dimensions ≤ maxFeatures := by
      simp only [Rows.Refused] at none
      omega
    have walked_used : distances (r.used.map (·.bins)) = .ok ds := by
      rw [map_bins_eq h.features_eq, h.walked none]
    have place_eq : ∀ s, s < d.samples →
        (r.placeOf ds z.lanes s).toNat = (placeOfRow features ds s).toNat := by
      intro s hs
      rw [Interaction.placeOf, placeFrom_eq h.features_eq hs, placeOfRow]
    have sized : b.bins = 0 → r.scores * Layout.perScore r.hessian * z.lanes < sizeBound := by
      rw [h.rows.scores_eq, h.rows.hessian_eq]
      exact h.fitting.sized
    have selects : ∀ s, s < r.samples → (r.placeOf ds z.lanes s).toNat < b.bins := by
      intro s hs
      rw [h.rows.samples_eq] at hs
      rw [place_eq s hs]
      exact h.inside none s hs
    rw [Rows.tableStatus, if_neg none, Rows.tableSums, if_neg none,
      ← h.rows.inSampleOrder_eq Option.none place_eq]
    exact @interaction_over Binary32 z.lanes _ .single z.machine z.few_lanes r ds b
      (h.rows.serves h.served some_scores) h.served.allotted start h.room guarded sized whole
      (by rw [h.dimensions_eq]; omega) (h.dimensions_eq ▸ few_features)
      (fun f hf => .inr (items_le_of_forall₂ h.features_eq f hf)) walked_used selects

end LaneBoost.BinSums
