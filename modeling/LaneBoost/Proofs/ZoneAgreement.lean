import LaneBoost.Proofs.SumAgreement
import LaneBoost.Proofs.UpdateAgreement

/-!
# Zones agree lane for lane

Two zones with numbers of 32 bits are handed the same data set, each in groups of its own size. Whatever
they are asked for, they answer the same, and what they leave is the same once the layout of each zone
is undone. Only the metric, which is summed lane by lane, may differ.
-/
namespace LaneBoost

namespace BinSums

/-- A call for one feature answers the same in both zones and leaves the same buffer. -/
def SumsAgree (z₁ z₂ : SingleZone) : Prop :=
  ∀ (d : Rows) (indexes : Option (Array Nat)) (counts : Option (Array (BitVec 8))) (b : BinBuffer)
    (r₁ r₂ : Boosting Binary32 32) (start₁ start₂ : BitVec 64) (guarded₁ guarded₂ : Bool),
    Boosting.Laid d indexes counts b z₁ r₁ start₁ → Boosting.Laid d indexes counts b z₂ r₂ start₂ →
      ∃ status cells,
        boosting z₁.machine (Span.over b start₁ guarded₁) r₁ b.cells = .ok (status, cells) ∧
          boosting z₂.machine (Span.over b start₂ guarded₂) r₂ b.cells = .ok (status, cells)

/-- A call for several features answers the same in both zones and leaves the same buffer. -/
def TablesAgree (z₁ z₂ : SingleZone) : Prop :=
  ∀ (d : Rows) (dimensions : Nat) (features : List FeatureRows) (ds : List Nat) (b : BinBuffer)
    (r₁ r₂ : Interaction Binary32 32) (start₁ start₂ : BitVec 64) (guarded₁ guarded₂ : Bool),
    Interaction.Laid d dimensions features ds b z₁ r₁ start₁ →
      Interaction.Laid d dimensions features ds b z₂ r₂ start₂ →
        ∃ status cells,
          interaction z₁.machine (Span.over b start₁ guarded₁) r₁ b.cells = .ok (status, cells) ∧
            interaction z₂.machine (Span.over b start₂ guarded₂) r₂ b.cells = .ok (status, cells)

theorem sums_agree (z₁ z₂ : SingleZone) : SumsAgree z₁ z₂ := by
  intro d indexes counts b r₁ r₂ start₁ start₂ guarded₁ guarded₂ laid₁ laid₂
  exact ⟨d.status, d.sums indexes counts b, laid₁.boosting_eq guarded₁, laid₂.boosting_eq guarded₂⟩

theorem tables_agree (z₁ z₂ : SingleZone) : TablesAgree z₁ z₂ := by
  intro d dimensions features ds b r₁ r₂ start₁ start₂ guarded₁ guarded₂ laid₁ laid₂
  exact ⟨d.tableStatus dimensions, d.tableSums dimensions features ds b,
    laid₁.interaction_eq guarded₁, laid₂.interaction_eq guarded₂⟩

end BinSums

/-- Any two zones with numbers of 32 bits agree on updates, on sums for one feature and on sums for
several. -/
theorem zones_agree (z₁ z₂ : SingleZone) :
    Update.Agree z₁ z₂ ∧ BinSums.SumsAgree z₁ z₂ ∧ BinSums.TablesAgree z₁ z₂ :=
  ⟨Update.updates_agree z₁ z₂, BinSums.sums_agree z₁ z₂, BinSums.tables_agree z₁ z₂⟩

/-! ### Eight samples in groups of four and of eight -/

/-- The rows that they take, and the bins that they select. -/
def eightIndexes : Array Nat := #[0, 1, 1, 0, 1, 0, 0, 1]

/-- Their indexes for a zone, eight to a word. -/
def eightPacked (z : SingleZone) : Array (BitVec 32) := Pack.encode 32 8 z.lanes eightIndexes

theorem eight_packed (z : SingleZone) :
    Pack.PacksAs z.lanes 8 8 (some eightIndexes) (some (eightPacked z)) := by
  refine .packed rfl ?_
  have fit : ¬ (eightIndexes.any (twoPow (Pack.fieldBits 32 8) ≤ ·)) = true := by decide +kernel
  rw [Pack.pack_eq, if_neg (by decide), if_neg (by cases z <;> decide)]
  exact (if_neg fit).trans (if_neg (by cases z <;> decide))

namespace Update

/-- The samples are of three classes. -/
def eightOfThreeClasses : Dataset where
  samples := 8
  scores := 3
  indexes := some eightIndexes
  tensor := #[1, 0, 0, 0, 1, 0]
  targets := #[0, 1, 2, 1, 0, 2, 1, 0]
  weights := none
  hessianNeeded := true
  calcMetric := true
  wantsGradients := true
  hasScratch := true
  before := ⟨fun _ _ => 0, fun _ _ => 1, fun _ _ => 1⟩

def eightOfThreeClassesIn (z : SingleZone) : Request Binary32 32 where
  scores := 3
  samples := 8
  items := 8
  hessianNeeded := true
  calcMetric := true
  tensor := eightOfThreeClasses.tensor
  packed := some (eightPacked z)
  targets := eightOfThreeClasses.targets

def eightBuffers (z : SingleZone) : Buffers Binary32 where
  scores := Array.replicate 24 0
  gradients := some (Array.replicate 48 1)
  scratch := some (Array.replicate (3 * z.lanes) 0)

theorem eight_laid (z : SingleZone) :
    eightOfThreeClasses.Laid (.multiclass 3 false) z (eightOfThreeClassesIn z) (eightBuffers z) where
  asks := ⟨rfl, rfl, rfl, rfl, rfl, rfl, rfl, eight_packed z⟩
  holds := {
    scores_held := Layout.holdsScores_replicate (by cases z <;> decide) (Nat.le_refl 24) 0
    gradients_given := rfl
    gradients_held := by
      intro a ha
      cases ha
      exact Layout.holdsGradients_replicate (by cases z <;> decide) (Nat.le_refl 48) 1 }
  scratch_given := rfl
  scratch_room := by
    intro a ha
    cases ha
    exact Nat.le_of_eq Array.size_replicate.symm

theorem eight_fitting (z : SingleZone) : eightOfThreeClasses.Fitting z :=
  ⟨by cases z <;> decide, by decide⟩

end Update

namespace BinSums

/-- The samples have gradients and hessians of one. -/
def eightRows : Rows where
  samples := 8
  scores := 1
  hessian := true
  gradient := fun _ _ => 1
  hess := fun _ _ => 1
  weights := none

def eightBins : BinBuffer where
  shape := twoBins.shape
  bins := 4
  cells := Cells.ofBytes 64

theorem eight_served : eightRows.Served eightBins where
  allotted := @BinBuffer.make?_allotted eightBins.shape 4 eightBins (by decide)
  shape_eq _ := ⟨rfl, rfl, rfl⟩

def eightFor (z : SingleZone) : Boosting Binary32 32 where
  scores := 1
  hessian := true
  samples := 8
  gradients := Array.replicate 16 1
  items := 8
  packed := some (eightPacked z)

/-- The table has two bins for each of two features, which select alike. -/
def eightTable (z : SingleZone) : Interaction Binary32 32 where
  scores := 1
  hessian := true
  samples := 8
  gradients := Array.replicate 16 1
  dimensions := 2
  features := Vector.replicate 30 ⟨2, 8, some (eightPacked z)⟩

theorem eight_asks (z : SingleZone) : eightRows.Asks z (eightFor z).toRequest where
  samples_eq := rfl
  scores_eq := rfl
  hessian_eq := rfl
  weights_eq := rfl
  gradients_held := Layout.holdsGradients_replicate (by cases z <;> decide) (Nat.le_refl 16) 1

theorem eight_sums_fitting (z : SingleZone) : eightRows.Fitting eightBins z :=
  ⟨by cases z <;> decide, fun none => absurd none (by decide)⟩

theorem eight_boosting_laid (z : SingleZone) :
    Boosting.Laid eightRows (some eightIndexes) none eightBins z (eightFor z) 4096 where
  rows := eight_asks z
  counts_eq := rfl
  packed := eight_packed z
  served := eight_served
  fitting := eight_sums_fitting z
  room := by decide
  inside _ := by decide

/-- One of the features. -/
def eightFeature : FeatureRows := ⟨2, some eightIndexes⟩

theorem eight_interaction_laid (z : SingleZone) :
    Interaction.Laid eightRows 2 [eightFeature, eightFeature] [1, 2] eightBins z (eightTable z)
      4096 where
  rows := eight_asks z
  dimensions_eq := rfl
  features_eq := .cons ⟨rfl, eight_packed z⟩ (.cons ⟨rfl, eight_packed z⟩ .nil)
  walked _ := by decide
  served := eight_served
  fitting := eight_sums_fitting z
  room := by decide
  inside _ := by decide

end BinSums

/-- Groups of four and of eight agree on the eight samples. -/
theorem eight_samples_agree :
    (∃ status after b₁ b₂,
        Update.run SingleZone.sse2.machine (Update.eightOfThreeClassesIn .sse2)
            (.multiclass 3 false) (Update.eightBuffers .sse2) = .ok (status, b₁) ∧
          Update.run SingleZone.avx2.machine (Update.eightOfThreeClassesIn .avx2)
            (.multiclass 3 false) (Update.eightBuffers .avx2) = .ok (status, b₂) ∧
          Update.eightOfThreeClasses.Holds (.multiclass 3 false) .sse2 b₁ after ∧
          Update.eightOfThreeClasses.Holds (.multiclass 3 false) .avx2 b₂ after) ∧
      (∃ status cells,
        BinSums.boosting SingleZone.sse2.machine (BinSums.Span.over BinSums.eightBins 4096 true)
            (BinSums.eightFor .sse2) BinSums.eightBins.cells = .ok (status, cells) ∧
          BinSums.boosting SingleZone.avx2.machine (BinSums.Span.over BinSums.eightBins 4096 true)
            (BinSums.eightFor .avx2) BinSums.eightBins.cells = .ok (status, cells)) ∧
      ∃ status cells,
        BinSums.interaction SingleZone.sse2.machine (BinSums.Span.over BinSums.eightBins 4096 true)
            (BinSums.eightTable .sse2) BinSums.eightBins.cells = .ok (status, cells) ∧
          BinSums.interaction SingleZone.avx2.machine (BinSums.Span.over BinSums.eightBins 4096 true)
            (BinSums.eightTable .avx2) BinSums.eightBins.cells = .ok (status, cells) := by
  obtain ⟨updates, sums, tables⟩ := zones_agree .sse2 .avx2
  refine ⟨?_, ?_, ?_⟩
  · exact updates (Config.classification 3) .logLoss (.multiclass 3 false) rfl
      Update.eightOfThreeClasses (Update.eight_fitting .sse2) (Update.eight_fitting .avx2)
      (by unfold Update.Dataset.Accepted; decide) _ _ _ _ (Update.eight_laid .sse2)
      (Update.eight_laid .avx2)
  · exact sums BinSums.eightRows (some eightIndexes) none BinSums.eightBins _ _ 4096 4096 true true
      (BinSums.eight_boosting_laid .sse2) (BinSums.eight_boosting_laid .avx2)
  · exact tables BinSums.eightRows 2 [BinSums.eightFeature, BinSums.eightFeature] [1, 2]
      BinSums.eightBins _ _ 4096 4096 true true (BinSums.eight_interaction_laid .sse2)
      (BinSums.eight_interaction_laid .avx2)

end LaneBoost
