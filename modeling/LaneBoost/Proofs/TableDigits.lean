import LaneBoost.Proofs.TablePlaces

/-!
# The digits of a place

The place of a sample in a table tells the indexes of the sample, and every place of the table has
indexes that lead to it. The distances and the places are below the number of bins, so as long as
that number is a word, nothing is lost where words take the place of numbers.
-/
namespace LaneBoost.BinSums

/-! ### Digits -/

section MixedRadix

variable {index index' bins bins' : Nat → Nat} {n : Nat}

theorem binsBefore_congr (same : ∀ d, d < n → bins d = bins' d) :
    binsBefore bins n = binsBefore bins' n :=
  Finset.prod_congr rfl fun d hd => same d (Finset.mem_range.1 hd)

theorem mixedRadix_congr (same : ∀ d, d < n → index d = index' d)
    (same_bins : ∀ d, d < n → bins d = bins' d) :
    mixedRadix index bins n = mixedRadix index' bins' n :=
  Finset.sum_congr rfl fun d hd => by
    have inside := Finset.mem_range.1 hd
    rw [same d inside, binsBefore_congr fun e he => same_bins e (Nat.lt_trans he inside)]

/-- Dividing splits off the last digit. -/
theorem mixedRadix_succ_div (digits : ∀ d, d < n + 1 → index d < bins d) :
    mixedRadix index bins (n + 1) / binsBefore bins n = index n ∧
      mixedRadix index bins (n + 1) % binsBefore bins n = mixedRadix index bins n := by
  have lower : mixedRadix index bins n < binsBefore bins n :=
    mixedRadix_lt fun d hd => digits d (Nat.lt_succ_of_lt hd)
  have some_tuples := Nat.zero_lt_of_lt lower
  rw [mixedRadix_succ]
  constructor
  · rw [Nat.add_mul_div_right _ _ some_tuples, Nat.div_eq_of_lt lower, Nat.zero_add]
  · rw [Nat.add_mul_mod_self_right, Nat.mod_eq_of_lt lower]

/-- Different digits spell different numbers. -/
theorem mixedRadix_injective (digits : ∀ d, d < n → index d < bins d)
    (digits' : ∀ d, d < n → index' d < bins d)
    (same : mixedRadix index bins n = mixedRadix index' bins n) :
    ∀ d, d < n → index d = index' d := by
  induction n with
  | zero => exact fun d hd => absurd hd (Nat.not_lt_zero d)
  | succ n ih =>
    obtain ⟨last, lower⟩ := mixedRadix_succ_div digits
    obtain ⟨last', lower'⟩ := mixedRadix_succ_div digits'
    rw [same] at last lower
    have earlier := ih (fun d hd => digits d (Nat.lt_succ_of_lt hd))
      (fun d hd => digits' d (Nat.lt_succ_of_lt hd)) (lower.symm.trans lower')
    intro d hd
    rcases Nat.lt_or_eq_of_le (Nat.le_of_lt_succ hd) with before | rfl
    · exact earlier d before
    · exact last.symm.trans last'

/-- Digit number `d` of a number. -/
def digitOf (bins : Nat → Nat) (v d : Nat) : Nat := v / binsBefore bins d % bins d

/-- The first digits of a number spell the rest that is left when the others are taken off. -/
theorem mixedRadix_digitOf (bins : Nat → Nat) (v n : Nat) :
    mixedRadix (digitOf bins v) bins n = v % binsBefore bins n := by
  induction n with
  | zero => exact (Nat.mod_one v).symm
  | succ n ih =>
    rw [mixedRadix_succ, ih, binsBefore_succ, Nat.mod_mul, digitOf, Nat.mul_comm]

/-- Every number below the number of tuples is spelled by one. -/
theorem exists_mixedRadix (bins_pos : ∀ d, d < n → 1 ≤ bins d) {v : Nat}
    (hv : v < binsBefore bins n) :
    ∃ index : Nat → Nat, (∀ d, d < n → index d < bins d) ∧ mixedRadix index bins n = v := by
  refine ⟨digitOf bins v, fun d hd => Nat.mod_lt _ (bins_pos d hd), ?_⟩
  rw [mixedRadix_digitOf, Nat.mod_eq_of_lt hv]

end MixedRadix

/-! ### Words -/

section Words

variable {w lanes : Nat} {bins : Nat → Nat} {n : Nat}

/-- The place in each lane is the sum over the features, modulo the width of a word. -/
theorem get_place_range (readers : Nat → Pack.Reader w lanes) (distance : Nat → Nat) (n : Nat)
    (l : Fin lanes) :
    (place ((List.range n).map fun d =>
        (⟨readers d, BitVec.ofNat w (distance d)⟩ : Axis w lanes))).1.get l =
      BitVec.ofNat w (∑ d ∈ Finset.range n, ((readers d).next.1.get l).toNat * distance d) := by
  induction n with
  | zero => simp [place]
  | succ n ih =>
    rw [place] at ih ⊢
    rw [List.range_succ, List.map_append, List.foldl_append, Finset.sum_range_succ,
      BitVec.ofNat_add, BitVec.ofNat_mul, BitVec.ofNat_toNat, BitVec.setWidth_eq, ← ih]
    simp [Axis.walk]

variable (bins_pos : ∀ d, d < n → 1 ≤ bins d) (table_lt : binsBefore bins n < 2 ^ w)

include bins_pos table_lt

/-- Every distance is a word. -/
theorem toNat_distance {d : Nat} (hd : d ≤ n) :
    (BitVec.ofNat w (binsBefore bins d)).toNat = binsBefore bins d := by
  rw [BitVec.toNat_ofNat, Nat.mod_eq_of_lt (Nat.lt_of_le_of_lt (binsBefore_le bins_pos hd) table_lt)]

/-- The products are sizes, up to the last. -/
theorem distances_range (narrow : w ≤ 64) :
    distances ((List.range n).map bins) = .ok ((List.range n).map (binsBefore bins)) :=
  distances_eq fun d hd =>
    calc binsBefore bins (d + 1)
        ≤ binsBefore bins n := binsBefore_le bins_pos hd
      _ < 2 ^ w := table_lt
      _ ≤ sizeBound := Nat.pow_le_pow_right Nat.two_pos narrow

omit bins_pos in
/-- The words add up to the place itself. -/
theorem toNat_place_range {index : Nat → Nat} (readers : Nat → Pack.Reader w lanes) (l : Fin lanes)
    (read : ∀ d, d < n → ((readers d).next.1.get l).toNat = index d)
    (digits : ∀ d, d < n → index d < bins d) :
    ((place ((List.range n).map fun d =>
        (⟨readers d, BitVec.ofNat w (binsBefore bins d)⟩ : Axis w lanes))).1.get l).toNat =
      mixedRadix index bins n := by
  have sum : ∑ d ∈ Finset.range n, ((readers d).next.1.get l).toNat * binsBefore bins d =
      mixedRadix index bins n :=
    Finset.sum_congr rfl fun d hd => by rw [read d (Finset.mem_range.1 hd)]
  rw [get_place_range, sum, BitVec.toNat_ofNat,
    Nat.mod_eq_of_lt (Nat.lt_trans (mixedRadix_lt digits) table_lt)]

end Words

/-! ### The samples of a call -/

namespace Interaction

variable {F : Type} {w lanes : Nat} {r : Interaction F w}

/-- Two samples have one place if and only if they agree in every feature. -/
theorem Selects.flatIndex_eq_iff (inside : r.Selects lanes) {s t : Nat} (hs : s < r.samples)
    (ht : t < r.samples) :
    r.flatIndex lanes s = r.flatIndex lanes t ↔
      ∀ d, d < r.dimensions → r.indexIn lanes s d = r.indexIn lanes t d :=
  ⟨mixedRadix_injective (inside s hs) (inside t ht),
    fun same => mixedRadix_congr same fun _ _ => rfl⟩

/-- Features that can be read, whose table has fewer bins than there are words. -/
structure Tabled (r : Interaction F w) : Prop where
  some_features : 1 ≤ r.dimensions
  few_features : r.dimensions ≤ maxFeatures
  bins_pos : ∀ d, d < r.dimensions → 1 ≤ (r.feature d).bins
  table_lt : r.tableBins < 2 ^ w
  readable : ∀ d, d < r.dimensions → Pack.Readable (r.feature d).items (r.feature d).packed

namespace Tabled

theorem readable_used (h : r.Tabled) : ∀ f ∈ r.used, Pack.Readable f.items f.packed := by
  rw [r.used_eq h.few_features, List.forall_mem_map]
  exact fun d hd => h.readable d (List.mem_range.1 hd)

theorem walked (h : r.Tabled) (narrow : w ≤ 64) :
    distances (r.used.map (·.bins)) =
      .ok ((List.range r.dimensions).map (binsBefore fun d => (r.feature d).bins)) := by
  rw [r.used_eq h.few_features, List.map_map]
  exact distances_range h.bins_pos h.table_lt narrow

/-- As the places are words, the call computes the places themselves. -/
theorem toNat_placeOf (h : r.Tabled) (inside : r.Selects lanes) {s : Nat} (hs : s < r.samples) :
    (r.placeOf ((List.range r.dimensions).map (binsBefore fun d => (r.feature d).bins)) lanes
      s).toNat = r.flatIndex lanes s := by
  rw [placeOf_range h.few_features, BitVec.toNat_ofNat,
    Nat.mod_eq_of_lt (Nat.lt_trans (inside.flatIndex_lt hs) h.table_lt)]

/-- Where a buffer has the bins of the table, a call adds the samples to their places, and changes
nothing behind the table. -/
theorem interaction_in_table [Arithmetic F] {φ : Format} {m : Machine F φ.width lanes}
    (few_lanes : lanes ≤ φ.bytes * 2) {r : Interaction F φ.width} (h : r.Tabled)
    (narrow : φ.width ≤ 64) (inside : r.Selects lanes) (whole : lanes ∣ r.samples) {b : BinBuffer}
    (serves : Serves b φ r.toRequest) (allotted : b.Allotted) {start : BitVec 64}
    (room : start.toNat + b.span < 2 ^ 64) (guarded : Bool) (table : r.tableBins ≤ b.bins) :
    ∃ cells, interaction m (Span.over b start guarded) r b.cells = .ok (.ok, cells) ∧
      cells = inSampleOrder m r.toRequest none (r.flatIndex lanes) b.shape.slots b.cells ∧
      ∀ slot, r.tableBins * b.shape.slots ≤ slot →
        cells.peek φ.width slot = b.cells.peek φ.width slot := by
  have some_bins : b.bins ≠ 0 := by
    have bins : 1 ≤ r.tableBins := binsBefore_le h.bins_pos (Nat.zero_le _)
    omega
  have summed := interaction_over (m := m) few_lanes serves allotted room guarded
    (fun none => absurd none some_bins) whole h.some_features h.few_features h.readable_used
    (h.walked narrow) fun s hs => by
      rw [h.toNat_placeOf inside hs]
      exact Nat.lt_of_lt_of_le (inside.flatIndex_lt hs) table
  rw [inSampleOrder_congr m r.toRequest none fun s hs => h.toNat_placeOf inside hs] at summed
  refine ⟨_, summed, rfl, fun slot behind => ?_⟩
  refine peek_inSampleOrder m r.toRequest none _ serves.slots_eq b.cells slot fun s hs here => ?_
  have slots : 0 < b.shape.slots := by
    rw [serves.slots_eq]
    omega
  have beyond : r.tableBins ≤ slot / b.shape.slots := (Nat.le_div_iff_mul_le slots).2 behind
  have before := inside.flatIndex_lt hs
  omega

end Tabled

end Interaction

/-- In every zone, take features whose table has fewer bins than there are words. Then the products of
their bin counts are sizes and the distances are words, and the words of a lane add up to the exact
place: the sum of the indexes, each times the bins of the features before. Places are below the number
of bins, different indexes have different places, and every number below that of the bins is a place.
So samples share a bin if and only if they agree in every feature, and a call on a buffer with the bins
of the table answers `ok` and stays within them. -/
theorem zone_table_places (z : Zone) (dimensions : Nat) (bins : Nat → Nat)
    (some_features : 1 ≤ dimensions) (few_features : dimensions ≤ maxFeatures)
    (bins_pos : ∀ d, d < dimensions → 1 ≤ bins d)
    (table_lt : binsBefore bins dimensions < 2 ^ z.width) :
    (distances ((List.range dimensions).map bins) =
        .ok ((List.range dimensions).map (binsBefore bins)) ∧
      ∀ d, d < dimensions →
        (BitVec.ofNat z.width (binsBefore bins d)).toNat = binsBefore bins d) ∧
    (∀ (index : Nat → Nat), (∀ d, d < dimensions → index d < bins d) →
      mixedRadix index bins dimensions < binsBefore bins dimensions ∧
        ∀ (readers : Nat → Pack.Reader z.width z.lanes) (l : Fin z.lanes),
          (∀ d, d < dimensions → ((readers d).next.1.get l).toNat = index d) →
            ((place ((List.range dimensions).map fun d =>
                (⟨readers d, BitVec.ofNat z.width (binsBefore bins d)⟩ :
                  Axis z.width z.lanes))).1.get l).toNat = mixedRadix index bins dimensions) ∧
    (∀ (index index' : Nat → Nat), (∀ d, d < dimensions → index d < bins d) →
      (∀ d, d < dimensions → index' d < bins d) →
        mixedRadix index bins dimensions = mixedRadix index' bins dimensions →
          ∀ d, d < dimensions → index d = index' d) ∧
    (∀ v, v < binsBefore bins dimensions → ∃ index : Nat → Nat,
      (∀ d, d < dimensions → index d < bins d) ∧ mixedRadix index bins dimensions = v) ∧
    ∀ (r : Interaction z.Number z.width), r.dimensions = dimensions →
      (∀ d, d < dimensions → (r.feature d).bins = bins d ∧
        Pack.Readable (r.feature d).items (r.feature d).packed) →
      r.Selects z.lanes →
        (∀ s t, s < r.samples → t < r.samples →
          (r.flatIndex z.lanes s = r.flatIndex z.lanes t ↔
            ∀ d, d < dimensions → r.indexIn z.lanes s d = r.indexIn z.lanes t d)) ∧
        ∀ (b : BinBuffer) (start : BitVec 64) (guarded : Bool), Serves b z.format r.toRequest →
          b.Allotted → start.toNat + b.span < 2 ^ 64 → z.lanes ∣ r.samples →
          binsBefore bins dimensions ≤ b.bins →
            ∃ cells, interaction z.machine (Span.over b start guarded) r b.cells =
                .ok (.ok, cells) ∧
              cells = inSampleOrder z.machine r.toRequest none (r.flatIndex z.lanes)
                b.shape.slots b.cells ∧
              ∀ slot, binsBefore bins dimensions * b.shape.slots ≤ slot →
                cells.peek z.width slot = b.cells.peek z.width slot := by
  have narrow : z.width ≤ 64 := by cases z <;> decide
  refine ⟨⟨distances_range bins_pos table_lt narrow,
      fun d hd => toNat_distance bins_pos table_lt (Nat.le_of_lt hd)⟩,
    fun index digits => ⟨mixedRadix_lt digits, fun readers l read =>
      toNat_place_range table_lt readers l read digits⟩,
    fun index index' => mixedRadix_injective, fun v hv => exists_mixedRadix bins_pos hv, ?_⟩
  rintro r rfl features inside
  have table : r.tableBins = binsBefore bins r.dimensions :=
    binsBefore_congr fun d hd => (features d hd).1
  have tabled : r.Tabled := by
    refine ⟨some_features, few_features, fun d hd => ?_, table ▸ table_lt,
      fun d hd => (features d hd).2⟩
    rw [(features d hd).1]
    exact bins_pos d hd
  refine ⟨fun s t => inside.flatIndex_eq_iff, ?_⟩
  intro b start guarded serves allotted room whole enough
  rw [← table] at enough ⊢
  exact tabled.interaction_in_table (few_lanes z) narrow inside whole serves allotted room guarded
    enough

/-- The bins of the features of a call. -/
def tableOfThree : Nat → Nat := fun d => #[3, 2, 2].getD d 0

theorem four_in_table_of_twelve :
    distances [3, 2, 2] = .ok [1, 3, 6] ∧
      mixedRadix (fun d => #[2, 1, 1].getD d 0) tableOfThree 3 < 12 ∧
      (∃ index : Nat → Nat, (∀ d, d < 3 → index d < tableOfThree d) ∧
        mixedRadix index tableOfThree 3 = 7) ∧
      ∃ cells, interaction Zone.sse2.machine (Span.over twelveBins 4096 true) fourInTable
          twelveBins.cells = .ok (.ok, cells) ∧
        ∀ slot, 48 ≤ slot → cells.peek 32 slot = twelveBins.cells.peek 32 slot := by
  have table : binsBefore tableOfThree 3 = 12 := by decide
  have digits : ∀ d, d < 3 → #[2, 1, 1].getD d 0 < tableOfThree d := by decide
  obtain ⟨⟨walked, -⟩, places, -, reached, calls⟩ := zone_table_places .sse2 3 tableOfThree
    (by decide) (by decide) (by decide) (by decide)
  have inside : fourInTable.Selects 4 := by unfold Interaction.Selects; decide
  have allotted := @BinBuffer.make?_allotted twelveBins.shape 12 twelveBins (by decide)
  obtain ⟨cells, summed, -, kept⟩ := (calls fourInTable rfl
    (fun d hd => ⟨by revert d; decide, by revert d; decide⟩) inside).2 twelveBins 4096 true
    ⟨rfl, rfl, rfl⟩ allotted (by decide) ⟨1, rfl⟩ (by decide)
  rw [table] at places reached kept
  exact ⟨walked, (places _ digits).1, reached 7 (by decide), cells, summed, kept⟩

end LaneBoost.BinSums
