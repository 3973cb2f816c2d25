import LaneBoost.Proofs.PackCodec
import LaneBoost.Proofs.TableSums
import Mathlib.Algebra.BigOperators.Fin
import Mathlib.Algebra.Order.BigOperators.Ring.Finset

/-!
# A table as one feature

The place of a sample in a table is a number in mixed radix: each index counts as often as there are
bins in the table of the features before it. As long as every index is one of its feature's bins,
the place is below the number of bins of the table. A call for the features then does what a call
for one feature does whose indexes are these places.
-/
namespace LaneBoost.BinSums

/-! ### Mixed radix -/

section MixedRadix

variable (index bins : Nat → Nat)

/-- The number of tuples of the first `n` digits. -/
def binsBefore (n : Nat) : Nat := ∏ e ∈ Finset.range n, bins e

/-- The number that the first `n` digits spell, the first one counting least. -/
def mixedRadix (n : Nat) : Nat := ∑ d ∈ Finset.range n, index d * binsBefore bins d

theorem binsBefore_succ (n : Nat) : binsBefore bins (n + 1) = binsBefore bins n * bins n :=
  Finset.prod_range_succ bins n

theorem mixedRadix_succ (n : Nat) :
    mixedRadix index bins (n + 1) = mixedRadix index bins n + index n * binsBefore bins n :=
  Finset.sum_range_succ _ n

variable {index bins} {n : Nat}

/-- Digits below their bases spell a number below the number of tuples. -/
theorem mixedRadix_lt (digits : ∀ d, d < n → index d < bins d) :
    mixedRadix index bins n < binsBefore bins n := by
  induction n with
  | zero => exact Nat.one_pos
  | succ n ih =>
    have lower := ih fun d hd => digits d (Nat.lt_succ_of_lt hd)
    have last := Nat.mul_le_mul_left (binsBefore bins n)
      (Nat.succ_le_of_lt (digits n (Nat.lt_succ_self n)))
    rw [mixedRadix_succ, binsBefore_succ, Nat.mul_comm (index n)]
    rw [Nat.mul_succ] at last
    omega

/-- More digits never make fewer tuples. -/
theorem binsBefore_le (bins_pos : ∀ d, d < n → 1 ≤ bins d) {d : Nat} (hd : d ≤ n) :
    binsBefore bins d ≤ binsBefore bins n := by
  induction n with
  | zero => rw [Nat.le_zero.1 hd]
  | succ n ih =>
    rcases Nat.lt_or_eq_of_le hd with lower | rfl
    · have before := ih (fun e he => bins_pos e (Nat.lt_succ_of_lt he)) (Nat.le_of_lt_succ lower)
      rw [binsBefore_succ]
      exact Nat.le_trans before (Nat.le_mul_of_pos_right _ (bins_pos n (Nat.lt_succ_self n)))
    · exact Nat.le_refl _

/-- The distances of features whose table has a size are the numbers of bins before them. -/
theorem distances_eq (sizes : ∀ d, d < n → binsBefore bins (d + 1) < sizeBound) :
    distances ((List.range n).map bins) = .ok ((List.range n).map (binsBefore bins)) := by
  have walked := foldlM_range_eq_ok
    (fun (s : List Nat × Nat) d => (do return (s.1 ++ [s.2], ← size (s.2 * bins d)) : Checked _))
    (fun d => ((List.range d).map (binsBefore bins), binsBefore bins d)) n fun d hd => by
      rw [← binsBefore_succ, size_of_lt (sizes d hd), List.range_succ, List.map_append]
      rfl
  rw [distances, List.foldlM_map]
  exact congrArg (fun x => x >>= fun s => pure s.1) walked

end MixedRadix

/-! ### The places of a call -/

variable {F : Type} {w lanes : Nat}

/-- The place along the axes is the sum over the features, modulo the width of a word. -/
theorem placeFrom_range (lanes s : Nat) (feature : Nat → Feature w) (distance : Nat → Nat)
    (n : Nat) :
    placeFrom lanes s 0 (((List.range n).map feature).zip ((List.range n).map distance)) =
      BitVec.ofNat w (∑ d ∈ Finset.range n,
        (Pack.indexAt (feature d).items (feature d).packed lanes s).toNat * distance d) := by
  rw [List.zip_map']
  induction n with
  | zero => rfl
  | succ n ih =>
    rw [placeFrom] at ih ⊢
    rw [List.range_succ, List.map_append, List.foldl_append, ih, Finset.sum_range_succ,
      BitVec.ofNat_add, BitVec.ofNat_mul, BitVec.ofNat_toNat, BitVec.setWidth_eq]
    rfl

namespace Interaction

variable (r : Interaction F w)

/-- Feature number `d` of a call. -/
def feature (d : Nat) : Feature w := r.features.toList.getD d {}

theorem used_eq (few_features : r.dimensions ≤ maxFeatures) :
    r.used = (List.range r.dimensions).map r.feature := by
  have size : r.features.toList.length = maxFeatures := Vector.length_toList
  refine List.ext_getElem (by simp [used, few_features]) fun d hd _ => ?_
  have there : d < r.features.toList.length := by
    rw [used, List.length_take] at hd
    omega
  simp only [used, List.getElem_take, List.getElem_map, List.getElem_range]
  rw [feature, List.getD_eq_getElem?_getD, List.getElem?_eq_getElem there]
  rfl

/-- The index of a sample in feature number `d`. -/
def indexIn (lanes s d : Nat) : Nat :=
  (Pack.indexAt (r.feature d).items (r.feature d).packed lanes s).toNat

/-- The place of a sample in the table, the first feature counting fastest. -/
def flatIndex (lanes s : Nat) : Nat :=
  mixedRadix (r.indexIn lanes s) (fun d => (r.feature d).bins) r.dimensions

/-- The bins of the table. -/
def tableBins : Nat := binsBefore (fun d => (r.feature d).bins) r.dimensions

/-- The call for one feature whose index is the place in the table, one to a word. -/
def flattened (lanes : Nat) : Boosting F w where
  toRequest := r.toRequest
  items := 1
  packed := some (Array.ofFn fun s : Fin r.samples => BitVec.ofNat w (r.flatIndex lanes s))
  counts := none

/-- With one item to a word every sample has a word of its own. -/
theorem fieldAt_one (words : Array (BitVec w)) (lanes s : Nat) :
    Pack.fieldAt words 1 lanes s = words.getD s 0 := by
  have word : Pack.wordOf 1 lanes s = s := by
    rw [Pack.wordOf, Nat.mul_one, Nat.div_add_mod']
  apply BitVec.eq_of_getLsbD_eq
  intro i hi
  have shift : Pack.shiftOf w 1 lanes s = 0 := by
    rw [Pack.shiftOf, Nat.mul_one]
    rcases Nat.eq_zero_or_pos lanes with rfl | some_lanes
    · rw [Nat.div_zero, Nat.zero_mul]
    · rw [Nat.div_eq_of_lt (Nat.mod_lt s some_lanes), Nat.zero_mul]
  rw [Pack.getLsbD_fieldAt _ _ _ hi, word, shift, Nat.zero_add, Pack.fieldBits, Nat.div_one,
    decide_eq_true hi, Bool.true_and]

/-- Its words are the places. -/
theorem indexAt_flattened {s : Nat} (hs : s < r.samples) :
    Pack.indexAt (r.flattened lanes).items (r.flattened lanes).packed lanes s =
      BitVec.ofNat w (r.flatIndex lanes s) := by
  rw [flattened, Pack.indexAt_some _ Int.one_pos, Int.toNat_one, fieldAt_one]
  simp [hs]

/-- What a call for several features has to satisfy: every feature has a bin, the places of the table
are words, and every word can hold its items. -/
structure Spans (r : Interaction F w) : Prop where
  some_features : 1 ≤ r.dimensions
  few_features : r.dimensions ≤ maxFeatures
  bins_pos : ∀ d, d < r.dimensions → 1 ≤ (r.feature d).bins
  table_lt : r.tableBins < 2 ^ w
  items_le : ∀ d, d < r.dimensions → (r.feature d).items ≤ w

/-- Every index of the first `samples` samples is one of its feature's bins. -/
def Selects (r : Interaction F w) (lanes : Nat) : Prop :=
  ∀ s, s < r.samples → ∀ d, d < r.dimensions → r.indexIn lanes s d < (r.feature d).bins

variable {r}

/-- The place that the call computes, modulo the width of a word. -/
theorem placeOf_range (few_features : r.dimensions ≤ maxFeatures) (lanes s : Nat) :
    r.placeOf ((List.range r.dimensions).map (binsBefore fun d => (r.feature d).bins)) lanes s =
      BitVec.ofNat w (r.flatIndex lanes s) := by
  rw [placeOf, r.used_eq few_features, placeFrom_range]
  rfl

theorem Selects.flatIndex_lt (inside : r.Selects lanes) {s : Nat} (hs : s < r.samples) :
    r.flatIndex lanes s < r.tableBins :=
  mixedRadix_lt (inside s hs)

namespace Spans

theorem items_of_mem (h : r.Spans) : ∀ f ∈ r.used, f.items ≤ w := by
  intro f hf
  rw [r.used_eq h.few_features] at hf
  obtain ⟨d, hd, rfl⟩ := List.mem_map.1 hf
  exact h.items_le d (List.mem_range.1 hd)

/-- The distances of the features, as the call computes them. -/
theorem distances_used (h : r.Spans) (narrow : w ≤ 64) :
    distances (r.used.map (·.bins)) =
      .ok ((List.range r.dimensions).map (binsBefore fun d => (r.feature d).bins)) := by
  have sizes : ∀ d, d < r.dimensions →
      binsBefore (fun d => (r.feature d).bins) (d + 1) < sizeBound := fun d hd =>
    calc binsBefore (fun d => (r.feature d).bins) (d + 1)
        ≤ r.tableBins := binsBefore_le h.bins_pos hd
      _ < 2 ^ w := h.table_lt
      _ ≤ sizeBound := Nat.pow_le_pow_right Nat.two_pos narrow
  rw [r.used_eq h.few_features, List.map_map]
  exact distances_eq sizes

/-- As the places are words, the packed index of a sample is its place. -/
theorem binOf_flattened [Arithmetic F] (h : r.Spans) (inside : r.Selects lanes) {s : Nat}
    (hs : s < r.samples) : (r.flattened lanes).binOf lanes s = r.flatIndex lanes s := by
  have word : r.flatIndex lanes s < 2 ^ w := Nat.lt_trans (inside.flatIndex_lt hs) h.table_lt
  rw [Boosting.binOf, r.indexAt_flattened hs, BitVec.toNat_ofNat, Nat.mod_eq_of_lt word]

end Spans

end Interaction

/-! ### Two loops in step -/

variable [Arithmetic F] (m : Machine F w lanes)

/-- The loop over one feature adds group after group at the indexes of the feature. -/
theorem Boosting.loop_paced (r : Boosting F w) (target : Target) (stride : Nat) (cells : Cells) :
    r.loop m target stride (Pack.Reader.after r.items r.packed lanes 0) cells =
      (List.range (r.samples / lanes)).foldlM
        (fun cells g => BinSums.step m r.toRequest r.counts target stride
          (Pack.Reader.indexesOf r.items r.packed lanes g) g cells)
        cells := by
  rw [loop, foldlM_range_paced (Pack.Reader.after r.items r.packed lanes) (r.step m target stride)
    (fun cells g => BinSums.step m r.toRequest r.counts target stride
      (Pack.Reader.indexesOf r.items r.packed lanes g) g cells)]
  · simp
  · intro g cells hg
    rw [Boosting.step, Pack.Reader.next_after]

/-- The loop over several features adds group after group at their places. -/
theorem Interaction.loop_paced (r : Interaction F w) (ds : List Nat) (target : Target)
    (stride : Nat) (indexes : Nat → Lanes (BitVec w) lanes)
    (places : ∀ g, g < r.samples / lanes → ∀ l,
      (indexes g).get l = r.placeOf ds lanes (g * lanes + l.val)) (cells : Cells) :
    r.loop m target stride (axesAfter lanes 0 (r.used.zip ds)) cells =
      (List.range (r.samples / lanes)).foldlM
        (fun cells g => BinSums.step m r.toRequest none target stride (indexes g) g cells)
        cells := by
  rw [loop, foldlM_range_paced (fun g => axesAfter lanes g (r.used.zip ds)) (r.step m target stride)
    (fun cells g => BinSums.step m r.toRequest none target stride (indexes g) g cells)]
  · simp
  · intro g cells hg
    have same : (Lanes.ofFn fun l => r.placeOf ds lanes (g * lanes + l.val)) = indexes g :=
      Lanes.ext fun l => by rw [Lanes.get_ofFn, places g hg]
    rw [Interaction.step, Interaction.place_after, same]

/-- The call for several features does what the call for the places does, whether it is turned down,
breaks a rule or adds the samples. -/
theorem Interaction.Spans.interaction_eq_boosting {r : Interaction F w} (h : r.Spans)
    (some_bits : 1 ≤ w) (narrow : w ≤ 64) (span : Span) (cells : Cells) :
    interaction m span r cells = boosting m span (r.flattened lanes) cells := by
  let ds := (List.range r.dimensions).map (binsBefore fun d => (r.feature d).bins)
  have some_features := h.some_features
  have few_features := h.few_features
  have refused : (r.samples % lanes ≠ 0 ∨ r.scores = 0 ∨ r.dimensions = 0 ∨
      maxFeatures < r.dimensions) ↔ r.samples % lanes ≠ 0 ∨ r.scores = 0 := by omega
  by_cases bad : r.samples % lanes ≠ 0 ∨ r.scores = 0
  · rw [interaction, boosting, if_pos (refused.2 bad)]
    exact (if_pos bad).symm
  · have whole : lanes ∣ r.samples := Nat.dvd_of_mod_eq_zero (by omega)
    have axes := @Interaction.axes_eq F w lanes r ds (fun f hf => .inr (h.items_of_mem f hf))
      (h.distances_used narrow)
    have reader : Pack.Reader.make (r.flattened lanes).items (r.flattened lanes).packed =
        .ok (Pack.Reader.after (r.flattened lanes).items (r.flattened lanes).packed lanes 0) :=
      Pack.Reader.make_eq_after (Int.ofNat_le.2 some_bits) _
    have places : ∀ g, g < r.samples / lanes → ∀ l,
        (Pack.Reader.indexesOf (r.flattened lanes).items (r.flattened lanes).packed lanes g).get l =
          r.placeOf ds lanes (g * lanes + l.val) := by
      intro g hg l
      rw [Pack.Reader.get_indexesOf, r.indexAt_flattened (lane_lt_samples whole hg l),
        placeOf_range h.few_features]
    have loops : ∀ target stride,
        r.loop m target stride (axesAfter lanes 0 (r.used.zip ds)) cells =
          (r.flattened lanes).loop m target stride
            (Pack.Reader.after (r.flattened lanes).items (r.flattened lanes).packed lanes 0)
            cells := by
      intro target stride
      rw [r.loop_paced m ds target stride _ places, Boosting.loop_paced]
      rfl
    -- Up to the loops both calls check the same sizes, so they break the same rules.
    rw [interaction, boosting, if_neg (mt refused.1 bad), axes, reader]
    refine Eq.trans ?_ (if_neg bad).symm
    exact bind_congr fun slots => bind_congr fun stride =>
      congrArg (· >>= fun c => pure (Status.ok, c)) (loops ⟨span, slots, w / 8⟩ stride)

/-- Samples that select the same bins are summed alike. -/
theorem inSampleOrder_congr (r : Request F) (counts : Option (Array (BitVec 8)))
    {bin bin' : Nat → Nat} (same : ∀ s, s < r.samples → bin s = bin' s) (slots : Nat)
    (cells : Cells) :
    inSampleOrder m r counts bin slots cells = inSampleOrder m r counts bin' slots cells :=
  foldl_range_congr _ _ r.samples cells fun s cells hs => by rw [addTo, addTo, same s hs]

/-! ### The calls of a zone -/

/-- In every zone, a table of features with an index in it for every sample may be taken for one
feature whose indexes are the places in the table. The places are words, one to a sample; the call
for the features answers what the call for the places answers and leaves the same cells, bit for
bit. Where a buffer has the bins of the table, both answer `ok` and leave it with the samples added in
their order. -/
theorem zone_interaction_eq_boosting (z : Zone) (r : Interaction z.Number z.width) (spans : r.Spans)
    (inside : r.Selects z.lanes) :
    (∀ s, s < r.samples → r.flatIndex z.lanes s < r.tableBins ∧
        (r.flattened z.lanes).binOf z.lanes s = r.flatIndex z.lanes s) ∧
      (∀ span cells,
        interaction z.machine span r cells = boosting z.machine span (r.flattened z.lanes) cells) ∧
      ∀ (b : BinBuffer) (start : BitVec 64) (guarded : Bool), Serves b z.format r.toRequest →
        b.Allotted → start.toNat + b.span < 2 ^ 64 → r.tableBins ≤ b.bins → z.lanes ∣ r.samples →
        interaction z.machine (Span.over b start guarded) r b.cells =
            .ok (.ok, inSampleOrder z.machine r.toRequest none (r.flatIndex z.lanes) b.shape.slots
              b.cells) ∧
          boosting z.machine (Span.over b start guarded) (r.flattened z.lanes) b.cells =
            .ok (.ok, inSampleOrder z.machine r.toRequest none (r.flatIndex z.lanes) b.shape.slots
              b.cells) := by
  have bits : 1 ≤ z.width ∧ z.width ≤ 64 := by cases z <;> decide
  have alike := fun span cells =>
    spans.interaction_eq_boosting z.machine bits.1 bits.2 span cells
  refine ⟨fun s hs => ⟨inside.flatIndex_lt hs, spans.binOf_flattened inside hs⟩, alike, ?_⟩
  intro b start guarded serves allotted room table whole
  have places : ∀ s, s < r.samples →
      (r.flattened z.lanes).binOf z.lanes s = r.flatIndex z.lanes s :=
    fun s hs => spans.binOf_flattened inside hs
  have bins : 1 ≤ r.tableBins := binsBefore_le spans.bins_pos (Nat.zero_le _)
  have selected : ∀ s, s < r.samples → (r.flattened z.lanes).binOf z.lanes s < b.bins := by
    intro s hs
    rw [places s hs]
    exact Nat.lt_of_lt_of_le (inside.flatIndex_lt hs) table
  have some_bins : b.bins ≠ 0 := by omega
  have summed := boosting_over (m := z.machine) (few_lanes z) (r := r.flattened z.lanes) serves
    allotted room guarded (fun none => absurd none some_bins) whole (.inr (Int.ofNat_le.2 bits.1))
    selected
  have ordered := summed.trans (congrArg (fun cells => Except.ok (Status.ok, cells))
    (inSampleOrder_congr z.machine r.toRequest none places b.shape.slots b.cells))
  exact ⟨(alike _ _).trans ordered, ordered⟩

/-- Four weighted samples of three features, the second of which has no indexes. -/
def fourInTable : Interaction Zone.sse2.Number Zone.sse2.width where
  samples := 4
  hessian := true
  gradients := #[1, 1, 0, 1, 0, 1, 1, 1]
  weights := some #[1, 0, 1, 1]
  dimensions := 3
  features := (Vector.replicate maxFeatures {}).set 0 ⟨3, 16, some #[0, 2, 1, 2]⟩
    |>.set 1 ⟨2, -1, none⟩ |>.set 2 ⟨2, 32, some #[1, 0, 1, 1]⟩

/-- New bins for the table. -/
def twelveBins : BinBuffer where
  shape := twoBins.shape
  bins := 12
  cells := Cells.ofBytes 192

theorem four_in_table_flattened :
    (∀ s, s < 4 → fourInTable.flatIndex 4 s < 12 ∧
        (fourInTable.flattened 4).binOf 4 s = fourInTable.flatIndex 4 s) ∧
      interaction Zone.sse2.machine (Span.over twelveBins 4096 true) fourInTable twelveBins.cells =
        .ok (.ok, inSampleOrder Zone.sse2.machine fourInTable.toRequest none
          (fourInTable.flatIndex 4) 4 twelveBins.cells) ∧
      boosting Zone.sse2.machine (Span.over twelveBins 4096 true) (fourInTable.flattened 4)
          twelveBins.cells =
        .ok (.ok, inSampleOrder Zone.sse2.machine fourInTable.toRequest none
          (fourInTable.flatIndex 4) 4 twelveBins.cells) := by
  have spans : fourInTable.Spans := ⟨by decide, by decide, by decide, by decide, by decide⟩
  have inside : fourInTable.Selects 4 := by unfold Interaction.Selects; decide
  obtain ⟨places, -, summed⟩ := zone_interaction_eq_boosting .sse2 fourInTable spans inside
  have allotted := @BinBuffer.make?_allotted twelveBins.shape 12 twelveBins (by decide)
  exact ⟨places, summed twelveBins 4096 true ⟨rfl, rfl, rfl⟩ allotted (by decide) (by decide)
    ⟨1, rfl⟩⟩

end LaneBoost.BinSums
