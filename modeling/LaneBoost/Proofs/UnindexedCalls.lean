import LaneBoost.Proofs.KernelCalls
import LaneBoost.Proofs.TablePlaces
import LaneBoost.Proofs.UpdateSlots

/-!
# Calls without indexes

A kernel asks its packed words for nothing but the indexes of the samples. So calls that differ in
their packed words do the same as long as every sample has the same index; in particular a call
without indexes does what a call does whose words hold index 0 for every sample.
-/
namespace LaneBoost

variable {F : Type} [Arithmetic F] {w lanes : Nat}

namespace Pack

/-! ### Sources of indexes -/

/-- Two sources that are read alike: if one can be read then so can the other, and each of the first
samples has one index in both. -/
structure Alike (lanes samples : Nat) (items : Int) (packed : Option (Array (BitVec w)))
    (items' : Int) (packed' : Option (Array (BitVec w))) : Prop where
  readable_iff : Readable items packed ↔ Readable items' packed'
  indexAt_eq : ∀ s, s < samples → indexAt items packed lanes s = indexAt items' packed' lanes s

theorem Alike.refl (lanes samples : Nat) (items : Int) (packed : Option (Array (BitVec w))) :
    Alike lanes samples items packed items packed :=
  ⟨Iff.rfl, fun _ _ => rfl⟩

/-- The two sources hand out the same indexes to a lane group. -/
theorem Alike.indexesOf_eq {samples : Nat} {items items' : Int}
    {packed packed' : Option (Array (BitVec w))}
    (alike : Alike lanes samples items packed items' packed') (whole : lanes ∣ samples) {g : Nat}
    (hg : g < samples / lanes) :
    Reader.indexesOf items packed lanes g = Reader.indexesOf items' packed' lanes g := by
  ext l
  rw [Reader.get_indexesOf, Reader.get_indexesOf, alike.indexAt_eq _ (lane_lt_samples whole hg l)]

/-- No words, or no items to a word. -/
def Unindexed (items : Int) (packed : Option (Array (BitVec w))) : Prop := packed = none ∨ items ≤ 0

/-- Words for the first samples, each of which has index 0. Fields of other samples and unused bits
hold anything. -/
structure HoldsZeros (lanes samples : Nat) (items : Int) (words : Array (BitVec w)) : Prop where
  some_items : 1 ≤ items
  items_le : items ≤ w
  long_enough : wordCount items.toNat lanes samples ≤ words.size
  fieldAt_eq : ∀ s, s < samples → fieldAt words items.toNat lanes s = 0

/-- Words that hold zeros are read like no words. -/
theorem Unindexed.alike {samples : Nat} {items items' : Int}
    {packed : Option (Array (BitVec w))} {words : Array (BitVec w)}
    (unindexed : Unindexed items packed) (zeros : HoldsZeros lanes samples items' words) :
    Alike lanes samples items packed items' (some words) := by
  refine ⟨iff_of_true (unindexed.imp_right fun none => by omega) (.inr zeros.items_le),
    fun s hs => ?_⟩
  have some_items := zeros.some_items
  rw [indexAt_some words (by omega), zeros.fieldAt_eq s hs]
  rcases unindexed with rfl | none
  · rfl
  · cases packed with
    | none => rfl
    | some _ => exact if_pos none

end Pack

open Pack (Alike Readable)

/-! ### Updates -/

namespace Update

variable {m : Machine F w lanes} (first : m.place 0 = 0) {o : Objective} {r : Request F w}
  {wanted : Wanted} {items items' : Int} {packed packed' : Option (Array (BitVec w))}

include first

/-- Another reader of the same indexes changes nothing in a group, and goes on as it would. -/
theorem step_reader {g : Nat}
    (same : Pack.Reader.indexesOf items packed lanes g = Pack.Reader.indexesOf items' packed' lanes g)
    {s : State F w lanes} (reader : s.reader = Pack.Reader.after items packed lanes g) :
    (step m r wanted o s g).reader = Pack.Reader.after items packed lanes (g + 1) ∧
      step m r wanted o { s with reader := Pack.Reader.after items' packed' lanes g } g =
        { step m r wanted o s g with reader := Pack.Reader.after items' packed' lanes (g + 1) } := by
  have single : ∀ p, (stepSingle m r wanted p s g).reader =
      Pack.Reader.after items packed lanes (g + 1) ∧
        stepSingle m r wanted p { s with reader := Pack.Reader.after items' packed' lanes g } g =
          { stepSingle m r wanted p s g with
            reader := Pack.Reader.after items' packed' lanes (g + 1) } := by
    intro p
    simp only [stepSingle, reader, entries_eq_gather first, same, and_self]
  cases o with
  | squaredError => exact single .squaredError
  | binary privacy => exact single .logistic
  | multiclass classes privacy =>
    simp only [step, stepSeveral, reader, Pack.Reader.next_after, same]
    split <;> exact ⟨rfl, rfl⟩

/-- The loops over readers of the same indexes leave the same buffers. -/
theorem loop_alike (b : Buffers F) (whole : lanes ∣ r.samples)
    (alike : Alike lanes r.samples items packed items' packed') :
    loop m r wanted o (Pack.Reader.after items packed lanes 0) b =
      loop m r wanted o (Pack.Reader.after items' packed' lanes 0) b := by
  let start : Pack.Reader w lanes → State F w lanes := fun reader =>
    ⟨reader, b.scores, b.gradients.getD #[], b.scratch.getD #[], 0⟩
  have walked : ∀ n, n ≤ r.samples / lanes → ∀ s,
      s = (List.range n).foldl (step m r wanted o) (start (Pack.Reader.after items packed lanes 0)) →
        s.reader = Pack.Reader.after items packed lanes n ∧
          (List.range n).foldl (step m r wanted o)
              (start (Pack.Reader.after items' packed' lanes 0)) =
            { s with reader := Pack.Reader.after items' packed' lanes n } := by
    intro n
    induction n with
    | zero =>
      rintro - s rfl
      exact ⟨rfl, rfl⟩
    | succ n ih =>
      rintro inside s rfl
      obtain ⟨reader, other⟩ := ih (Nat.le_of_succ_le inside) _ rfl
      simp only [List.range_succ, List.foldl_append, List.foldl_cons, List.foldl_nil, other]
      exact step_reader first (alike.indexesOf_eq whole inside) reader
  have other := (walked _ (Nat.le_refl _) _ rfl).2
  simp only [start] at other
  simp only [loop, other]

/-- Updates that read the same indexes answer alike and leave the same buffers. -/
theorem run_alike (r : Request F w) (b : Buffers F)
    (alike : Alike lanes r.samples items packed items' packed') :
    run m { r with items, packed } o b =
      run m { r with items := items', packed := packed' } o b := by
  rw [run_eq_unlessRefused, run_eq_unlessRefused]
  -- Both requests are checked alike, so only the effects can differ.
  show unlessRefused (refusal? lanes o r _ _) b _ = unlessRefused (refusal? lanes o r _ _) b _
  cases reason : refusal? lanes o r b.gradients.isSome b.scratch.isSome with
  | some status => rfl
  | none =>
    have whole : lanes ∣ r.samples := by
      simp only [refusal?] at reason
      split_ifs at reason with _ _ whole
      exact whole
    have made : ∀ (items : Int) (packed : Option (Array (BitVec w))),
        effect m { r with items, packed } o b =
          if r.samples = 0 then .ok { b with metric := 0 }
          else if Readable items packed then
            .ok (loop m r (Update.wanted o r b) o (Pack.Reader.after items packed lanes 0) b)
          else .error .tooManyItems := by
      intro items packed
      simp only [effect, Pack.Reader.make_eq_ite]
      split_ifs <;> rfl
    rw [made, made, loop_alike first b whole alike]
    simp only [alike.readable_iff]

end Update

/-! ### Sums -/

namespace BinSums

variable (m : Machine F w lanes) (span : Span)

/-- Sums over one feature that read the same indexes answer alike and leave the same cells. -/
theorem boosting_alike (r : Boosting F w) (cells : Cells) {items items' : Int}
    {packed packed' : Option (Array (BitVec w))}
    (alike : Alike lanes r.samples items packed items' packed') :
    boosting m span { r with items, packed } cells =
      boosting m span { r with items := items', packed := packed' } cells := by
  rw [boosting_eq_unlessRefused, boosting_eq_unlessRefused]
  show unlessRefused (Boosting.refusal? lanes r) cells _ =
    unlessRefused (Boosting.refusal? lanes r) cells _
  cases reason : Boosting.refusal? lanes r with
  | some status => rfl
  | none =>
    have whole := Boosting.dvd_of_accepted reason
    have loops : ∀ target stride,
        Boosting.loop m { r with items, packed } target stride
            (Pack.Reader.after items packed lanes 0) cells =
          Boosting.loop m { r with items := items', packed := packed' } target stride
            (Pack.Reader.after items' packed' lanes 0) cells := by
      intro target stride
      have paced := Boosting.loop_paced m { r with items, packed } target stride cells
      have paced' :=
        Boosting.loop_paced m { r with items := items', packed := packed' } target stride cells
      refine paced.trans (Eq.trans ?_ paced'.symm)
      exact foldlM_range_congr _ _ _ _ fun g cells hg => by rw [alike.indexesOf_eq whole hg]
    refine congrArg (unlessRefused none cells) (bind_congr fun slots => ?_)
    simp only [Pack.Reader.make_eq_ite, alike.readable_iff]
    split_ifs
    · exact bind_congr fun stride => loops _ stride
    · rfl

/-! ### Sums over a table -/

/-- Features with the same bins that are read alike. -/
structure Feature.Alike (lanes samples : Nat) (f f' : Feature w) : Prop
    extends Pack.Alike lanes samples f.items f.packed f'.items f'.packed where
  bins_eq : f.bins = f'.bins

namespace Interaction

section Alike

variable {r r' : Interaction F w} (few_features : r.dimensions ≤ maxFeatures)
  (dimensions_eq : r'.dimensions = r.dimensions)
  (alike : ∀ d, d < r.dimensions → Feature.Alike lanes r.samples (r.feature d) (r'.feature d))

include few_features dimensions_eq alike

omit [Arithmetic F] in
theorem bins_used_alike : r.used.map (·.bins) = r'.used.map (·.bins) := by
  rw [r.used_eq few_features, r'.used_eq (dimensions_eq ▸ few_features), dimensions_eq,
    List.map_map, List.map_map]
  exact List.map_congr_left fun d hd => (alike d (List.mem_range.1 hd)).bins_eq

omit [Arithmetic F] in
theorem readable_used_alike :
    (∀ f ∈ r.used, Readable f.items f.packed) ↔ ∀ f ∈ r'.used, Readable f.items f.packed := by
  rw [r.used_eq few_features, r'.used_eq (dimensions_eq ▸ few_features), dimensions_eq,
    List.forall_mem_map, List.forall_mem_map]
  exact forall₂_congr fun d hd => (alike d (List.mem_range.1 hd)).readable_iff

omit [Arithmetic F] in
/-- A sample has one place in the table. -/
theorem placeOf_alike (ds : List Nat) {s : Nat} (hs : s < r.samples) :
    r.placeOf ds lanes s = r'.placeOf ds lanes s := by
  rw [placeOf, placeOf, r.used_eq few_features, r'.used_eq (dimensions_eq ▸ few_features),
    dimensions_eq, placeFrom, placeFrom, List.zip_map_left, List.zip_map_left, List.foldl_map,
    List.foldl_map]
  refine List.foldl_ext _ _ _ fun place a ha => ?_
  have dimension := List.mem_range.1 (List.of_mem_zip ha).1
  show place + Pack.indexAt (r.feature a.1).items (r.feature a.1).packed lanes s * _ =
    place + Pack.indexAt (r'.feature a.1).items (r'.feature a.1).packed lanes s * _
  rw [(alike a.1 dimension).indexAt_eq s hs]
  rfl

/-- The loops over the samples leave the same cells. -/
theorem loop_alike (samples_eq : r'.toRequest = r.toRequest) (whole : lanes ∣ r.samples)
    (ds : List Nat) (target : Target) (stride : Nat) (cells : Cells) :
    r.loop m target stride (axesAfter lanes 0 (r.used.zip ds)) cells =
      r'.loop m target stride (axesAfter lanes 0 (r'.used.zip ds)) cells := by
  let places : Nat → Lanes (BitVec w) lanes := fun g =>
    Lanes.ofFn fun l => r.placeOf ds lanes (g * lanes + l.val)
  have here : ∀ g, g < r.samples / lanes → ∀ l,
      (places g).get l = r.placeOf ds lanes (g * lanes + l.val) := by
    intro g _ l
    exact Lanes.get_ofFn _ l
  have there : ∀ g, g < r'.samples / lanes → ∀ l,
      (places g).get l = r'.placeOf ds lanes (g * lanes + l.val) := by
    intro g hg l
    rw [samples_eq] at hg
    rw [here g hg l]
    exact placeOf_alike few_features dimensions_eq alike ds (lane_lt_samples whole hg l)
  rw [r.loop_paced m ds target stride places here, r'.loop_paced m ds target stride places there,
    samples_eq]

end Alike

end Interaction

/-- Sums over a table whose features are read alike answer alike and leave the same cells. -/
theorem interaction_alike (r : Interaction F w)
    (features : Vector (Feature w) maxFeatures) (cells : Cells)
    (alike : ∀ d, d < r.dimensions → Feature.Alike lanes r.samples (r.feature d)
      (Interaction.feature { r with features } d)) :
    interaction m span r cells = interaction m span { r with features } cells := by
  rw [interaction_eq_unlessRefused, interaction_eq_unlessRefused]
  show unlessRefused (r.refusal? lanes) cells _ = unlessRefused (r.refusal? lanes) cells _
  cases reason : r.refusal? lanes with
  | some status => rfl
  | none =>
    obtain ⟨whole, -, few_features⟩ := Interaction.of_accepted reason
    let r' : Interaction F w := { r with features }
    have dimensions_eq : r'.dimensions = r.dimensions := rfl
    have bins : r.used.map (·.bins) = r'.used.map (·.bins) :=
      Interaction.bins_used_alike few_features dimensions_eq alike
    have readable : (∀ f ∈ r.used, Readable f.items f.packed) ↔
        ∀ f ∈ r'.used, Readable f.items f.packed :=
      Interaction.readable_used_alike few_features dimensions_eq alike
    have loops : ∀ ds target stride,
        r.loop m target stride (axesAfter lanes 0 (r.used.zip ds)) cells =
          r'.loop m target stride (axesAfter lanes 0 (r'.used.zip ds)) cells := fun ds target stride =>
      Interaction.loop_alike m few_features dimensions_eq alike rfl whole ds target stride cells
    refine congrArg (unlessRefused none cells) (bind_congr fun slots => ?_)
    have axes := @Interaction.axes_eq_ite F w lanes r
    have axes' := @Interaction.axes_eq_ite F w lanes r'
    simp only [bins, readable] at axes
    rw [axes, axes']
    split_ifs
    · rw [bind_assoc, bind_assoc]
      exact bind_congr fun ds => bind_congr fun stride => loops ds _ stride
    · rfl

/-- The second feature has words that hold zeros where the first one has no indexes. -/
structure Feature.ZerosPut (lanes samples : Nat) (f f' : Feature w) : Prop where
  bins_eq : f.bins = f'.bins
  unindexed : Pack.Unindexed f.items f.packed
  zeros : ∃ words, f'.packed = some words ∧ Pack.HoldsZeros lanes samples f'.items words

theorem Feature.ZerosPut.alike {samples : Nat} {f f' : Feature w}
    (put : f.ZerosPut lanes samples f') : f.Alike lanes samples f' := by
  obtain ⟨words, packed, zeros⟩ := put.zeros
  refine ⟨?_, put.bins_eq⟩
  rw [packed]
  exact put.unindexed.alike zeros

end BinSums

/-! ### The calls of a zone -/

theorem Zone.place_zero (z : Zone) : z.machine.place 0 = 0 := by cases z <;> rfl

/-- In every zone, a call without indexes answers what the call answers whose words hold index 0 for
every sample, and leaves the same buffers, bit for bit. It makes no difference whether there are no
words or no items to a word, how many items the words hold, or what is in the bits that no sample
uses. In a table this may be done to any of the features. -/
theorem zone_unindexed_calls (z : Zone) :
    (∀ (o : Objective) (r : Update.Request z.Number z.width) (b : Update.Buffers z.Number)
        (items items' : Int) (packed : Option (Array (BitVec z.width)))
        (words : Array (BitVec z.width)), Pack.Unindexed items packed →
      Pack.HoldsZeros z.lanes r.samples items' words →
        Update.run z.machine { r with items, packed } o b =
          Update.run z.machine { r with items := items', packed := some words } o b) ∧
      (∀ (span : BinSums.Span) (r : BinSums.Boosting z.Number z.width) (cells : Cells)
          (items items' : Int) (packed : Option (Array (BitVec z.width)))
          (words : Array (BitVec z.width)), Pack.Unindexed items packed →
        Pack.HoldsZeros z.lanes r.samples items' words →
          BinSums.boosting z.machine span { r with items, packed } cells =
            BinSums.boosting z.machine span { r with items := items', packed := some words } cells) ∧
      ∀ (span : BinSums.Span) (r : BinSums.Interaction z.Number z.width) (cells : Cells)
        (features : Vector (BinSums.Feature z.width) BinSums.maxFeatures),
        (∀ d, d < r.dimensions →
          BinSums.Interaction.feature { r with features } d = r.feature d ∨
            (r.feature d).ZerosPut z.lanes r.samples
              (BinSums.Interaction.feature { r with features } d)) →
          BinSums.interaction z.machine span r cells =
            BinSums.interaction z.machine span { r with features } cells := by
  refine ⟨?_, ?_, ?_⟩
  · intro o r b items items' packed words unindexed zeros
    exact Update.run_alike z.place_zero r b (unindexed.alike zeros)
  · intro span r cells items items' packed words unindexed zeros
    exact BinSums.boosting_alike z.machine span r cells (unindexed.alike zeros)
  · intro span r cells features put
    refine BinSums.interaction_alike z.machine span r features cells fun d hd => ?_
    rcases put d hd with same | put
    · rw [same]
      exact ⟨.refl _ _ _ _, rfl⟩
    · exact put.alike

/-- Words with 16 items each, the first of which is 0. -/
def zeroWords : Array (BitVec Zone.sse2.width) := #[4, 0, 8, 4294967292]

theorem four_unindexed_samples :
    Update.run Zone.sse2.machine { Update.fourOfTwoClasses with items := -1, packed := none }
        (.binary false) Update.singleBuffers =
      Update.run Zone.sse2.machine
        { Update.fourOfTwoClasses with items := 16, packed := some zeroWords }
        (.binary false) Update.singleBuffers ∧
      BinSums.boosting Zone.sse2.machine (BinSums.Span.over BinSums.twoBins 4096 true)
          { BinSums.fourSamples with items := 0, packed := some #[1] } BinSums.twoBins.cells =
        BinSums.boosting Zone.sse2.machine (BinSums.Span.over BinSums.twoBins 4096 true)
          { BinSums.fourSamples with items := 16, packed := some zeroWords } BinSums.twoBins.cells ∧
      BinSums.interaction Zone.sse2.machine (BinSums.Span.over BinSums.twelveBins 4096 true)
          BinSums.fourInTable BinSums.twelveBins.cells =
        BinSums.interaction Zone.sse2.machine (BinSums.Span.over BinSums.twelveBins 4096 true)
          { BinSums.fourInTable with
            features := BinSums.fourInTable.features.set 1 ⟨2, 16, some zeroWords⟩ }
          BinSums.twelveBins.cells := by
  have zeros : Pack.HoldsZeros 4 4 16 zeroWords := ⟨by decide, by decide, by decide, by decide⟩
  obtain ⟨updates, sums, tables⟩ := zone_unindexed_calls .sse2
  refine ⟨updates _ _ _ _ _ _ _ (.inl rfl) zeros, sums _ _ _ _ _ _ _ (.inr (by decide)) zeros,
    tables _ _ _ _ fun d hd => ?_⟩
  match d, hd with
  | 0, _ => exact .inl rfl
  | 1, _ => exact .inr ⟨rfl, .inl rfl, _, rfl, zeros⟩
  | 2, _ => exact .inl rfl

end LaneBoost
