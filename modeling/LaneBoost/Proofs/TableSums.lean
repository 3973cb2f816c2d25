import LaneBoost.Proofs.SampleSums

/-!
# Sums over a table of bins

A call for several features adds each sample to the place of the table that its indexes select: every
index takes as many steps as the distance of its feature says. The place is a word, and the rest of the
loop is that of a single feature.
-/
namespace LaneBoost.BinSums

variable {F : Type} {w lanes : Nat}

/-! ### Places -/

/-- The place of a sample, added to that of features before. -/
def placeFrom (lanes s : Nat) (start : BitVec w) (axes : List (Feature w × Nat)) : BitVec w :=
  axes.foldl
    (fun place a =>
      place + Pack.indexAt a.1.items a.1.packed lanes s * BitVec.ofNat w a.2)
    start

/-- The readers of the features, with their distances, after `g` groups. -/
def axesAfter (lanes g : Nat) (axes : List (Feature w × Nat)) : List (Axis w lanes) :=
  axes.map fun a => ⟨Pack.Reader.after a.1.items a.1.packed lanes g, BitVec.ofNat w a.2⟩

/-- Walking along the axes adds up the places of a group, and leaves every reader at the next. -/
theorem foldl_walk (g : Nat) (axes : List (Feature w × Nat)) (start : Lanes (BitVec w) lanes)
    (walked : List (Axis w lanes)) :
    (axesAfter lanes g axes).foldl Axis.walk (start, walked) =
      (Lanes.ofFn fun l => placeFrom lanes (g * lanes + l.val) (start.get l) axes,
        walked ++ axesAfter lanes (g + 1) axes) := by
  induction axes generalizing start walked with
  | nil =>
    refine Prod.ext (Lanes.ext fun l => ?_) ?_
    · simp [axesAfter, placeFrom]
    · simp [axesAfter]
  | cons a axes ih =>
    rw [axesAfter, List.map_cons, List.foldl_cons, ← axesAfter, Axis.walk,
      Pack.Reader.next_after, ih]
    refine Prod.ext (Lanes.ext fun l => ?_) ?_
    · simp [placeFrom]
    · simp [axesAfter]

namespace Interaction

/-- The place in the table that a sample selects. -/
def placeOf (r : Interaction F w) (distances : List Nat) (lanes s : Nat) : BitVec w :=
  placeFrom lanes s 0 (r.used.zip distances)

theorem place_after (r : Interaction F w) (distances : List Nat) (g : Nat) :
    place (axesAfter lanes g (r.used.zip distances)) =
      (Lanes.ofFn fun l => r.placeOf distances lanes (g * lanes + l.val),
        axesAfter lanes (g + 1) (r.used.zip distances)) := by
  rw [place, foldl_walk]
  exact Prod.ext (Lanes.ext fun l => by simp [placeOf]) rfl

/-- The readers of the features. One that cannot be read is as bad as several. -/
theorem mapM_make_eq (fs : List (Feature w)) :
    fs.mapM (fun f => (Pack.Reader.make f.items f.packed : Checked (Pack.Reader w lanes))) =
      if ∀ f ∈ fs, Pack.Readable f.items f.packed then
        .ok (fs.map fun f => Pack.Reader.after f.items f.packed lanes 0)
      else .error .tooManyItems := by
  induction fs with
  | nil => rfl
  | cons f fs ih =>
    rw [List.mapM_cons, Pack.Reader.make_eq_ite, ih]
    simp only [List.forall_mem_cons]
    by_cases first : Pack.Readable f.items f.packed
    · by_cases rest : ∀ f ∈ fs, Pack.Readable f.items f.packed
      · rw [if_pos first, if_pos rest, if_pos ⟨first, rest⟩]
        rfl
      · have some_crowded :
            ¬ (Pack.Readable f.items f.packed ∧ ∀ f ∈ fs, Pack.Readable f.items f.packed) :=
          fun both => rest both.2
        rw [if_pos first, if_neg rest, if_neg some_crowded]
        rfl
    · have some_crowded :
          ¬ (Pack.Readable f.items f.packed ∧ ∀ f ∈ fs, Pack.Readable f.items f.packed) :=
        fun both => first both.1
      rw [if_neg first, if_neg some_crowded]
      rfl

/-- The axes of a call. -/
theorem axes_eq_ite (r : Interaction F w) : r.axes lanes =
    if ∀ f ∈ r.used, Pack.Readable f.items f.packed then
      distances (r.used.map (·.bins)) >>= fun ds => .ok (axesAfter lanes 0 (r.used.zip ds))
    else .error .tooManyItems := by
  rw [axes, mapM_make_eq]
  split_ifs
  · refine bind_congr fun ds => congrArg Except.ok ?_
    simp [axesAfter, List.zip_map_left, Function.comp_def]
  · rfl

/-- The axes of a call whose features can all be read. -/
theorem axes_eq {r : Interaction F w} {ds : List Nat}
    (readable : ∀ f ∈ r.used, Pack.Readable f.items f.packed)
    (walked : distances (r.used.map (·.bins)) = .ok ds) :
    r.axes lanes = .ok (axesAfter lanes 0 (r.used.zip ds)) := by
  rw [axes_eq_ite, if_pos readable, walked]
  rfl

variable [Arithmetic F] (m : Machine F w lanes)

/-- Where every place finds its bin, the loop adds every sample, in order. -/
theorem loop_eq (r : Interaction F w) (ds : List Nat) (target : Target) (cells : Cells)
    (whole : lanes ∣ r.samples)
    (slots : target.slots = 2 + r.scores * Layout.perScore r.hessian)
    (found : ∀ s, s < r.samples → target.locate (r.placeOf ds lanes s).toNat =
      .ok ((r.placeOf ds lanes s).toNat * target.slots)) :
    r.loop m target (r.scores * Layout.perScore r.hessian * lanes)
        (axesAfter lanes 0 (r.used.zip ds)) cells =
      .ok (inSampleOrder m r.toRequest none (fun s => (r.placeOf ds lanes s).toNat) target.slots
        cells) := by
  let bin := fun s => (r.placeOf ds lanes s).toNat
  have walked := foldlM_groups m r.toRequest none bin target.slots cells whole
    (fun g => axesAfter lanes g (r.used.zip ds))
    (r.step m target (r.scores * Layout.perScore r.hessian * lanes)) fun g hg cells => by
      have inside : ∀ l : Fin lanes, target.locate
          ((Lanes.ofFn fun l : Fin lanes => r.placeOf ds lanes (g * lanes + l.val)).get l).toNat =
            .ok (bin (g * lanes + l.val) * target.slots) := by
        intro l
        rw [Lanes.get_ofFn]
        exact found _ (lane_lt_samples whole hg l)
      have added := step_eq m r.toRequest none target bin _ g slots inside cells
      simp only [Interaction.step, place_after, added]
      rfl
  rw [Interaction.loop]
  exact congrArg (fun x => x >>= fun s => pure s.2) walked

end Interaction

/-- The call for several features. -/
theorem interaction_eq [Arithmetic F] (m : Machine F w lanes) (span : Span) (r : Interaction F w)
    (ds : List Nat) (cells : Cells) (whole : lanes ∣ r.samples) (some_scores : 1 ≤ r.scores)
    (some_features : 1 ≤ r.dimensions) (few_features : r.dimensions ≤ maxFeatures)
    (readable : ∀ f ∈ r.used, Pack.Readable f.items f.packed)
    (walked : distances (r.used.map (·.bins)) = .ok ds) (target : Target)
    (target_eq : target = ⟨span, 2 + r.scores * Layout.perScore r.hessian, w / 8⟩)
    (slots : target.slots < sizeBound)
    (stride : r.scores * Layout.perScore r.hessian * lanes < sizeBound)
    (found : ∀ s, s < r.samples → target.locate (r.placeOf ds lanes s).toNat =
      .ok ((r.placeOf ds lanes s).toNat * target.slots)) :
    interaction m span r cells =
      .ok (.ok, inSampleOrder m r.toRequest none (fun s => (r.placeOf ds lanes s).toNat)
        target.slots cells) := by
  subst target_eq
  have accepted : ¬ (r.samples % lanes ≠ 0 ∨ r.scores = 0 ∨ r.dimensions = 0 ∨
      maxFeatures < r.dimensions) := by
    rw [Nat.mod_eq_zero_of_dvd whole]
    omega
  have looped := r.loop_eq m ds _ cells whole rfl found
  simp only [interaction, if_neg accepted, slots?, stride?, size_of_lt slots, size_of_lt stride,
    Interaction.axes_eq readable walked]
  exact congrArg (fun x => x >>= fun c => pure (Status.ok, c)) looped

/-- A call for several features whose samples all select bins of a buffer. -/
theorem interaction_over [Arithmetic F] {φ : Format} {m : Machine F φ.width lanes}
    (few_lanes : lanes ≤ φ.bytes * 2) {r : Interaction F φ.width} {ds : List Nat} {b : BinBuffer}
    (serves : Serves b φ r.toRequest) (allotted : b.Allotted) {start : BitVec 64}
    (room : start.toNat + b.span < 2 ^ 64) (guarded : Bool)
    (sized : b.bins = 0 → r.scores * Layout.perScore r.hessian * lanes < sizeBound)
    (whole : lanes ∣ r.samples) (some_features : 1 ≤ r.dimensions)
    (few_features : r.dimensions ≤ maxFeatures)
    (readable : ∀ f ∈ r.used, Pack.Readable f.items f.packed)
    (walked : distances (r.used.map (·.bins)) = .ok ds)
    (inside : ∀ s, s < r.samples → (r.placeOf ds lanes s).toNat < b.bins) :
    interaction m (Span.over b start guarded) r b.cells =
      .ok (.ok, inSampleOrder m r.toRequest none (fun s => (r.placeOf ds lanes s).toNat)
        b.shape.slots b.cells) := by
  have found : ∀ s, s < r.samples →
      (Target.over b start guarded).locate (r.placeOf ds lanes s).toNat =
        .ok ((r.placeOf ds lanes s).toNat * (Target.over b start guarded).slots) :=
    fun s hs => locate_over allotted room guarded (inside s hs)
  exact interaction_eq m (Span.over b start guarded) r ds b.cells whole serves.scores_pos
    some_features few_features readable walked (Target.over b start guarded)
    (serves.target_eq start guarded) allotted.slots_lt
    (serves.stride_lt few_lanes allotted sized) found

end LaneBoost.BinSums
