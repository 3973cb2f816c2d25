import LaneBoost.Proofs.BinPlaces
import LaneBoost.Proofs.CellChanges
import LaneBoost.Proofs.PackedReading

/-!
# Sums in sample order

The loop adds the counts and weights of a whole lane group before it adds the first score of it. What
it leaves behind is nevertheless what one sample after the other leaves behind, each of them added to
its bin as a whole. A bin that several lanes select receives them in the order of the lanes.
-/
namespace LaneBoost.BinSums

open Cells (Change Apart changesOf)

variable {F : Type} [Arithmetic F] {w lanes : Nat} (m : Machine F w lanes)

/-! ### One sample after the other -/

/-- What one sample adds to its bin. -/
structure Share (F : Type) (w : Nat) where
  count : BitVec w
  weight : F
  gradient : Nat → F
  hessian : Nat → Option F

/-- A word is added to a cell, modulo the width. -/
def wordAdded (slot : Nat) (x : BitVec w) : Change w := ⟨slot, fun held => held + x⟩

/-- A number is added to a cell. -/
def numberAdded (slot : Nat) (x : F) : Change w :=
  ⟨slot, fun held => m.toCell (m.ofCell held + x)⟩

namespace Share

/-- Count and weight, in the first two cells of the bin. -/
def head (share : Share F w) (first : Nat) : List (Change w) :=
  [wordAdded first share.count, numberAdded m (first + 1) share.weight]

/-- Gradient and hessian of a score, in the cells of that score. -/
def score (share : Share F w) (first each k : Nat) : List (Change w) :=
  numberAdded m (first + 2 + k * each) (share.gradient k) ::
    ((share.hessian k).map (numberAdded m (first + 2 + k * each + 1))).toList

/-- All that the sample adds to the bin whose first cell is `first`. -/
def changes (share : Share F w) (first scores each : Nat) : List (Change w) :=
  share.head m first ++ (List.range scores).flatMap (share.score m first each)

end Share

/-- How often a sample occurs: once, unless that is told. -/
def countOf (counts : Option (Array (BitVec 8))) (s : Nat) : BitVec w :=
  match counts with
  | some cs => (cs.getD s 0).setWidth w
  | none => BitVec.ofNat w 1

/-- The weight of a sample: its own; else, where samples are counted, its count; else one. -/
def weightOf (r : Request F) (counts : Option (Array (BitVec 8))) (s : Nat) : F :=
  match r.weights, counts with
  | some ws, _ => ws.getD s 0
  | none, some _ => m.narrow (Binary.ofNat (countOf counts s : BitVec w).toNat)
  | none, none => 1

/-- A number of a sample, times the weight of the sample where it has one. -/
def timesWeight (r : Request F) (s : Nat) (x : F) : F :=
  match r.weights with
  | some ws => x * ws.getD s 0
  | none => x

/-- What sample `s` of a call adds. Its gradients and hessians are where the layout has them. -/
def shareOf (r : Request F) (counts : Option (Array (BitVec 8))) (s : Nat) : Share F w where
  count := countOf counts s
  weight := weightOf m r counts s
  gradient k :=
    timesWeight r s (r.gradients.getD (Layout.gradientSlot s k r.scores r.hessian lanes) 0)
  hessian k :=
    if r.hessian then
      some (timesWeight r s (r.gradients.getD (Layout.hessianSlot s k r.scores lanes) 0))
    else none

/-- Adds sample `s` to the bin that it selects. -/
def addTo (r : Request F) (counts : Option (Array (BitVec 8))) (bin : Nat → Nat) (slots : Nat)
    (cells : Cells) (s : Nat) : Cells :=
  cells.changes
    ((shareOf m r counts s).changes m (bin s * slots) r.scores (Layout.perScore r.hessian))

/-- Visits the samples in their order and adds each to the bin that it selects. -/
def inSampleOrder (r : Request F) (counts : Option (Array (BitVec 8))) (bin : Nat → Nat)
    (slots : Nat) (cells : Cells) : Cells :=
  (List.range r.samples).foldl (addTo m r counts bin slots) cells

/-! ### Which cells a sample changes -/

theorem perScore_eq (hessian : Bool) :
    Layout.perScore hessian = 1 + if hessian then 1 else 0 := by
  cases hessian <;> rfl

theorem slot_of_mem_head {share : Share F w} {first : Nat} {u : Change w}
    (hu : u ∈ share.head m first) : ∃ j, j < 2 ∧ u.slot = first + j := by
  rcases List.mem_cons.1 hu with rfl | hu
  · exact ⟨0, by omega, rfl⟩
  · rw [List.mem_singleton.1 hu]
    exact ⟨1, by omega, rfl⟩

theorem slot_of_mem_score {r : Request F} {counts : Option (Array (BitVec 8))} {s first k : Nat}
    {u : Change w} (hu : u ∈ (shareOf m r counts s).score m first (Layout.perScore r.hessian) k) :
    ∃ j, j < Layout.perScore r.hessian ∧
      u.slot = first + 2 + k * Layout.perScore r.hessian + j := by
  rcases List.mem_cons.1 hu with rfl | hu
  · exact ⟨0, by rw [perScore_eq]; omega, rfl⟩
  · cases hessian : r.hessian with
    | false => simp [shareOf, hessian] at hu
    | true =>
      simp only [shareOf, hessian, if_true, Option.map_some, Option.toList_some,
        List.mem_singleton] at hu
      subst hu
      exact ⟨1, by decide, rfl⟩

/-- The cells of a score lie behind the first two and before those of later scores. -/
theorem score_slot_lt {k k' j each : Nat} (hj : j < each) (hk : k < k') :
    k * each + j < k' * each := by
  have := Nat.mul_le_mul_right each (Nat.succ_le_of_lt hk)
  rw [Nat.succ_mul] at this
  omega

/-- A sample changes cells of its bin only. -/
theorem slot_of_mem_changes {r : Request F} {counts : Option (Array (BitVec 8))} {s first : Nat}
    {u : Change w}
    (hu : u ∈ (shareOf m r counts s).changes m first r.scores (Layout.perScore r.hessian)) :
    ∃ j, j < 2 + r.scores * Layout.perScore r.hessian ∧ u.slot = first + j := by
  rcases List.mem_append.1 hu with hu | hu
  · obtain ⟨j, hj, e⟩ := slot_of_mem_head m hu
    exact ⟨j, by omega, e⟩
  · obtain ⟨k, hk, hu⟩ := List.mem_flatMap.1 hu
    obtain ⟨j, hj, e⟩ := slot_of_mem_score m hu
    have := score_slot_lt hj (List.mem_range.1 hk)
    exact ⟨2 + (k * Layout.perScore r.hessian + j), by omega, by omega⟩

/-- Cells at different places of two bins are different. -/
theorem bin_slot_ne {slots i i' j j' : Nat} (hj : j < slots) (hj' : j' < slots) (h : j ≠ j') :
    i * slots + j ≠ i' * slots + j' := by
  intro e
  have mods := congrArg (· % slots) e
  simp only [Nat.mul_comm _ slots, Nat.mul_add_mod, Nat.mod_eq_of_lt hj, Nat.mod_eq_of_lt hj'] at mods
  exact h mods

/-! ### A lane group -/

section Group

variable (r : Request F) (counts : Option (Array (BitVec 8))) (group : Nat)

/-- Gradients of a group, as the layout has them. -/
theorem get_weighted_gradient (k : Nat) (l : Fin lanes) :
    (weighted (r.weights.map fun ws => (Lanes.load ws (group * lanes) : Lanes F lanes))
        (Lanes.load r.gradients (group * (r.scores * Layout.perScore r.hessian * lanes) +
          k * Layout.perScore r.hessian * lanes))).get l =
      (shareOf m r counts (group * lanes + l.val)).gradient k := by
  have slot : group * (r.scores * Layout.perScore r.hessian * lanes) +
      k * Layout.perScore r.hessian * lanes + l.val =
      Layout.gradientSlot (group * lanes + l.val) k r.scores r.hessian lanes := by
    rw [Layout.gradientSlot, lane_div, lane_mod]
    ring
  cases weights : r.weights <;> simp [weighted, shareOf, timesWeight, weights, slot]

/-- Hessians of a group, one vector behind the gradients. -/
theorem get_weighted_hessian (hessian : r.hessian = true) (k : Nat) (l : Fin lanes) :
    some ((weighted (r.weights.map fun ws => (Lanes.load ws (group * lanes) : Lanes F lanes))
        (Lanes.load r.gradients (group * (r.scores * Layout.perScore r.hessian * lanes) +
          k * Layout.perScore r.hessian * lanes + lanes))).get l) =
      (shareOf m r counts (group * lanes + l.val)).hessian k := by
  have slot : group * (r.scores * 2 * lanes) + k * 2 * lanes + lanes + l.val =
      Layout.hessianSlot (group * lanes + l.val) k r.scores lanes := by
    rw [Layout.hessianSlot, Layout.gradientSlot, lane_div, lane_mod, Layout.perScore_true]
    ring
  cases weights : r.weights <;>
    simp [weighted, shareOf, timesWeight, weights, hessian, slot]

variable (bin : Nat → Nat) (slots : Nat) (firsts : Lanes Nat lanes)
  (found : ∀ l, firsts.get l = bin (group * lanes + l.val) * slots)

/-- Counts and weights of a group are added first. -/
def headsOf (l : Fin lanes) : List (Change w) :=
  (shareOf m r counts (group * lanes + l.val)).head m (bin (group * lanes + l.val) * slots)

/-- Then one score after the other. -/
def scoresOf (k : Nat) (l : Fin lanes) : List (Change w) :=
  (shareOf m r counts (group * lanes + l.val)).score m (bin (group * lanes + l.val) * slots)
    (Layout.perScore r.hessian) k

/-- Counts and weights have other cells than scores, whichever bins the samples select. -/
theorem headsOf_apart (each : slots = 2 + r.scores * Layout.perScore r.hessian) {k : Nat}
    (hk : k < r.scores) (i j : Fin lanes) :
    Apart (headsOf m r counts group bin slots i) (scoresOf m r counts group bin slots k j) := by
  intro u hu v hv
  obtain ⟨a, ha, eu⟩ := slot_of_mem_head m hu
  obtain ⟨b, hb, ev⟩ := slot_of_mem_score m hv
  have inside := score_slot_lt hb hk
  rw [eu, ev, Nat.add_assoc, Nat.add_assoc]
  exact bin_slot_ne (by omega) (by omega) (by omega)

/-- And every score has its own. -/
theorem scoresOf_apart (each : slots = 2 + r.scores * Layout.perScore r.hessian) {k k' : Nat}
    (hk : k < r.scores) (hk' : k' < k) (i j : Fin lanes) :
    Apart (scoresOf m r counts group bin slots k' i)
      (scoresOf m r counts group bin slots k j) := by
  intro u hu v hv
  obtain ⟨a, ha, eu⟩ := slot_of_mem_score m hu
  obtain ⟨b, hb, ev⟩ := slot_of_mem_score m hv
  have before := score_slot_lt ha hk'
  have inside := score_slot_lt hb hk
  rw [eu, ev, Nat.add_assoc, Nat.add_assoc, Nat.add_assoc, Nat.add_assoc]
  exact bin_slot_ne (by omega) (by omega) (by omega)

include found

theorem addSamples_eq (cells : Cells) :
    Fin.foldl lanes
        (fun cells l =>
          addSample m cells (firsts.get l)
            ((r.weights.map fun ws => (Lanes.load ws (group * lanes) : Lanes F lanes)).map
              fun x => x.get l)
            ((counts.map fun cs => (Lanes.loadBytes cs (group * lanes) :
              Lanes (BitVec w) lanes)).map fun c => c.get l))
        cells =
      changesOf (headsOf m r counts group bin slots) (List.finRange lanes) cells := by
  rw [Fin.foldl_eq_finRange_foldl]
  refine List.foldl_ext _ _ _ fun cells l _ => ?_
  rw [found]
  have share : countOf counts (group * lanes + l.val) =
      ((counts.map fun cs => (Lanes.loadBytes cs (group * lanes) :
        Lanes (BitVec w) lanes)).map fun c => c.get l).getD (BitVec.ofNat w 1) := by
    cases counts <;> simp [countOf, Lanes.loadBytes]
  have weight : weightOf m r counts (group * lanes + l.val) =
      sampleWeight m
        ((r.weights.map fun ws => (Lanes.load ws (group * lanes) : Lanes F lanes)).map
          fun x => x.get l)
        ((counts.map fun cs => (Lanes.loadBytes cs (group * lanes) :
          Lanes (BitVec w) lanes)).map fun c => c.get l) := by
    cases weights : r.weights <;> cases counts <;>
      simp [weightOf, sampleWeight, countOf, Lanes.loadBytes, weights]
  rw [addSample, ← share, ← weight]
  rfl

theorem addScores_eq (k : Nat) (cells : Cells) :
    addScores m r (group * (r.scores * Layout.perScore r.hessian * lanes)) firsts
        (r.weights.map fun ws => Lanes.load ws (group * lanes)) cells k =
      changesOf (scoresOf m r counts group bin slots k) (List.finRange lanes) cells := by
  rw [addScores, Fin.foldl_eq_finRange_foldl]
  refine List.foldl_ext _ _ _ fun cells l _ => ?_
  rw [found, get_weighted_gradient m r counts]
  cases hessian : r.hessian with
  | false => simp [addScore, scoresOf, Share.score, shareOf, hessian, Cells.changes_cons]; rfl
  | true =>
    have second := get_weighted_hessian m r counts group hessian k l
    rw [hessian] at second
    simp only [addScore, scoresOf, Share.score, hessian, if_true, Option.map_some, ← second]
    rfl

/-- A lane group leaves what its samples leave one after the other. -/
theorem addGroup_eq (each : slots = 2 + r.scores * Layout.perScore r.hessian) (cells : Cells) :
    addGroup m r (group * (r.scores * Layout.perScore r.hessian * lanes)) firsts
        (r.weights.map fun ws => Lanes.load ws (group * lanes))
        (counts.map fun cs => Lanes.loadBytes cs (group * lanes)) cells =
      Fin.foldl lanes
        (fun cells l => addTo m r counts bin slots cells (group * lanes + l.val)) cells := by
  calc addGroup m r (group * (r.scores * Layout.perScore r.hessian * lanes)) firsts
        (r.weights.map fun ws => Lanes.load ws (group * lanes))
        (counts.map fun cs => Lanes.loadBytes cs (group * lanes)) cells
      = (List.range r.scores).foldl
          (fun cells k => changesOf (scoresOf m r counts group bin slots k) (List.finRange lanes)
            cells)
          (changesOf (headsOf m r counts group bin slots) (List.finRange lanes) cells) := by
        rw [addGroup, addSamples_eq m r counts group bin slots firsts found]
        exact List.foldl_ext _ _ _ fun cells k _ =>
          addScores_eq m r counts group bin slots firsts found k cells
    _ = changesOf
          (fun l => headsOf m r counts group bin slots l ++
            (List.range r.scores).flatMap fun k => scoresOf m r counts group bin slots k l)
          (List.finRange lanes) cells :=
        Cells.foldl_changesOf m.width_dvd _ _ r.scores
          (fun _ hk i j => headsOf_apart m r counts group bin slots each hk i j)
          (fun _ hk _ hk' i j => scoresOf_apart m r counts group bin slots each hk hk' i j) _ cells
    _ = Fin.foldl lanes
          (fun cells l => addTo m r counts bin slots cells (group * lanes + l.val)) cells := by
        rw [Fin.foldl_eq_finRange_foldl]
        rfl

end Group

/-! ### All groups -/

/-- A group whose indexes all select a bin is added sample by sample. -/
theorem step_eq (r : Request F) (counts : Option (Array (BitVec 8))) (target : Target)
    (bin : Nat → Nat) (indexes : Lanes (BitVec w) lanes) (group : Nat)
    (slots : target.slots = 2 + r.scores * Layout.perScore r.hessian)
    (found : ∀ l, target.locate (indexes.get l).toNat =
      .ok (bin (group * lanes + l.val) * target.slots)) (cells : Cells) :
    step m r counts target (r.scores * Layout.perScore r.hessian * lanes) indexes group cells =
      .ok (Fin.foldl lanes
        (fun cells l => addTo m r counts bin target.slots cells (group * lanes + l.val)) cells) := by
  let firsts : Lanes Nat lanes := Lanes.ofFn fun l => bin (group * lanes + l.val) * target.slots
  have located : indexes.traverse (fun i => target.locate i.toNat) = .ok firsts :=
    (Lanes.traverse_eq_ok _ _ _).2 fun l => by rw [found, Lanes.get_ofFn]
  rw [step, located]
  exact congrArg Except.ok
    (addGroup_eq m r counts group bin target.slots firsts (fun l => Lanes.get_ofFn _ l) slots cells)

/-- The cells that a walk has after `g` groups. -/
def afterGroups (r : Request F) (counts : Option (Array (BitVec 8))) (bin : Nat → Nat)
    (slots : Nat) (cells : Cells) (g : Nat) : Cells :=
  (List.range g).foldl
    (fun cells g => Fin.foldl lanes
      (fun cells l => addTo m r counts bin slots cells (g * lanes + l.val)) cells)
    cells

theorem afterGroups_succ (r : Request F) (counts : Option (Array (BitVec 8))) (bin : Nat → Nat)
    (slots : Nat) (cells : Cells) (g : Nat) :
    afterGroups m r counts bin slots cells (g + 1) =
      Fin.foldl lanes
        (fun cells l => addTo m r counts bin slots cells (g * lanes + l.val))
        (afterGroups m r counts bin slots cells g) := by
  rw [afterGroups, List.range_succ, List.foldl_append]
  rfl

/-- After all groups every sample has been added, in order. -/
theorem afterGroups_all (r : Request F) (counts : Option (Array (BitVec 8))) (bin : Nat → Nat)
    (slots : Nat) (cells : Cells) (whole : lanes ∣ r.samples) :
    afterGroups m r counts bin slots cells (r.samples / lanes) =
      inSampleOrder m r counts bin slots cells := by
  rw [afterGroups, foldl_range_groups (addTo m r counts bin slots), Nat.div_mul_cancel whole,
    inSampleOrder]

/-- A loop whose steps read on and add a group each has added every sample at its end. -/
theorem foldlM_groups {σ : Type} (r : Request F) (counts : Option (Array (BitVec 8)))
    (bin : Nat → Nat) (slots : Nat) (cells : Cells) (whole : lanes ∣ r.samples)
    (reading : Nat → σ) (next : σ × Cells → Nat → Checked (σ × Cells))
    (steps : ∀ g, g < r.samples / lanes → ∀ cells, next (reading g, cells) g =
      .ok (reading (g + 1), Fin.foldl lanes
        (fun cells l => addTo m r counts bin slots cells (g * lanes + l.val)) cells)) :
    (List.range (r.samples / lanes)).foldlM next (reading 0, cells) =
      .ok (reading (r.samples / lanes), inSampleOrder m r counts bin slots cells) := by
  rw [← afterGroups_all m r counts bin slots cells whole]
  refine foldlM_range_eq_ok next
    (fun g => (reading g, afterGroups m r counts bin slots cells g)) _ fun g hg => ?_
  rw [afterGroups_succ]
  exact steps g hg _

/-- A cell of a bin that no sample selects keeps what it holds. -/
theorem peek_inSampleOrder (r : Request F) (counts : Option (Array (BitVec 8))) (bin : Nat → Nat)
    {slots : Nat} (size : slots = 2 + r.scores * Layout.perScore r.hessian) (cells : Cells)
    (slot : Nat) (free : ∀ s, s < r.samples → bin s ≠ slot / slots) :
    (inSampleOrder m r counts bin slots cells).peek w slot = cells.peek w slot := by
  refine foldl_range_induct
    (fun _ (walked : Cells) => walked.peek w slot = cells.peek w slot)
    (addTo m r counts bin slots) r.samples cells rfl fun s walked hs kept => ?_
  have apart : ∀ u ∈ (shareOf m r counts s).changes m (bin s * slots) r.scores
      (Layout.perScore r.hessian), u.slot ≠ slot := by
    intro u hu e
    obtain ⟨j, hj, here⟩ := slot_of_mem_changes m hu
    have whole : slot / slots = bin s := by
      rw [← e, here, Nat.mul_comm, Nat.mul_add_div (by omega), Nat.div_eq_of_lt (by omega),
        Nat.add_zero]
    exact free s hs whole.symm
  rw [addTo, Cells.peek_changes_of_ne m.width_dvd _ _ _ apart, kept]

/-! ### One feature -/

/-- The bin that a sample selects: its packed index. -/
def Boosting.binOf (r : Boosting F w) (lanes s : Nat) : Nat :=
  (Pack.indexAt r.items r.packed lanes s).toNat

/-- Where every index finds its bin, the loop adds every sample, in order. -/
theorem Boosting.loop_eq (r : Boosting F w) (target : Target) (cells : Cells)
    (whole : lanes ∣ r.samples)
    (slots : target.slots = 2 + r.scores * Layout.perScore r.hessian)
    (found : ∀ s, s < r.samples →
      target.locate (r.binOf lanes s) = .ok (r.binOf lanes s * target.slots)) :
    r.loop m target (r.scores * Layout.perScore r.hessian * lanes)
        (Pack.Reader.after r.items r.packed lanes 0) cells =
      .ok (inSampleOrder m r.toRequest r.counts (r.binOf lanes) target.slots cells) := by
  have walked := foldlM_groups m r.toRequest r.counts (r.binOf lanes) target.slots cells whole
    (Pack.Reader.after r.items r.packed lanes)
    (r.step m target (r.scores * Layout.perScore r.hessian * lanes)) fun g hg cells => by
      have inside : ∀ l : Fin lanes, target.locate
          ((Pack.Reader.indexesOf r.items r.packed lanes g).get l).toNat =
            .ok (r.binOf lanes (g * lanes + l.val) * target.slots) := by
        intro l
        rw [Pack.Reader.get_indexesOf]
        exact found _ (lane_lt_samples whole hg l)
      have added := step_eq m r.toRequest r.counts target (r.binOf lanes) _ g slots inside cells
      simp only [Boosting.step, Pack.Reader.next_after, added]
      rfl
  rw [Boosting.loop]
  exact congrArg (fun x => x >>= fun s => pure s.2) walked

/-- The call for one feature. -/
theorem boosting_eq (span : Span) (r : Boosting F w) (cells : Cells) (whole : lanes ∣ r.samples)
    (some_scores : 1 ≤ r.scores) (readable : Pack.Readable r.items r.packed) (target : Target)
    (target_eq : target = ⟨span, 2 + r.scores * Layout.perScore r.hessian, w / 8⟩)
    (slots : target.slots < sizeBound)
    (stride : r.scores * Layout.perScore r.hessian * lanes < sizeBound)
    (found : ∀ s, s < r.samples →
      target.locate (r.binOf lanes s) = .ok (r.binOf lanes s * target.slots)) :
    boosting m span r cells =
      .ok (.ok, inSampleOrder m r.toRequest r.counts (r.binOf lanes) target.slots cells) := by
  subst target_eq
  have accepted : ¬ (r.samples % lanes ≠ 0 ∨ r.scores = 0) := by
    rw [Nat.mod_eq_zero_of_dvd whole]
    omega
  have looped := r.loop_eq m _ cells whole rfl found
  simp only [boosting, if_neg accepted, slots?, stride?, size_of_lt slots, size_of_lt stride,
    Pack.Reader.make_eq_ite, if_pos readable]
  exact congrArg (fun x => x >>= fun c => pure (Status.ok, c)) looped

/-! ### A buffer of bins -/

/-- A call for one feature whose samples all select bins of a buffer. -/
theorem boosting_over {φ : Format} {m : Machine F φ.width lanes} (few_lanes : lanes ≤ φ.bytes * 2)
    {r : Boosting F φ.width} {b : BinBuffer} (serves : Serves b φ r.toRequest)
    (allotted : b.Allotted) {start : BitVec 64} (room : start.toNat + b.span < 2 ^ 64)
    (guarded : Bool)
    (sized : b.bins = 0 → r.scores * Layout.perScore r.hessian * lanes < sizeBound)
    (whole : lanes ∣ r.samples) (readable : Pack.Readable r.items r.packed)
    (inside : ∀ s, s < r.samples → r.binOf lanes s < b.bins) :
    boosting m (Span.over b start guarded) r b.cells =
      .ok (.ok, inSampleOrder m r.toRequest r.counts (r.binOf lanes) b.shape.slots b.cells) := by
  have found : ∀ s, s < r.samples → (Target.over b start guarded).locate (r.binOf lanes s) =
      .ok (r.binOf lanes s * (Target.over b start guarded).slots) :=
    fun s hs => locate_over allotted room guarded (inside s hs)
  exact boosting_eq m (Span.over b start guarded) r b.cells whole serves.scores_pos readable
    (Target.over b start guarded) (serves.target_eq start guarded) allotted.slots_lt
    (serves.stride_lt few_lanes allotted sized) found

theorem few_lanes (z : Zone) : z.lanes ≤ z.format.bytes * 2 := by cases z <;> decide

/-- In every zone, a call whose samples all select bins of the buffer answers `ok`. It leaves, bit for
bit, the buffer that one gets by adding one sample after the other, and a bin that no sample selects
keeps what it holds. Only a buffer without bins does not bound the gradients of a group. -/
theorem zone_sums_in_sample_order (z : Zone) (r : Boosting z.Number z.width) (b : BinBuffer)
    (start : BitVec 64) (guarded : Bool) (serves : Serves b z.format r.toRequest)
    (allotted : b.Allotted) (room : start.toNat + b.span < 2 ^ 64)
    (sized : b.bins = 0 → r.scores * Layout.perScore r.hessian * z.lanes < sizeBound)
    (whole : z.lanes ∣ r.samples) (items : r.items ≤ z.width)
    (inside : ∀ s, s < r.samples → r.binOf z.lanes s < b.bins) :
    boosting z.machine (Span.over b start guarded) r b.cells =
        .ok (.ok, inSampleOrder z.machine r.toRequest r.counts (r.binOf z.lanes) b.shape.slots
          b.cells) ∧
      ∀ slot, (∀ s, s < r.samples → r.binOf z.lanes s ≠ slot / b.shape.slots) →
        (inSampleOrder z.machine r.toRequest r.counts (r.binOf z.lanes) b.shape.slots
          b.cells).peek z.width slot = b.cells.peek z.width slot := by
  constructor
  · exact boosting_over (few_lanes z) serves allotted room guarded sized whole (.inr items) inside
  · exact peek_inSampleOrder z.machine r.toRequest r.counts _ serves.slots_eq b.cells

/-- Four weighted and counted samples, the middle two of which select the second bin. -/
def fourSamples : Boosting Zone.sse2.Number Zone.sse2.width where
  samples := 4
  hessian := true
  gradients := #[1, 1, 0, 1, 0, 1, 1, 1]
  weights := some #[1, 0, 1, 1]
  items := 32
  packed := some #[0, 1, 1, 0]
  counts := some #[1, 2, 3, 255]

/-- Two new bins for them. -/
def twoBins : BinBuffer where
  shape := ⟨1, true, false, by decide⟩
  bins := 2
  cells := Cells.ofBytes 32

theorem four_samples_in_sample_order :
    boosting Zone.sse2.machine (Span.over twoBins 4096 true) fourSamples twoBins.cells =
        .ok (.ok, inSampleOrder Zone.sse2.machine fourSamples.toRequest fourSamples.counts
          (fourSamples.binOf 4) 4 twoBins.cells) ∧
      ∀ slot, (∀ s, s < 4 → fourSamples.binOf 4 s ≠ slot / 4) →
        (inSampleOrder Zone.sse2.machine fourSamples.toRequest fourSamples.counts
          (fourSamples.binOf 4) 4 twoBins.cells).peek 32 slot = twoBins.cells.peek 32 slot :=
  zone_sums_in_sample_order .sse2 fourSamples twoBins 4096 true ⟨rfl, rfl, rfl⟩
    (@BinBuffer.make?_allotted twoBins.shape 2 twoBins (by decide)) (by decide)
    (by decide) ⟨1, rfl⟩ (by decide) (by decide)

end LaneBoost.BinSums
