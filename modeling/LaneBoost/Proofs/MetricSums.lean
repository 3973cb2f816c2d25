import LaneBoost.Proofs.KernelCalls
import LaneBoost.Proofs.UpdateLoop

/-!
# The metric of an update

Every lane adds up the losses of its own samples, group by group, and the sum of the zone is widened.
The loss of a sample is that at its updated scores, which the call leaves in the buffer of scores, so
the metric can be read off that buffer: later groups do not touch the scores of earlier ones. How the
scores come about does not depend on what else the call computes.
-/
namespace LaneBoost

variable {F : Type} [Arithmetic F] {w lanes : Nat}

/-! ### The loss of a sample -/

namespace Objective

/-- The loss of a sample with these scores and this target. -/
def lossAt (m : Machine F w lanes) (score : Nat → F) (target : BitVec w) : Objective → F
  | squaredError => Pointwise.squaredError.termAt m (score 0) target
  | binary _ => Pointwise.logistic.termAt m (score 0) target
  | multiclass classes _ => Softmax.lossOf classes score target

theorem lossAt_of_pointwise {o : Objective} {p : Pointwise} (pointwise : o.pointwise? = some p)
    (m : Machine F w lanes) (score : Nat → F) (target : BitVec w) :
    o.lossAt m score target = p.termAt m (score 0) target := by
  cases o with
  | squaredError => cases pointwise; rfl
  | binary privacy => cases pointwise; rfl
  | multiclass classes privacy => cases pointwise

theorem lossAt_congr (m : Machine F w lanes) {o : Objective} {score score' : Nat → F}
    (h : ∀ k, k < o.scores ∨ k = 0 → score k = score' k) (target : BitVec w) :
    o.lossAt m score target = o.lossAt m score' target := by
  cases o with
  | squaredError => rw [lossAt, lossAt, h 0 (.inr rfl)]
  | binary privacy => rw [lossAt, lossAt, h 0 (.inr rfl)]
  | multiclass classes privacy => exact Softmax.lossOf_congr h target

end Objective

namespace Layout

/-- The scores of a sample stand before those of any later group. -/
theorem scoreSlot_before {scores g g' k : Nat} (earlier : g' < g) (hk : k < scores ∨ k = 0)
    (l : Fin lanes) :
    scoreSlot (g' * lanes + l.val) k scores lanes < g * (scores * lanes) ∨
      g * (scores * lanes) + scores * lanes ≤ scoreSlot (g' * lanes + l.val) k scores lanes := by
  rcases Nat.eq_zero_or_pos scores with rfl | some_scores
  · simp
  · have score : k < scores := by omega
    have vector : g' * scores + k < g * scores := @lane_lt scores g g' earlier ⟨k, score⟩
    rw [scoreSlot_lane, ← Nat.mul_assoc]
    exact .inl (lane_lt vector l)

end Layout

namespace Update

section Sample

variable (m : Machine F w lanes) (o : Objective) (r : Request F w)

/-- What a sample adds to the metric: its loss, times its weight where there are weights. -/
def weighted (s : Nat) (loss : F) : F :=
  match r.weights with
  | some weights => loss * weights.getD s 0
  | none => loss

/-- What a sample adds to the metric if this is the buffer of scores. -/
def lossIn (scores : Array F) (s : Nat) : F :=
  weighted r s
    (o.lossAt m (fun k => scores.getD (Layout.scoreSlot s k r.scores lanes) 0) (targetOf r s))

/-- The metric of lane `l` over the first `g` groups. -/
def laneMetric (scores : Array F) (g l : Nat) : F :=
  (List.range g).foldl (fun sum g => sum + lossIn m o r scores (g * lanes + l)) 0

theorem laneMetric_succ (scores : Array F) (g l : Nat) :
    laneMetric m o r scores (g + 1) l =
      laneMetric m o r scores g l + lossIn m o r scores (g * lanes + l) := by
  simp [laneMetric, List.range_succ]

theorem get_addTerm_weighted (g : Nat) (term metric : Lanes F lanes) (l : Fin lanes) :
    (addTerm r g term metric).get l =
      metric.get l + weighted r (g * lanes + l.val) (term.get l) := by
  cases weights : r.weights <;> simp [addTerm, weighted, weights]

variable {m o r}

/-- Buffers that differ only from a group on have the same metric before it. -/
theorem laneMetric_congr (scores_eq : r.scores = o.scores) {scores scores' : Array F} {g : Nat}
    (same : ∀ j, j < g * (r.scores * lanes) ∨ g * (r.scores * lanes) + r.scores * lanes ≤ j →
      scores[j]? = scores'[j]?) (l : Fin lanes) :
    laneMetric m o r scores g l = laneMetric m o r scores' g l := by
  refine foldl_range_congr _ _ g 0 fun g' sum earlier => ?_
  have loss : lossIn m o r scores (g' * lanes + l.val) =
      lossIn m o r scores' (g' * lanes + l.val) := by
    refine congrArg (weighted r _) (Objective.lossAt_congr m (fun k hk => ?_) _)
    have slot := Layout.scoreSlot_before earlier (scores_eq ▸ hk) l
    rw [Array.getD_eq_getD_getElem?, Array.getD_eq_getD_getElem?, same _ slot]
  rw [loss]

end Sample

/-! ### One group -/

section Step

variable {m : Machine F w lanes} {o : Objective} {r : Request F w} {wanted : Wanted}
  (s : State F w lanes) (g : Nat)

/-- The rows of a group change its vectors of scores only. -/
theorem addRows_frame (base : Lanes (BitVec w) lanes) (start : Nat) (scores : Array F) :
    (addRows m r base ⟨start, lanes⟩ scores).size = scores.size ∧
      ∀ j, j < start ∨ start + r.scores * lanes ≤ j →
        (addRows m r base ⟨start, lanes⟩ scores)[j]? = scores[j]? := by
  refine foldl_range_induct (fun _ (new : Array F) => new.size = scores.size ∧
    ∀ j, j < start ∨ start + r.scores * lanes ≤ j → new[j]? = scores[j]?) _ r.scores scores
    ⟨rfl, fun _ _ => rfl⟩ fun k new hk h => ?_
  have vectors := Nat.mul_le_mul_right lanes (Nat.succ_le_of_lt hk)
  rw [Nat.succ_mul] at vectors
  refine ⟨(Lanes.size_store _ _ _).trans h.1, fun j outside => ?_⟩
  rw [Block.store, Lanes.getElem?_store_of_outside _ _ _ _ (by dsimp only; omega)]
  exact h.2 j outside

/-- A group changes its own scores only. -/
theorem step_frame (scores_eq : r.scores = o.scores) :
    (step m r wanted o s g).scores.size = s.scores.size ∧
      ∀ j, j < g * (r.scores * lanes) ∨ g * (r.scores * lanes) + r.scores * lanes ≤ j →
        (step m r wanted o s g).scores[j]? = s.scores[j]? := by
  have single : r.scores = 1 → ∀ p : Pointwise,
      (stepSingle m r wanted p s g).scores.size = s.scores.size ∧
        ∀ j, j < g * (r.scores * lanes) ∨ g * (r.scores * lanes) + r.scores * lanes ≤ j →
          (stepSingle m r wanted p s g).scores[j]? = s.scores[j]? := by
    intro one p
    refine ⟨Lanes.size_store _ _ _, fun j outside => ?_⟩
    rw [one, Nat.one_mul] at outside
    exact Lanes.getElem?_store_of_outside _ _ _ _ outside
  cases o with
  | squaredError => exact single scores_eq .squaredError
  | binary privacy => exact single scores_eq .logistic
  | multiclass classes privacy =>
    have frame := addRows_frame (m := m) (r := r) (s.reader.next.1.scale (BitVec.ofNat w r.scores))
      (g * (r.scores * lanes)) s.scores
    simp only [step, stepSeveral]
    split <;> exact frame

/-- A group with one score adds the losses at its updated scores. -/
theorem stepSingle_metric {p : Pointwise} (pointwise : o.pointwise? = some p)
    (single : r.scores = 1) (room : (g + 1) * lanes ≤ s.scores.size)
    (some_metric : wanted.metric = true) (l : Fin lanes) :
    (stepSingle m r wanted p s g).metric.get l =
      s.metric.get l +
        lossIn m o r (stepSingle m r wanted p s g).scores (g * lanes + l.val) := by
  let score : Lanes F lanes := Lanes.load s.scores (g * lanes) + (entries m r s.reader).1
  have inside : g * lanes + l.val < s.scores.size :=
    Nat.lt_of_lt_of_le (lane_lt (Nat.lt_succ_self g) l) room
  have slot : Layout.scoreSlot (g * lanes + l.val) 0 1 lanes = g * lanes + l.val := by
    rw [Layout.scoreSlot_lane, Nat.mul_one, Nat.add_zero]
  have updated : (score.store s.scores (g * lanes)).getD (g * lanes + l.val) 0 = score.get l := by
    rw [Array.getD_eq_getD_getElem?, Lanes.getElem?_store _ _ _ _ inside, Option.getD_some]
  simp only [stepSingle, some_metric, if_true, get_addTerm_weighted, Pointwise.get_term, lossIn,
    Objective.lossAt_of_pointwise pointwise, single, slot, get_targets]
  rw [updated]

/-- A group with several scores adds the losses at its updated scores. -/
theorem stepSeveral_metric {privacy : Bool} (some_metric : wanted.metric = true) (l : Fin lanes) :
    (stepSeveral m r wanted s g).metric.get l =
      s.metric.get l +
        lossIn m (.multiclass r.scores privacy) r (stepSeveral m r wanted s g).scores
          (g * lanes + l.val) := by
  have slot : ∀ k, Layout.scoreSlot (g * lanes + l.val) k r.scores lanes =
      g * (r.scores * lanes) + k * lanes + l.val := by
    intro k
    rw [Layout.scoreSlot_lane, Nat.add_mul, Nat.mul_assoc]
  simp only [stepSeveral, some_metric, Bool.or_true, if_true, get_addTerm_weighted,
    Softmax.get_update_loss _ some_metric, lossIn, Objective.lossAt, slot, get_targets, Block.load,
    Lanes.get_load]

/-- A group adds the losses at its updated scores, whatever the objective. -/
theorem step_metric (scores_eq : r.scores = o.scores)
    (room : (g + 1) * (r.scores * lanes) ≤ s.scores.size) (some_metric : wanted.metric = true)
    (l : Fin lanes) :
    (step m r wanted o s g).metric.get l =
      s.metric.get l + lossIn m o r (step m r wanted o s g).scores (g * lanes + l.val) := by
  cases o with
  | squaredError =>
    have single : r.scores = 1 := scores_eq
    rw [single, Nat.one_mul] at room
    exact stepSingle_metric s g rfl single room some_metric l
  | binary privacy =>
    have single : r.scores = 1 := scores_eq
    rw [single, Nat.one_mul] at room
    exact stepSingle_metric s g rfl single room some_metric l
  | multiclass classes privacy =>
    obtain rfl : r.scores = classes := scores_eq
    exact stepSeveral_metric s g some_metric l

/-- The scores of a group, and what the reader goes on with, do not depend on what else is wanted. -/
theorem step_scores {s t : State F w lanes} (wanted' : Wanted) (reader : s.reader = t.reader)
    (scores : s.scores = t.scores) :
    (step m r wanted o s g).reader = (step m r wanted' o t g).reader ∧
      (step m r wanted o s g).scores = (step m r wanted' o t g).scores := by
  cases o with
  | squaredError => simp [step, stepSingle, reader, scores]
  | binary privacy => simp [step, stepSingle, reader, scores]
  | multiclass classes privacy =>
    have read : ∀ (wanted : Wanted) (s : State F w lanes),
        (stepSeveral m r wanted s g).reader = s.reader.next.2 ∧
          (stepSeveral m r wanted s g).scores =
            addRows m r (s.reader.next.1.scale (BitVec.ofNat w r.scores))
              ⟨g * (r.scores * lanes), lanes⟩ s.scores := by
      intro wanted s
      simp only [stepSeveral]
      split <;> exact ⟨rfl, rfl⟩
    simp only [step, read, reader, scores, and_self]

end Step

/-! ### All groups -/

section Loop

variable {m : Machine F w lanes} {o : Objective} {r : Request F w} {b : Buffers F} {wanted : Wanted}
  {reader : Pack.Reader w lanes}

/-- After `g` groups the lanes hold the metric of those groups at the scores of the buffer. -/
structure Metered (m : Machine F w lanes) (o : Objective) (r : Request F w) (size g : Nat)
    (s : State F w lanes) : Prop where
  size_eq : s.scores.size = size
  metric_eq : ∀ l : Fin lanes, s.metric.get l = laneMetric m o r s.scores g l

theorem step_metered (scores_eq : r.scores = o.scores) {size g : Nat}
    (room : (g + 1) * (r.scores * lanes) ≤ size) (some_metric : wanted.metric = true)
    {s : State F w lanes} (h : Metered m o r size g s) :
    Metered m o r size (g + 1) (step m r wanted o s g) := by
  obtain ⟨kept, outside⟩ := @step_frame F _ w lanes m o r wanted s g scores_eq
  refine ⟨kept.trans h.size_eq, fun l => ?_⟩
  -- The losses of earlier groups are read off slots that this group leaves alone.
  rw [step_metric s g scores_eq (h.size_eq ▸ room) some_metric, h.metric_eq, laneMetric_succ,
    laneMetric_congr scores_eq outside]

/-- The loop leaves the metric of all groups at the scores that it leaves. -/
theorem loop_metric (scores_eq : r.scores = o.scores) (whole : lanes ∣ r.samples)
    (room : r.samples * r.scores ≤ b.scores.size) (some_metric : wanted.metric = true) :
    (loop m r wanted o reader b).metric =
      m.widen (m.total (Lanes.ofFn fun l =>
        laneMetric m o r (loop m r wanted o reader b).scores (r.samples / lanes) l)) := by
  have metered := foldl_range_induct (Metered m o r b.scores.size) (step m r wanted o)
    (r.samples / lanes)
    ⟨reader, b.scores, b.gradients.getD #[], b.scratch.getD #[], 0⟩
    ⟨rfl, fun l => Lanes.get_zero l⟩ fun g s hg h => by
      refine step_metered scores_eq ?_ some_metric h
      calc (g + 1) * (r.scores * lanes)
          ≤ r.samples / lanes * (r.scores * lanes) := Nat.mul_le_mul_right _ hg
        _ = r.samples / lanes * r.scores * lanes := (Nat.mul_assoc _ _ _).symm
        _ = r.samples * r.scores := Layout.vectors_mul_lanes whole
        _ ≤ b.scores.size := room
  simp only [loop, some_metric, if_true]
  exact congrArg (fun v => m.widen (m.total v)) (Lanes.ext fun l => by
    rw [metered.metric_eq, Lanes.get_ofFn])

/-- The scores that the loop leaves do not depend on what else is wanted. -/
theorem loop_scores {b' : Buffers F} (scores : b.scores = b'.scores) (wanted' : Wanted) :
    (loop m r wanted o reader b).scores = (loop m r wanted' o reader b').scores := by
  have alike : ∀ n, ∀ s t : State F w lanes, s.reader = t.reader → s.scores = t.scores →
      ((List.range n).foldl (step m r wanted o) s).reader =
          ((List.range n).foldl (step m r wanted' o) t).reader ∧
        ((List.range n).foldl (step m r wanted o) s).scores =
          ((List.range n).foldl (step m r wanted' o) t).scores := by
    intro n s t readers scores
    induction n with
    | zero => exact ⟨readers, scores⟩
    | succ n ih =>
      simp only [List.range_succ, List.foldl_append, List.foldl_cons, List.foldl_nil]
      exact step_scores n wanted' ih.1 ih.2
  exact (alike _ ⟨reader, b.scores, _, _, _⟩ ⟨reader, b'.scores, _, _, _⟩ rfl scores).2

/-- An update answers `ok` if it is not turned down and has an effect. -/
theorem run_eq_ok_iff {b' : Buffers F} : run m r o b = .ok (.ok, b') ↔
    refusal? lanes o r b.gradients.isSome b.scratch.isSome = none ∧ effect m r o b = .ok b' := by
  rw [run_eq_unlessRefused]
  constructor
  · intro answered
    have accepted : refusal? lanes o r b.gradients.isSome b.scratch.isSome = none := by
      cases reason : refusal? lanes o r b.gradients.isSome b.scratch.isSome with
      | none => rfl
      | some status =>
        rw [reason] at answered
        cases answered
        simp only [refusal?] at reason
        split_ifs at reason <;> cases reason
    exact ⟨accepted, effect_eq_ok accepted answered⟩
  · rintro ⟨accepted, done⟩
    rw [accepted, done]
    rfl

end Loop

end Update

/-! ### The metric of a zone -/

namespace Zone

/-- The sum of one number for each lane, as the zone associates it. -/
def sumOf (z : Zone) (lane : Nat → z.Number) : z.Number :=
  match z with
  | cpu64 | accel32 => lane 0
  | sse2 => (lane 0 + lane 2) + (lane 1 + lane 3)
  | avx2 =>
    let folded := fun i => lane i + lane (i + 4)
    (folded 0 + folded 1) + (folded 2 + folded 3)

theorem total_ofFn (z : Zone) (lane : Nat → z.Number) :
    z.total (Lanes.ofFn fun l => lane l.val) = z.sumOf lane := by
  cases z <;> simp [total, sumOf]

end Zone

namespace Update

omit [Arithmetic F] in
theorem refusal?_eq_none_iff {o : Objective} {r : Request F w} {b : Buffers F} :
    refusal? lanes o r b.gradients.isSome b.scratch.isSome = none ↔
      r.scores = o.scores ∧ hasScratch o r b = true ∧ lanes ∣ r.samples := by
  simp only [refusal?, ← hasScratch_eq_false_iff]
  split_ifs with scores scratch whole <;> simp_all

/-- A call for some samples answers `ok` if it is not turned down and its words can be read, and
leaves what the loop leaves. -/
theorem run_samples_eq_ok_iff {m : Machine F w lanes} {o : Objective} {r : Request F w}
    {b b' : Buffers F} (some_samples : r.samples ≠ 0) :
    run m r o b = .ok (.ok, b') ↔
      (r.scores = o.scores ∧ hasScratch o r b = true ∧ lanes ∣ r.samples) ∧
        Pack.Readable r.items r.packed ∧
          b' = loop m r (Update.wanted o r b) o (Pack.Reader.after r.items r.packed lanes 0) b := by
  rw [run_eq_ok_iff, refusal?_eq_none_iff, effect, if_neg some_samples, Pack.Reader.make_eq_ite]
  refine and_congr_right fun _ => ?_
  by_cases readable : Pack.Readable r.items r.packed
  · rw [if_pos readable, and_iff_right readable]
    exact ⟨fun done => (Except.ok.inj done).symm, fun same => congrArg Except.ok same.symm⟩
  · rw [if_neg readable]
    exact iff_of_false (fun done => by cases done) fun h => readable h.1

/-- What the caller wants beside the scores is told to the loop apart from the request. -/
theorem loop_hessianNeeded (m : Machine F w lanes) (o : Objective) (r : Request F w)
    (hessianNeeded : Bool) (wanted : Wanted) (reader : Pack.Reader w lanes) (b : Buffers F) :
    loop m { r with hessianNeeded } wanted o reader b = loop m r wanted o reader b := rfl

/-- In every zone, an update of some samples that is not turned down and can read its words answers
`ok` and sets the metric: to zero if it is not wanted, and otherwise to the sum of the lanes, each of
which has added up the losses of its samples at their updated scores. What the caller does about
gradients and hessians, and what the metric was before, makes no difference to it. For several classes
the loss is the logarithm of the sum of the exponentials, plus the peak, less the score of the
target. -/
theorem zone_update_metric (z : Zone) (o : Objective) (r : Request z.Number z.width)
    (b : Buffers z.Number) (some_samples : r.samples ≠ 0)
    (room : r.samples * r.scores ≤ b.scores.size) :
    ((∃ b', run z.machine r o b = .ok (.ok, b')) ↔
      (r.scores = o.scores ∧ hasScratch o r b = true ∧ z.lanes ∣ r.samples) ∧
        Pack.Readable r.items r.packed) ∧
      (∀ b', run z.machine r o b = .ok (.ok, b') →
        b'.metric =
            (if r.calcMetric then
              Binary.convert .double
                (z.sumOf fun l => laneMetric z.machine o r b'.scores (r.samples / z.lanes) l)
            else 0) ∧
          ∀ (hessianNeeded : Bool) (other : Buffers z.Number), other.scores = b.scores →
            hasScratch o r other = true →
              ∃ b'', run z.machine { r with hessianNeeded } o other = .ok (.ok, b'') ∧
                b''.metric = b'.metric) ∧
      ∀ classes privacy, o = .multiclass classes privacy → classes ≤ 2 ^ z.width →
        ∀ (score : Nat → z.Number) (target : BitVec z.width), target.toNat < classes →
          o.lossAt z.machine score target =
            (Arithmetic.ln (Softmax.totalUpTo classes score classes) + Softmax.peakOf classes score) -
              score target.toNat := by
  refine ⟨?_, ?_, ?_⟩
  · simp only [run_samples_eq_ok_iff some_samples]
    exact ⟨fun ⟨_, accepted, readable, _⟩ => ⟨accepted, readable⟩,
      fun ⟨accepted, readable⟩ => ⟨_, accepted, readable, rfl⟩⟩
  · intro b' answered
    obtain ⟨⟨scores_eq, -, whole⟩, readable, rfl⟩ := (run_samples_eq_ok_iff some_samples).1 answered
    let reader : Pack.Reader z.width z.lanes := Pack.Reader.after r.items r.packed z.lanes 0
    have metric : ∀ (wanted : Wanted) (b : Buffers z.Number),
        r.samples * r.scores ≤ b.scores.size → wanted.metric = r.calcMetric →
          (loop z.machine r wanted o reader b).metric =
            if r.calcMetric then
              Binary.convert .double (z.sumOf fun l =>
                laneMetric z.machine o r (loop z.machine r wanted o reader b).scores
                  (r.samples / z.lanes) l)
            else 0 := by
      intro wanted b room calculated
      cases summed : r.calcMetric with
      | false => simp [loop, calculated, summed]
      | true =>
        rw [loop_metric scores_eq whole room (calculated.trans summed), if_pos rfl, ← z.total_ofFn]
        rfl
    refine ⟨metric _ b room rfl, fun hessianNeeded other same scratch => ?_⟩
    let request : Request z.Number z.width := { r with hessianNeeded }
    have answered' : run z.machine request o other =
        .ok (.ok, loop z.machine request (Update.wanted o request other) o reader other) :=
      (run_samples_eq_ok_iff (r := request) some_samples).2
        ⟨⟨scores_eq, scratch, whole⟩, readable, rfl⟩
    refine ⟨_, answered', ?_⟩
    -- The metric is read off the scores, and those do not depend on what else is wanted.
    rw [loop_hessianNeeded, metric _ other (same ▸ room) rfl, metric _ b room rfl,
      loop_scores same (Update.wanted o r b)]
  · rintro classes privacy rfl named score target inside
    rw [Objective.lossAt, Softmax.lossOf, Softmax.namedScore_of_class score named inside]

/-- Eight samples of three classes, weighted, whose metric is wanted. -/
def eightWeighted : Request Zone.sse2.Number Zone.sse2.width where
  scores := 3
  samples := 8
  calcMetric := true
  tensor := #[1, 0, 1]
  targets := #[0, 1, 2, 1, 0, 0, 2, 2]
  weights := some #[1, 1, 0, 1, 1, 0, 1, 1]

def eightScores : Buffers Zone.sse2.Number where
  scores := Array.replicate 24 0
  scratch := some (Array.replicate 12 1)
  metric := 1

theorem metric_of_eight_weighted :
    ∃ b', run Zone.sse2.machine eightWeighted (.multiclass 3 false) eightScores = .ok (.ok, b') ∧
      b'.metric = Binary.convert .double (Zone.sse2.sumOf fun l =>
        laneMetric Zone.sse2.machine (.multiclass 3 false) eightWeighted b'.scores 2 l) ∧
      ∃ b'', run Zone.sse2.machine { eightWeighted with hessianNeeded := true } (.multiclass 3 false)
          { eightScores with gradients := some (Array.replicate 48 1), metric := 0 } =
            .ok (.ok, b'') ∧ b''.metric = b'.metric := by
  obtain ⟨answers, metric, -⟩ :=
    zone_update_metric .sse2 (.multiclass 3 false) eightWeighted eightScores (by decide) (by decide)
  obtain ⟨b', answered⟩ := answers.2 ⟨by decide, .inl rfl⟩
  have summed := metric b' answered
  have calculated : eightWeighted.calcMetric = true := rfl
  have groups : eightWeighted.samples / Zone.sse2.lanes = 2 := rfl
  rw [calculated, if_pos rfl, groups] at summed
  exact ⟨b', answered, summed.1, summed.2 true _ rfl rfl⟩

end Update

end LaneBoost
