import LaneBoost.Proofs.PackedReading
import LaneBoost.Proofs.SoftmaxLanes
import LaneBoost.Update

/-!
# The loop of an update

What an update computes for one sample depends on the sample's scores, its row of the tensor and its
target. `Reached` says what the loop has done after some lane groups: their vectors are new, all others
are as the caller passed them. Each step keeps it, whichever flags select the step.
-/
namespace LaneBoost

variable {F : Type} [Arithmetic F] {w lanes : Nat}

/-! ### One sample -/

namespace Objective

/-- The gradient of a score of a sample with these scores and this target. -/
def gradientAt (m : Machine F w lanes) (score : Nat → F) (target : BitVec w) (k : Nat) :
    Objective → F
  | squaredError => Pointwise.squaredError.gradientAt m (score 0) target
  | binary _ => Pointwise.logistic.gradientAt m (score 0) target
  | multiclass classes _ => Softmax.gradientOf classes score target k

/-- The hessian of a score of a sample with these scores. -/
def hessianAt (score : Nat → F) (k : Nat) : Objective → F
  | squaredError => Pointwise.squaredError.hessianAt (score 0)
  | binary _ => Pointwise.logistic.hessianAt (score 0)
  | multiclass classes _ => Softmax.hessianOf classes score k

/-- What the sample adds to the metric, before it is weighted. -/
def termAt (m : Machine F w lanes) (score : Nat → F) (target : BitVec w) : Objective → F
  | squaredError => Pointwise.squaredError.termAt m (score 0) target
  | binary _ => Pointwise.logistic.termAt m (score 0) target
  | multiclass classes _ => Softmax.termOf classes score target

/-- The loss of an objective with one score. -/
def pointwise? : Objective → Option Pointwise
  | squaredError => some .squaredError
  | binary _ => some .logistic
  | multiclass _ _ => none

section Pointwise

variable {o : Objective} {p : Pointwise} (pointwise : o.pointwise? = some p)

include pointwise

theorem scores_of_pointwise : o.scores = 1 := by
  cases o with
  | squaredError => rfl
  | binary privacy => rfl
  | multiclass classes privacy => cases pointwise

theorem gradientAt_of_pointwise (m : Machine F w lanes) (score : Nat → F) (target : BitVec w)
    (k : Nat) : o.gradientAt m score target k = p.gradientAt m (score 0) target := by
  cases o with
  | squaredError => cases pointwise; rfl
  | binary privacy => cases pointwise; rfl
  | multiclass classes privacy => cases pointwise

theorem hessianAt_of_pointwise (score : Nat → F) (k : Nat) :
    o.hessianAt score k = p.hessianAt (score 0) := by
  cases o with
  | squaredError => cases pointwise; rfl
  | binary privacy => cases pointwise; rfl
  | multiclass classes privacy => cases pointwise

theorem termAt_of_pointwise (m : Machine F w lanes) (score : Nat → F) (target : BitVec w) :
    o.termAt m score target = p.termAt m (score 0) target := by
  cases o with
  | squaredError => cases pointwise; rfl
  | binary privacy => cases pointwise; rfl
  | multiclass classes privacy => cases pointwise

end Pointwise

/-- Only the scores of the sample count. -/
theorem gradientAt_congr (m : Machine F w lanes) {o : Objective} {score score' : Nat → F}
    (h : ∀ k, k < o.scores → score k = score' k) (target : BitVec w) {k : Nat} (hk : k < o.scores) :
    o.gradientAt m score target k = o.gradientAt m score' target k := by
  cases o with
  | squaredError => rw [gradientAt, gradientAt, h 0 Nat.one_pos]
  | binary privacy => rw [gradientAt, gradientAt, h 0 Nat.one_pos]
  | multiclass classes privacy => exact Softmax.gradientOf_congr h target hk

theorem hessianAt_congr {o : Objective} {score score' : Nat → F}
    (h : ∀ k, k < o.scores → score k = score' k) {k : Nat} (hk : k < o.scores) :
    o.hessianAt score k = o.hessianAt score' k := by
  cases o with
  | squaredError => rw [hessianAt, hessianAt, h 0 Nat.one_pos]
  | binary privacy => rw [hessianAt, hessianAt, h 0 Nat.one_pos]
  | multiclass classes privacy => exact Softmax.hessianOf_congr h hk

end Objective

namespace Update

section Sample

variable (m : Machine F w lanes) (o : Objective) (r : Request F w) (b : Buffers F)

/-- The row of the tensor that a sample selects. -/
def rowOf (lanes s : Nat) : Nat := (Pack.indexAt r.items r.packed lanes s).toNat

/-- The entry of the tensor that is added to a score of a sample. -/
def entryOf (lanes s k : Nat) : F := r.tensor.getD (rowOf r lanes s * r.scores + k) 0

/-- A score of a sample after the update. -/
def scoreAfter (lanes s k : Nat) : F :=
  b.scores.getD (Layout.scoreSlot s k r.scores lanes) 0 + entryOf r lanes s k

/-- The target of a sample. -/
def targetOf (s : Nat) : BitVec w := r.targets.getD s 0

/-- The gradient at the new scores. -/
def gradientAfter (s k : Nat) : F := o.gradientAt m (scoreAfter r b lanes s) (targetOf r s) k

/-- The hessian at the new scores. -/
def hessianAfter (lanes s k : Nat) : F := o.hessianAt (scoreAfter r b lanes s) k

/-- What a sample adds to the metric, times its weight where it has one. -/
def termAfter (s : Nat) : F :=
  match r.weights with
  | some weights => o.termAt m (scoreAfter r b lanes s) (targetOf r s) * weights.getD s 0
  | none => o.termAt m (scoreAfter r b lanes s) (targetOf r s)

/-- The metric of lane `l` over the first `g` groups. -/
def metricUpTo (g l : Nat) : F :=
  (List.range g).foldl (fun sum g => sum + termAfter m o r b (g * lanes + l)) 0

theorem metricUpTo_succ (g l : Nat) :
    metricUpTo m o r b (g + 1) l =
      metricUpTo m o r b g l + termAfter m o r b (g * lanes + l) := by
  simp [metricUpTo, List.range_succ]

/-- The new scores, as vectors. -/
def scoreVector (lanes : Nat) : Nat → Nat → F :=
  Layout.scoreVector r.scores lanes (scoreAfter r b lanes)

/-- The new gradients and hessians, as vectors. -/
def gradientVector (hessians : Bool) : Nat → Nat → F :=
  Layout.gradientVector r.scores hessians lanes (gradientAfter m o r b) (hessianAfter o r b lanes)

end Sample

/-! ### What a call needs -/

/-- A call that reads the tensor where signed and unsigned indexes agree, and whose buffers hold the
samples' scores. An objective with several scores needs a scratch vector for each of them. -/
structure Fits (m : Machine F w lanes) (o : Objective) (r : Request F w) (b : Buffers F) : Prop where
  scores_eq : r.scores = o.scores
  scores_pos : 0 < r.scores
  whole : lanes ∣ r.samples
  items_le : r.items ≤ w
  wide : 31 ≤ w
  place_eq : ∀ x : BitVec w, x.toNat < 2 ^ 31 → m.place x = x.toNat
  entry_lt : ∀ s, s < r.samples → ∀ k, k < r.scores → rowOf r lanes s * r.scores + k < 2 ^ 31
  room : r.samples * r.scores ≤ b.scores.size
  scratch_room : ∀ classes privacy, o = .multiclass classes privacy →
    (b.gradients.isSome || r.calcMetric) = true →
      b.scratch.isSome = true ∧ classes * lanes ≤ (b.scratch.getD #[]).size

/-! ### Reading the tensor -/

/-- The entries of a group are gathered at its indexes, also where the first entry is all that is
read. -/
theorem entries_eq_gather {m : Machine F w lanes} (first : m.place 0 = 0) (r : Request F w)
    (items : Int) (packed : Option (Array (BitVec w))) (g : Nat) :
    entries m r (Pack.Reader.after items packed lanes g) =
      (m.gather r.tensor (Pack.Reader.indexesOf items packed lanes g),
        Pack.Reader.after items packed lanes (g + 1)) := by
  have next := @Pack.Reader.next_after w lanes items packed g
  cases reader : Pack.Reader.after items packed lanes g with
  | none =>
    rw [reader] at next
    obtain ⟨indexes, rest⟩ := Prod.ext_iff.1 next
    refine Prod.ext (Lanes.ext fun l => ?_) rest
    have zeros : (0 : Lanes (BitVec w) lanes) = Pack.Reader.indexesOf items packed lanes g := indexes
    have entry : Lanes.elementAt r.tensor (m.place 0) = r.tensor.getD 0 0 := by
      rw [first]
      rfl
    simp only [← zeros, Machine.gather, Lanes.get_gather, Lanes.get_map, Lanes.get_zero, entry]
    exact Lanes.get_splat _ l
  | some c =>
    rw [reader] at next
    obtain ⟨indexes, rest⟩ := Prod.ext_iff.1 next
    exact Prod.ext (congrArg (m.gather r.tensor) indexes) rest

section Entries

variable {m : Machine F w lanes} {o : Objective} {r : Request F w} {b : Buffers F}
  (fits : Fits m o r b) {g : Nat} (hg : g < r.samples / lanes)

include fits hg

/-- An index below the bound finds its entry. -/
theorem elementAt_place (x : BitVec w) {l : Fin lanes} {k : Nat} (hk : k < r.scores)
    (hx : x.toNat = rowOf r lanes (g * lanes + l.val) * r.scores + k) :
    Lanes.elementAt r.tensor (m.place x) = entryOf r lanes (g * lanes + l.val) k := by
  have bound := fits.entry_lt _ (lane_lt_samples fits.whole hg l) k hk
  rw [fits.place_eq x (hx ▸ bound), entryOf, ← hx, Lanes.elementAt, if_neg (by omega),
    Int.toNat_natCast]

/-- The entries of a group are those of its samples, also without indexes. -/
theorem entries_after (single : r.scores = 1) :
    entries m r (Pack.Reader.after r.items r.packed lanes g) =
      (Lanes.ofFn fun l => entryOf r lanes (g * lanes + l.val) 0,
        Pack.Reader.after r.items r.packed lanes (g + 1)) := by
  have first : m.place 0 = 0 := fits.place_eq 0 (by simp)
  rw [entries_eq_gather first]
  refine Prod.ext (Lanes.ext fun l => ?_) rfl
  rw [Machine.gather, Lanes.get_gather, Lanes.get_map, Pack.Reader.get_indexesOf, Lanes.get_ofFn]
  refine elementAt_place fits hg _ (by omega) ?_
  rw [single, rowOf, Nat.mul_one, Nat.add_zero]

end Entries

/-! ### What the loop has done -/

section Vectors

variable (m : Machine F w lanes) (o : Objective) (r : Request F w) (b : Buffers F) (g : Nat) {k : Nat}
  (hk : k < r.scores) (l : Fin lanes)

include hk

theorem scoreVector_lane :
    scoreVector r b lanes (g * r.scores + k) l = scoreAfter r b lanes (g * lanes + l.val) k :=
  Layout.scoreVector_group _ g hk l

theorem gradientVector_gradient (hessians : Bool) :
    gradientVector m o r b hessians ((g * r.scores + k) * Layout.perScore hessians) l =
      o.gradientAt m (scoreAfter r b lanes (g * lanes + l.val)) (targetOf r (g * lanes + l.val)) k :=
  Layout.gradientVector_gradient _ _ hessians g hk l

theorem gradientVector_hessian {hessians : Bool} (some_hessians : hessians = true) :
    gradientVector m o r b hessians ((g * r.scores + k) * Layout.perScore hessians + 1) l =
      o.hessianAt (scoreAfter r b lanes (g * lanes + l.val)) k := by
  subst some_hessians
  exact Layout.gradientVector_hessian _ _ g hk l

/-- A new score is the old one, which stands where the next vector of scores begins, and its entry. -/
theorem get_load_score :
    (Lanes.load (refill lanes b.scores (g * r.scores + k) (scoreVector r b lanes))
        ((g * r.scores + k) * lanes) : Lanes F lanes).get l +
      entryOf r lanes (g * lanes + l.val) k =
        scoreVector r b lanes (g * r.scores + k) l := by
  rw [load_refill_next, Lanes.get_load, scoreVector_lane r b g hk, scoreAfter,
    Layout.scoreSlot_lane]

end Vectors

/-- After `g` groups the vectors of those groups are new. -/
structure Reached (m : Machine F w lanes) (o : Objective) (r : Request F w) (b : Buffers F)
    (wanted : Wanted) (g : Nat) (s : State F w lanes) : Prop where
  reader_eq : s.reader = Pack.Reader.after r.items r.packed lanes g
  scores_eq : s.scores = refill lanes b.scores (g * r.scores) (scoreVector r b lanes)
  gradients_eq : s.gradients =
    if wanted.gradients then
      refill lanes (b.gradients.getD #[]) (g * r.scores * Layout.perScore wanted.hessians)
        (gradientVector m o r b wanted.hessians)
    else b.gradients.getD #[]
  scratch_size : s.scratch.size = (b.scratch.getD #[]).size
  metric_eq : ∀ l : Fin lanes,
    s.metric.get l = if wanted.metric then metricUpTo m o r b g l else 0

section Step

variable {m : Machine F w lanes} {o : Objective} {r : Request F w} {b : Buffers F}
  {wanted : Wanted} {g : Nat} {s : State F w lanes}

/-- Adding a group's terms goes on with the metric of each lane. -/
theorem get_addTerm {term : Lanes F lanes} {metric : Lanes F lanes}
    (term_eq : ∀ l : Fin lanes, term.get l =
      o.termAt m (scoreAfter r b lanes (g * lanes + l.val)) (targetOf r (g * lanes + l.val)))
    (metric_eq : ∀ l : Fin lanes, metric.get l = metricUpTo m o r b g l) (l : Fin lanes) :
    (addTerm r g term metric).get l = metricUpTo m o r b (g + 1) l := by
  rw [metricUpTo_succ, termAfter]
  cases weights : r.weights with
  | none => simp [addTerm, weights, term_eq, metric_eq]
  | some ws => simp [addTerm, weights, term_eq, metric_eq]

omit [Arithmetic F] in
theorem get_targets (l : Fin lanes) :
    (targets r g : Lanes (BitVec w) lanes).get l = targetOf r (g * lanes + l.val) :=
  Lanes.get_load _ _ l

/-- A step that writes gradients leaves those of its group behind. -/
theorem stepSeveral_gradients (m : Machine F w lanes) (hessians metric : Bool) :
    (stepSeveral m r ⟨true, hessians, metric⟩ s g).gradients =
      (Softmax.updateGroup r.scores hessians metric
        (stepSeveral m r ⟨true, hessians, metric⟩ s g).scores ⟨g * (r.scores * lanes), lanes⟩
        (targets r g : Lanes (BitVec w) lanes) s.gradients s.scratch g).gradients :=
  rfl

variable (fits : Fits m o r b)

include fits

/-- The new score vector of a group. -/
theorem load_add_entries (h : Reached m o r b wanted g s) (single : r.scores = 1) (l : Fin lanes) :
    (Lanes.load s.scores (g * lanes) +
        Lanes.ofFn fun l => entryOf r lanes (g * lanes + l.val) 0 : Lanes F lanes).get l =
      scoreVector r b lanes g l := by
  have read := get_load_score r b g fits.scores_pos l
  rw [single, Nat.mul_one, Nat.add_zero] at read
  rw [Lanes.get_add, Lanes.get_ofFn, h.scores_eq, single, Nat.mul_one]
  exact read

/-- The gradients of a group go behind those of the groups before it. -/
theorem store_single (h : Reached m o r b wanted g s) (single : r.scores = 1) {p : Pointwise}
    (pointwise : o.pointwise? = some p) {score : Lanes F lanes}
    (score_eq : ∀ l : Fin lanes, score.get l = scoreAfter r b lanes (g * lanes + l.val) 0)
    (some_gradients : wanted.gradients = true) :
    (if wanted.hessians then
        (p.hessian score).store
          ((p.gradient m score (targets r g)).store s.gradients (g * (2 * lanes)))
          (g * (2 * lanes) + lanes)
      else (p.gradient m score (targets r g)).store s.gradients (g * lanes)) =
      refill lanes (b.gradients.getD #[]) ((g + 1) * r.scores * Layout.perScore wanted.hessians)
        (gradientVector m o r b wanted.hessians) := by
  have first : 0 < r.scores := fits.scores_pos
  have only_vector : g * r.scores + 0 = g := by rw [single, Nat.mul_one, Nat.add_zero]
  have gradients := h.gradients_eq
  rw [some_gradients, if_pos rfl, single, Nat.mul_one] at gradients
  have gradient : ∀ l : Fin lanes, (p.gradient m score (targets r g)).get l =
      gradientVector m o r b wanted.hessians (g * Layout.perScore wanted.hessians) l := by
    intro l
    have here := gradientVector_gradient m o r b g first l wanted.hessians
    rw [only_vector, Objective.gradientAt_of_pointwise pointwise] at here
    rw [here, Pointwise.get_gradient, score_eq, get_targets]
  have hessian : wanted.hessians = true → ∀ l : Fin lanes, (p.hessian score).get l =
      gradientVector m o r b wanted.hessians (g * Layout.perScore wanted.hessians + 1) l := by
    intro some_hessians l
    have here := gradientVector_hessian m o r b g first l some_hessians
    rw [only_vector, Objective.hessianAt_of_pointwise pointwise] at here
    rw [here, Pointwise.get_hessian, score_eq]
  rw [single, Nat.mul_one, gradients,
    ← Layout.store_gradients_refill _ _ wanted.hessians g _ _ gradient hessian]
  cases wanted.hessians with
  | false => simp
  | true => simp [Nat.mul_assoc]

variable (hg : g < r.samples / lanes)

include hg

/-- One group of an objective with one score. -/
theorem stepSingle_reached (h : Reached m o r b wanted g s) {p : Pointwise}
    (pointwise : o.pointwise? = some p) :
    Reached m o r b wanted (g + 1) (stepSingle m r wanted p s g) := by
  have single : r.scores = 1 := fits.scores_eq.trans (Objective.scores_of_pointwise pointwise)
  have new := load_add_entries fits h single
  have score_eq : ∀ l : Fin lanes,
      (Lanes.load s.scores (g * lanes) +
        Lanes.ofFn fun l => entryOf r lanes (g * lanes + l.val) 0 : Lanes F lanes).get l =
        scoreAfter r b lanes (g * lanes + l.val) 0 := by
    intro l
    have here := scoreVector_lane r b g fits.scores_pos l
    rw [single, Nat.mul_one, Nat.add_zero] at here
    exact (new l).trans here
  simp only [stepSingle, h.reader_eq, entries_after fits hg single]
  constructor
  · rfl
  · have stored := store_refill b.scores g _ _ new
    have before := h.scores_eq
    rw [single, Nat.mul_one] at before ⊢
    rw [← stored, before]
  · cases some_gradients : wanted.gradients with
    | false => simpa [some_gradients] using h.gradients_eq
    | true =>
      have stored := store_single fits h single pointwise score_eq some_gradients
      simpa only [if_true] using stored
  · exact h.scratch_size
  · intro l
    have metric := h.metric_eq
    cases wanted_metric : wanted.metric with
    | false => simpa [wanted_metric] using metric l
    | true =>
      simp only [wanted_metric, if_true] at metric ⊢
      refine get_addTerm (fun l => ?_) metric l
      rw [Pointwise.get_term, score_eq, get_targets, Objective.termAt_of_pointwise pointwise]

omit [Arithmetic F] in
/-- The word of a row and a score does not wrap around. -/
theorem toNat_row {k : Nat} (hk : k < r.scores) (l : Fin lanes) :
    (Pack.indexAt r.items r.packed lanes (g * lanes + l.val) * BitVec.ofNat w r.scores +
        BitVec.ofNat w k).toNat =
      rowOf r lanes (g * lanes + l.val) * r.scores + k := by
  have bound := fits.entry_lt _ (lane_lt_samples fits.whole hg l) k hk
  have words := Nat.pow_le_pow_right (show 0 < 2 by decide) fits.wide
  have fitting := Nat.lt_of_lt_of_le bound words
  rw [rowOf] at fitting ⊢
  rw [BitVec.toNat_add, BitVec.toNat_mul, BitVec.toNat_ofNat, BitVec.toNat_ofNat, Nat.mul_mod_mod,
    Nat.mod_add_mod, Nat.add_mod_mod, Nat.mod_eq_of_lt fitting]

/-- The rows of a group bring its vectors of scores. -/
theorem addRows_refill :
    addRows m r
        ((Pack.Reader.indexesOf r.items r.packed lanes g).scale (BitVec.ofNat w r.scores))
        ⟨g * (r.scores * lanes), lanes⟩
        (refill lanes b.scores (g * r.scores) (scoreVector r b lanes)) =
      refill lanes b.scores ((g + 1) * r.scores) (scoreVector r b lanes) := by
  rw [Nat.succ_mul]
  refine foldl_range_induct
    (fun k (scores : Array F) =>
      scores = refill lanes b.scores (g * r.scores + k) (scoreVector r b lanes))
    _ r.scores _ rfl fun k scores hk h => ?_
  subst h
  have start : g * (r.scores * lanes) + k * lanes = (g * r.scores + k) * lanes := by
    rw [Nat.add_mul, Nat.mul_assoc]
  simp only [Block.store, Block.load, start]
  refine store_refill b.scores _ _ _ fun l => ?_
  have entry := elementAt_place fits hg _ hk (toNat_row fits hg hk l)
  simp only [Lanes.get_add, Machine.gather, Lanes.get_gather, Lanes.get_map, Lanes.get_scale,
    Lanes.get_splat, Pack.Reader.get_indexesOf, entry]
  exact get_load_score r b g hk l

/-- The new scores of a group are read back from the buffer. -/
theorem get_load_new {k : Nat} (hk : k < r.scores) (l : Fin lanes) :
    ((⟨g * (r.scores * lanes), lanes⟩ : Block).load
        (refill lanes b.scores ((g + 1) * r.scores) (scoreVector r b lanes)) k :
          Lanes F lanes).get l =
      scoreAfter r b lanes (g * lanes + l.val) k := by
  have start : g * (r.scores * lanes) + k * lanes = (g * r.scores + k) * lanes := by
    rw [Nat.add_mul, Nat.mul_assoc]
  have vector : g * r.scores + k < (g + 1) * r.scores := by
    rw [Nat.succ_mul]
    omega
  have inside := Layout.scoreSlot_lt fits.whole (lane_lt_samples fits.whole hg l) hk
  rw [Layout.scoreSlot_lane] at inside
  rw [Block.load, start, get_load_refill b.scores _ _ vector l (Nat.lt_of_lt_of_le inside fits.room),
    scoreVector_lane r b g hk]

omit [Arithmetic F] in
/-- Words can name every class. -/
theorem scores_le_words : r.scores ≤ 2 ^ w := by
  have last : r.scores - 1 < r.scores := Nat.sub_lt fits.scores_pos (by decide)
  have bound := fits.entry_lt _ (lane_lt_samples fits.whole hg ⟨0, m.lanes_pos⟩) _ last
  have words := Nat.pow_le_pow_right (show 0 < 2 by decide) fits.wide
  omega

/-- The softmax of a group goes on with the gradients, keeps the scratch block, and has the terms of
the samples. -/
theorem update_group {privacy : Bool} (several : o = .multiclass r.scores privacy)
    (room : r.scores * lanes ≤ s.scratch.size) (h : Reached m o r b wanted g s)
    {result : Softmax.Result F lanes}
    (result_eq : result =
      Softmax.update r.scores wanted
        (refill lanes b.scores ((g + 1) * r.scores) (scoreVector r b lanes))
        ⟨g * (r.scores * lanes), lanes⟩ (targets r g) s.gradients
        ⟨g * (r.scores * (Layout.perScore wanted.hessians * lanes)),
          Layout.perScore wanted.hessians * lanes⟩
        ⟨g * (r.scores * (Layout.perScore wanted.hessians * lanes)) + lanes,
          Layout.perScore wanted.hessians * lanes⟩
        s.scratch ⟨0, lanes⟩) :
    (wanted.gradients = true → result.gradients =
        refill lanes (b.gradients.getD #[]) ((g + 1) * r.scores * Layout.perScore wanted.hessians)
          (gradientVector m o r b wanted.hessians)) ∧
      result.scratch.size = s.scratch.size ∧
      (wanted.metric = true → ∀ l : Fin lanes, result.term.get l =
        o.termAt m (scoreAfter r b lanes (g * lanes + l.val)) (targetOf r (g * lanes + l.val))) := by
  subst several result_eq
  let scoreOf : Nat → Nat → F := fun l => scoreAfter r b lanes (g * lanes + l)
  let targetsOf : Nat → BitVec w := fun l => targetOf r (g * lanes + l)
  let block : Block := ⟨g * (r.scores * lanes), lanes⟩
  have loaded : ∀ k, k < r.scores → ∀ l : Fin lanes,
      (block.load (refill lanes b.scores ((g + 1) * r.scores) (scoreVector r b lanes)) k :
        Lanes F lanes).get l = scoreOf l k :=
    fun k hk l => get_load_new fits hg hk l
  have named := scores_le_words fits hg
  have target_eq : ∀ l : Fin lanes, (targets r g : Lanes (BitVec w) lanes).get l = targetsOf l :=
    fun l => get_targets l
  refine ⟨fun some_gradients => ?_, ?_, fun some_metric l => ?_⟩
  · have written : Softmax.Written r.scores wanted.hessians scoreOf targetsOf lanes g
        (gradientVector m (.multiclass r.scores privacy) r b wanted.hessians) :=
      ⟨fun k hk l => (gradientVector_gradient m _ r b g hk l wanted.hessians).trans
          (Softmax.namedGradientOf_eq_gradientOf named (scoreOf l) (targetsOf l) hk).symm,
        fun some_hessians k hk l => gradientVector_hessian m _ r b g hk l some_hessians⟩
    have gradients := h.gradients_eq
    rw [some_gradients, if_pos rfl] at gradients
    rw [gradients]
    exact Softmax.update_gradients target_eq wanted _ block s.scratch loaded room g _
      some_gradients written
  · exact Softmax.size_update_scratch wanted _ block s.scratch s.gradients _ _ loaded
  · exact Softmax.get_update_term target_eq wanted _ block s.scratch s.gradients _ _ loaded named
      fits.scores_pos some_metric l

/-- One group of an objective with several scores. -/
theorem stepSeveral_reached {privacy : Bool} (several : o = .multiclass r.scores privacy)
    (room : (wanted.gradients || wanted.metric) = true →
      r.scores * lanes ≤ (b.scratch.getD #[]).size)
    (h : Reached m o r b wanted g s) :
    Reached m o r b wanted (g + 1) (stepSeveral m r wanted s g) := by
  have rows := addRows_refill fits hg
  rw [← h.scores_eq] at rows
  simp only [stepSeveral, h.reader_eq, Pack.Reader.next_after, rows]
  cases computed : wanted.gradients || wanted.metric with
  | false =>
    obtain ⟨no_gradients, no_metric⟩ := Bool.or_eq_false_iff.1 computed
    constructor
    · rfl
    · rfl
    · simpa [no_gradients] using h.gradients_eq
    · exact h.scratch_size
    · simpa [no_metric] using h.metric_eq
  | true =>
    rw [if_pos rfl]
    obtain ⟨gradients, scratch, term⟩ :=
      update_group fits hg several (h.scratch_size ▸ room computed) h rfl
    constructor
    · rfl
    · rfl
    · cases some_gradients : wanted.gradients with
      | false => simpa [Softmax.update, some_gradients] using h.gradients_eq
      | true => exact gradients some_gradients
    · exact scratch.trans h.scratch_size
    · intro l
      have metric := h.metric_eq
      cases some_metric : wanted.metric with
      | false => simpa [some_metric] using metric l
      | true =>
        simp only [some_metric, if_true] at metric
        exact get_addTerm (term some_metric) metric l

/-- One group, whatever the objective. -/
theorem step_reached
    (room : ∀ classes privacy, o = .multiclass classes privacy →
      (wanted.gradients || wanted.metric) = true → classes * lanes ≤ (b.scratch.getD #[]).size)
    (h : Reached m o r b wanted g s) :
    Reached m o r b wanted (g + 1) (step m r wanted o s g) := by
  have scores := fits.scores_eq
  cases o with
  | squaredError => exact stepSingle_reached fits hg h rfl
  | binary privacy => exact stepSingle_reached fits hg h rfl
  | multiclass classes privacy =>
    obtain rfl : r.scores = classes := scores
    exact stepSeveral_reached fits hg rfl (room r.scores privacy rfl) h

end Step

/-! ### The whole run -/

section Run

variable (m : Machine F w lanes) (o : Objective) (r : Request F w) (b : Buffers F)

/-- The scores that a call leaves. -/
def newScores (lanes : Nat) : Array F :=
  refill lanes b.scores (r.samples / lanes * r.scores) (scoreVector r b lanes)

/-- What a call leaves in a gradient buffer. -/
def newGradients (gradients : Array F) : Array F :=
  let hessians := r.hessianNeeded && o.hasHessian
  refill lanes gradients (r.samples / lanes * r.scores * Layout.perScore hessians)
    (gradientVector m o r b hessians)

/-- The metric that a call leaves. -/
def newMetric : Binary64 :=
  if r.calcMetric ∧ r.samples ≠ 0 then
    m.widen (m.total (Lanes.ofFn fun l => metricUpTo m o r b (r.samples / lanes) l))
  else 0

variable {m o r b} (fits : Fits m o r b)

include fits

theorem loop_reached :
    Reached m o r b (Update.wanted o r b) (r.samples / lanes)
      ((List.range (r.samples / lanes)).foldl (step m r (Update.wanted o r b) o)
        ⟨Pack.Reader.after r.items r.packed lanes 0, b.scores, b.gradients.getD #[],
          b.scratch.getD #[], 0⟩) := by
  refine foldl_range_induct (Reached m o r b (Update.wanted o r b)) _ _ _ ?_ fun g s hg h =>
    step_reached fits hg (fun classes privacy several computed =>
      (fits.scratch_room classes privacy several computed).2) h
  constructor
  · rfl
  · simp
  · simp
  · rfl
  · intro l
    simp [metricUpTo]

/-- What the loop leaves of the buffers of some samples. -/
theorem loop_eq (some_samples : r.samples ≠ 0) :
    ∃ scratch, loop m r (Update.wanted o r b) o (Pack.Reader.after r.items r.packed lanes 0) b =
      { scores := newScores r b lanes
        gradients := b.gradients.map (newGradients m o r b)
        scratch
        metric := newMetric m o r b } := by
  have reached := loop_reached fits
  refine ⟨_, Buffers.mk.injEq .. |>.mpr ⟨reached.scores_eq, ?_, rfl, ?_⟩⟩
  · have written := reached.gradients_eq
    cases gradients : b.gradients with
    | none => rfl
    | some a =>
      have some_gradients : (Update.wanted o r b).gradients = true := by
        simp [Update.wanted, gradients]
      have hessians : (Update.wanted o r b).hessians = (r.hessianNeeded && o.hasHessian) := by
        simp [Update.wanted, gradients]
      rw [some_gradients, if_pos rfl, hessians, gradients] at written
      exact congrArg some written
  · have metric := reached.metric_eq
    cases some_metric : r.calcMetric with
    | false => simp [newMetric, Update.wanted, some_metric]
    | true =>
      simp only [Update.wanted, some_metric, if_true] at metric
      simp only [newMetric, Update.wanted, some_metric, if_true, some_samples, ne_eq,
        not_false_eq_true, and_self]
      exact congrArg (fun v => m.widen (m.total v)) (Lanes.ext fun l => by
        rw [metric, Lanes.get_ofFn])

omit [Arithmetic F] in
theorem hasScratch_of_fits : hasScratch o r b = true := by
  cases o with
  | squaredError => rfl
  | binary privacy => rfl
  | multiclass classes privacy =>
    have room := fits.scratch_room classes privacy rfl
    rw [hasScratch]
    cases computed : r.calcMetric || b.gradients.isSome with
    | false => simp
    | true => simp [(room (by rwa [Bool.or_comm])).1]

/-- A call that fits answers `ok` and leaves new scores, gradients and metric. -/
theorem run_eq : ∃ scratch, run m r o b = .ok (.ok,
    { scores := newScores r b lanes
      gradients := b.gradients.map (newGradients m o r b)
      scratch
      metric := newMetric m o r b }) := by
  have scores : ¬ r.scores ≠ o.scores := fun ne => ne fits.scores_eq
  have groups : ¬ r.samples % lanes ≠ 0 := fun ne => ne (Nat.mod_eq_zero_of_dvd fits.whole)
  have scratch := hasScratch_of_fits fits
  simp only [run, scores, groups, scratch, if_false, Bool.not_true, Bool.false_eq_true]
  by_cases none : r.samples = 0
  · refine ⟨b.scratch, ?_⟩
    have old : newGradients m o r b = id := funext fun a => by simp [newGradients, none]
    simp [none, old, newScores, newMetric]
    rfl
  · obtain ⟨scratch, looped⟩ := loop_eq fits none
    refine ⟨scratch, ?_⟩
    rw [if_neg none, Pack.Reader.make_eq_after fits.items_le]
    exact congrArg (fun b => Except.ok (Status.ok, b)) looped

end Run

end Update

end LaneBoost
