import LaneBoost.Objective.Softmax
import LaneBoost.Proofs.Refill
import Mathlib.Tactic.Ring

/-!
# The log loss of several classes, lane by lane

The formulas for one sample, whose scores are a function of the class. The loops over the classes of a
lane group compute them in every lane: after `k` classes the scratch block has the exponentials of
those classes, and the sums are those over them.
-/
namespace LaneBoost.Softmax

variable {F : Type} [Arithmetic F] {w n : Nat}

/-! ### One sample -/

section Sample

variable (classes : Nat) (score : Nat → F) (target : BitVec w)

/-- The largest score; of equal ones the first. -/
def peakOf : F :=
  (List.range' 1 (classes - 1)).foldl
    (fun top k => if Arithmetic.less top (score k) then score k else top) (score 0)

/-- The exponential of a class. -/
def exponentialOf (k : Nat) : F := Arithmetic.exp (score k - peakOf classes score)

/-- The sum of the exponentials of the first `k` classes. -/
def totalUpTo (k : Nat) : F :=
  (List.range k).foldl (fun total k => total + exponentialOf classes score k) 0

/-- The probability of a class. -/
def probabilityOf (k : Nat) : F :=
  exponentialOf classes score k * (1 / totalUpTo classes score classes)

/-- The gradient of a class. -/
def gradientOf (k : Nat) : F :=
  probabilityOf classes score k - if target.toNat = k then 1 else 0

/-- The hessian of a class. -/
def hessianOf (k : Nat) : F :=
  probabilityOf classes score k * (1 - probabilityOf classes score k)

/-- The score of the target, if its class is one of the first `k`. -/
def targetScoreUpTo (k : Nat) : F :=
  (List.range k).foldl (fun held k => if target.toNat = k then score k else held) 0

/-- What the sample adds to the metric. -/
def termOf : F :=
  Arithmetic.ln (totalUpTo classes score classes) + peakOf classes score -
    targetScoreUpTo score target classes

/-- The score of the class that a target names. Classes that words cannot tell apart have one name,
and the last of them counts. -/
def namedScore : F :=
  (List.range classes).foldl
    (fun held k => if target = BitVec.ofNat w k then score k else held) 0

/-- The gradient of a class, which is lower by one if the target names the class. -/
def namedGradientOf (k : Nat) : F :=
  probabilityOf classes score k - if target = BitVec.ofNat w k then 1 else 0

/-- What the sample adds to the metric, however many classes there are. -/
def lossOf : F :=
  Arithmetic.ln (totalUpTo classes score classes) + peakOf classes score -
    namedScore classes score target

theorem totalUpTo_succ (k : Nat) :
    totalUpTo classes score (k + 1) =
      totalUpTo classes score k + exponentialOf classes score k := by
  simp [totalUpTo, List.range_succ]

end Sample

/-! ### The lanes of a group -/

/-- A class that words can name has the word of its number. -/
theorem eq_classNumber_iff {k : Nat} (hk : k < 2 ^ w) (target : BitVec w) :
    target = BitVec.ofNat w k ↔ target.toNat = k := by
  constructor
  · rintro rfl
    rw [BitVec.toNat_ofNat, Nat.mod_eq_of_lt hk]
  · rintro rfl
    rw [BitVec.ofNat_toNat, BitVec.setWidth_eq]

/-- Where words can name every class, one class has the word of a target below their number. -/
theorem existsUnique_class {classes : Nat} (named : classes ≤ 2 ^ w) {target : BitVec w}
    (inside : target.toNat < classes) : ∃! k, k < classes ∧ target = BitVec.ofNat w k := by
  refine ⟨target.toNat, ⟨inside, (eq_classNumber_iff target.isLt target).2 rfl⟩, ?_⟩
  rintro k ⟨hk, word⟩
  exact ((eq_classNumber_iff (Nat.lt_of_lt_of_le hk named) target).1 word).symm

/-- Any other target has the word of none. -/
theorem ne_classNumber {classes : Nat} (named : classes ≤ 2 ^ w) {target : BitVec w}
    (beyond : classes ≤ target.toNat) {k : Nat} (hk : k < classes) :
    target ≠ BitVec.ofNat w k := by
  intro word
  have := (eq_classNumber_iff (Nat.lt_of_lt_of_le hk named) target).1 word
  omega

/-- Where words can name every class, a target names the class of its number. -/
theorem namedScore_of_class {classes : Nat} (score : Nat → F) {target : BitVec w}
    (named : classes ≤ 2 ^ w) (inside : target.toNat < classes) :
    namedScore classes score target = score target.toNat := by
  refine foldl_range_induct (fun k held => target.toNat < k → held = score target.toNat) _ classes _
    (fun none => absurd none (Nat.not_lt_zero _)) (fun k held hk h passed => ?_) inside
  have class_word := eq_classNumber_iff (Nat.lt_of_lt_of_le hk named) target
  -- Later classes have other words, so they keep the score that is held.
  by_cases here : target.toNat = k
  · rw [if_pos (class_word.2 here), here]
  · rw [if_neg (mt class_word.1 here)]
    exact h (by omega)

theorem namedGradientOf_eq_gradientOf {classes : Nat} (named : classes ≤ 2 ^ w) (score : Nat → F)
    (target : BitVec w) {k : Nat} (hk : k < classes) :
    namedGradientOf classes score target k = gradientOf classes score target k := by
  simp only [namedGradientOf, gradientOf, eq_classNumber_iff (Nat.lt_of_lt_of_le hk named)]

/-- There the loss is the term. -/
theorem lossOf_eq_termOf {classes : Nat} (named : classes ≤ 2 ^ w) (score : Nat → F)
    (target : BitVec w) : lossOf classes score target = termOf classes score target := by
  have held : namedScore classes score target = targetScoreUpTo score target classes :=
    foldl_range_congr _ _ classes 0 fun k held hk => by
      simp only [eq_classNumber_iff (Nat.lt_of_lt_of_le hk named) target]
  rw [lossOf, termOf, held]

theorem get_peak (classes : Nat) (score : Nat → Lanes F n) (l : Fin n) :
    (peak classes score).get l = peakOf classes fun k => (score k).get l := by
  rw [peak, peakOf]
  exact (List.foldl_hom (fun top : Lanes F n => top.get l) fun top k => by simp).symm

/-! ### Only the scores of the classes count -/

section Congr

variable {classes : Nat} {score score' : Nat → F} (h : ∀ k, k < classes → score k = score' k)

include h

theorem peakOf_congr (some_class : 0 < classes) : peakOf classes score = peakOf classes score' := by
  rw [peakOf, peakOf, h 0 some_class]
  refine List.foldl_ext _ _ _ fun top k hk => ?_
  have inside : k < classes := by
    have := List.mem_range'_1.1 hk
    omega
  rw [h k inside]

theorem exponentialOf_congr {k : Nat} (hk : k < classes) :
    exponentialOf classes score k = exponentialOf classes score' k := by
  rw [exponentialOf, exponentialOf, h k hk, peakOf_congr h (Nat.zero_lt_of_lt hk)]

theorem totalUpTo_congr {k : Nat} (hk : k ≤ classes) :
    totalUpTo classes score k = totalUpTo classes score' k :=
  foldl_range_congr _ _ k 0 fun j total hj => by
    rw [exponentialOf_congr h (Nat.lt_of_lt_of_le hj hk)]

theorem probabilityOf_congr {k : Nat} (hk : k < classes) :
    probabilityOf classes score k = probabilityOf classes score' k := by
  rw [probabilityOf, probabilityOf, exponentialOf_congr h hk, totalUpTo_congr h (Nat.le_refl _)]

theorem gradientOf_congr (target : BitVec w) {k : Nat} (hk : k < classes) :
    gradientOf classes score target k = gradientOf classes score' target k := by
  rw [gradientOf, gradientOf, probabilityOf_congr h hk]

theorem hessianOf_congr {k : Nat} (hk : k < classes) :
    hessianOf classes score k = hessianOf classes score' k := by
  rw [hessianOf, hessianOf, probabilityOf_congr h hk]

end Congr

/-- Only the scores of the classes count; without a class the peak is still the first score. -/
theorem lossOf_congr {classes : Nat} {score score' : Nat → F}
    (h : ∀ k, k < classes ∨ k = 0 → score k = score' k) (target : BitVec w) :
    lossOf classes score target = lossOf classes score' target := by
  have inside : ∀ k, k < classes → score k = score' k := fun k hk => h k (.inl hk)
  have peak : peakOf classes score = peakOf classes score' := by
    rcases Nat.eq_zero_or_pos classes with rfl | some_class
    · exact h 0 (.inr rfl)
    · exact peakOf_congr inside some_class
  have held : namedScore classes score target = namedScore classes score' target :=
    foldl_range_congr _ _ classes 0 fun k held hk => by rw [inside k hk]
  rw [lossOf, lossOf, peak, held, totalUpTo_congr inside (Nat.le_refl _)]

/-- The total of a lane. -/
theorem get_sums_total (classes : Nat) (metric : Bool) (score : Nat → Lanes F n)
    (target : Lanes (BitVec w) n) (block : Block) (scratch : Array F) (l : Fin n) :
    (sums classes metric score (peak classes score) target block scratch).total.get l =
      totalUpTo classes (fun k => (score k).get l) classes := by
  have first : (0 : Lanes F n).get l = 0 := Lanes.get_zero l
  rw [sums, totalUpTo, ← first]
  refine (List.foldl_hom (fun s : Sums F n => s.total.get l) fun s k => ?_).symm
  simp [Sums.add, exponentialOf, get_peak]

/-- The score of a lane that its target selects. -/
theorem get_sums_targetScore (classes : Nat) (score : Nat → Lanes F n) (top : Lanes F n)
    (target : Lanes (BitVec w) n) (block : Block) (scratch : Array F) (l : Fin n) :
    (sums classes true score top target block scratch).targetScore.get l =
      namedScore classes (fun k => (score k).get l) (target.get l) := by
  have first : (0 : Lanes F n).get l = 0 := Lanes.get_zero l
  rw [sums, namedScore, ← first]
  refine (List.foldl_hom (fun s : Sums F n => s.targetScore.get l) fun s k => ?_).symm
  simp [Sums.add, classNumber]

/-- Every lane has the loss of its sample. -/
theorem get_update_loss (classes : Nat) {wanted : Wanted} (metric : wanted.metric = true)
    (scores : Array F) (scoreBlock : Block) (target : Lanes (BitVec w) n) (gradients : Array F)
    (gradientBlock hessianBlock : Block) (scratch : Array F) (scratchBlock : Block) (l : Fin n) :
    (update classes wanted scores scoreBlock target gradients gradientBlock hessianBlock scratch
      scratchBlock).term.get l =
      lossOf classes (fun k => (scoreBlock.load scores k : Lanes F n).get l) (target.get l) := by
  simp only [update, metric, if_true, Lanes.get_sub, Lanes.get_add, Lanes.get_ln, lossOf]
  rw [get_sums_total, get_sums_targetScore, get_peak]

/-! ### The sums of a group -/

/-- The sums after `k` classes, where lane `l` has the scores `score l`. -/
structure Summed (classes : Nat) (score : Nat → Nat → F) (scratch : Array F) (k : Nat)
    (s : Sums F n) : Prop where
  scratch_eq : s.scratch = refill n scratch k fun k l => exponentialOf classes (score l) k
  total_eq : ∀ l : Fin n, s.total.get l = totalUpTo classes (score l) k

section Summed

variable {classes : Nat} {score : Nat → Nat → F} {scratch : Array F} {s : Sums F n}
  (h : Summed classes score scratch classes s) (room : classes * n ≤ scratch.size)

include h room

/-- The exponentials of a class, in the scratch block. -/
theorem Summed.get_exponential {k : Nat} (hk : k < classes) (l : Fin n) :
    ((⟨0, n⟩ : Block).load s.scratch k : Lanes F n).get l = exponentialOf classes (score l) k := by
  have inside : k * n + l.val < scratch.size := Nat.lt_of_lt_of_le (lane_lt hk l) room
  rw [Block.load, Nat.zero_add, h.scratch_eq]
  exact get_load_refill scratch classes _ hk l inside

/-- The probabilities of a class, from the exponentials in the scratch block. -/
theorem Summed.get_probability {k : Nat} (hk : k < classes) (l : Fin n) :
    ((⟨0, n⟩ : Block).load s.scratch k * (1 / s.total)).get l =
      probabilityOf classes (score l) k := by
  rw [Lanes.get_mul, h.get_exponential room hk, Lanes.get_div, Lanes.get_one, h.total_eq,
    probabilityOf]

end Summed

section Group

variable {classes : Nat} {score : Nat → Lanes F n} {scoreOf : Nat → Nat → F}
  (scores_eq : ∀ k, k < classes → ∀ l : Fin n, (score k).get l = scoreOf l k)

include scores_eq

theorem get_peak_eq (some_class : 0 < classes) (l : Fin n) :
    (peak classes score).get l = peakOf classes (scoreOf l) := by
  rw [get_peak]
  exact peakOf_congr (fun k hk => scores_eq k hk l) some_class

/-- One class more. -/
theorem summed_add (metric : Bool) (target : Lanes (BitVec w) n) (scratch : Array F) {k : Nat}
    (hk : k < classes) {s : Sums F n} (h : Summed classes scoreOf scratch k s) :
    Summed classes scoreOf scratch (k + 1)
      (s.add metric score (peak classes score) target ⟨0, n⟩ k) := by
  have exponential : ∀ l : Fin n,
      (score k - peak classes score).exp.get l = exponentialOf classes (scoreOf l) k := by
    intro l
    rw [Lanes.get_exp, Lanes.get_sub, scores_eq k hk,
      get_peak_eq scores_eq (Nat.zero_lt_of_lt hk), exponentialOf]
  constructor
  · simp only [Sums.add, Block.store, Nat.zero_add, h.scratch_eq]
    exact store_refill scratch k _ _ exponential
  · intro l
    simp only [Sums.add, Lanes.get_add, h.total_eq, exponential]
    exact (totalUpTo_succ classes (scoreOf l) k).symm

theorem summed_sums (metric : Bool) (target : Lanes (BitVec w) n) (scratch : Array F) :
    Summed classes scoreOf scratch classes
      (sums classes metric score (peak classes score) target ⟨0, n⟩ scratch) := by
  refine foldl_range_induct (Summed classes scoreOf scratch) _ classes _ ?_
    fun k s hk h => summed_add scores_eq metric target scratch hk h
  constructor
  · exact (refill_zero scratch _).symm
  · intro l
    exact Lanes.get_zero l

end Group

/-! ### Gradients and hessians -/

/-- The vectors of group `g` in a gradient buffer: for each class its gradients, followed by its
hessians where there are any. -/
structure Written (classes : Nat) (hessians : Bool) (score : Nat → Nat → F)
    (target : Nat → BitVec w) (n g : Nat) (value : Nat → Nat → F) : Prop where
  gradient_eq : ∀ k, k < classes → ∀ l : Fin n,
    value ((g * classes + k) * Layout.perScore hessians) l =
      namedGradientOf classes (score l) (target l) k
  hessian_eq : hessians = true → ∀ k, k < classes → ∀ l : Fin n,
    value ((g * classes + k) * Layout.perScore hessians + 1) l = hessianOf classes (score l) k

/-- The vectors of the classes of a group follow each other. -/
theorem gradients_start (classes per g k : Nat) :
    g * (classes * (per * n)) + k * (per * n) = (g * classes + k) * per * n := by ring

theorem hessians_start (classes per g k : Nat) :
    g * (classes * (per * n)) + n + k * (per * n) = (g * classes + k) * per * n + n := by ring

section Write

variable {classes : Nat} {target : Lanes (BitVec w) n} {scoreOf : Nat → Nat → F}
  {targetOf : Nat → BitVec w} (target_eq : ∀ l : Fin n, target.get l = targetOf l)

include target_eq

/-- Writing a class brings its vectors. -/
theorem writeClass_refill (hessians : Bool) (g : Nat) {inverse : Lanes F n} {scratch : Array F}
    (a : Array F) {value : Nat → Nat → F}
    (written : Written classes hessians scoreOf targetOf n g value) {k : Nat} (hk : k < classes)
    (probability : ∀ l : Fin n, ((⟨0, n⟩ : Block).load scratch k * inverse).get l =
      probabilityOf classes (scoreOf l) k) :
    writeClass hessians target inverse ⟨0, n⟩ scratch
        ⟨g * (classes * (Layout.perScore hessians * n)), Layout.perScore hessians * n⟩
        ⟨g * (classes * (Layout.perScore hessians * n)) + n, Layout.perScore hessians * n⟩
        (refill n a ((g * classes + k) * Layout.perScore hessians) value) k =
      refill n a ((g * classes + (k + 1)) * Layout.perScore hessians) value := by
  have gradient : ∀ l : Fin n,
      ((⟨0, n⟩ : Block).load scratch k * inverse -
        Lanes.whereEqual target (classNumber k) 1 0).get l =
        value ((g * classes + k) * Layout.perScore hessians) l := by
    intro l
    rw [written.gradient_eq k hk, Lanes.get_sub, probability, namedGradientOf]
    simp only [Lanes.get_whereEqual, classNumber, Lanes.get_splat, target_eq, Lanes.get_one,
      Lanes.get_zero]
  have hessian : hessians = true → ∀ l : Fin n,
      ((⟨0, n⟩ : Block).load scratch k * inverse *
        (1 - (⟨0, n⟩ : Block).load scratch k * inverse)).get l =
        value ((g * classes + k) * Layout.perScore hessians + 1) l := by
    intro wanted l
    rw [written.hessian_eq wanted k hk, Lanes.get_mul, Lanes.get_sub, probability, Lanes.get_one,
      hessianOf]
  simp only [writeClass, Block.store, gradients_start, hessians_start]
  exact Layout.store_gradients_refill a value hessians (g * classes + k) _ _ gradient hessian

/-! ### All of a lane group -/

variable (wanted : Wanted) (scores : Array F) (scoreBlock : Block) (scratch : Array F)
  (gradients : Array F) (gradientBlock hessianBlock : Block)
  (loaded : ∀ k, k < classes → ∀ l : Fin n,
    (scoreBlock.load scores k : Lanes F n).get l = scoreOf l k)

include loaded

omit target_eq in
theorem size_update_scratch :
    (update classes wanted scores scoreBlock target gradients gradientBlock hessianBlock scratch
      ⟨0, n⟩).scratch.size = scratch.size := by
  have summed := summed_sums loaded wanted.metric target scratch
  rw [update, summed.scratch_eq, size_refill]

/-- Every lane has the term of its sample. -/
theorem get_update_term (named : classes ≤ 2 ^ w) (some_class : 0 < classes)
    (metric : wanted.metric = true) (l : Fin n) :
    (update classes wanted scores scoreBlock target gradients gradientBlock hessianBlock scratch
      ⟨0, n⟩).term.get l = termOf classes (scoreOf l) (targetOf l) := by
  have read : ∀ k, k < classes ∨ k = 0 →
      (scoreBlock.load scores k : Lanes F n).get l = scoreOf l k :=
    fun k hk => loaded k (by omega) l
  rw [get_update_loss classes metric, lossOf_congr read, target_eq, lossOf_eq_termOf named]

/-- The gradient vectors of the group are written, and the hessian vectors where they are wanted. -/
theorem update_gradients (room : classes * n ≤ scratch.size) (g : Nat) (a : Array F)
    {value : Nat → Nat → F} (some_gradients : wanted.gradients = true)
    (written : Written classes wanted.hessians scoreOf targetOf n g value) :
    (update classes wanted scores scoreBlock target
        (refill n a (g * classes * Layout.perScore wanted.hessians) value)
        ⟨g * (classes * (Layout.perScore wanted.hessians * n)), Layout.perScore wanted.hessians * n⟩
        ⟨g * (classes * (Layout.perScore wanted.hessians * n)) + n,
          Layout.perScore wanted.hessians * n⟩
        scratch ⟨0, n⟩).gradients =
      refill n a ((g + 1) * classes * Layout.perScore wanted.hessians) value := by
  have summed := summed_sums loaded wanted.metric target scratch
  rw [Nat.succ_mul]
  simp only [update, some_gradients, if_true]
  refine foldl_range_induct
    (fun k (b : Array F) =>
      b = refill n a ((g * classes + k) * Layout.perScore wanted.hessians) value)
    _ classes _ rfl fun k b hk h => ?_
  subst h
  exact writeClass_refill target_eq wanted.hessians g a written hk
    (summed.get_probability room hk)

end Write

/-! ### Reading a group back -/

/-- The gradient vectors of group `g`. -/
def gradientsAt (classes n : Nat) (hessians : Bool) (g : Nat) : Block :=
  ⟨g * (classes * (Layout.perScore hessians * n)), Layout.perScore hessians * n⟩

/-- The hessian vectors of group `g`. -/
def hessiansAt (classes n : Nat) (hessians : Bool) (g : Nat) : Block :=
  ⟨g * (classes * (Layout.perScore hessians * n)) + n, Layout.perScore hessians * n⟩

/-- What an update that wants gradients leaves behind for group `g`. -/
def updateGroup (classes : Nat) (hessians metric : Bool) (scores : Array F) (scoreBlock : Block)
    (target : Lanes (BitVec w) n) (gradients scratch : Array F) (g : Nat) : Result F n :=
  update classes ⟨true, hessians, metric⟩ scores scoreBlock target gradients
    (gradientsAt classes n hessians g) (hessiansAt classes n hessians g) scratch ⟨0, n⟩

section Read

variable {classes : Nat} (hessians metric : Bool) (scores : Array F) (scoreBlock : Block)
  (target : Lanes (BitVec w) n) {gradients scratch : Array F} (g : Nat)

/-- The vectors that the group leaves in the buffer, behind those of the groups before it. -/
theorem exists_written (gradients : Array F) (score : Nat → Nat → F) (target : Nat → BitVec w) :
    ∃ value, refill n gradients (g * classes * Layout.perScore hessians) value = gradients ∧
      Written classes hessians score target n g value := by
  let first := g * classes * Layout.perScore hessians
  let new := Layout.gradientVector classes hessians n
    (fun s k => namedGradientOf classes (score (s % n)) (target (s % n)) k)
    (fun s k => hessianOf classes (score (s % n)) k)
  have behind : ∀ k, first ≤ (g * classes + k) * Layout.perScore hessians := fun k =>
    Nat.mul_le_mul_right _ (Nat.le_add_right _ _)
  refine ⟨continued n gradients first new, refill_continued gradients first new, ?_, ?_⟩
  · intro k hk l
    rw [continued_of_le _ _ _ (behind k)]
    refine (Layout.gradientVector_gradient _ _ hessians g hk l).trans ?_
    rw [lane_mod]
  · intro some_hessians k hk l
    subst some_hessians
    rw [continued_of_le _ _ _ (Nat.le_succ_of_le (behind k))]
    refine (Layout.gradientVector_hessian _ _ g hk l).trans ?_
    rw [lane_mod]

variable (scratch_room : classes * n ≤ scratch.size)
  (room : (g + 1) * classes * Layout.perScore hessians * n ≤ gradients.size)

include scratch_room room

/-- Every lane has the gradients of its sample, and its hessians where they are wanted. -/
theorem get_updateGroup {k : Nat} (hk : k < classes) (l : Fin n) :
    let left := (updateGroup classes hessians metric scores scoreBlock target gradients scratch
      g).gradients
    let score := fun k => (scoreBlock.load scores k : Lanes F n).get l
    ((gradientsAt classes n hessians g).load left k : Lanes F n).get l =
        namedGradientOf classes score (target.get l) k ∧
      (hessians = true → ((hessiansAt classes n hessians g).load left k : Lanes F n).get l =
        hessianOf classes score k) := by
  intro left score
  obtain ⟨scoreOf, loaded⟩ := Lanes.exists_table fun k => (scoreBlock.load scores k : Lanes F n)
  obtain ⟨targetOf, target_eq⟩ := Lanes.exists_table fun _ => target
  obtain ⟨value, same, written⟩ := exists_written hessians g gradients scoreOf fun l => targetOf l 0
  have refilled : left = refill n gradients ((g + 1) * classes * Layout.perScore hessians) value := by
    have updated := update_gradients (fun l => target_eq 0 l) ⟨true, hessians, metric⟩ scores scoreBlock
      scratch (fun k _ l => loaded k l) scratch_room g gradients rfl written
    rwa [same] at updated
  have read : ∀ r, r < Layout.perScore hessians →
      (Lanes.load left (((g * classes + k) * Layout.perScore hessians + r) * n) : Lanes F n).get l =
        value ((g * classes + k) * Layout.perScore hessians + r) l := by
    intro r hr
    have vector := lane_lt (lane_lt (Nat.lt_succ_self g) ⟨k, hk⟩) ⟨r, hr⟩
    rw [refilled]
    exact get_load_refill gradients _ value vector l (Nat.lt_of_lt_of_le (lane_lt vector l) room)
  have scores_eq : scoreOf l = score := funext fun k => (loaded k l).symm
  constructor
  · rw [gradientsAt, Block.load, gradients_start]
    refine (read 0 (Layout.perScore_pos hessians)).trans ?_
    rw [Nat.add_zero, written.gradient_eq k hk, scores_eq, target_eq 0]
  · intro some_hessians
    have second : 1 < Layout.perScore hessians := by rw [some_hessians]; decide
    rw [hessiansAt, Block.load, hessians_start, ← Nat.succ_mul]
    refine (read 1 second).trans ?_
    rw [written.hessian_eq some_hessians k hk, scores_eq]

end Read

end LaneBoost.Softmax
