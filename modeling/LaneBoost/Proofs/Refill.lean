import LaneBoost.Lane.Block
import LaneBoost.Proofs.LayoutSlots

/-!
# Buffers refilled vector by vector

A kernel writes the vectors of a buffer in their order, so at any moment the first of them are new and
the others are as they were. `refill` is such a buffer. The slots of the layout are those of its
vectors: vector `g * scores + k` holds score `k` of the samples of group `g`.
-/
namespace LaneBoost

/-- The buffer with its first `n` lane vectors replaced: lane `l` of vector `u` by `value u l`. -/
def refill {α : Type} (lanes : Nat) (a : Array α) (n : Nat) (value : Nat → Nat → α) : Array α :=
  a.mapIdx fun j x => if j < n * lanes then value (j / lanes) (j % lanes) else x

/-- The first vectors of a buffer, and those of a table from there on. -/
def continued {α : Type} [Zero α] (lanes : Nat) (a : Array α) (n : Nat) (value : Nat → Nat → α)
    (u l : Nat) : α :=
  if u < n then a.getD (u * lanes + l) 0 else value u l

section Refill

variable {α : Type} {lanes : Nat} (a : Array α) (n : Nat) (value : Nat → Nat → α)

@[simp] theorem size_refill : (refill lanes a n value).size = a.size := by simp [refill]

@[simp] theorem refill_zero : refill lanes a 0 value = a := by
  apply Array.ext (by simp)
  intro j hj hj'
  simp [refill]

theorem getElem?_refill_of_le {j : Nat} (h : n * lanes ≤ j) :
    (refill lanes a n value)[j]? = a[j]? := by
  have old : ¬ j < n * lanes := by omega
  simp [refill, old]

theorem getElem?_refill_of_lt {j : Nat} (h : j < n * lanes) (inside : j < a.size) :
    (refill lanes a n value)[j]? = some (value (j / lanes) (j % lanes)) := by
  simp [refill, inside, h]

/-- The lane of a new vector. -/
theorem getElem?_refill_lane {u : Nat} (hu : u < n) (l : Fin lanes)
    (inside : u * lanes + l.val < a.size) :
    (refill lanes a n value)[u * lanes + l.val]? = some (value u l) := by
  rw [getElem?_refill_of_lt a n value (lane_lt hu l) inside, lane_div, lane_mod]

/-- The next vector is still the old one. -/
theorem load_refill_next [Zero α] :
    (Lanes.load (refill lanes a n value) (n * lanes) : Lanes α lanes) =
      Lanes.load a (n * lanes) := by
  ext l
  have old := getElem?_refill_of_le a n value (Nat.le_add_right (n * lanes) l)
  simp [Array.getD_eq_getD_getElem?, old]

/-- A new vector is read back. -/
theorem get_load_refill [Zero α] {u : Nat} (hu : u < n) (l : Fin lanes)
    (inside : u * lanes + l.val < a.size) :
    (Lanes.load (refill lanes a n value) (u * lanes) : Lanes α lanes).get l = value u l := by
  simp [Array.getD_eq_getD_getElem?, getElem?_refill_lane a n value hu l inside]

theorem continued_of_le [Zero α] {u : Nat} (h : n ≤ u) (l : Nat) :
    continued lanes a n value u l = value u l :=
  if_neg (Nat.not_lt.2 h)

/-- A buffer is refilled with what it holds. -/
theorem refill_continued [Zero α] :
    refill lanes a n (continued lanes a n value) = a := by
  refine Array.ext (size_refill a n _) fun j _ inside => ?_
  simp only [refill, Array.getElem_mapIdx]
  split_ifs with new
  · have vector : j / lanes < n := Nat.div_lt_of_lt_mul (Nat.mul_comm n lanes ▸ new)
    have whole : j / lanes * lanes + j % lanes = j := by
      rw [Nat.mul_comm]
      exact Nat.div_add_mod j lanes
    rw [continued, if_pos vector, whole, Array.getD, dif_pos inside]
    rfl
  · rfl

/-- Storing the next vector makes one more of them new. -/
theorem store_refill (v : Lanes α lanes) (h : ∀ l, v.get l = value n l.val) :
    v.store (refill lanes a n value) (n * lanes) = refill lanes a (n + 1) value := by
  apply Array.ext_getElem?
  intro j
  by_cases inside : j < a.size
  · by_cases before : j < n * lanes
    · rw [Lanes.getElem?_store_of_outside _ _ _ _ (Or.inl before),
        getElem?_refill_of_lt a n value before inside,
        getElem?_refill_of_lt a (n + 1) value (by rw [Nat.succ_mul]; omega) inside]
    · by_cases here : j < n * lanes + lanes
      · obtain ⟨l, rfl⟩ : ∃ l : Fin lanes, j = n * lanes + l.val :=
          ⟨⟨j - n * lanes, by omega⟩, by simp; omega⟩
        rw [Lanes.getElem?_store _ _ _ _ (by simpa using inside), h,
          getElem?_refill_lane a (n + 1) value (Nat.lt_succ_self n) l inside]
      · rw [Lanes.getElem?_store_of_outside _ _ _ _ (Or.inr (by omega)),
          getElem?_refill_of_le a n value (by omega),
          getElem?_refill_of_le a (n + 1) value (by rw [Nat.succ_mul]; omega)]
  · have beyond : ∀ k, (refill lanes a k value).size ≤ j := fun k => by simp; omega
    rw [Array.getElem?_eq_none (by simp; omega), Array.getElem?_eq_none (beyond (n + 1))]

end Refill

/-- The lanes of vectors, as a table. -/
theorem Lanes.exists_table {α : Type} [Zero α] {lanes : Nat} (v : Nat → Lanes α lanes) :
    ∃ table : Nat → Nat → α, ∀ k (l : Fin lanes), (v k).get l = table l k :=
  ⟨fun l k => if inside : l < lanes then (v k).get ⟨l, inside⟩ else 0,
    fun _ l => (dif_pos l.isLt).symm⟩

/-! ### Vectors of scores, gradients and hessians -/

namespace Layout

/-- A table with a value for every sample and score, as vectors of scores. -/
def scoreVector {α : Type} (scores lanes : Nat) (value : Nat → Nat → α) (u l : Nat) : α :=
  value (u / scores * lanes + l) (u % scores)

/-- Two such tables, as vectors of gradients and hessians. -/
def gradientVector {α : Type} (scores : Nat) (hessian : Bool) (lanes : Nat)
    (gradient hess : Nat → Nat → α) (u l : Nat) : α :=
  scoreVector scores lanes (if u % perScore hessian = 0 then gradient else hess)
    (u / perScore hessian) l

variable {α : Type} {scores lanes : Nat}

/-- Storing the gradients of a score, and its hessians behind them, brings the vectors of the score. -/
theorem store_gradients_refill (a : Array α) (value : Nat → Nat → α) (hessian : Bool) (u : Nat)
    (gradients hessians : Lanes α lanes)
    (gradient_eq : ∀ l : Fin lanes, gradients.get l = value (u * perScore hessian) l)
    (hessian_eq : hessian = true →
      ∀ l : Fin lanes, hessians.get l = value (u * perScore hessian + 1) l) :
    (if hessian then
        hessians.store
          (gradients.store (refill lanes a (u * perScore hessian) value)
            (u * perScore hessian * lanes))
          (u * perScore hessian * lanes + lanes)
      else
        gradients.store (refill lanes a (u * perScore hessian) value)
          (u * perScore hessian * lanes)) =
      refill lanes a ((u + 1) * perScore hessian) value := by
  rw [store_refill a _ value gradients gradient_eq]
  cases hessian with
  | false => rw [if_neg (by decide), perScore_false, Nat.mul_one, Nat.mul_one]
  | true =>
    have both : u * perScore true + 1 + 1 = (u + 1) * perScore true := by
      rw [perScore_true]
      omega
    rw [if_pos rfl, ← Nat.succ_mul, store_refill a _ value hessians (hessian_eq rfl), both]

/-- The slot of a lane of a group. -/
theorem scoreSlot_lane (g k : Nat) (l : Fin lanes) :
    scoreSlot (g * lanes + l.val) k scores lanes = (g * scores + k) * lanes + l.val := by
  rw [scoreSlot, lane_div, lane_mod]

theorem scoreVector_group (value : Nat → Nat → α) (g : Nat) {k : Nat} (hk : k < scores) (l : Nat) :
    scoreVector scores lanes value (g * scores + k) l = value (g * lanes + l) k := by
  have quotient : (g * scores + k) / scores = g := @lane_div scores g ⟨k, hk⟩
  have remainder : (g * scores + k) % scores = k := @lane_mod scores g ⟨k, hk⟩
  rw [scoreVector, quotient, remainder]

theorem gradientVector_gradient (gradient hess : Nat → Nat → α) (hessian : Bool) (g : Nat) {k : Nat}
    (hk : k < scores) (l : Nat) :
    gradientVector scores hessian lanes gradient hess ((g * scores + k) * perScore hessian) l =
      gradient (g * lanes + l) k := by
  rw [gradientVector, Nat.mul_mod_left, if_pos rfl, Nat.mul_div_cancel _ (perScore_pos hessian),
    scoreVector_group _ g hk]

theorem gradientVector_hessian (gradient hess : Nat → Nat → α) (g : Nat) {k : Nat}
    (hk : k < scores) (l : Nat) :
    gradientVector scores true lanes gradient hess ((g * scores + k) * 2 + 1) l =
      hess (g * lanes + l) k := by
  have odd : ((g * scores + k) * 2 + 1) % 2 = 1 := by omega
  have half : ((g * scores + k) * 2 + 1) / 2 = g * scores + k := by omega
  rw [gradientVector, perScore_true, odd, half, if_neg (by decide), scoreVector_group _ g hk]

end Layout

end LaneBoost
