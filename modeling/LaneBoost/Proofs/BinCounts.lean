import LaneBoost.Proofs.SampleSums
import Mathlib.Algebra.BigOperators.Group.Finset.Piecewise
import Mathlib.Algebra.BigOperators.Group.List.Lemmas

/-!
# The counts of bins

The first cell of a bin counts the samples that were added to it, modulo the width of the cell. A walk
over samples adds to each count the occurrences of the samples that select its bin.
-/
namespace LaneBoost

namespace BinSums

open Cells (Change)

/-! ### Occurrences -/

/-- What counts of a sample: the bin that it selects, and how often it occurs. -/
structure Landing where
  bin : Nat
  times : Nat
  deriving DecidableEq, Repr

/-- How often some samples occur. -/
def timesOfAll (xs : List Landing) : Nat := (xs.map (·.times)).sum

/-- How often those of them occur that select bin `i`. -/
def timesIn (i : Nat) (xs : List Landing) : Nat := timesOfAll (xs.filter (·.bin = i))

@[simp] theorem timesOfAll_nil : timesOfAll [] = 0 := rfl

@[simp] theorem timesOfAll_cons (x : Landing) (xs : List Landing) :
    timesOfAll (x :: xs) = x.times + timesOfAll xs := List.sum_cons

@[simp] theorem timesIn_nil (i : Nat) : timesIn i [] = 0 := rfl

theorem timesIn_cons (i : Nat) (x : Landing) (xs : List Landing) :
    timesIn i (x :: xs) = (if x.bin = i then x.times else 0) + timesIn i xs := by
  by_cases here : x.bin = i <;> simp [timesIn, here]

theorem timesIn_append (i : Nat) (xs ys : List Landing) :
    timesIn i (xs ++ ys) = timesIn i xs + timesIn i ys := by
  induction xs with
  | nil => simp
  | cons x xs ih => rw [List.cons_append, timesIn_cons, timesIn_cons, ih, Nat.add_assoc]

theorem timesIn_of_perm {xs ys : List Landing} (h : xs.Perm ys) (i : Nat) :
    timesIn i xs = timesIn i ys :=
  ((h.filter _).map _).sum_eq

/-- If every sample selects one of the bins, the bins share all occurrences among them. -/
theorem sum_timesIn {bins : Nat} {xs : List Landing} (inside : ∀ x ∈ xs, x.bin < bins) :
    ((List.range bins).map fun i => timesIn i xs).sum = timesOfAll xs := by
  induction xs with
  | nil => simp
  | cons x xs ih =>
    have alone : ((List.range bins).map fun i => if x.bin = i then x.times else 0).sum = x.times := by
      refine (Finset.sum_ite_eq (Finset.range bins) x.bin fun _ => x.times).trans (if_pos ?_)
      exact Finset.mem_range.2 (inside x List.mem_cons_self)
    simp only [timesIn_cons, List.sum_map_add, alone, timesOfAll_cons]
    rw [ih fun y hy => inside y (List.mem_cons_of_mem x hy)]

/-- How often a sample occurs, as a number. -/
def timesOf (counts : Option (Array (BitVec 8))) (s : Nat) : Nat :=
  match counts with
  | some cs => (cs.getD s 0).toNat
  | none => 1

theorem countOf_eq (w : Nat) (counts : Option (Array (BitVec 8))) (s : Nat) :
    (countOf counts s : BitVec w) = BitVec.ofNat w (timesOf counts s) := by
  cases counts with
  | none => rfl
  | some cs => exact (BitVec.ofNat_toNat w _).symm

/-! ### The first cell of a bin -/

section Cell

variable {F : Type} [Arithmetic F] {w lanes : Nat} (m : Machine F w lanes) {r : Request F}
  {counts : Option (Array (BitVec 8))}

/-- What a sample adds to the cells behind the count. -/
def Share.uncounted (share : Share F w) (first scores each : Nat) : List (Change w) :=
  numberAdded m (first + 1) share.weight :: (List.range scores).flatMap (share.score m first each)

theorem slot_of_mem_uncounted {s first : Nat} {u : Change w}
    (hu : u ∈ (shareOf m r counts s).uncounted m first r.scores (Layout.perScore r.hessian)) :
    ∃ j, j ≠ 0 ∧ j < 2 + r.scores * Layout.perScore r.hessian ∧ u.slot = first + j := by
  rcases List.mem_cons.1 hu with rfl | hu
  · exact ⟨1, by decide, by omega, rfl⟩
  · obtain ⟨k, hk, hu⟩ := List.mem_flatMap.1 hu
    obtain ⟨j, hj, here⟩ := slot_of_mem_score m hu
    have := score_slot_lt hj (List.mem_range.1 hk)
    exact ⟨2 + (k * Layout.perScore r.hessian + j), by omega, by omega, by omega⟩

variable (bin : Nat → Nat) {slots : Nat}

theorem size_addTo (cells : Cells) (s : Nat) :
    (addTo m r counts bin slots cells s).words.size = cells.words.size :=
  Cells.size_changes _ cells

theorem size_inSampleOrder (cells : Cells) :
    (inSampleOrder m r counts bin slots cells).words.size = cells.words.size :=
  foldl_range_induct (fun _ (walked : Cells) => walked.words.size = cells.words.size)
    (addTo m r counts bin slots) r.samples cells rfl
    fun s walked _ kept => (size_addTo m bin walked s).trans kept

variable (slots_eq : slots = 2 + r.scores * Layout.perScore r.hessian)

include slots_eq

/-- One sample adds its occurrences to the count of the bin that it selects, and to no other. -/
theorem peek_addTo_count {cells : Cells} {i : Nat} (stored : i * slots * w / 64 < cells.words.size)
    (s : Nat) :
    (addTo m r counts bin slots cells s).peek w (i * slots) =
      cells.peek w (i * slots) + BitVec.ofNat w (if bin s = i then timesOf counts s else 0) := by
  let share := shareOf m r counts s
  let counted := cells.change (wordAdded (bin s * slots) share.count)
  have later : (addTo m r counts bin slots cells s).peek w (i * slots) =
      counted.peek w (i * slots) := by
    refine Cells.peek_changes_of_ne m.width_dvd
      (share.uncounted m (bin s * slots) r.scores (Layout.perScore r.hessian)) counted _ ?_
    intro u hu
    obtain ⟨j, behind, hj, here⟩ := slot_of_mem_uncounted m hu
    rw [here]
    exact @bin_slot_ne slots (bin s) i j 0 (by omega) (by omega) behind
  rw [later, Cells.peek_change m.width_dvd]
  by_cases here : bin s = i
  · subst here
    rw [if_pos ⟨rfl, stored⟩, if_pos rfl, ← countOf_eq]
    rfl
  · have apart : i * slots ≠ bin s * slots := fun e =>
      here (Nat.eq_of_mul_eq_mul_right (by omega) e.symm)
    rw [if_neg fun e => apart e.1, if_neg here]
    exact (BitVec.add_zero _).symm

/-- So do samples one after the other. -/
theorem peek_foldl_addTo_count (samples : List Nat) {cells : Cells} {i : Nat}
    (stored : i * slots * w / 64 < cells.words.size) :
    (samples.foldl (addTo m r counts bin slots) cells).peek w (i * slots) =
      cells.peek w (i * slots) +
        BitVec.ofNat w (timesIn i (samples.map fun s => ⟨bin s, timesOf counts s⟩)) := by
  induction samples generalizing cells with
  | nil => exact (BitVec.add_zero _).symm
  | cons s samples ih =>
    have kept := stored
    rw [← size_addTo m bin cells s] at kept
    rw [List.foldl_cons, ih kept, peek_addTo_count m bin slots_eq stored, List.map_cons, timesIn_cons,
      BitVec.ofNat_add, BitVec.add_assoc]

theorem toNat_peek_count {cells : Cells} {i : Nat}
    (stored : i * slots * w / 64 < cells.words.size) :
    ((inSampleOrder m r counts bin slots cells).peek w (i * slots)).toNat =
      ((cells.peek w (i * slots)).toNat +
        timesIn i ((List.range r.samples).map fun s => ⟨bin s, timesOf counts s⟩)) % 2 ^ w := by
  rw [inSampleOrder, peek_foldl_addTo_count m bin slots_eq _ stored, BitVec.toNat_add,
    BitVec.toNat_ofNat, Nat.add_mod_mod]

end Cell

end BinSums

/-! ### The counts of a buffer -/

/-- Sums that stay sizes. -/
theorem foldlM_size_eq_ok_iff {ns : List Nat} {start total : Nat} (small : start < sizeBound) :
    ns.foldlM (fun sum n => size (sum + n)) start = .ok total ↔
      start + ns.sum = total ∧ total < sizeBound := by
  induction ns generalizing start with
  | nil =>
    simp only [List.foldlM_nil, List.sum_nil, Nat.add_zero]
    exact ⟨fun h => Except.ok.inj h ▸ ⟨rfl, small⟩, fun h => congrArg Except.ok h.1⟩
  | cons n ns ih =>
    rw [List.foldlM_cons, List.sum_cons, ← Nat.add_assoc]
    by_cases next : start + n < sizeBound
    · rw [size_of_lt next]
      exact ih next
    · rw [size_of_le (Nat.le_of_not_lt next)]
      exact ⟨nofun, fun h => by omega⟩

namespace BinBuffer

variable {b : BinBuffer}

/-- The count of a bin. -/
def countOfBin (b : BinBuffer) (i : Nat) : Nat := b.readCount (i * b.shape.slots)

theorem countOfBin_of_format {φ : Format} (h : b.shape.format = φ) (i : Nat) :
    b.countOfBin i = (b.cells.peek φ.width (i * b.shape.slots)).toNat := by
  subst h
  rfl

theorem countOfBin_lt (b : BinBuffer) (i : Nat) : b.countOfBin i < 2 ^ b.shape.format.width :=
  BitVec.isLt _

/-- The first cell of a bin lies in the storage. -/
theorem Allotted.stored (h : b.Allotted) {i : Nat} (hi : i < b.bins) :
    i * b.shape.slots * b.shape.format.width / 64 < b.cells.words.size := by
  have some_slots : 0 < b.shape.slots := by
    rw [BinShape.slots]
    omega
  exact h.cell_stored (Nat.mul_lt_mul_of_pos_right hi some_slots)

theorem Allotted.of_size {cells : Cells} (h : b.Allotted)
    (size : cells.words.size = b.cells.words.size) : { b with cells }.Allotted :=
  ⟨h.bytes_lt, h.span_lt, size.trans h.words_eq⟩

theorem bin_eq_ok_iff {i : Nat} {t : BinTotals} :
    b.bin i = .ok t ↔ i < b.bins ∧ t = b.totalsAt (i * b.shape.slots) := by
  unfold bin
  split
  case isTrue hi => exact ⟨fun read => ⟨hi, (Except.ok.inj read).symm⟩, fun h => h.2 ▸ rfl⟩
  case isFalse hi => exact ⟨nofun, fun h => absurd h.1 hi⟩

theorem map_bin_count (b : BinBuffer) (i : Nat) : (b.bin i).map (·.count) =
    if i < b.bins then .ok (b.countOfBin i) else .error (.noSuchBin i b.bins) := by
  unfold bin
  split <;> rfl

theorem totalCount_eq (b : BinBuffer) : b.totalCount =
    ((List.range b.bins).map b.countOfBin).foldlM (fun sum n => size (sum + n)) 0 := by
  simp only [totalCount, totals, List.foldlM_map]
  rfl

theorem totalCount_eq_ok_iff {total : Nat} : b.totalCount = .ok total ↔
    ((List.range b.bins).map b.countOfBin).sum = total ∧ total < sizeBound := by
  rw [totalCount_eq, foldlM_size_eq_ok_iff (by decide), Nat.zero_add]

end BinBuffer

end LaneBoost
