import LaneBoost.Cells
import LaneBoost.Proofs.LaneGroups

/-!
# Changes to cells

A kernel that sums into bins only ever replaces a cell by a function of what the cell holds. Changes
to different cells commute, so a walk that makes them in rounds, one kind after the other, leaves what
a walk leaves that makes all changes of an item at once.
-/
namespace LaneBoost.Cells

variable {w : Nat}

/-- Storage of one size is determined by its cells. -/
theorem ext_peek (hw : w ∣ 64) {c d : Cells} (size : c.words.size = d.words.size)
    (h : ∀ i, c.peek w i = d.peek w i) : c = d := by
  obtain ⟨q, hq⟩ := hw
  have hw0 : 0 < w := Nat.pos_of_ne_zero (by rintro rfl; omega)
  have word : ∀ i, c.words.getD i 0#64 = d.words.getD i 0#64 := by
    intro i
    apply BitVec.eq_of_getLsbD_eq
    intro t ht
    have inside : t / w < q := Nat.div_lt_of_lt_mul (by omega)
    have hq0 : 0 < q := Nat.zero_lt_of_lt inside
    have at_word : (i * q + t / w) * w / 64 = i := by
      rw [slot_div hq hw0, Nat.mul_comm, Nat.mul_add_div hq0, Nat.div_eq_of_lt inside,
        Nat.add_zero]
    have at_bit : (i * q + t / w) * w % 64 + t % w = t := by
      rw [slot_mod hq, Nat.mul_comm i q, Nat.mul_add_mod, Nat.mod_eq_of_lt inside,
        Nat.div_add_mod]
    have bit := congrArg (fun v : BitVec w => v.getLsbD (t % w)) (h (i * q + t / w))
    simpa only [getLsbD_peek _ _ _ _ (Nat.mod_lt t hw0), at_word, at_bit] using bit
  have words : c.words = d.words := by
    apply Array.ext size
    intro i hi hi'
    simpa [Array.getD_eq_getD_getElem?, hi, hi'] using word i
  cases c
  cases d
  exact congrArg Cells.mk words

/-- A cell, and what is made of what it holds. -/
structure Change (w : Nat) where
  slot : Nat
  made : BitVec w → BitVec w

/-- Makes one change. -/
def change (c : Cells) (u : Change w) : Cells := c.poke u.slot (u.made (c.peek w u.slot))

@[simp] theorem size_change (c : Cells) (u : Change w) :
    (c.change u).words.size = c.words.size := size_poke _ _ _

theorem peek_change (hw : w ∣ 64) (c : Cells) (u : Change w) (i : Nat) :
    (c.change u).peek w i =
      if i = u.slot ∧ u.slot * w / 64 < c.words.size then u.made (c.peek w i) else c.peek w i := by
  rw [change, peek_poke hw]
  split
  case isTrue here => rw [here.1]
  case isFalse => rfl

/-- Changes to different cells commute. -/
theorem change_comm (hw : w ∣ 64) (c : Cells) {u v : Change w} (h : u.slot ≠ v.slot) :
    (c.change u).change v = (c.change v).change u := by
  apply ext_peek hw (by simp)
  intro i
  simp only [peek_change hw, size_change]
  by_cases hu : i = u.slot
  · subst hu
    simp [h]
  · simp [hu]

/-- Makes changes one after the other. -/
def changes (c : Cells) (us : List (Change w)) : Cells := us.foldl change c

theorem changes_cons (c : Cells) (u : Change w) (us : List (Change w)) :
    c.changes (u :: us) = (c.change u).changes us := rfl

theorem changes_append (c : Cells) (us vs : List (Change w)) :
    c.changes (us ++ vs) = (c.changes us).changes vs := by
  simp [changes]

theorem size_changes (us : List (Change w)) (c : Cells) :
    (c.changes us).words.size = c.words.size := by
  induction us generalizing c with
  | nil => rfl
  | cons u us ih => rw [changes_cons, ih, size_change]

/-- A cell that no change names keeps what it holds. -/
theorem peek_changes_of_ne (hw : w ∣ 64) (us : List (Change w)) (c : Cells) (i : Nat)
    (h : ∀ u ∈ us, u.slot ≠ i) : (c.changes us).peek w i = c.peek w i := by
  induction us generalizing c with
  | nil => rfl
  | cons u us ih =>
    have other : i ≠ u.slot := fun e => h u (by simp) e.symm
    rw [changes_cons, ih _ fun v hv => h v (by simp [hv]), peek_change hw,
      if_neg fun e => other e.1]

/-- Two lists of changes that name no cell in common. -/
def Apart (us vs : List (Change w)) : Prop := ∀ u ∈ us, ∀ v ∈ vs, u.slot ≠ v.slot

theorem changes_change_comm (hw : w ∣ 64) (us : List (Change w)) (v : Change w) (c : Cells)
    (h : ∀ u ∈ us, u.slot ≠ v.slot) : (c.changes us).change v = (c.change v).changes us := by
  induction us generalizing c with
  | nil => rfl
  | cons u us ih =>
    rw [changes_cons, changes_cons, ih _ fun u' hu' => h u' (by simp [hu']),
      change_comm hw c (h u (by simp))]

/-- Lists of changes that are apart commute. -/
theorem changes_comm (hw : w ∣ 64) (us vs : List (Change w)) (c : Cells) (h : Apart us vs) :
    (c.changes us).changes vs = (c.changes vs).changes us := by
  induction vs generalizing c with
  | nil => rfl
  | cons v vs ih =>
    rw [changes_cons, changes_cons, changes_change_comm hw us v c fun u hu => h u hu v (by simp),
      ih _ fun u hu v' hv' => h u hu v' (by simp [hv'])]

/-! ### Rounds over a list of items -/

variable {ι : Type}

/-- Makes the changes of every item. -/
def changesOf (us : ι → List (Change w)) (items : List ι) (c : Cells) : Cells :=
  items.foldl (fun c i => c.changes (us i)) c

/-- A round of changes passes over a change that is apart from all of them. -/
theorem changesOf_changes_comm (hw : w ∣ 64) (us : ι → List (Change w)) (vs : List (Change w))
    (h : ∀ i, Apart (us i) vs) (items : List ι) (c : Cells) :
    (changesOf us items c).changes vs = changesOf us items (c.changes vs) := by
  induction items generalizing c with
  | nil => rfl
  | cons i items ih =>
    calc (changesOf us (i :: items) c).changes vs
        = (changesOf us items (c.changes (us i))).changes vs := rfl
      _ = changesOf us items ((c.changes (us i)).changes vs) := ih _
      _ = changesOf us items ((c.changes vs).changes (us i)) := by rw [changes_comm hw _ _ _ (h i)]
      _ = changesOf us (i :: items) (c.changes vs) := rfl

/-- Two rounds one after the other make the same of the cells as one round that makes both kinds of
changes of each item. -/
theorem changesOf_changesOf (hw : w ∣ 64) (us vs : ι → List (Change w))
    (h : ∀ i j, Apart (us i) (vs j)) (items : List ι) (c : Cells) :
    changesOf vs items (changesOf us items c) = changesOf (fun i => us i ++ vs i) items c := by
  induction items generalizing c with
  | nil => rfl
  | cons i items ih =>
    calc changesOf vs (i :: items) (changesOf us (i :: items) c)
        = changesOf vs items ((changesOf us items (c.changes (us i))).changes (vs i)) := rfl
      _ = changesOf vs items (changesOf us items ((c.changes (us i)).changes (vs i))) := by
          rw [changesOf_changes_comm hw us (vs i) (fun j => h j i)]
      _ = changesOf (fun i => us i ++ vs i) items (c.changes (us i ++ vs i)) := by
          rw [ih, changes_append]
      _ = changesOf (fun i => us i ++ vs i) (i :: items) c := rfl

/-- The same for any number of later rounds. -/
theorem foldl_changesOf (hw : w ∣ 64) (us : ι → List (Change w)) (vs : Nat → ι → List (Change w))
    (n : Nat) (first : ∀ k, k < n → ∀ i j, Apart (us i) (vs k j))
    (later : ∀ k, k < n → ∀ k', k' < k → ∀ i j, Apart (vs k' i) (vs k j)) (items : List ι)
    (c : Cells) :
    (List.range n).foldl (fun c k => changesOf (vs k) items c) (changesOf us items c) =
      changesOf (fun i => us i ++ (List.range n).flatMap fun k => vs k i) items c := by
  induction n with
  | zero => simp
  | succ n ih =>
    have before := ih (fun k hk => first k (Nat.lt_succ_of_lt hk))
      fun k hk => later k (Nat.lt_succ_of_lt hk)
    rw [List.range_succ, List.foldl_append, before]
    have apart : ∀ i j, Apart (us i ++ (List.range n).flatMap fun k => vs k i) (vs n j) := by
      intro i j u hu v hv
      rcases List.mem_append.1 hu with hu | hu
      · exact first n (Nat.lt_succ_self n) i j u hu v hv
      · obtain ⟨k, hk, hu⟩ := List.mem_flatMap.1 hu
        exact later n (Nat.lt_succ_self n) k (List.mem_range.1 hk) i j u hu v hv
    simpa [List.flatMap_append, List.append_assoc] using
      changesOf_changesOf hw _ (vs n) apart items c

end LaneBoost.Cells
