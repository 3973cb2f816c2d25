import LaneBoost.Pack.Cursor
import LaneBoost.Proofs.LaneGroups

/-!
# What a reader of packed indexes hands out

A reader keeps a place in the packed words and the words of the current groups. After any number of
groups both are known in closed form, and the indexes it hands out for a group are the fields of the
group's samples.
-/
namespace LaneBoost.Pack

variable {w lanes : Nat}

/-- The index of a sample: its field in the packed words, and zero without packed words. -/
def indexAt (items : Int) (packed : Option (Array (BitVec w))) (lanes sample : Nat) : BitVec w :=
  match packed with
  | none => 0
  | some words => if items ≤ 0 then 0 else fieldAt words items.toNat lanes sample

theorem indexAt_some (words : Array (BitVec w)) {items : Int} (h : 0 < items) (lanes s : Nat) :
    indexAt items (some words) lanes s = fieldAt words items.toNat lanes s :=
  if_neg (by omega)

/-! ### Words and fields of the samples of a group -/

theorem wordOf_lane (items g : Nat) (l : Fin lanes) :
    wordOf items lanes (g * lanes + l.val) = g / items * lanes + l.val := by
  rw [wordOf, lane_mod, ← Nat.div_div_eq_div_mul, lane_div]

theorem shiftOf_lane (width items g : Nat) (l : Fin lanes) :
    shiftOf width items lanes (g * lanes + l.val) = g % items * fieldBits width items := by
  rw [shiftOf, Nat.mod_mul_right_div_self, lane_div]

/-! ### The place of a cursor -/

namespace Cursor

/-- The cursor that has handed out the indexes of `k` groups. -/
def after (words : Array (BitVec w)) (items lanes k : Nat) : Cursor w lanes where
  words := words
  items := items
  loaded := (k + items - 1) / items * lanes
  field := k % items
  held := if k = 0 then 0 else Lanes.load words ((k - 1) / items * lanes)

theorem after_zero (words : Array (BitVec w)) {items : Nat} (h : 0 < items) :
    after words items lanes 0 = { words, items } := by
  have loaded : (items - 1) / items = 0 := Nat.div_eq_of_lt (by omega)
  simp [after, loaded]

/-- Filling brings the words that hold the next group. -/
theorem fill_after (words : Array (BitVec w)) {items : Nat} (h : 0 < items) (k : Nat) :
    (after words items lanes k).fill =
      { words
        items
        loaded := (k / items + 1) * lanes
        field := k % items
        held := Lanes.load words (k / items * lanes) } := by
  have split := Nat.div_add_mod k items
  by_cases hk : k % items = 0
  · have loaded : (k + items - 1) / items = k / items :=
      ((Nat.div_mod_unique (c := items - 1) h).2 ⟨by omega, by omega⟩).1
    simp [fill, after, hk, loaded, Nat.succ_mul]
  · have small := Nat.mod_lt k h
    have loaded : (k + items - 1) / items = k / items + 1 :=
      ((Nat.div_mod_unique (c := k % items - 1) h).2
        ⟨by rw [Nat.mul_succ]; omega, by omega⟩).1
    have held : (k - 1) / items = k / items :=
      ((Nat.div_mod_unique (c := k % items - 1) h).2 ⟨by omega, by omega⟩).1
    have some_read : k ≠ 0 := by rintro rfl; simp at hk
    simp [fill, after, hk, loaded, held, some_read]

theorem succ_mod {items : Nat} (h : 0 < items) (k : Nat) :
    (if k % items + 1 = items then 0 else k % items + 1) = (k + 1) % items := by
  have small := Nat.mod_lt k h
  have next : (k + 1) % items = (k % items + 1) % items := by simp
  rw [next]
  split
  case isTrue last => rw [last, Nat.mod_self]
  case isFalse inner => exact (Nat.mod_eq_of_lt (by omega)).symm

/-- The next indexes are the fields of the next group's samples. -/
theorem next_after (words : Array (BitVec w)) {items : Nat} (h : 0 < items) (k : Nat) :
    (after words items lanes k).next =
      (Lanes.ofFn fun l => fieldAt words items lanes (k * lanes + l.val),
        after words items lanes (k + 1)) := by
  rw [next, fill_after words h]
  refine Prod.ext (Lanes.ext fun l => ?_) ?_
  · simp [current, fieldAt, wordOf_lane, shiftOf_lane]
  · have loaded : k + 1 + items - 1 = k + items := by omega
    simp [advance, after, succ_mod h, loaded, Nat.add_div_right k h]

end Cursor

/-! ### The place of a reader -/

/-- Every word can hold its items, if there are words. -/
def Readable (items : Int) (packed : Option (Array (BitVec w))) : Prop := packed = none ∨ items ≤ w

instance (items : Int) (packed : Option (Array (BitVec w))) : Decidable (Readable items packed) :=
  inferInstanceAs (Decidable (_ ∨ _))

namespace Reader

/-- The reader that has handed out the indexes of `k` groups. -/
def after (items : Int) (packed : Option (Array (BitVec w))) (lanes k : Nat) : Reader w lanes :=
  match packed with
  | none => none
  | some words => if items ≤ 0 then none else some (Cursor.after words items.toNat lanes k)

theorem make_eq_after {items : Int} (h : items ≤ w) (packed : Option (Array (BitVec w))) :
    make items packed = .ok (after items packed lanes 0) := by
  cases packed with
  | none => rfl
  | some words =>
    by_cases none_read : items ≤ 0
    · simp [make, after, none_read]
    · have fits : items.toNat ≤ w := by omega
      have some_read : 0 < items.toNat := by omega
      have start := @Cursor.after_zero w lanes words items.toNat some_read
      simp [make, after, none_read, fits, start]

/-- A reader is made of what can be read, and of nothing else. -/
theorem make_eq_ite (items : Int) (packed : Option (Array (BitVec w))) :
    (make items packed : Checked (Reader w lanes)) =
      if Readable items packed then .ok (after items packed lanes 0)
      else .error .tooManyItems := by
  by_cases readable : Readable items packed
  · rw [if_pos readable]
    rcases readable with rfl | fits
    · rfl
    · exact make_eq_after fits packed
  · rw [if_neg readable]
    cases packed with
    | none => exact absurd (.inl rfl) readable
    | some words =>
      have many : ¬ items ≤ w := fun fits => readable (.inr fits)
      have some_items : ¬ items ≤ 0 := by omega
      have beyond : ¬ items.toNat ≤ w := by omega
      simp only [make, if_neg some_items, if_neg beyond]

/-- The indexes of group `k`. -/
def indexesOf (items : Int) (packed : Option (Array (BitVec w))) (lanes k : Nat) :
    Lanes (BitVec w) lanes :=
  Lanes.ofFn fun l => indexAt items packed lanes (k * lanes + l.val)

@[simp] theorem get_indexesOf (items : Int) (packed : Option (Array (BitVec w))) (k : Nat)
    (l : Fin lanes) :
    (indexesOf items packed lanes k).get l = indexAt items packed lanes (k * lanes + l.val) :=
  Lanes.get_ofFn _ l

theorem next_after (items : Int) (packed : Option (Array (BitVec w))) (k : Nat) :
    (after items packed lanes k).next =
      (indexesOf items packed lanes k, after items packed lanes (k + 1)) := by
  cases packed with
  | none => exact Prod.ext (Lanes.ext fun l => by simp [after, next, indexAt]) rfl
  | some words =>
    by_cases none_read : items ≤ 0
    · refine Prod.ext (Lanes.ext fun l => ?_) ?_ <;> simp [after, next, indexAt, none_read]
    · have some_read : 0 < items.toNat := by omega
      refine Prod.ext (Lanes.ext fun l => ?_) ?_ <;>
        simp [after, next, indexAt, none_read, Cursor.next_after words some_read]

end Reader

end LaneBoost.Pack
