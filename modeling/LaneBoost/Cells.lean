/-!
# Cells in 64-bit storage

Storage is a row of 64-bit words. A cell of width `w`, which divides 64, is a part of a word: cell
`slot` starts at bit `slot * w` of the row, lowest bits first. Reading beyond the storage gives zero
and writing there changes nothing.
-/
namespace LaneBoost

structure Cells where
  words : Array (BitVec 64)
  deriving DecidableEq, Repr

namespace Cells

def ofBytes (bytes : Nat) : Cells := ⟨Array.replicate ((bytes + 7) / 8) 0#64⟩

/-- The bits of a cell of width `w`. -/
def peek (c : Cells) (w slot : Nat) : BitVec w :=
  (c.words.getD (slot * w / 64) 0#64).extractLsb' (slot * w % 64) w

/-- A word whose bits from `start` on are replaced by `v`. -/
def splice {w : Nat} (word : BitVec 64) (start : Nat) (v : BitVec w) : BitVec 64 :=
  (word &&& ~~~((BitVec.allOnes w).setWidth 64 <<< start)) ||| (v.setWidth 64 <<< start)

def poke {w : Nat} (c : Cells) (slot : Nat) (v : BitVec w) : Cells :=
  ⟨c.words.modify (slot * w / 64) (splice · (slot * w % 64) v)⟩

/-- Every cell zero, in the same storage. -/
def clear (c : Cells) : Cells := ⟨Array.replicate c.words.size 0#64⟩

@[simp] theorem size_poke {w : Nat} (c : Cells) (slot : Nat) (v : BitVec w) :
    (c.poke slot v).words.size = c.words.size := by simp [poke]

@[simp] theorem size_clear (c : Cells) : c.clear.words.size = c.words.size := by simp [clear]

theorem peek_replicate (n w slot : Nat) : peek ⟨Array.replicate n 0#64⟩ w slot = 0#(w) := by
  have : (Array.replicate n 0#64).getD (slot * w / 64) 0#64 = 0#64 := by
    simp [Array.getD_eq_getD_getElem?, Array.getElem?_replicate]
    split <;> rfl
  rw [peek, this]
  apply BitVec.eq_of_getLsbD_eq
  simp

@[simp] theorem peek_ofBytes (bytes w slot : Nat) : (ofBytes bytes).peek w slot = 0#(w) :=
  peek_replicate _ w slot

@[simp] theorem peek_clear (c : Cells) (w slot : Nat) : c.clear.peek w slot = 0#(w) :=
  peek_replicate _ w slot

/-! ### A cell among the others -/

theorem getLsbD_splice {w : Nat} (word : BitVec 64) (start : Nat) (v : BitVec w) (i : Nat)
    (hi : i < 64) :
    (splice word start v).getLsbD i =
      if start ≤ i ∧ i < start + w then v.getLsbD (i - start) else word.getLsbD i := by
  simp only [splice, BitVec.getLsbD_or, BitVec.getLsbD_and, BitVec.getLsbD_not,
    BitVec.getLsbD_shiftLeft, BitVec.getLsbD_setWidth, BitVec.getLsbD_allOnes]
  by_cases h : start ≤ i
  · by_cases h' : i < start + w
    · have : i - start < 64 := by omega
      have h2 : i - start < w := by omega
      simp [h, h', hi, this, h2, Nat.not_lt.2 h]
    · have h2 : ¬ i - start < w := by omega
      simp [h, h', hi, h2, BitVec.getLsbD_of_ge v (i - start) (by omega)]
  · simp [h, hi, Nat.lt_of_not_le h]

theorem getLsbD_peek (c : Cells) (w slot k : Nat) (hk : k < w) :
    (c.peek w slot).getLsbD k =
      (c.words.getD (slot * w / 64) 0#64).getLsbD (slot * w % 64 + k) := by
  simp [peek, hk]

theorem slot_div {w q : Nat} (hq : 64 = w * q) (hw : 0 < w) (i : Nat) : i * w / 64 = i / q := by
  rw [hq, Nat.mul_comm i w, Nat.mul_div_mul_left _ _ hw]

theorem slot_mod {w q : Nat} (hq : 64 = w * q) (i : Nat) : i * w % 64 = w * (i % q) := by
  rw [hq, Nat.mul_comm i w, Nat.mul_mod_mul_left]

theorem getD_modify {α : Type} (xs : Array α) (i j : Nat) (f : α → α) (d : α) :
    (xs.modify i f).getD j d = if i = j ∧ i < xs.size then f (xs.getD i d) else xs.getD j d := by
  simp only [Array.getD_eq_getD_getElem?, Array.getElem?_modify]
  by_cases h : i = j
  · subst h
    by_cases hi : i < xs.size <;> simp [hi]
  · simp [h]

/-- A cell that is written inside the storage changes, and no other cell does. -/
theorem peek_poke {w : Nat} (hw : w ∣ 64) (c : Cells) (i j : Nat) (v : BitVec w) :
    (c.poke j v).peek w i = if i = j ∧ j * w / 64 < c.words.size then v else c.peek w i := by
  obtain ⟨q, hq⟩ := hw
  have hw0 : 0 < w := Nat.pos_of_ne_zero (by rintro rfl; omega)
  have hq0 : 0 < q := Nat.pos_of_ne_zero (by rintro rfl; omega)
  have fits : w * (i % q) + w ≤ 64 := by
    have := Nat.mul_le_mul_left w (Nat.mod_lt i hq0)
    rw [Nat.mul_succ, ← hq] at this
    exact this
  apply BitVec.eq_of_getLsbD_eq
  intro k hk
  rw [getLsbD_peek _ _ _ _ hk, poke, getD_modify, slot_div hq hw0, slot_div hq hw0, slot_mod hq,
    slot_mod hq]
  by_cases here : j / q = i / q ∧ j / q < c.words.size
  · rw [if_pos here, getLsbD_splice _ _ _ _ (by omega)]
    by_cases h : i = j
    · subst h
      simp [here.2, hk]
    · have apart : i % q ≠ j % q := fun e =>
        h (by rw [← Nat.div_add_mod i q, ← Nat.div_add_mod j q, here.1, e])
      have outside : ¬ (w * (j % q) ≤ w * (i % q) + k ∧ w * (i % q) + k < w * (j % q) + w) := by
        rintro ⟨h1, h2⟩
        rcases Nat.lt_or_gt_of_ne apart with lt | gt
        · have := Nat.mul_le_mul_left w (Nat.succ_le_of_lt lt)
          rw [Nat.mul_succ] at this
          omega
        · have := Nat.mul_le_mul_left w (Nat.succ_le_of_lt gt)
          rw [Nat.mul_succ] at this
          omega
      rw [if_neg outside, if_neg (fun e => h e.1), getLsbD_peek _ _ _ _ hk, slot_div hq hw0,
        slot_mod hq, here.1]
  · have other : ¬ (i = j ∧ j / q < c.words.size) := fun e => here ⟨by rw [e.1], e.2⟩
    rw [if_neg here, if_neg other, getLsbD_peek _ _ _ _ hk, slot_div hq hw0, slot_mod hq]

end Cells

end LaneBoost
