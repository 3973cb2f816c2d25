import LaneBoost.Cells
import LaneBoost.Proofs.PackedReading

/-!
# Packing and reading back

Each sample has a field of its own: samples of one word are in different fields of it. Putting an index
into its field therefore leaves all other fields alone, and what has been packed is what the kernels
read.
-/
namespace LaneBoost.Pack

variable {w items lanes : Nat}

/-! ### Fields -/

/-- The field of a sample within its word. -/
def fieldOf (items lanes sample : Nat) : Nat := sample % (lanes * items) / lanes

theorem shiftOf_eq (width items lanes s : Nat) :
    shiftOf width items lanes s = fieldOf items lanes s * fieldBits width items := rfl

theorem fieldOf_lt (some_lanes : 0 < lanes) (some_items : 0 < items) (s : Nat) :
    fieldOf items lanes s < items :=
  Nat.div_lt_of_lt_mul (Nat.mod_lt s (Nat.mul_pos some_lanes some_items))

/-- A field ends within its word. -/
theorem field_end_le (some_lanes : 0 < lanes) (some_items : 0 < items) (s : Nat) :
    shiftOf w items lanes s + fieldBits w items ≤ w := by
  have last := Nat.mul_le_mul_right (fieldBits w items)
    (Nat.succ_le_of_lt (fieldOf_lt some_lanes some_items s))
  rw [Nat.succ_mul] at last
  exact Nat.le_trans last (Nat.mul_div_le w items)

/-- Word and field belong to one sample only. -/
theorem eq_of_wordOf_eq (some_lanes : 0 < lanes) {s t : Nat}
    (word : wordOf items lanes s = wordOf items lanes t)
    (field : fieldOf items lanes s = fieldOf items lanes t) : s = t := by
  have lane : ∀ u, wordOf items lanes u % lanes = u % lanes := fun u => by
    rw [wordOf, Nat.mul_comm, Nat.mul_add_mod, Nat.mod_mod]
  have row : ∀ u, wordOf items lanes u / lanes = u / (lanes * items) := fun u => by
    rw [wordOf, Nat.mul_comm _ lanes, Nat.mul_add_div some_lanes,
      Nat.div_eq_of_lt (Nat.mod_lt u some_lanes), Nat.add_zero]
  have rebuilt : ∀ u, u = lanes * items * (wordOf items lanes u / lanes) +
      (lanes * fieldOf items lanes u + wordOf items lanes u % lanes) := by
    intro u
    have inner := Nat.div_add_mod (u % (lanes * items)) lanes
    rw [Nat.mod_mul_right_mod] at inner
    rw [row, lane, fieldOf, inner, Nat.div_add_mod]
  rw [rebuilt s, rebuilt t, word, field]

/-- The word of a packed sample is there. -/
theorem wordOf_lt (some_lanes : 0 < lanes) (some_items : 0 < items) {samples s : Nat}
    (hs : s < samples) : wordOf items lanes s < wordCount items lanes samples := by
  have some := Nat.mul_pos some_lanes some_items
  have hl := Nat.mod_lt s some_lanes
  have row : s / (lanes * items) < (samples + (lanes * items - 1)) / (lanes * items) := by
    have later : s + lanes * items ≤ samples + (lanes * items - 1) := by omega
    have quotient := Nat.div_le_div_right (c := lanes * items) later
    rw [Nat.add_div_right s some] at quotient
    exact quotient
  exact @lane_lt lanes _ _ row ⟨s % lanes, hl⟩

/-! ### Bits of a field -/

theorem getLsbD_lowMask (bits i : Nat) (hi : i < w) :
    (Word.lowMask w bits).getLsbD i = decide (i < bits) := by
  rw [Word.lowMask]
  split
  case isTrue h =>
    have inside : i < bits := by omega
    simp [hi, inside]
  case isFalse h =>
    rw [BitVec.getLsbD_ofNat, twoPow, Nat.pow_eq, Nat.testBit_two_pow_sub_one]
    simp [hi]

theorem getLsbD_fieldAt (words : Array (BitVec w)) (s i : Nat) (hi : i < w) :
    (fieldAt words items lanes s).getLsbD i =
      (decide (i < fieldBits w items) &&
        (words.getD (wordOf items lanes s) 0).getLsbD (shiftOf w items lanes s + i)) := by
  rw [fieldAt, BitVec.getLsbD_and, getLsbD_lowMask _ _ hi, BitVec.getLsbD_ushiftRight, Bool.and_comm]

/-- An index that fits a field has no bits above it. -/
theorem getLsbD_ofNat_of_lt {index bits i : Nat} (small : index < twoPow bits) (high : bits ≤ i) :
    (BitVec.ofNat w index).getLsbD i = false := by
  have below : index < 2 ^ i := Nat.lt_of_lt_of_le small (Nat.pow_le_pow_right (by decide) high)
  rw [BitVec.getLsbD_ofNat, Nat.testBit_lt_two_pow below, Bool.and_false]

/-- Putting an index into a field leaves the other fields alone. -/
theorem fieldAt_insert_of_ne (some_lanes : 0 < lanes) (words : Array (BitVec w)) {s t index : Nat}
    (small : index < twoPow (fieldBits w items)) (h : s ≠ t) :
    fieldAt (insert items lanes words s index) items lanes t = fieldAt words items lanes t := by
  apply BitVec.eq_of_getLsbD_eq
  intro i hi
  rw [getLsbD_fieldAt _ _ _ hi, getLsbD_fieldAt _ _ _ hi, insert, Cells.getD_modify]
  split
  case isFalse => rfl
  case isTrue here =>
    by_cases inside : i < fieldBits w items
    · have apart : fieldOf items lanes s ≠ fieldOf items lanes t := fun e =>
        h (eq_of_wordOf_eq some_lanes here.1 e)
      have untouched : (BitVec.ofNat w index <<< shiftOf w items lanes s).getLsbD
          (shiftOf w items lanes t + i) = false := by
        rw [BitVec.getLsbD_shiftLeft, shiftOf_eq, shiftOf_eq]
        rcases Nat.lt_or_gt_of_ne apart with before | behind
        · have later := Nat.mul_le_mul_right (fieldBits w items) (Nat.succ_le_of_lt before)
          rw [Nat.succ_mul] at later
          have high : fieldBits w items ≤ fieldOf items lanes t * fieldBits w items + i -
              fieldOf items lanes s * fieldBits w items := by omega
          rw [getLsbD_ofNat_of_lt small high, Bool.and_false]
        · have later := Nat.mul_le_mul_right (fieldBits w items) (Nat.succ_le_of_lt behind)
          rw [Nat.succ_mul] at later
          have low : fieldOf items lanes t * fieldBits w items + i <
              fieldOf items lanes s * fieldBits w items := by omega
          simp [low]
      rw [BitVec.getLsbD_or, untouched, Bool.or_false, here.1]
    · simp [inside]

/-- In its own field an index joins what is there. -/
theorem fieldAt_insert_self (some_lanes : 0 < lanes) (some_items : 0 < items)
    (words : Array (BitVec w)) {s index : Nat} (small : index < twoPow (fieldBits w items))
    (there : wordOf items lanes s < words.size) :
    fieldAt (insert items lanes words s index) items lanes s =
      fieldAt words items lanes s ||| BitVec.ofNat w index := by
  apply BitVec.eq_of_getLsbD_eq
  intro i hi
  rw [BitVec.getLsbD_or, getLsbD_fieldAt _ _ _ hi, getLsbD_fieldAt _ _ _ hi, insert,
    Cells.getD_modify, if_pos ⟨rfl, there⟩, BitVec.getLsbD_or, BitVec.getLsbD_shiftLeft]
  by_cases inside : i < fieldBits w items
  · have fits := @field_end_le w items lanes some_lanes some_items s
    have bit : shiftOf w items lanes s + i < w := by omega
    have after : ¬ shiftOf w items lanes s + i < shiftOf w items lanes s := by omega
    rw [Nat.add_sub_cancel_left]
    simp only [inside, bit, after, decide_true, decide_false, Bool.not_false, Bool.true_and]
  · have zero : (BitVec.ofNat w index).getLsbD i = false :=
      getLsbD_ofNat_of_lt small (Nat.le_of_not_lt inside)
    simp only [inside, zero, decide_false, Bool.false_and, Bool.or_self]

/-! ### Whole lists -/

/-- The words once the first `k` indexes have been put in. -/
def encodeUpTo (width items lanes : Nat) (indexes : Array Nat) (k : Nat) : Array (BitVec width) :=
  (List.range k).foldl (fun words s => insert items lanes words s (indexes.getD s 0))
    (Array.replicate (wordCount items lanes indexes.size) (0 : BitVec width))

theorem encodeUpTo_succ (indexes : Array Nat) (k : Nat) :
    encodeUpTo w items lanes indexes (k + 1) =
      insert items lanes (encodeUpTo w items lanes indexes k) k (indexes.getD k 0) := by
  simp [encodeUpTo, List.range_succ]

@[simp] theorem size_encodeUpTo (indexes : Array Nat) (k : Nat) :
    (encodeUpTo w items lanes indexes k).size = wordCount items lanes indexes.size := by
  induction k with
  | zero => simp [encodeUpTo]
  | succ k ih => rw [encodeUpTo_succ, insert, Array.size_modify, ih]

/-- Nothing is in the fields of new words. -/
theorem fieldAt_replicate (n s : Nat) :
    fieldAt (Array.replicate n (0 : BitVec w)) items lanes s = 0 := by
  have word : (Array.replicate n (0 : BitVec w)).getD (wordOf items lanes s) 0 = 0#w := by
    rw [Array.getD_eq_getD_getElem?, Array.getElem?_replicate]
    split <;> rfl
  rw [fieldAt, word, BitVec.zero_ushiftRight, BitVec.zero_and]
  rfl

/-- The fields of the first samples hold their indexes, the others are still empty. -/
theorem fieldAt_encodeUpTo (some_lanes : 0 < lanes) (some_items : 0 < items) (indexes : Array Nat)
    (small : ∀ s, indexes.getD s 0 < twoPow (fieldBits w items)) (k : Nat) (hk : k ≤ indexes.size)
    (s : Nat) :
    fieldAt (encodeUpTo w items lanes indexes k) items lanes s =
      if s < k then BitVec.ofNat w (indexes.getD s 0) else 0 := by
  induction k generalizing s with
  | zero => exact fieldAt_replicate _ s
  | succ k ih =>
    have before := ih (Nat.le_of_succ_le hk)
    rw [encodeUpTo_succ]
    by_cases here : k = s
    · subst here
      have there := @wordOf_lt items lanes some_lanes some_items _ _ (Nat.lt_of_succ_le hk)
      rw [fieldAt_insert_self some_lanes some_items _ (small k) (by rwa [size_encodeUpTo]), before,
        if_neg (Nat.lt_irrefl k), if_pos (Nat.lt_succ_self k), Word.zero_eq, BitVec.zero_or]
    · have same : s < k + 1 ↔ s < k := by omega
      rw [fieldAt_insert_of_ne some_lanes _ (small k) here, before]
      simp only [same]

/-- What is packed is what is read. -/
theorem fieldAt_encode (some_lanes : 0 < lanes) (some_items : 0 < items) {indexes : Array Nat}
    (small : ∀ s, indexes.getD s 0 < twoPow (fieldBits w items)) {s : Nat} (hs : s < indexes.size) :
    fieldAt (encode w items lanes indexes) items lanes s = BitVec.ofNat w (indexes.getD s 0) := by
  have packed := fieldAt_encodeUpTo some_lanes some_items indexes small indexes.size
    (Nat.le_refl _) s
  rwa [if_pos hs] at packed

/-! ### Accepted lists -/

theorem lift_ok_bind {α β : Type} (a : α) (f : α → Except Fault β) :
    ((liftM (Except.ok a : Checked α) : Except Fault α) >>= f) = f a := rfl

theorem lift_error_bind {α β : Type} (v : Violation) (f : α → Except Fault β) :
    ((liftM (Except.error v : Checked α) : Except Fault α) >>= f) = .error (.violated v) := rfl

/-- What `pack` does, as a chain of conditions. -/
theorem pack_eq (indexes : Array Nat) (items lanes bytes : Nat) :
    pack indexes items lanes bytes =
      if sizeBound ≤ bytes * 8 then .error (.violated .overflow)
      else if ¬ Accepts indexes.size items lanes bytes then .error (.failed .illegalParameter)
      else if indexes.any (twoPow (fieldBits (bytes * 8) items) ≤ ·) then
        .error (.failed .illegalParameter)
      else if sizeBound ≤ lanes * items then .error (.violated .overflow)
      else .ok ⟨bytes * 8, encode (bytes * 8) items lanes indexes⟩ := by
  by_cases wide : sizeBound ≤ bytes * 8
  · rw [if_pos wide, pack, size_of_le wide, lift_error_bind]
  · rw [if_neg wide, pack, size_of_lt (Nat.lt_of_not_le wide), lift_ok_bind]
    by_cases accepts : ¬ Accepts indexes.size items lanes bytes
    · rw [if_pos accepts, if_pos accepts]
      rfl
    · rw [if_neg accepts, if_neg accepts]
      by_cases large : indexes.any (twoPow (fieldBits (bytes * 8) items) ≤ ·) = true
      · rw [if_pos large, if_pos large]
        rfl
      · rw [if_neg large, if_neg large]
        by_cases words : sizeBound ≤ lanes * items
        · rw [if_pos words, size_of_le words, lift_error_bind]
        · rw [if_neg words, size_of_lt (Nat.lt_of_not_le words), lift_ok_bind]
          rfl

theorem none_large_iff (indexes : Array Nat) (bits : Nat) :
    ¬ indexes.any (twoPow bits ≤ ·) = true ↔ ∀ x ∈ indexes, x < twoPow bits := by
  rw [Array.any_eq_true]
  constructor
  · intro none_large x hx
    obtain ⟨i, hi, rfl⟩ := Array.mem_iff_getElem.1 hx
    exact Nat.lt_of_not_le fun large => none_large ⟨i, hi, decide_eq_true large⟩
  · rintro small ⟨i, hi, large⟩
    exact Nat.not_le.2 (small _ (Array.getElem_mem hi)) (of_decide_eq_true large)

theorem getD_lt_of_small {indexes : Array Nat} {bits : Nat}
    (small : ∀ x ∈ indexes, x < twoPow bits) (s : Nat) : indexes.getD s 0 < twoPow bits := by
  by_cases hs : s < indexes.size
  · rw [show indexes.getD s 0 = indexes[s] from (Array.getElem_eq_getD 0).symm]
    exact small _ (Array.getElem_mem hs)
  · rw [show indexes.getD s 0 = 0 by simp [hs]]
    exact twoPow_pos _

/-- A list that is packed satisfies all conditions, and the words are those of its indexes. -/
theorem of_pack_eq_ok {indexes : Array Nat} {items lanes bytes : Nat} {p : Packed}
    (h : pack indexes items lanes bytes = .ok p) :
    Accepts indexes.size items lanes bytes ∧
      (∀ s, indexes.getD s 0 < twoPow (fieldBits (bytes * 8) items)) ∧
      p = ⟨bytes * 8, encode (bytes * 8) items lanes indexes⟩ := by
  rw [pack_eq] at h
  split at h
  · cases h
  · split at h
    · cases h
    · rename_i accepts
      split at h
      · cases h
      · rename_i none_large
        split at h
        · cases h
        · have small := getD_lt_of_small ((none_large_iff _ _).1 none_large)
          exact ⟨not_not.1 accepts, small, (Except.ok.inj h).symm⟩

/-- An index that fits its field is read back as it was. -/
theorem toNat_fieldAt_encode {w items lanes : Nat} (some_lanes : 0 < lanes) (some_items : 0 < items)
    {indexes : Array Nat} (small : ∀ s, indexes.getD s 0 < twoPow (fieldBits w items)) {s : Nat}
    (hs : s < indexes.size) :
    (fieldAt (encode w items lanes indexes) items lanes s).toNat = indexes.getD s 0 := by
  have narrow : fieldBits w items ≤ w := Nat.div_le_self _ _
  have fits := Nat.lt_of_lt_of_le (small s) (Nat.pow_le_pow_right (by decide) narrow)
  rw [fieldAt_encode some_lanes some_items small hs, BitVec.toNat_ofNat, Nat.mod_eq_of_lt fits]

/-- A kernel that is handed packed words reads the indexes that were packed. -/
theorem toNat_indexAt_of_pack {indexes : Array Nat} {items : Int} {lanes bytes : Nat}
    {words : Array (BitVec (bytes * 8))}
    (h : pack indexes items.toNat lanes bytes = .ok ⟨bytes * 8, words⟩) {s : Nat}
    (hs : s < indexes.size) :
    (indexAt items (some words) lanes s).toNat = indexes.getD s 0 := by
  obtain ⟨accepts, small, packed⟩ := of_pack_eq_ok h
  have words_eq : words = encode (bytes * 8) items.toNat lanes indexes :=
    eq_of_heq (Packed.mk.inj packed).2
  have some_lanes : 0 < lanes := Nat.pos_of_ne_zero accepts.1
  have some_items : 0 < items.toNat := accepts.2.2.1
  rw [indexAt_some _ (by omega), words_eq, toNat_fieldAt_encode some_lanes some_items small hs]

/-- Packed words have between one item and one for each bit. -/
theorem items_le_of_pack {indexes : Array Nat} {items : Int} {lanes bytes : Nat} {p : Packed}
    (h : pack indexes items.toNat lanes bytes = .ok p) : items ≤ (bytes * 8 : Nat) := by
  obtain ⟨⟨-, -, -, most, -⟩, -, -⟩ := of_pack_eq_ok h
  omega

end LaneBoost.Pack
