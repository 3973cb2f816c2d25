import LaneBoost.Proofs.Unpacking

/-!
# Packing and unpacking undo each other

Packing succeeds just on the indexes that fill whole groups and fit their fields, and every other
request is an illegal parameter. What has been packed is unpacked again, any part of it from the
start, and no bit outside the samples' fields is set. Words without bits above their fields are the
packing of what they unpack to.
-/
namespace LaneBoost.Pack

variable {w items lanes : Nat}

/-! ### Bits outside the fields -/

/-- A bit of a word that lies in the field of a sample. -/
def InField (width items lanes s i bit : Nat) : Prop :=
  wordOf items lanes s = i ∧ shiftOf width items lanes s ≤ bit ∧
    bit < shiftOf width items lanes s + fieldBits width items

theorem getLsbD_insert_of_not_inField (words : Array (BitVec w)) {s index i bit : Nat}
    (small : index < twoPow (fieldBits w items)) (outside : ¬ InField w items lanes s i bit) :
    ((insert items lanes words s index).getD i 0).getLsbD bit = (words.getD i 0).getLsbD bit := by
  rw [insert, Cells.getD_modify]
  split
  case isFalse => rfl
  case isTrue here =>
    have untouched : (BitVec.ofNat w index <<< shiftOf w items lanes s).getLsbD bit = false := by
      rw [BitVec.getLsbD_shiftLeft]
      by_cases below : bit < shiftOf w items lanes s
      · simp [below]
      · have above : fieldBits w items ≤ bit - shiftOf w items lanes s := by
          rw [InField] at outside
          omega
        rw [getLsbD_ofNat_of_lt small above, Bool.and_false]
    rw [BitVec.getLsbD_or, untouched, Bool.or_false, here.1]

/-- Nothing is set outside the fields of the samples. -/
theorem getLsbD_encode_of_outside {indexes : Array Nat}
    (small : ∀ s, indexes.getD s 0 < twoPow (fieldBits w items)) {i bit : Nat}
    (outside : ∀ s, s < indexes.size → ¬ InField w items lanes s i bit) :
    ((encode w items lanes indexes).getD i 0).getLsbD bit = false := by
  refine foldl_range_induct
    (fun _ (words : Array (BitVec w)) => (words.getD i 0).getLsbD bit = false) _ indexes.size _ ?_
    fun s words hs clear => ?_
  · rw [Array.getD_eq_getD_getElem?, Array.getElem?_replicate]
    split <;> simp
  · exact (getLsbD_insert_of_not_inField words (small s) (outside s hs)).trans clear

/-! ### Every field has a sample -/

theorem fieldOf_lane (g : Nat) (l : Fin lanes) :
    fieldOf items lanes (g * lanes + l.val) = g % items := by
  rw [fieldOf, Nat.mod_mul_right_div_self, lane_div]

theorem exists_sample {rows i field : Nat} (hi : i < rows * lanes) (hf : field < items) :
    ∃ s, s < rows * lanes * items ∧ wordOf items lanes s = i ∧ fieldOf items lanes s = field := by
  have some_lanes : 0 < lanes := Nat.pos_of_ne_zero (by rintro rfl; simp at hi)
  let l : Fin lanes := ⟨i % lanes, Nat.mod_lt i some_lanes⟩
  let g := i / lanes * items + field
  have row : i / lanes < rows := Nat.div_lt_of_lt_mul (by rwa [Nat.mul_comm])
  have group_div : g / items = i / lanes := @lane_div items (i / lanes) ⟨field, hf⟩
  have group_mod : g % items = field := @lane_mod items (i / lanes) ⟨field, hf⟩
  refine ⟨g * lanes + l.val, ?_, ?_, ?_⟩
  · rw [Nat.mul_right_comm]
    exact lane_lt (@lane_lt items rows _ row ⟨field, hf⟩) l
  · rw [wordOf_lane, group_div, Nat.div_add_mod']
  · rw [fieldOf_lane, group_mod]

/-- A bit below the end of the last field lies in one of the fields. -/
theorem shiftOf_add_mod {s bit : Nat} (field : fieldOf items lanes s = bit / fieldBits w items) :
    shiftOf w items lanes s + bit % fieldBits w items = bit := by
  rw [shiftOf_eq, field, Nat.div_add_mod']

theorem fieldBits_pos (some_items : 0 < items) (fits : items ≤ w) : 0 < fieldBits w items :=
  Nat.div_pos fits some_items

/-! ### Unpacking what has been packed -/

@[simp] theorem size_encode (indexes : Array Nat) :
    (encode w items lanes indexes).size = wordCount items lanes indexes.size :=
  size_encodeUpTo indexes indexes.size

theorem wordCount_mono {m n : Nat} (h : m ≤ n) : wordCount items lanes m ≤ wordCount items lanes n :=
  Nat.mul_le_mul_right _ (Nat.div_le_div_right (by omega))

/-- Unpacking any number of samples gives as many of the indexes that were packed. -/
theorem unpack_encode (some_lanes : 0 < lanes) (some_items : 0 < items)
    (group_lt : lanes * items < sizeBound) {indexes : Array Nat}
    (small : ∀ s, indexes.getD s 0 < twoPow (fieldBits w items)) {m : Nat} (hm : m ≤ indexes.size) :
    unpack (encode w items lanes indexes) items lanes m = .ok (indexes.toList.take m) := by
  rw [unpack_eq _ some_lanes some_items group_lt (by rw [size_encode]; exact wordCount_mono hm)]
  refine congrArg Except.ok (List.ext_getElem (by simp [hm]) fun s hs _ => ?_)
  have sample : s < m := by simpa using hs
  rw [List.getElem_map, List.getElem_range,
    toNat_fieldAt_encode some_lanes some_items small (by omega)]
  simp [show s < indexes.size by omega]

/-! ### Packing what has been unpacked -/

/-- The indexes in the fields of some words. -/
def fieldsOf (words : Array (BitVec w)) (items lanes samples : Nat) : Array Nat :=
  ((List.range samples).map fun s => (fieldAt words items lanes s).toNat).toArray

@[simp] theorem size_fieldsOf (words : Array (BitVec w)) (samples : Nat) :
    (fieldsOf words items lanes samples).size = samples := by
  simp [fieldsOf]

theorem getD_fieldsOf (words : Array (BitVec w)) {samples s : Nat} (hs : s < samples) :
    (fieldsOf words items lanes samples).getD s 0 = (fieldAt words items lanes s).toNat := by
  simp [fieldsOf, hs]

/-- What is read from a field fits it. -/
theorem fieldAt_lt (words : Array (BitVec w)) (s : Nat) :
    (fieldAt words items lanes s).toNat < twoPow (fieldBits w items) := by
  refine Nat.lt_pow_two_of_testBit _ fun i hi => ?_
  by_cases inside : i < w
  · have bit := @getLsbD_fieldAt w items lanes words s i inside
    rw [decide_eq_false (Nat.not_lt.2 hi), Bool.false_and] at bit
    exact bit
  · exact BitVec.getLsbD_of_ge _ _ (Nat.le_of_not_lt inside)

theorem fieldsOf_lt (words : Array (BitVec w)) (samples s : Nat) :
    (fieldsOf words items lanes samples).getD s 0 < twoPow (fieldBits w items) := by
  by_cases hs : s < samples
  · rw [getD_fieldsOf words hs]
    exact fieldAt_lt words s
  · rw [show (fieldsOf words items lanes samples).getD s 0 = 0 by simp [hs]]
    exact twoPow_pos _

/-- Words of whole rows without bits above their fields are the packing of their fields. -/
theorem encode_fieldsOf (some_lanes : 0 < lanes) (some_items : 0 < items) (fits : items ≤ w)
    {words : Array (BitVec w)} {rows : Nat} (size : words.size = rows * lanes)
    (clear : ∀ x ∈ words, ∀ bit, items * fieldBits w items ≤ bit → x.getLsbD bit = false) :
    encode w items lanes (fieldsOf words items lanes (rows * lanes * items)) = words := by
  let indexes := fieldsOf words items lanes (rows * lanes * items)
  have small := @fieldsOf_lt w items lanes words (rows * lanes * items)
  have count : (encode w items lanes indexes).size = words.size := by
    have rows_eq : (rows * lanes * items) ⌈/⌉ (lanes * items) = rows := by
      rw [Nat.mul_assoc, Nat.mul_comm]
      exact smul_ceilDiv (Nat.mul_pos some_lanes some_items) rows
    rw [size_encode, size_fieldsOf, size, wordCount_eq_ceilDiv some_lanes some_items, rows_eq]
  refine Array.ext count fun i hi hi' => BitVec.eq_of_getLsbD_eq fun bit hbit => ?_
  have bits := fieldBits_pos some_items fits
  have word : words[i] = words.getD i 0 := Array.getElem_eq_getD 0
  rw [Array.getElem_eq_getD 0, word]
  by_cases inside : bit < items * fieldBits w items
  · obtain ⟨s, hs, here, field⟩ := @exists_sample items lanes rows i (bit / fieldBits w items)
      (size ▸ hi') (Nat.div_lt_of_lt_mul (by rwa [Nat.mul_comm]))
    have same : fieldAt (encode w items lanes indexes) items lanes s =
        fieldAt words items lanes s := by
      apply BitVec.eq_of_toNat_eq
      rw [toNat_fieldAt_encode some_lanes some_items small (by rwa [size_fieldsOf]),
        getD_fieldsOf words hs]
    have small_bit : bit % fieldBits w items < fieldBits w items := Nat.mod_lt _ bits
    have in_word : bit % fieldBits w items < w := Nat.lt_of_lt_of_le small_bit (Nat.div_le_self _ _)
    have bit_eq := congrArg (fun x => x.getLsbD (bit % fieldBits w items)) same
    simpa only [getLsbD_fieldAt _ _ _ in_word, here, shiftOf_add_mod field, small_bit, decide_true,
      Bool.true_and] using bit_eq
  · have above : items * fieldBits w items ≤ bit := Nat.le_of_not_lt inside
    have last : ∀ s, ¬ InField w items lanes s i bit := by
      rintro s ⟨-, -, before⟩
      have field := Nat.mul_le_mul_right (fieldBits w items)
        (Nat.succ_le_of_lt (fieldOf_lt some_lanes some_items s))
      rw [Nat.succ_mul] at field
      rw [shiftOf_eq] at before
      omega
    rw [getLsbD_encode_of_outside small fun s _ => last s, ← word]
    exact (clear _ (Array.getElem_mem hi') bit above).symm

/-! ### What can be packed -/

/-- The indexes fill the lanes of their groups, words have 4 or 8 bytes and an item for each bit at
most, and every index fits into the bits of an item. -/
structure Packable (indexes : Array Nat) (items lanes bytes : Nat) : Prop where
  some_lanes : 1 ≤ lanes
  whole : lanes ∣ indexes.size
  bytes_eq : bytes = 4 ∨ bytes = 8
  some_items : 1 ≤ items
  fits : items ≤ bytes * 8
  small : ∀ x ∈ indexes, x < 2 ^ (bytes * 8 / items)

theorem accepts_iff (samples items lanes bytes : Nat) :
    Accepts samples items lanes bytes ↔
      1 ≤ lanes ∧ lanes ∣ samples ∧ (bytes = 4 ∨ bytes = 8) ∧ 1 ≤ items ∧ items ≤ bytes * 8 := by
  rw [Accepts, Nat.dvd_iff_mod_eq_zero, Nat.one_le_iff_ne_zero (n := lanes)]
  tauto

theorem packable_iff (indexes : Array Nat) (items lanes bytes : Nat) :
    Packable indexes items lanes bytes ↔ Accepts indexes.size items lanes bytes ∧
      ¬ indexes.any (twoPow (fieldBits (bytes * 8) items) ≤ ·) = true := by
  rw [accepts_iff, none_large_iff]
  constructor
  · intro h
    exact ⟨⟨h.some_lanes, h.whole, h.bytes_eq, h.some_items, h.fits⟩, h.small⟩
  · rintro ⟨⟨some_lanes, whole, bytes_eq, some_items, fits⟩, small⟩
    exact ⟨some_lanes, whole, bytes_eq, some_items, fits, small⟩

theorem pack_of_packable {indexes : Array Nat} {items lanes bytes : Nat}
    (width_lt : bytes * 8 < sizeBound) (group_lt : lanes * items < sizeBound)
    (h : Packable indexes items lanes bytes) :
    pack indexes items lanes bytes = .ok ⟨bytes * 8, encode (bytes * 8) items lanes indexes⟩ := by
  obtain ⟨accepts, none_large⟩ := (packable_iff _ _ _ _).1 h
  rw [pack_eq, if_neg (Nat.not_le.2 width_lt), if_neg (not_not.2 accepts), if_neg none_large,
    if_neg (Nat.not_le.2 group_lt)]

theorem pack_of_not_packable {indexes : Array Nat} {items lanes bytes : Nat}
    (width_lt : bytes * 8 < sizeBound) (h : ¬ Packable indexes items lanes bytes) :
    pack indexes items lanes bytes = .error (.failed .illegalParameter) := by
  rw [packable_iff, not_and_or] at h
  rw [pack_eq, if_neg (Nat.not_le.2 width_lt)]
  rcases h with refused | large
  · rw [if_pos refused]
  · rw [if_pos (not_not.1 large), ite_self]

/-! ### Both ways -/

/-- Words that hold some indexes, in as many groups of lanes as it takes, and nothing beside them. -/
structure Holds (words : Array (BitVec w)) (items lanes : Nat) (indexes : Array Nat) : Prop where
  size_eq : words.size = indexes.size ⌈/⌉ (lanes * items) * lanes
  unpacked : ∀ m, m ≤ indexes.size → unpack words items lanes m = .ok (indexes.toList.take m)
  clear : ∀ i bit, (∀ s, s < indexes.size → ¬ InField w items lanes s i bit) →
    (words.getD i 0).getLsbD bit = false

theorem Packable.holds {indexes : Array Nat} {items lanes bytes : Nat}
    (group_lt : lanes * items < sizeBound) (h : Packable indexes items lanes bytes) :
    Holds (encode (bytes * 8) items lanes indexes) items lanes indexes where
  size_eq := by rw [size_encode, wordCount_eq_ceilDiv h.some_lanes h.some_items]
  unpacked _ := unpack_encode h.some_lanes h.some_items group_lt (getD_lt_of_small h.small)
  clear _ _ := getLsbD_encode_of_outside (getD_lt_of_small h.small)

/-- Indexes are packed just if they can be, and any others are an illegal parameter; packed words hold
their indexes. Conversely, whole rows of words without bits above their fields are the packing of the
indexes that they unpack to. -/
theorem pack_round_trip (items lanes bytes : Nat) (width_lt : bytes * 8 < 2 ^ 64)
    (group_lt : lanes * items < 2 ^ 64) :
    (∀ indexes : Array Nat,
      (Packable indexes items lanes bytes → ∃ words : Array (BitVec (bytes * 8)),
        pack indexes items lanes bytes = .ok ⟨bytes * 8, words⟩ ∧ Holds words items lanes indexes) ∧
      (¬ Packable indexes items lanes bytes →
        pack indexes items lanes bytes = .error (.failed .illegalParameter))) ∧
    (1 ≤ lanes → (bytes = 4 ∨ bytes = 8) → 1 ≤ items → items ≤ bytes * 8 →
      ∀ (rows : Nat) (words : Array (BitVec (bytes * 8))), words.size = rows * lanes →
        (∀ x ∈ words, ∀ bit, items * (bytes * 8 / items) ≤ bit → x.getLsbD bit = false) →
        ∃ indexes : Array Nat, indexes.size = rows * lanes * items ∧
          unpack words items lanes (rows * lanes * items) = .ok indexes.toList ∧
          pack indexes items lanes bytes = .ok ⟨bytes * 8, words⟩) := by
  refine ⟨fun indexes => ⟨fun h => ?_, pack_of_not_packable width_lt⟩, ?_⟩
  · exact ⟨_, pack_of_packable width_lt group_lt h, h.holds group_lt⟩
  · intro some_lanes bytes_eq some_items fits rows words size clear
    have packed := encode_fieldsOf some_lanes some_items fits size clear
    have packable :
        Packable (fieldsOf words items lanes (rows * lanes * items)) items lanes bytes := by
      refine ⟨some_lanes, ?_, bytes_eq, some_items, fits, ?_⟩
      · rw [size_fieldsOf, Nat.mul_right_comm]
        exact Nat.dvd_mul_left _ _
      · intro x hx
        obtain ⟨s, hs, rfl⟩ := Array.mem_iff_getElem.1 hx
        rw [Array.getElem_eq_getD 0]
        exact fieldsOf_lt words _ s
    have room : wordCount items lanes (rows * lanes * items) ≤ words.size := by
      rw [← packed, size_encode, size_fieldsOf]
    refine ⟨fieldsOf words items lanes (rows * lanes * items), size_fieldsOf _ _, ?_, ?_⟩
    · rw [unpack_eq words some_lanes some_items group_lt room, fieldsOf]
    · rw [pack_of_packable width_lt group_lt packable, packed]

/-- Four indexes for two lanes, five to a word of 32 bits. Two bits of each word are left over. -/
theorem four_indexes_round_trip :
    (∃ words : Array (BitVec 32), pack #[1, 2, 63, 0] 5 2 4 = .ok ⟨32, words⟩ ∧
        Holds words 5 2 #[1, 2, 63, 0]) ∧
      pack #[1, 2, 64, 0] 5 2 4 = .error (.failed .illegalParameter) := by
  have round_trip := (pack_round_trip 5 2 4 (by decide) (by decide)).1
  constructor
  · exact (round_trip #[1, 2, 63, 0]).1
      ⟨by decide, by decide, by decide, by decide, by decide, by decide⟩
  · exact (round_trip #[1, 2, 64, 0]).2 fun h => absurd (h.small 64 (by simp)) (by decide)

end LaneBoost.Pack
