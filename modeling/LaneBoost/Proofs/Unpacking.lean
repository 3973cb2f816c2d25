import LaneBoost.Proofs.PackCodec
import LaneBoost.Zone
import Mathlib.Algebra.Order.Floor.Div
import Mathlib.Data.List.Intervals

/-!
# Unpacking

`unpack` computes where every index is. A reader goes from group to group instead, and holds the words
of the current ones. Over any words, whatever their unused bits hold, both give the same indexes. The
reader loads each word that has one of them once, in order, and takes nothing else from memory.
-/
namespace LaneBoost.Pack

variable {w items lanes : Nat}

/-! ### Indexes in closed form -/

theorem wordCount_eq_ceilDiv (some_lanes : 0 < lanes) (some_items : 0 < items) (samples : Nat) :
    wordCount items lanes samples = samples ⌈/⌉ (lanes * items) * lanes := by
  have group := Nat.mul_pos some_lanes some_items
  rw [wordCount, Nat.ceilDiv_eq_add_pred_div, Nat.add_sub_assoc group]

/-- Samples that have their words are read. -/
theorem readFrom_eq (words : Array (BitVec w)) (grouped : lanes * items ≠ 0) (count first : Nat)
    (there : ∀ s, s < first + count → wordOf items lanes s < words.size) :
    readFrom words items lanes count first =
      .ok ((List.range' first count).map fun s => (fieldAt words items lanes s).toNat) := by
  induction count generalizing first with
  | zero => rfl
  | succ count ih =>
    have here : read words items lanes first = .ok (fieldAt words items lanes first).toNat := by
      rw [read, if_neg grouped, if_pos (there first (by omega))]
    have rest := ih (first + 1) fun s hs => there s (by omega)
    rw [readFrom, here, List.range'_succ, List.map_cons]
    exact congrArg (fun x => x >>= fun xs => pure ((fieldAt words items lanes first).toNat :: xs)) rest

/-- The indexes of samples whose words are there are those of their fields. -/
theorem unpack_eq (words : Array (BitVec w)) (some_lanes : 0 < lanes) (some_items : 0 < items)
    (group_lt : lanes * items < sizeBound) {samples : Nat}
    (room : wordCount items lanes samples ≤ words.size) :
    unpack words items lanes samples =
      .ok ((List.range samples).map fun s => (fieldAt words items lanes s).toNat) := by
  have grouped : lanes * items ≠ 0 := (Nat.mul_pos some_lanes some_items).ne'
  have read := readFrom_eq words grouped samples 0 fun s hs =>
    Nat.lt_of_lt_of_le (wordOf_lt some_lanes some_items (by omega)) room
  rw [unpack, size_of_lt group_lt, List.range_eq_range']
  exact read

/-! ### What a call takes from memory -/

namespace Cursor

/-- The places of the words that the next call loads. -/
def loads (c : Cursor w lanes) : List Nat :=
  if c.field = 0 then List.range' c.loaded lanes else []

/-- The same cursor, reading other words. -/
def withWords (words : Array (BitVec w)) (c : Cursor w lanes) : Cursor w lanes := { c with words }

/-- Words that are not loaded do not count. -/
theorem next_withWords {words : Array (BitVec w)} {c : Cursor w lanes}
    (same : ∀ i ∈ c.loads, words.getD i 0 = c.words.getD i 0) :
    (c.withWords words).next = (c.next.1, c.next.2.withWords words) := by
  by_cases h : c.field = 0
  · have held : (Lanes.load words c.loaded : Lanes (BitVec w) lanes) =
        Lanes.load c.words c.loaded := by
      refine Lanes.ext fun l => ?_
      rw [Lanes.get_load, Lanes.get_load]
      have hl := l.isLt
      exact same _ (by rw [loads, if_pos h, List.mem_range'_1]; omega)
    simp [next, fill, withWords, advance, current, h, held]
  · simp [next, fill, withWords, advance, current, h]

end Cursor

namespace Reader

/-- The places of the words that the next call loads. -/
def loads : Reader w lanes → List Nat
  | none => []
  | some c => c.loads

/-- The same reader, reading other words. -/
def withWords (words : Array (BitVec w)) (r : Reader w lanes) : Reader w lanes :=
  r.map (Cursor.withWords words)

/-- What some calls in a row hand out, lane after lane, and the places of the words that they load. -/
def run : Nat → Reader w lanes → List (BitVec w) × List Nat
  | 0, _ => ([], [])
  | k + 1, r =>
    let rest := run k r.next.2
    (r.next.1.toList ++ rest.1, r.loads ++ rest.2)

/-- Words that are not loaded do not count. -/
theorem run_withWords (words : Array (BitVec w)) (k : Nat) (c : Cursor w lanes)
    (same : ∀ i ∈ (run k (some c)).2, words.getD i 0 = c.words.getD i 0) :
    run k (some (c.withWords words)) = run k (some c) := by
  induction k generalizing c with
  | zero => rfl
  | succ k ih =>
    have first : (c.withWords words).next = (c.next.1, c.next.2.withWords words) :=
      Cursor.next_withWords fun i hi => same i (List.mem_append_left _ hi)
    have kept : c.next.2.words = c.words := by
      rw [Cursor.next, Cursor.advance, Cursor.fill]
      split <;> rfl
    have rest : run k (some (c.next.2.withWords words)) = run k (some c.next.2) :=
      ih c.next.2 fun i hi => kept ▸ same i (List.mem_append_right _ hi)
    simp only [run, next, loads, first, rest]
    rfl

end Reader

/-! ### Calls in a row -/

/-- The fields of a group, lane after lane. -/
theorem handed_eq (words : Array (BitVec w)) (items g : Nat) :
    (Lanes.ofFn fun l : Fin lanes => fieldAt words items lanes (g * lanes + l.val)).toList =
      (List.Ico (g * lanes) ((g + 1) * lanes)).map (fieldAt words items lanes) := by
  rw [List.Ico, Nat.succ_mul, Nat.add_sub_cancel_left]
  refine List.ext_getElem (by simp [Lanes.toList, Lanes.ofFn]) fun i _ _ => ?_
  simp [Lanes.toList, Lanes.ofFn]

section Groups

variable (words : Array (BitVec w)) (some_items : 0 < items)

include some_items

theorem ceilDiv_eq (g : Nat) :
    g ⌈/⌉ items = if g % items = 0 then g / items else g / items + 1 := by
  have split := Nat.div_add_mod g items
  have small := Nat.mod_lt g some_items
  rw [Nat.ceilDiv_eq_add_pred_div]
  split
  case isTrue first =>
    exact ((Nat.div_mod_unique (c := items - 1) some_items).2 ⟨by omega, by omega⟩).1
  case isFalse inner =>
    exact ((Nat.div_mod_unique (c := g % items - 1) some_items).2
      ⟨by rw [Nat.mul_succ]; omega, by omega⟩).1

theorem succ_ceilDiv (g : Nat) : (g + 1) ⌈/⌉ items = g / items + 1 := by
  rw [Nat.ceilDiv_eq_add_pred_div, Nat.add_right_comm, Nat.add_sub_cancel,
    Nat.add_div_right g some_items]

/-- New words are loaded for the first of the groups that share them. -/
theorem loads_after (g : Nat) :
    (Cursor.after words items lanes g).loads =
      List.Ico (g ⌈/⌉ items * lanes) ((g + 1) ⌈/⌉ items * lanes) := by
  have loaded : (Cursor.after words items lanes g).loaded = g ⌈/⌉ items * lanes := rfl
  rw [Cursor.loads, loaded, succ_ceilDiv some_items, ceilDiv_eq some_items]
  show (if g % items = 0 then _ else _) = _
  split
  case isTrue => rw [List.Ico, Nat.succ_mul, Nat.add_sub_cancel_left]
  case isFalse => rw [List.Ico.self_empty]

/-- Calls in a row hand out the fields of their samples, and load the words of their groups. -/
theorem run_after (k g : Nat) :
    Reader.run k (some (Cursor.after words items lanes g)) =
      ((List.Ico (g * lanes) ((g + k) * lanes)).map (fieldAt words items lanes),
        List.Ico (g ⌈/⌉ items * lanes) ((g + k) ⌈/⌉ items * lanes)) := by
  induction k generalizing g with
  | zero => simp [Reader.run]
  | succ k ih =>
    have groups : g + (k + 1) = g + 1 + k := by omega
    have samples : ∀ a b, a ≤ b → a * lanes ≤ b * lanes := fun _ _ h => Nat.mul_le_mul_right _ h
    have begun : ∀ a b, a ≤ b → a ⌈/⌉ items * lanes ≤ b ⌈/⌉ items * lanes := fun _ _ h =>
      Nat.mul_le_mul_right _ (Nat.div_le_div_right (by omega))
    simp only [Reader.run, Reader.next, Reader.loads, Cursor.next_after words some_items,
      loads_after words some_items, handed_eq, ih]
    rw [groups, ← List.map_append,
      List.Ico.append_consecutive (samples _ _ (by omega)) (samples _ _ (by omega)),
      List.Ico.append_consecutive (begun _ _ (by omega)) (begun _ _ (by omega))]

end Groups

/-! ### The zones -/

/-- The words of whole groups, counted by samples and by groups. -/
theorem mul_ceilDiv_mul (some_lanes : 0 < lanes) (some_items : 0 < items) (groups : Nat) :
    (lanes * groups) ⌈/⌉ (lanes * items) = groups ⌈/⌉ items := by
  refine eq_of_forall_ge_iff fun c => ?_
  rw [ceilDiv_le_iff_le_mul (Nat.mul_pos some_lanes some_items), ceilDiv_le_iff_le_mul some_items,
    Nat.mul_assoc, Nat.mul_le_mul_left_iff some_lanes]

/-- In every zone the calls for some samples hand out, lane after lane, what `unpack` returns for the
same words. They load each of the words that hold these samples, in order, and what stands elsewhere in
memory does not count. -/
theorem zone_reader_unpacks (z : Zone) (words : Array (BitVec z.width)) (items samples : Nat)
    (some_items : 1 ≤ items) (fits : items ≤ z.width) (whole : z.lanes ∣ samples)
    (room : samples ⌈/⌉ (z.lanes * items) * z.lanes ≤ words.size) :
    ∃ reader : Reader z.width z.lanes,
      Reader.make items (some words) = .ok reader ∧
        unpack words items z.lanes samples =
          .ok ((reader.run (samples / z.lanes)).1.map BitVec.toNat) ∧
        (reader.run (samples / z.lanes)).2 =
          List.range (samples ⌈/⌉ (z.lanes * items) * z.lanes) ∧
        ∀ memory : Array (BitVec z.width),
          (∀ i, i < samples ⌈/⌉ (z.lanes * items) * z.lanes →
            memory.getD i 0 = words.getD i 0) →
            (reader.withWords memory).run (samples / z.lanes) = reader.run (samples / z.lanes) := by
  have made : Reader.make (items : Int) (some words) =
      .ok (some (Cursor.after words items z.lanes 0)) := by
    have some_read : ¬ (items : Int) ≤ 0 := by omega
    rw [Reader.make_eq_after (by omega), Reader.after, if_neg some_read, Int.toNat_natCast]
  have group_lt : z.lanes * items < sizeBound := by
    have lanes_le : z.lanes ≤ 8 := by cases z <;> decide
    have width_le : z.width ≤ 64 := Nat.le_of_dvd (by decide) z.width_dvd
    have group := Nat.mul_le_mul lanes_le (Nat.le_trans fits width_le)
    show _ < 2 ^ 64
    omega
  have samples_eq : samples / z.lanes * z.lanes = samples := Nat.div_mul_cancel whole
  have begun : samples ⌈/⌉ (z.lanes * items) = samples / z.lanes ⌈/⌉ items := by
    rw [← mul_ceilDiv_mul z.lanes_pos some_items, Nat.mul_div_cancel' whole]
  have run := @run_after z.width items z.lanes words some_items (samples / z.lanes) 0
  rw [Nat.zero_add, Nat.zero_mul, zero_ceilDiv, Nat.zero_mul, List.Ico.zero_bot, List.Ico.zero_bot,
    samples_eq] at run
  refine ⟨_, made, ?_, ?_, fun memory same => ?_⟩
  · rw [unpack_eq words z.lanes_pos some_items group_lt
      (by rwa [wordCount_eq_ceilDiv z.lanes_pos some_items]), run, List.map_map]
    rfl
  · rw [run, begun]
  · refine Reader.run_withWords memory _ _ fun i hi => same i ?_
    rw [run] at hi
    rw [begun]
    exact List.mem_range.1 hi

/-- Eight words of three fields with ten bits each. Their two other bits may be set. -/
def noisyWords : Array (BitVec Zone.sse2.width) :=
  #[0xC0100401, 0xFFFFFFFF, 0, 0xDEADBEEF, 0x80000002, 7, 0x3FF, 0xCAFEF00D]

theorem noisy_words_unpacked :
    ∃ reader : Reader Zone.sse2.width Zone.sse2.lanes,
      Reader.make 3 (some noisyWords) = .ok reader ∧
        unpack noisyWords 3 4 16 = .ok ((reader.run 4).1.map BitVec.toNat) ∧
        (reader.run 4).2 = List.range 8 ∧
        ∀ memory : Array (BitVec Zone.sse2.width),
          (∀ i, i < 8 → memory.getD i 0 = noisyWords.getD i 0) →
            (reader.withWords memory).run 4 = reader.run 4 :=
  zone_reader_unpacks .sse2 noisyWords 3 16 (by decide) (by decide) (by decide) (by decide)

end LaneBoost.Pack
