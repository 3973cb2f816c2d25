import LaneBoost.Proofs.BinCounts
import LaneBoost.Proofs.LayoutSlots
import Mathlib.Logic.Function.Basic

/-!
# Bins after any writes

A buffer is edited by writing cells, as words or as numbers, and by clearing. Whatever was done before,
a bin reads back what was last written to its cells, and every cell of the bins is one field of one bin:
writing it replaces that field and nothing else.
-/
namespace LaneBoost

/-! ### The fields of a bin -/

attribute [ext] BinTotals

/-- A field of a bin. -/
inductive BinField where
  | count
  | weight
  | gradient (score : Nat)
  | hessian (score : Nat)
  deriving DecidableEq, Repr

namespace BinField

/-- Where the field is in a bin, counted in cells. -/
def place (s : BinShape) : BinField → Nat
  | count => 0
  | weight => 1
  | gradient k => 2 + k * Layout.perScore s.hessian
  | hessian k => 2 + k * Layout.perScore s.hessian + 1

/-- Whether bins of a shape have the field. -/
def Of (s : BinShape) : BinField → Prop
  | count | weight => True
  | gradient k => k < s.scores
  | hessian k => s.hessian = true ∧ k < s.scores

variable {s : BinShape}

theorem place_lt {f : BinField} (hf : f.Of s) : f.place s < s.slots := by
  unfold BinShape.slots
  cases f with
  | count => exact Nat.lt_add_right _ (by decide : 0 < 2)
  | weight => exact Nat.lt_add_right _ (by decide : 1 < 2)
  | gradient k =>
    have inside := BinSums.score_slot_lt (Layout.perScore_pos s.hessian) hf
    simp only [place]
    omega
  | hessian k =>
    have second : 1 < Layout.perScore s.hessian := by rw [hf.1]; decide
    have inside := BinSums.score_slot_lt second hf.2
    simp only [place]
    omega

theorem place_injective {f g : BinField} (hf : f.Of s) (hg : g.Of s) (h : f.place s = g.place s) :
    f = g := by
  cases hessian : s.hessian <;> cases f <;> cases g <;>
    simp_all [place, Of, Layout.perScore] <;> omega

/-- Every cell of a bin is a field. -/
theorem exists_place {r : Nat} (hr : r < s.slots) : ∃ f : BinField, f.Of s ∧ f.place s = r := by
  unfold BinShape.slots at hr
  match r, hr with
  | 0, _ => exact ⟨.count, trivial, rfl⟩
  | 1, _ => exact ⟨.weight, trivial, rfl⟩
  | part + 2, hr =>
    cases hessian : s.hessian with
    | false =>
      simp only [hessian, Layout.perScore_false] at hr
      refine ⟨.gradient part, ?_, ?_⟩
      · show part < s.scores
        omega
      · simp only [place, hessian, Layout.perScore_false]
        omega
    | true =>
      simp only [hessian, Layout.perScore_true] at hr
      rcases Nat.mod_two_eq_zero_or_one part with even | odd
      · refine ⟨.gradient (part / 2), ?_, ?_⟩
        · show part / 2 < s.scores
          omega
        · simp only [place, hessian, Layout.perScore_true]
          omega
      · refine ⟨.hessian (part / 2), ⟨hessian, ?_⟩, ?_⟩
        · omega
        · simp only [place, hessian, Layout.perScore_true]
          omega

end BinField

/-- The number that a cell holds, as a 64-bit one. -/
def BinShape.number (s : BinShape) (bits : BitVec s.format.width) : Binary64 :=
  Binary.convert .double (⟨bits⟩ : Binary s.format)

namespace BinTotals

variable (s : BinShape)

/-- What the bin from cell `first` on holds, by what its cells hold. -/
def ofCells (cell : Nat → BitVec s.format.width) (first : Nat) : BinTotals where
  count := (cell first).toNat
  weight := s.number (cell (first + 1))
  gradients := (List.range s.scores).map fun k =>
    s.number (cell (first + 2 + k * Layout.perScore s.hessian))
  hessians := if s.hessian then
      (List.range s.scores).map fun k =>
        s.number (cell (first + 2 + k * Layout.perScore s.hessian + 1))
    else []

/-- The totals with one field read from another cell. -/
def replace (t : BinTotals) (bits : BitVec s.format.width) : BinField → BinTotals
  | .count => { t with count := bits.toNat }
  | .weight => { t with weight := s.number bits }
  | .gradient k => { t with gradients := t.gradients.set k (s.number bits) }
  | .hessian k => { t with hessians := t.hessians.set k (s.number bits) }

variable {s}

/-- A list by index, with the entry of one index exchanged. -/
theorem map_range_set {β : Type} {n j : Nat} {g h : Nat → β} {x : β} (here : h j = x)
    (elsewhere : ∀ k, k < n → k ≠ j → h k = g k) :
    (List.range n).map h = ((List.range n).map g).set j x := by
  apply List.ext_getElem (by simp)
  intro k hk _
  have inside : k < n := by simpa using hk
  rw [List.getElem_set]
  split
  case isTrue same =>
    subst same
    simpa using here
  case isFalse other => simpa using elsewhere k inside (Ne.symm other)

section Fields

variable {cell cell' : Nat → BitVec s.format.width} {first : Nat}

/-- Cells that agree on the gradients of a bin. -/
theorem gradients_congr (h : ∀ k, k < s.scores →
      cell (first + (BinField.gradient k).place s) = cell' (first + (BinField.gradient k).place s)) :
    (ofCells s cell first).gradients = (ofCells s cell' first).gradients :=
  List.map_congr_left fun k hk => by
    have same := h k (List.mem_range.1 hk)
    simp only [BinField.place, ← Nat.add_assoc] at same
    rw [same]

/-- Cells that agree on the hessians of a bin. -/
theorem hessians_congr (h : ∀ k, s.hessian = true → k < s.scores →
      cell (first + (BinField.hessian k).place s) = cell' (first + (BinField.hessian k).place s)) :
    (ofCells s cell first).hessians = (ofCells s cell' first).hessians := by
  simp only [ofCells]
  split
  case isTrue has =>
    refine List.map_congr_left fun k hk => ?_
    have same := h k has (List.mem_range.1 hk)
    simp only [BinField.place, ← Nat.add_assoc] at same
    rw [same]
  case isFalse => rfl

/-- Only the cells of the bin matter. -/
theorem ofCells_congr
    (h : ∀ f : BinField, f.Of s → cell (first + f.place s) = cell' (first + f.place s)) :
    ofCells s cell first = ofCells s cell' first :=
  BinTotals.ext (congrArg BitVec.toNat (h .count trivial)) (congrArg s.number (h .weight trivial))
    (gradients_congr fun k hk => h (.gradient k) hk)
    (hessians_congr fun k has hk => h (.hessian k) ⟨has, hk⟩)

/-- Another value in the cell of a field is another value of the field, and of no other. -/
theorem ofCells_replace {bits : BitVec s.format.width} {f : BinField} (hf : f.Of s)
    (written : cell' (first + f.place s) = bits)
    (kept : ∀ g : BinField, g.Of s → g ≠ f →
      cell' (first + g.place s) = cell (first + g.place s)) :
    ofCells s cell' first = (ofCells s cell first).replace s bits f := by
  have count : f ≠ .count → (ofCells s cell' first).count = (ofCells s cell first).count :=
    fun other => congrArg BitVec.toNat (kept .count trivial other.symm)
  have weight : f ≠ .weight → (ofCells s cell' first).weight = (ofCells s cell first).weight :=
    fun other => congrArg s.number (kept .weight trivial other.symm)
  have gradients : (∀ k, f ≠ .gradient k) →
      (ofCells s cell' first).gradients = (ofCells s cell first).gradients :=
    fun other => gradients_congr fun k hk => kept (.gradient k) hk (other k).symm
  have hessians : (∀ k, f ≠ .hessian k) →
      (ofCells s cell' first).hessians = (ofCells s cell first).hessians :=
    fun other => hessians_congr fun k has hk => kept (.hessian k) ⟨has, hk⟩ (other k).symm
  cases f with
  | count =>
    exact BinTotals.ext (congrArg BitVec.toNat written) (weight nofun) (gradients nofun)
      (hessians nofun)
  | weight =>
    exact BinTotals.ext (count nofun) (congrArg s.number written) (gradients nofun) (hessians nofun)
  | gradient j =>
    refine BinTotals.ext (count nofun) (weight nofun) (map_range_set ?_ fun k hk other => ?_)
      (hessians nofun)
    · simpa only [BinField.place, ← Nat.add_assoc] using congrArg s.number written
    · have same := kept (.gradient k) hk fun e => other (BinField.gradient.inj e)
      simpa only [BinField.place, ← Nat.add_assoc] using congrArg s.number same
  | hessian j =>
    refine BinTotals.ext (count nofun) (weight nofun) (gradients nofun) ?_
    simp only [ofCells, replace, if_pos hf.1]
    refine map_range_set ?_ fun k hk other => ?_
    · simpa only [BinField.place, ← Nat.add_assoc] using congrArg s.number written
    · have same := kept (.hessian k) ⟨hf.1, hk⟩ fun e => other (BinField.hessian.inj e)
      simpa only [BinField.place, ← Nat.add_assoc] using congrArg s.number same

end Fields

end BinTotals

/-! ### Edits -/

namespace BinShape

theorem width_dvd (s : BinShape) : s.format.width ∣ 64 := by
  unfold format
  split <;> decide

theorem bytes_format (s : BinShape) : s.format.bytes = if s.wide then 8 else 4 := by
  unfold format
  split <;> decide

/-- A shape is what it was asked to be. -/
theorem make?_eq_ok_iff {scores cellBytes : Nat} {hessian : Bool} {s : BinShape} :
    make? scores hessian cellBytes = .ok s ↔
      s.scores = scores ∧ s.hessian = hessian ∧ s.format.bytes = cellBytes := by
  rw [bytes_format]
  unfold make?
  constructor
  · intro h
    split_ifs at h with some_scores four eight
    · cases h
      exact ⟨rfl, rfl, four.symm⟩
    · cases h
      exact ⟨rfl, rfl, eight.symm⟩
  · rintro ⟨rfl, rfl, rfl⟩
    obtain ⟨scores, hessian, wide, some_scores⟩ := s
    rw [dif_pos some_scores]
    cases wide <;> rfl

end BinShape

namespace BinBuffer

/-- What is done to a buffer: a cell is written, as a word or as a number, or all are cleared. -/
inductive Edit (φ : Format) where
  | word (slot : Nat) (bits : BitVec φ.width)
  | number (slot : Nat) (x : Binary φ)
  | clear
  deriving DecidableEq, Repr

/-- The bits that were last written to a cell, looking back from the latest edit. There are none, so
zero, if everything was cleared since or if the cell was never written. -/
def Edit.latest {φ : Format} (slot : Nat) : List (Edit φ) → BitVec φ.width
  | [] => 0#φ.width
  | .word i bits :: earlier => if i = slot then bits else latest slot earlier
  | .number i x :: earlier => if i = slot then x.bits else latest slot earlier
  | .clear :: _ => 0#φ.width

/-- The buffer after one edit. -/
def edit (b : BinBuffer) : Edit b.shape.format → BinBuffer
  | .word slot bits => b.poke slot bits
  | .number slot x => b.poke slot x.bits
  | .clear => b.clear

/-- The buffer after some edits, one after the other. Its shape is the same throughout. -/
def edited (b : BinBuffer) (es : List (Edit b.shape.format)) : BinBuffer :=
  { b with cells := es.foldl (fun cells e => (edit { b with cells } e).cells) b.cells }

theorem edited_concat (b : BinBuffer) (es : List (Edit b.shape.format)) (e : Edit b.shape.format) :
    b.edited (es ++ [e]) = (b.edited es).edit e := by
  unfold edited
  rw [List.foldl_append]
  cases e <;> rfl

variable {b : BinBuffer}

theorem size_edit (e : Edit b.shape.format) :
    (b.edit e).cells.words.size = b.cells.words.size := by
  cases e with
  | word slot bits => exact Cells.size_poke _ _ _
  | number slot x => exact Cells.size_poke _ _ _
  | clear => exact Cells.size_clear _

/-- Edits keep the storage. -/
theorem Allotted.edited (h : b.Allotted) (es : List (Edit b.shape.format)) :
    (b.edited es).Allotted := by
  refine h.of_size ?_
  induction es using List.reverseRecOn with
  | nil => rfl
  | append_singleton es e ih =>
    rw [List.foldl_append]
    exact (size_edit (b := b.edited es) e).trans ih

/-- A cell of the bins holds what is written to it, and what is written elsewhere leaves it alone. -/
theorem peek_poke_cell (h : b.Allotted) {slot : Nat} (hs : slot < b.bins * b.shape.slots) (i : Nat)
    (bits : BitVec b.shape.format.width) :
    (b.poke i bits).cells.peek b.shape.format.width slot =
      if i = slot then bits else b.cells.peek b.shape.format.width slot := by
  have stored := h.cell_stored hs
  rw [poke, Cells.peek_poke b.shape.width_dvd]
  by_cases here : i = slot
  · subst here
    rw [if_pos ⟨rfl, stored⟩, if_pos rfl]
  · rw [if_neg fun e => here e.1.symm, if_neg here]

/-- An edit brings a cell from what was last written before it to what is last written with it. -/
theorem peek_edit (h : b.Allotted) {slot : Nat} (hs : slot < b.bins * b.shape.slots)
    {earlier : List (Edit b.shape.format)}
    (before : b.cells.peek b.shape.format.width slot = Edit.latest slot earlier)
    (e : Edit b.shape.format) :
    (b.edit e).cells.peek b.shape.format.width slot = Edit.latest slot (e :: earlier) := by
  cases e with
  | word i bits =>
    rw [Edit.latest, ← before]
    exact peek_poke_cell h hs i bits
  | number i x =>
    rw [Edit.latest, ← before]
    exact peek_poke_cell h hs i x.bits
  | clear => exact Cells.peek_clear _ _ _

/-- So a cell of a buffer that was zeroed at first holds what was last written to it. -/
theorem peek_edited (h : b.Allotted) (zeroed : ∀ slot, b.cells.peek b.shape.format.width slot = 0#_)
    {slot : Nat} (hs : slot < b.bins * b.shape.slots) (es : List (Edit b.shape.format)) :
    (b.edited es).cells.peek b.shape.format.width slot = Edit.latest slot es.reverse := by
  induction es using List.reverseRecOn with
  | nil => exact zeroed slot
  | append_singleton es e ih =>
    rw [edited_concat, List.reverse_concat]
    exact peek_edit (h.edited es) hs ih e

/-- A bin reads its cells. -/
theorem bin_of_lt (b : BinBuffer) {i : Nat} (hi : i < b.bins) :
    b.bin i = .ok (.ofCells b.shape (b.cells.peek b.shape.format.width) (i * b.shape.slots)) :=
  if_pos hi

/-- A cell of a bin is one of the cells of the bins. -/
theorem cell_lt {i r : Nat} (hi : i < b.bins) (hr : r < b.shape.slots) :
    i * b.shape.slots + r < b.bins * b.shape.slots :=
  lane_lt hi ⟨r, hr⟩

/-- And a bin reads all of this back. -/
theorem bin_edited (h : b.Allotted) (zeroed : ∀ slot, b.cells.peek b.shape.format.width slot = 0#_)
    {i : Nat} (hi : i < b.bins) (es : List (Edit b.shape.format)) :
    (b.edited es).bin i = .ok
      (.ofCells b.shape (fun slot => Edit.latest slot es.reverse) (i * b.shape.slots)) := by
  refine ((b.edited es).bin_of_lt hi).trans ?_
  refine congrArg Except.ok (BinTotals.ofCells_congr fun f hf => ?_)
  exact peek_edited h zeroed (cell_lt hi (BinField.place_lt hf)) es

/-- Every cell of the bins is a field of a bin. -/
theorem exists_field {slot : Nat} (hs : slot < b.bins * b.shape.slots) :
    ∃ i, ∃ f : BinField, i < b.bins ∧ f.Of b.shape ∧ slot = i * b.shape.slots + f.place b.shape := by
  have slots_pos : 0 < b.shape.slots := Nat.pos_of_ne_zero fun none => by simp [none] at hs
  obtain ⟨f, hf, place⟩ := BinField.exists_place (Nat.mod_lt slot slots_pos)
  refine ⟨slot / b.shape.slots, f, Nat.div_lt_of_lt_mul (by rwa [Nat.mul_comm]), hf, ?_⟩
  rw [place, Nat.div_add_mod']

/-- A cell of the bins is a cell of one bin. -/
theorem bin_of_cell {slots i j r r' : Nat} (hr : r < slots) (hr' : r' < slots)
    (h : i * slots + r = j * slots + r') : i = j := by
  have quotients := congrArg (· / slots) h
  rwa [@lane_div slots i ⟨r, hr⟩, @lane_div slots j ⟨r', hr'⟩] at quotients

/-- Writing the cell of a field replaces the field in its bin, and leaves all other bins alone. -/
theorem bin_poke (h : b.Allotted) {i : Nat} {f : BinField} (hf : f.Of b.shape)
    (bits : BitVec b.shape.format.width) (j : Nat) :
    (b.poke (i * b.shape.slots + f.place b.shape) bits).bin j =
      (b.bin j).map fun t => if j = i then t.replace b.shape bits f else t := by
  -- The shape is part of the types, so the cells of both buffers are read with the one of `b`.
  let held : Nat → BitVec b.shape.format.width := b.cells.peek b.shape.format.width
  let poked := b.poke (i * b.shape.slots + f.place b.shape) bits
  let heldThen : Nat → BitVec b.shape.format.width := poked.cells.peek b.shape.format.width
  by_cases hj : j < b.bins
  · have read : ∀ g : BinField, g.Of b.shape → heldThen (j * b.shape.slots + g.place b.shape) =
        if i * b.shape.slots + f.place b.shape = j * b.shape.slots + g.place b.shape then bits
        else held (j * b.shape.slots + g.place b.shape) :=
      fun g hg => peek_poke_cell h (cell_lt hj (BinField.place_lt hg)) _ bits
    have before : b.bin j = .ok (.ofCells b.shape held (j * b.shape.slots)) := b.bin_of_lt hj
    have after : poked.bin j = .ok (.ofCells b.shape heldThen (j * b.shape.slots)) :=
      poked.bin_of_lt hj
    rw [before, after]
    refine congrArg Except.ok ?_
    by_cases here : j = i
    · subst here
      refine (BinTotals.ofCells_replace hf ?_ fun g hg other => ?_).trans (if_pos rfl).symm
      · rw [read f hf, if_pos rfl]
      · rw [read g hg, if_neg fun same => other ?_]
        exact BinField.place_injective hg hf (Nat.add_left_cancel same).symm
    · refine (BinTotals.ofCells_congr fun g hg => ?_).trans (if_neg here).symm
      rw [read g hg, if_neg fun same => here ?_]
      exact (bin_of_cell (BinField.place_lt hf) (BinField.place_lt hg) same).symm
  · have before : b.bin j = .error (.noSuchBin j b.bins) := if_neg hj
    have after : poked.bin j = .error (.noSuchBin j b.bins) := if_neg hj
    rw [before, after]
    rfl

/-- Bins whose size is one get a buffer. In a new buffer, after any edits, every bin reads back what was
last written to its cells. Every cell of the bins is a field of a bin: whatever is written there
replaces this field, and no other field of this bin, no other bin and no other cell. The bins end within
the storage, in its last word. -/
theorem edited_bins {scores cellBytes : Nat} {hessian : Bool} {shape : BinShape}
    (accepted : BinShape.make? scores hessian cellBytes = .ok shape) (bins : Nat) :
    ((∃ b, make? shape bins = .ok b) ↔
      shape.bytes < sizeBound ∧ (shape.bytes * bins + 7) / 8 * 8 < storageBound) ∧
    ∀ b, make? shape bins = .ok b → ∀ es : List (Edit b.shape.format),
      (∀ i, i < bins → (b.edited es).bin i = .ok
        { count := (Edit.latest (i * b.shape.slots) es.reverse).toNat
          weight := b.shape.number (Edit.latest (i * b.shape.slots + 1) es.reverse)
          gradients := (List.range scores).map fun k => b.shape.number
            (Edit.latest (i * b.shape.slots + 2 + k * Layout.perScore hessian) es.reverse)
          hessians := if hessian then
              (List.range scores).map fun k => b.shape.number
                (Edit.latest (i * b.shape.slots + 2 + k * Layout.perScore hessian + 1) es.reverse)
            else [] }) ∧
      (∀ slot, slot < bins * b.shape.slots → ∃ i, ∃ f : BinField, i < bins ∧ f.Of b.shape ∧
        slot = i * b.shape.slots + f.place b.shape ∧ ∀ bits,
          (∀ j, ((b.edited es).poke slot bits).bin j =
            ((b.edited es).bin j).map fun t => if j = i then t.replace b.shape bits f else t) ∧
          ∀ other, other ≠ slot →
            ((b.edited es).poke slot bits).cells.peek b.shape.format.width other =
              (b.edited es).cells.peek b.shape.format.width other) ∧
      b.shape.slots = 2 + scores * Layout.perScore hessian ∧
      (b.edited es).span = bins * (b.shape.slots * cellBytes) ∧
      (b.edited es).span ≤ 8 * (b.edited es).cells.words.size ∧
      8 * (b.edited es).cells.words.size < (b.edited es).span + 8 ∧
      ∀ slot, slot < bins * b.shape.slots →
        (slot + 1) * cellBytes ≤ 8 * (b.edited es).cells.words.size := by
  refine ⟨exists_make?_iff, fun b made es => ?_⟩
  have allotted := make?_allotted made
  have new := (make?_eq_ok_iff.1 made).2
  obtain rfl : b.shape = shape := congrArg BinBuffer.shape new
  obtain rfl : b.bins = bins := congrArg BinBuffer.bins new
  have cells := congrArg BinBuffer.cells new
  obtain ⟨rfl, rfl, rfl⟩ := BinShape.make?_eq_ok_iff.1 accepted
  have zeroed : ∀ slot, b.cells.peek b.shape.format.width slot = 0#_ := fun slot => by
    rw [cells]
    exact Cells.peek_ofBytes _ _ slot
  have still := allotted.edited es
  have ends := still.words_eq
  refine ⟨fun i hi => bin_edited allotted zeroed hi es, fun slot hs => ?_, rfl, Nat.mul_comm _ _,
    by omega, by omega, fun slot hs => Nat.le_trans ((b.edited es).cell_end_le hs) (by omega)⟩
  obtain ⟨i, f, hi, hf, rfl⟩ := exists_field hs
  refine ⟨i, f, hi, hf, rfl, fun bits => ⟨bin_poke still hf bits, fun other apart => ?_⟩⟩
  exact (Cells.peek_poke b.shape.width_dvd _ _ _ _).trans (if_neg fun e => apart e.1)

/-- Three bins of three narrow cells, so nine halves of five words. -/
def nineCells : BinBuffer where
  shape := ⟨1, false, false, Nat.one_pos⟩
  bins := 3
  cells := Cells.ofBytes 36

/-- The last bin is written before and after everything is cleared, its gradient as a word. -/
def writesAroundClearing : List (Edit nineCells.shape.format) :=
  [.word 6 7#32, .word 2 1#32, .clear, .number 7 ⟨0x3fc00000#32⟩, .word 6 9#32,
    .word 8 0xc0000000#32]

theorem nine_cells_edited :
    BinShape.make? 1 false 4 = .ok nineCells.shape ∧
      make? nineCells.shape 3 = .ok nineCells ∧
      (nineCells.edited writesAroundClearing).bin 2 =
        .ok ⟨9, ⟨0x3ff8000000000000#64⟩, [⟨0xc000000000000000#64⟩], []⟩ ∧
      (nineCells.edited writesAroundClearing).bin 0 = .ok ⟨0, 0, [0], []⟩ ∧
      (nineCells.edited writesAroundClearing).span = 36 := by
  have accepted : BinShape.make? 1 false 4 = .ok nineCells.shape := rfl
  have made : make? nineCells.shape 3 = .ok nineCells := by decide
  obtain ⟨-, edits⟩ := edited_bins accepted 3
  obtain ⟨bins, -, -, span, -⟩ := edits nineCells made writesAroundClearing
  refine ⟨accepted, made, (bins 2 (by decide)).trans ?_, (bins 0 (by decide)).trans ?_, span⟩
  · decide +kernel
  · decide +kernel

end BinBuffer

end LaneBoost
