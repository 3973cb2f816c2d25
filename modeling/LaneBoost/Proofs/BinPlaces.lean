import LaneBoost.BinSums
import Mathlib.Tactic.Ring

/-!
# Where the bins of a buffer lie

Storage keeps the size that `make?` gives it, and it is far smaller than the space of addresses. So
the first cell of each bin of a buffer is found from the addresses that a caller hands over.
-/
namespace LaneBoost

namespace BinShape

theorem bytes_pos (s : BinShape) : 0 < s.format.bytes := by
  unfold format
  split <;> decide

theorem width_eq (s : BinShape) : s.format.width = 8 * s.format.bytes := by
  unfold format
  split <;> decide

theorem slots_le_bytes (s : BinShape) : s.slots ≤ s.bytes := Nat.le_mul_of_pos_right _ s.bytes_pos

/-- The bytes are checked, and with them the cells. -/
theorem bytes?_eq (s : BinShape) : s.bytes? = size s.bytes := by
  have fewer := s.slots_le_bytes
  rw [bytes?, slots?]
  by_cases slots : s.slots < sizeBound
  · rw [size_of_lt slots]
    rfl
  · rw [size_of_le (Nat.le_of_not_lt slots), size_of_le (by omega)]
    rfl

end BinShape

namespace BinBuffer

/-- Storage as large as that of a new buffer of the same shape, whatever it holds. -/
structure Allotted (b : BinBuffer) : Prop where
  bytes_lt : b.shape.bytes < sizeBound
  span_lt : (b.span + 7) / 8 * 8 < storageBound
  words_eq : b.cells.words.size = (b.span + 7) / 8

/-- A buffer is made unless its size is none, and then it holds zeros. -/
theorem make?_eq_ok_iff {shape : BinShape} {bins : Nat} {b : BinBuffer} :
    make? shape bins = .ok b ↔
      (shape.bytes < sizeBound ∧ (shape.bytes * bins + 7) / 8 * 8 < storageBound) ∧
        b = ⟨shape, bins, Cells.ofBytes (shape.bytes * bins)⟩ := by
  simp only [make?, shape.bytes?_eq]
  by_cases bytes : shape.bytes < sizeBound
  · by_cases total : shape.bytes * bins < sizeBound
    · simp only [size_of_lt bytes, size_of_lt total, bind, Except.bind]
      split_ifs with room
      · exact ⟨fun h => ⟨⟨bytes, room⟩, (Except.ok.inj h).symm⟩,
          fun h => congrArg Except.ok h.2.symm⟩
      · exact ⟨nofun, fun h => absurd h.1.2 room⟩
    · have bound : storageBound < sizeBound := by decide
      simp only [size_of_lt bytes, size_of_le (Nat.le_of_not_lt total), bind, Except.bind]
      exact ⟨nofun, fun h => by omega⟩
  · simp only [size_of_le (Nat.le_of_not_lt bytes), bind, Except.bind]
    exact ⟨nofun, fun h => absurd h.1.1 bytes⟩

theorem exists_make?_iff {shape : BinShape} {bins : Nat} :
    (∃ b, make? shape bins = .ok b) ↔
      shape.bytes < sizeBound ∧ (shape.bytes * bins + 7) / 8 * 8 < storageBound :=
  ⟨fun ⟨_, made⟩ => (make?_eq_ok_iff.1 made).1, fun fits => ⟨_, make?_eq_ok_iff.2 ⟨fits, rfl⟩⟩⟩

theorem make?_allotted {shape : BinShape} {bins : Nat} {b : BinBuffer}
    (h : make? shape bins = .ok b) : b.Allotted := by
  obtain ⟨⟨bytes, room⟩, rfl⟩ := make?_eq_ok_iff.1 h
  exact ⟨bytes, room, by simp [Cells.ofBytes, span]⟩

namespace Allotted

variable {b : BinBuffer}

theorem span_lt_storageBound (h : b.Allotted) : b.span < storageBound := by
  have := h.span_lt
  omega

theorem slots_lt (h : b.Allotted) : b.shape.slots < sizeBound := by
  have hb := b.shape.bytes_pos
  have hm := Nat.mul_le_mul_left b.shape.slots hb
  have := h.bytes_lt
  rw [BinShape.bytes] at this
  omega

end Allotted

/-- A bin ends within the span of its buffer. -/
theorem bin_end_le (b : BinBuffer) {i : Nat} (hi : i < b.bins) :
    i * b.shape.slots * b.shape.format.bytes + b.shape.slots * b.shape.format.bytes ≤ b.span := by
  have hm := Nat.mul_le_mul_left b.shape.bytes (Nat.succ_le_of_lt hi)
  have he : b.shape.bytes * (i + 1) =
      i * b.shape.slots * b.shape.format.bytes + b.shape.slots * b.shape.format.bytes := by
    rw [BinShape.bytes]
    ring
  rw [← he]
  exact hm

/-- A cell of the bins ends within the span. -/
theorem cell_end_le (b : BinBuffer) {slot : Nat} (hs : slot < b.bins * b.shape.slots) :
    (slot + 1) * b.shape.format.bytes ≤ b.span := by
  have cells := Nat.mul_le_mul_right b.shape.format.bytes (Nat.succ_le_of_lt hs)
  rwa [Nat.mul_assoc, Nat.mul_comm b.bins] at cells

/-- And within the storage. -/
theorem Allotted.cell_stored {b : BinBuffer} (h : b.Allotted) {slot : Nat}
    (hs : slot < b.bins * b.shape.slots) :
    slot * b.shape.format.width / 64 < b.cells.words.size := by
  have ends := b.cell_end_le hs
  have some_bytes := b.shape.bytes_pos
  have bits : slot * b.shape.format.width = 8 * (slot * b.shape.format.bytes) := by
    rw [b.shape.width_eq, Nat.mul_left_comm]
  rw [Nat.succ_mul] at ends
  rw [h.words_eq, bits]
  omega

end BinBuffer

namespace BinSums

/-- Where a buffer at an address lies. A guarded one tells where it ends. -/
def Span.over (b : BinBuffer) (start : BitVec 64) (guarded : Bool) : Span :=
  ⟨start, if guarded then some (start + BitVec.ofNat 64 b.span) else none⟩

/-- The target for the bins of a buffer. -/
def Target.over (b : BinBuffer) (start : BitVec 64) (guarded : Bool) : Target :=
  ⟨.over b start guarded, b.shape.slots, b.shape.format.bytes⟩

/-- The bin of an index, as addresses count, does not end behind the end of the bins. -/
def Target.Passes (t : Target) (i : Nat) : Prop :=
  ∀ finish, t.span.finish = some finish →
    (t.span.start.toNat + (i + 1) * (t.slots * t.cellBytes)) % 2 ^ 64 ≤ finish.toNat

theorem Target.address_eq_ite (t : Target) (i : Nat) : t.address i =
    if i * t.slots < sizeBound then
      .ok (t.span.start + BitVec.ofNat 64 (i * t.slots * t.cellBytes))
    else .error .overflow := by
  simp only [address, size]
  split_ifs <;> rfl

/-- What is found of an index, and when. Only the number of the first cell is checked, so the address
of that cell and the end of the bin may wrap around. -/
theorem Target.locate_eq_ok_iff {t : Target} {i first : Nat} :
    t.locate i = .ok first ↔
      i * t.slots < sizeBound ∧ t.Passes i ∧
        first = i * t.slots * t.cellBytes % 2 ^ 64 / t.cellBytes := by
  let start := t.span.start + BitVec.ofNat 64 (i * t.slots * t.cellBytes)
  have offset : (start - t.span.start).toNat = i * t.slots * t.cellBytes % 2 ^ 64 := by
    simp only [start]
    rw [BitVec.add_comm, BitVec.add_sub_cancel, BitVec.toNat_ofNat]
  have last : (start + BitVec.ofNat 64 (t.slots * t.cellBytes)).toNat =
      (t.span.start.toNat + (i + 1) * (t.slots * t.cellBytes)) % 2 ^ 64 := by
    rw [Nat.succ_mul, ← Nat.mul_assoc, ← Nat.add_assoc]
    simp only [start, BitVec.toNat_add, BitVec.toNat_ofNat, Nat.add_mod_mod, Nat.mod_add_mod]
  rw [locate, address_eq_ite]
  by_cases cell_lt : i * t.slots < sizeBound
  · rw [if_pos cell_lt, ← offset]
    simp only [cell_lt, true_and]
    cases guard : t.span.finish with
    | none =>
      have passes : t.Passes i := fun finish some => nomatch guard.symm.trans some
      exact ⟨fun h => ⟨passes, (Except.ok.inj h).symm⟩, fun h => congrArg Except.ok h.2.symm⟩
    | some finish =>
      have passes : t.Passes i ↔ ¬ finish < start + BitVec.ofNat 64 (t.slots * t.cellBytes) := by
        rw [BitVec.lt_def, last, Nat.not_lt]
        exact ⟨fun h => h finish guard, fun h _ some => Option.some.inj (guard.symm.trans some) ▸ h⟩
      rw [passes]
      simp only [bind, Except.bind]
      split_ifs with beyond
      · exact ⟨nofun, fun h => absurd beyond h.1⟩
      · exact ⟨fun h => ⟨beyond, (Except.ok.inj h).symm⟩, fun h => congrArg Except.ok h.2.symm⟩
  · rw [if_neg cell_lt]
    exact ⟨nofun, fun h => absurd h.1 cell_lt⟩

/-- A bin of the buffer is found at its first cell. -/
theorem locate_over {b : BinBuffer} (allotted : b.Allotted) {start : BitVec 64}
    (room : start.toNat + b.span < 2 ^ 64) (guarded : Bool) {i : Nat} (hi : i < b.bins) :
    (Target.over b start guarded).locate i = .ok (i * b.shape.slots) := by
  have ends := b.bin_end_le hi
  have storage := allotted.span_lt_storageBound
  have bound : BinBuffer.storageBound = 2 ^ 63 := rfl
  have cell_le := Nat.le_mul_of_pos_right (i * b.shape.slots) b.shape.bytes_pos
  refine Target.locate_eq_ok_iff.2 ⟨?_, fun finish guard => ?_, ?_⟩
  · show i * b.shape.slots < 2 ^ 64
    omega
  · cases guarded with
    | false => exact nomatch guard
    | true =>
      obtain rfl : start + BitVec.ofNat 64 b.span = finish := Option.some.inj guard
      simp only [Target.over, Span.over, BitVec.toNat_add, BitVec.toNat_ofNat, Nat.succ_mul,
        ← Nat.mul_assoc]
      omega
  · show i * b.shape.slots =
      i * b.shape.slots * b.shape.format.bytes % 2 ^ 64 / b.shape.format.bytes
    rw [Nat.mod_eq_of_lt (by omega), Nat.mul_div_cancel _ b.shape.bytes_pos]

/-! ### The buffer of a call -/

/-- The bins of a buffer have the cells that a call asks for, in this format. -/
structure Serves {F : Type} (b : BinBuffer) (φ : Format) (r : Request F) : Prop where
  format_eq : b.shape.format = φ
  scores_eq : b.shape.scores = r.scores
  hessian_eq : b.shape.hessian = r.hessian

namespace Serves

variable {F : Type} {lanes : Nat} {b : BinBuffer} {φ : Format} {r : Request F}

theorem slots_eq (h : Serves b φ r) :
    b.shape.slots = 2 + r.scores * Layout.perScore r.hessian := by
  rw [BinShape.slots, h.scores_eq, h.hessian_eq]

theorem cellBytes_eq (h : Serves b φ r) : b.shape.format.bytes = φ.width / 8 := by
  have width := b.shape.width_eq
  rw [h.format_eq] at width ⊢
  exact (Nat.div_eq_of_eq_mul_right (by decide) width).symm

theorem scores_pos (h : Serves b φ r) : 1 ≤ r.scores := h.scores_eq ▸ b.shape.scores_pos

theorem target_eq (h : Serves b φ r) (start : BitVec 64) (guarded : Bool) :
    Target.over b start guarded =
      ⟨Span.over b start guarded, 2 + r.scores * Layout.perScore r.hessian, φ.width / 8⟩ := by
  rw [Target.over, h.slots_eq, h.cellBytes_eq]

/-- The gradients of a group are fewer than the bytes of two bins. -/
theorem stride_le (h : Serves b φ r) (few_lanes : lanes ≤ φ.bytes * 2) :
    r.scores * Layout.perScore r.hessian * lanes ≤ b.shape.bytes * 2 := by
  have fewer : r.scores * Layout.perScore r.hessian ≤ b.shape.slots := by
    rw [h.slots_eq]
    omega
  calc r.scores * Layout.perScore r.hessian * lanes
      ≤ b.shape.slots * (φ.bytes * 2) := Nat.mul_le_mul fewer few_lanes
    _ = b.shape.bytes * 2 := by rw [BinShape.bytes, h.format_eq, Nat.mul_assoc]

/-- Where there is a bin at all, its storage bounds the gradients of a group. -/
theorem stride_lt (h : Serves b φ r) (few_lanes : lanes ≤ φ.bytes * 2) (allotted : b.Allotted)
    (sized : b.bins = 0 → r.scores * Layout.perScore r.hessian * lanes < sizeBound) :
    r.scores * Layout.perScore r.hessian * lanes < sizeBound := by
  by_cases none : b.bins = 0
  · exact sized none
  · have stride := h.stride_le few_lanes
    have storage := allotted.span_lt_storageBound
    have one : b.shape.bytes ≤ b.span := Nat.le_mul_of_pos_right _ (Nat.pos_of_ne_zero none)
    have bound : BinBuffer.storageBound = 2 ^ 63 := rfl
    show _ < 2 ^ 64
    omega

end Serves

end BinSums

end LaneBoost
