import LaneBoost.Proofs.PackCodec
import LaneBoost.Proofs.UpdateSlots

/-!
# The zones with numbers of 32 bits

Three zones compute with the same numbers in one, four and eight lanes. They differ in how many samples
a group has, in how they convert words and in how they take gathered indexes; for words below `2 ^ 31`
the latter two come to the same. A data set has no lanes: `PacksAs`, `HoldsScores` and `HoldsGradients`
say that the buffers handed to a zone are those of the data set.
-/
namespace LaneBoost

/-- The zones with numbers of 32 bits. -/
inductive SingleZone where
  | accel32
  | sse2
  | avx2
  deriving DecidableEq, Repr

namespace SingleZone

def lanes : SingleZone → Nat
  | accel32 => Zone.accel32.lanes
  | sse2 => Zone.sse2.lanes
  | avx2 => Zone.avx2.lanes

def machine : (z : SingleZone) → Machine Binary32 32 z.lanes
  | accel32 => Zone.accel32.machine
  | sse2 => Zone.sse2.machine
  | avx2 => Zone.avx2.machine

theorem lanes_pos (z : SingleZone) : 0 < z.lanes := by cases z <;> decide

theorem few_lanes (z : SingleZone) : z.lanes ≤ Format.single.bytes * 2 := by cases z <;> decide

theorem place_of_lt (z : SingleZone) (x : BitVec 32) (h : x.toNat < 2 ^ 31) :
    z.machine.place x = x.toNat := by
  cases z with
  | accel32 => exact Zone.accel32.place_of_lt x h
  | sse2 => exact Zone.sse2.place_of_lt x h
  | avx2 => exact Zone.avx2.place_of_lt x h

/-- A small word becomes the same number in all of them. -/
theorem ofWord_of_lt (z : SingleZone) (x : BitVec 32) (h : x.toNat < 2 ^ 31) :
    z.machine.ofWord x = Binary.ofNat x.toNat := by
  cases z with
  | accel32 => exact Zone.accel32.ofWord_of_lt x h
  | sse2 => exact Zone.sse2.ofWord_of_lt x h
  | avx2 => exact Zone.avx2.ofWord_of_lt x h

/-- All of them read and write cells alike. -/
theorem ofCell_eq (z z' : SingleZone) : z.machine.ofCell = z'.machine.ofCell := by
  cases z <;> cases z' <;> rfl

theorem toCell_eq (z z' : SingleZone) : z.machine.toCell = z'.machine.toCell := by
  cases z <;> cases z' <;> rfl

theorem narrow_eq (z z' : SingleZone) : z.machine.narrow = z'.machine.narrow := by
  cases z <;> cases z' <;> rfl

end SingleZone

/-! ### Data sets in buffers -/

namespace Pack

/-- Packed words for the indexes of some samples, `items` to a word; or none where there are none. -/
inductive PacksAs (lanes samples : Nat) (items : Int) :
    Option (Array Nat) → Option (Array (BitVec 32)) → Prop where
  | absent : items ≤ 32 → PacksAs lanes samples items none none
  | packed {indexes : Array Nat} {words : Array (BitVec 32)} :
    indexes.size = samples → pack indexes items.toNat lanes 4 = .ok ⟨32, words⟩ →
    PacksAs lanes samples items (some indexes) (some words)

/-- The index of a sample; zero where there are none. -/
def indexOf (indexes : Option (Array Nat)) (s : Nat) : Nat :=
  match indexes with
  | none => 0
  | some xs => xs.getD s 0

namespace PacksAs

variable {lanes samples : Nat} {items : Int} {indexes : Option (Array Nat)}
  {words : Option (Array (BitVec 32))}

theorem items_le (h : PacksAs lanes samples items indexes words) : items ≤ 32 := by
  cases h with
  | absent most => exact most
  | packed size packed => exact items_le_of_pack packed

/-- The kernels read the indexes of the data set. -/
theorem toNat_indexAt (h : PacksAs lanes samples items indexes words) {s : Nat} (hs : s < samples) :
    (indexAt items words lanes s).toNat = indexOf indexes s := by
  cases h with
  | absent => rfl
  | packed size packed =>
    subst size
    exact @toNat_indexAt_of_pack _ items lanes 4 _ packed s hs

end PacksAs

end Pack

namespace Layout

variable {α : Type} {samples scores lanes : Nat}

/-- The buffer has the scores of a table at their slots. -/
def HoldsScores (buffer : Array α) (samples scores lanes : Nat) (table : Nat → Nat → α) : Prop :=
  ∀ s, s < samples → ∀ k, k < scores → buffer[scoreSlot s k scores lanes]? = some (table s k)

/-- The buffer has the gradients of a table at their slots, and the hessians of another where it is to
have any. -/
structure HoldsGradients (buffer : Array α) (samples scores : Nat) (hessian : Bool) (lanes : Nat)
    (gradient hess : Nat → Nat → α) : Prop where
  gradient_at : ∀ s, s < samples → ∀ k, k < scores →
    buffer[gradientSlot s k scores hessian lanes]? = some (gradient s k)
  hessian_at : hessian = true → ∀ s, s < samples → ∀ k, k < scores →
    buffer[hessianSlot s k scores lanes]? = some (hess s k)

theorem holdsScores_replicate (whole : lanes ∣ samples) {n : Nat} (room : samples * scores ≤ n)
    (x : α) : HoldsScores (Array.replicate n x) samples scores lanes fun _ _ => x := by
  intro s hs k hk
  have inside := Nat.lt_of_lt_of_le (scoreSlot_lt whole hs hk) room
  rw [Array.getElem?_replicate, if_pos inside]

theorem holdsGradients_replicate (whole : lanes ∣ samples) {hessian : Bool} {n : Nat}
    (room : gradientSlots samples scores hessian ≤ n) (x : α) :
    HoldsGradients (Array.replicate n x) samples scores hessian lanes (fun _ _ => x)
      fun _ _ => x where
  gradient_at s hs k hk := by
    have inside := Nat.lt_of_lt_of_le (gradientSlot_lt whole hessian hs hk) room
    rw [Array.getElem?_replicate, if_pos inside]
  hessian_at some_hessians s hs k hk := by
    subst some_hessians
    have inside := Nat.lt_of_lt_of_le (hessianSlot_lt whole hs hk) room
    rw [Array.getElem?_replicate, if_pos inside]

/-- A buffer with all scores is as large as they are many. -/
theorem HoldsScores.room {buffer : Array α} {table : Nat → Nat → α}
    (h : HoldsScores buffer samples scores lanes table) (whole : lanes ∣ samples) :
    samples * scores ≤ buffer.size := by
  apply Nat.le_of_not_lt
  intro small
  obtain ⟨s, hs, k, hk, slot⟩ := exists_scoreSlot whole small
  have there := h s hs k hk
  rw [← slot, Array.getElem?_eq_none (Nat.le_refl _)] at there
  cases there

theorem HoldsScores.getD_eq [Zero α] {buffer : Array α} {table : Nat → Nat → α}
    (h : HoldsScores buffer samples scores lanes table) {s k : Nat} (hs : s < samples)
    (hk : k < scores) : buffer.getD (scoreSlot s k scores lanes) 0 = table s k := by
  rw [Array.getD_eq_getD_getElem?, h s hs k hk, Option.getD_some]

namespace HoldsGradients

variable {hessian : Bool} {buffer : Array α} {gradient hess : Nat → Nat → α}

theorem room (h : HoldsGradients buffer samples scores hessian lanes gradient hess)
    (whole : lanes ∣ samples) : gradientSlots samples scores hessian ≤ buffer.size := by
  apply Nat.le_of_not_lt
  intro small
  obtain ⟨s, hs, k, hk, slot | ⟨some_hessians, slot⟩⟩ := exists_gradientSlot whole hessian small
  · have there := h.gradient_at s hs k hk
    rw [← slot, Array.getElem?_eq_none (Nat.le_refl _)] at there
    cases there
  · have there := h.hessian_at some_hessians s hs k hk
    rw [← slot, Array.getElem?_eq_none (Nat.le_refl _)] at there
    cases there

theorem getD_gradient [Zero α] (h : HoldsGradients buffer samples scores hessian lanes gradient hess)
    {s k : Nat} (hs : s < samples) (hk : k < scores) :
    buffer.getD (gradientSlot s k scores hessian lanes) 0 = gradient s k := by
  rw [Array.getD_eq_getD_getElem?, h.gradient_at s hs k hk, Option.getD_some]

theorem getD_hessian [Zero α] (h : HoldsGradients buffer samples scores hessian lanes gradient hess)
    (some_hessians : hessian = true) {s k : Nat} (hs : s < samples) (hk : k < scores) :
    buffer.getD (hessianSlot s k scores lanes) 0 = hess s k := by
  rw [Array.getD_eq_getD_getElem?, h.hessian_at some_hessians s hs k hk, Option.getD_some]

end HoldsGradients

end Layout

end LaneBoost
