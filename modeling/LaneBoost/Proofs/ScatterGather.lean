import Mathlib.Data.Set.Finite.Lemmas
import Mathlib.Order.Bounds.Basic
import LaneBoost.Proofs.UpdateSlots

/-!
# Elements that lanes name

A scatter writes lane after lane, so of the lanes that name an element the last one decides it. A gather
with the same indexes therefore shows in each lane what the last lane with its index brought, and
writing back what has been gathered changes nothing. For this an index has to name the same element
when it is read as when it is written, which in eight lanes the upper indexes do not.
-/
namespace LaneBoost

/-- Of some lanes one is the last. -/
theorem exists_last_lane {n : Nat} {lanes : Set (Fin n)} (some_lane : lanes.Nonempty) :
    ∃ last, IsGreatest lanes last :=
  Set.exists_max_image lanes id (Set.toFinite lanes) some_lane

/-! ### Writing -/

/-- A memory after a scatter: elements that no lane names are as before, and any other has the value of
the last lane that names it. -/
structure Scattered {α : Type} {n w : Nat} (v : Lanes α n) (indexes : Lanes (BitVec w) n)
    (memory after : Array α) : Prop where
  size_eq : after.size = memory.size
  unnamed : ∀ i, (∀ l, (indexes.get l).toNat ≠ i) → after[i]? = memory[i]?
  named : ∀ i, (∃ l, (indexes.get l).toNat = i) →
    ∃ last, IsGreatest {l | (indexes.get l).toNat = i} last ∧ after[i]? = some (v.get last)

section Scatter

variable {α : Type} {n w : Nat} (v : Lanes α n) {indexes : Lanes (BitVec w) n} {memory : Array α}

theorem getElem?_scatter_of_isGreatest {i : Nat} {last : Fin n}
    (greatest : IsGreatest {l | (indexes.get l).toNat = i} last) (inside : i < memory.size) :
    (v.scatter indexes memory)[i]? = some (v.get last) := by
  obtain ⟨rfl, later⟩ := greatest
  refine v.getElem?_writeAt_of_last _ memory last (fun l hl named => ?_) inside
  exact absurd (later named) (not_le.2 hl)

variable (inside : ∀ l, (indexes.get l).toNat < memory.size)

include inside

theorem scattered_scatter : Scattered v indexes memory (v.scatter indexes memory) where
  size_eq := v.size_writeAt _ memory
  unnamed i unnamed := v.getElem?_writeAt_of_ne _ memory i unnamed
  named i named := by
    obtain ⟨last, greatest⟩ := exists_last_lane named
    have within : i < memory.size := greatest.1 ▸ inside last
    exact ⟨last, greatest, getElem?_scatter_of_isGreatest v greatest within⟩

end Scatter

/-! ### Reading -/

namespace Machine

variable {F : Type} [Zero F] {w n : Nat} (m : Machine F w n) {memory : Array F}
  {indexes : Lanes (BitVec w) n}

/-- A read that takes an index for its number finds the element of that number. -/
theorem get_gather_of_place {l : Fin n} {x : F}
    (place : m.place (indexes.get l) = (indexes.get l).toNat)
    (element : memory[(indexes.get l).toNat]? = some x) :
    (m.gather memory indexes).get l = x := by
  simp only [gather, Lanes.get_gather, Lanes.get_map, place, Lanes.elementAt]
  rw [if_neg (by omega), Int.toNat_natCast, Array.getD_eq_getD_getElem?, element, Option.getD_some]

/-- In front of the memory there is nothing to read. -/
theorem get_gather_of_negative (memory : Array F) {l : Fin n}
    (negative : m.place (indexes.get l) < 0) : (m.gather memory indexes).get l = 0 := by
  rw [gather, Lanes.get_gather, Lanes.get_map, Lanes.elementAt, if_pos negative]

variable (places : ∀ l, m.place (indexes.get l) = (indexes.get l).toNat)
  (inside : ∀ l, (indexes.get l).toNat < memory.size)

include places inside

/-- What the last lane with an index has brought is read by all lanes with that index. -/
theorem exists_get_gather_scatter (v : Lanes F n) (l : Fin n) :
    ∃ last, IsGreatest {k | indexes.get k = indexes.get l} last ∧
      (m.gather (v.scatter indexes memory) indexes).get l = v.get last := by
  obtain ⟨last, greatest, element⟩ := (scattered_scatter v inside).named _ ⟨l, rfl⟩
  simp only [BitVec.toNat_inj] at greatest
  exact ⟨last, greatest, m.get_gather_of_place (places l) element⟩

theorem gather_scatter_of_injective (distinct : Function.Injective indexes.get) (v : Lanes F n) :
    m.gather (v.scatter indexes memory) indexes = v := by
  ext l
  obtain ⟨last, ⟨same, -⟩, read⟩ := m.exists_get_gather_scatter places inside v l
  rw [read, distinct same]

/-- Elements that are written back do not change. -/
theorem scatter_gather : (m.gather memory indexes).scatter indexes memory = memory := by
  have scattered := scattered_scatter (m.gather memory indexes) inside
  refine Array.ext_getElem? fun i => ?_
  by_cases named : ∃ l, (indexes.get l).toNat = i
  · obtain ⟨last, ⟨rfl, -⟩, written⟩ := scattered.named i named
    have element := Array.getElem?_eq_getElem (inside last)
    rw [written, m.get_gather_of_place (places last) element, element]
  · exact scattered.unnamed i (not_exists.1 named)

end Machine

/-- A read takes a word for its number in every zone; with eight lanes only below half of the words. -/
theorem Zone.place_eq_toNat_iff (z : Zone) (x : BitVec z.width) :
    z.machine.place x = x.toNat ↔ (z = .avx2 → x.toNat < 2 ^ 31) := by
  constructor
  · rintro place rfl
    have signed : x.toInt = x.toNat := place
    by_contra upper
    have half : 2 ^ 32 ≤ 2 * x.toNat := by omega
    have negative : x.toInt < 0 := BitVec.toInt_neg_iff.2 half
    omega
  · intro lower
    cases z with
    | cpu64 => rfl
    | accel32 => rfl
    | sse2 => rfl
    | avx2 => exact Zone.avx2.place_of_lt x (lower rfl)

/-- For vectors of any kind and indexes inside a memory of any size, a scatter changes the elements that
lanes name, each to the value of the last such lane, and no others. Where reads take the indexes for
their numbers, a gather with the same indexes then shows in each lane the value of the last lane with
its index, which is its own where the indexes differ; and elements that are gathered and scattered again
leave the memory as it is. Every zone reads so at any index, but for eight lanes, which take indexes
for signed numbers and need them below `2 ^ 31`. -/
theorem scatter_then_gather :
    (∀ (z : Zone) (x : BitVec z.width),
        z.machine.place x = x.toNat ↔ (z = .avx2 → x.toNat < 2 ^ 31)) ∧
      ∀ (F : Type) [Zero F] (w n : Nat) (m : Machine F w n) (memory : Array F) (v : Lanes F n)
          (indexes : Lanes (BitVec w) n), (∀ l, (indexes.get l).toNat < memory.size) →
        Scattered v indexes memory (v.scatter indexes memory) ∧
          ((∀ l, m.place (indexes.get l) = (indexes.get l).toNat) →
            (∀ l, ∃ last, IsGreatest {k | indexes.get k = indexes.get l} last ∧
                (m.gather (v.scatter indexes memory) indexes).get l = v.get last) ∧
              (Function.Injective indexes.get →
                m.gather (v.scatter indexes memory) indexes = v) ∧
              (m.gather memory indexes).scatter indexes memory = memory) := by
  refine ⟨Zone.place_eq_toNat_iff, fun F _ w n m memory v indexes inside => ?_⟩
  refine ⟨scattered_scatter v inside, fun places => ⟨?_, fun distinct => ?_, ?_⟩⟩
  · exact m.exists_get_gather_scatter places inside v
  · exact m.gather_scatter_of_injective places inside distinct v
  · exact m.scatter_gather places inside

/-- Two lanes name element 3 and three name element 6; no lane names element 4. -/
theorem eight_lanes_scattered :
    let m : Machine Binary32 32 8 := Zone.avx2.machine
    let memory : Array Binary32 := Array.replicate 7 1
    let v : Lanes Binary32 8 := Lanes.ofFn fun l => Binary.ofNat (10 + l)
    let indexes : Lanes (BitVec 32) 8 := ⟨#v[3, 1, 3, 0, 6, 6, 6, 2]⟩
    let after := v.scatter indexes memory
    after[3]? = some (v.get 2) ∧ after[4]? = memory[4]? ∧
      (m.gather after indexes).get 4 = v.get 6 ∧
      (m.gather memory indexes).scatter indexes memory = memory := by
  intro m memory v indexes after
  have inside : ∀ l, (indexes.get l).toNat < memory.size := by decide
  obtain ⟨zones, vectors⟩ := scatter_then_gather
  obtain ⟨scattered, reads⟩ := vectors Binary32 32 8 m memory v indexes inside
  obtain ⟨gathered, -, back⟩ := reads fun l => (zones .avx2 (indexes.get l)).2 fun _ =>
    Nat.lt_trans (inside l) (by decide)
  obtain ⟨_, greatest, written⟩ := scattered.named 3 ⟨0, by decide⟩
  obtain ⟨_, greatest', read⟩ := gathered 4
  have none_later : ∀ l, (indexes.get l).toNat = 3 → l ≤ 2 := by decide
  have none_later' : ∀ k, indexes.get k = indexes.get 4 → k ≤ 6 := by decide
  rw [greatest.unique ⟨by decide, none_later⟩] at written
  rw [greatest'.unique ⟨by decide, none_later'⟩] at read
  exact ⟨written, scattered.unnamed 4 (by decide), read, back⟩

/-- Eight lanes that all name the last element of a long memory write it there, but read in front of
the memory. They do not read back what the last of them has written, nor write back what was there. -/
theorem upper_index_not_read_back :
    let m : Machine Binary32 32 8 := Zone.avx2.machine
    let memory : Array Binary32 := Array.replicate (2 ^ 31 + 1) 1
    let v : Lanes Binary32 8 := Lanes.splat 1
    let indexes : Lanes (BitVec 32) 8 := Lanes.splat 0x80000000
    (∀ l, (indexes.get l).toNat < memory.size ∧ m.place (indexes.get l) < 0) ∧
      IsGreatest {k | indexes.get k = indexes.get 0} 7 ∧
      (m.gather (v.scatter indexes memory) indexes).get 0 ≠ v.get 7 ∧
      (m.gather memory indexes).scatter indexes memory ≠ memory := by
  intro m memory v indexes
  have number : ∀ l, (indexes.get l).toNat = 2 ^ 31 := by decide
  have negative : ∀ l, m.place (indexes.get l) < 0 := by decide
  have size : memory.size = 2 ^ 31 + 1 := Array.size_replicate
  have inside : 2 ^ 31 < memory.size := size ▸ Nat.lt_succ_self _
  refine ⟨fun l => ⟨number l ▸ inside, negative l⟩, ⟨rfl, fun l _ => Fin.le_last l⟩, ?_,
    fun same => ?_⟩
  · rw [m.get_gather_of_negative _ (negative 0)]
    decide
  · have last : IsGreatest {l | (indexes.get l).toNat = 2 ^ 31} 7 :=
      ⟨number 7, fun l _ => Fin.le_last l⟩
    have written := getElem?_scatter_of_isGreatest (m.gather memory indexes) last inside
    rw [same, m.get_gather_of_negative memory (negative 7)] at written
    have before : memory[2 ^ 31]? = some 1 := by
      rw [Array.getElem?_replicate, if_pos (Nat.lt_succ_self _)]
    exact absurd (Option.some.inj (before.symm.trans written)) (by decide)

end LaneBoost
