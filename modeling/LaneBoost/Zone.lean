import LaneBoost.Backend
import LaneBoost.Lane.Vector

/-!
# The zones

A `Machine` holds what a zone fixes beside the arithmetic of a lane: how many lanes there are, how
words become numbers, how an index finds its element, and in which order the lanes are summed.
-/
namespace LaneBoost

structure Machine (F : Type) (w lanes : Nat) where
  lanes_pos : 0 < lanes
  /-- Cells of this width fill 64-bit words. -/
  width_dvd : w ∣ 64
  /-- The number nearest to a word. -/
  ofWord : BitVec w → F
  /-- The place of the element that a gathered index names. -/
  place : BitVec w → Int
  /-- The sum of the lanes. -/
  total : Lanes F lanes → F
  widen : F → Binary64
  narrow : Binary64 → F
  /-- The bits that memory keeps of a number. -/
  toCell : F → BitVec w
  ofCell : BitVec w → F

namespace Machine

variable {F : Type} {w lanes : Nat}

/-- The elements that the lanes' indexes name. -/
def gather [Zero F] (m : Machine F w lanes) (memory : Array F) (indexes : Lanes (BitVec w) lanes) :
    Lanes F lanes :=
  Lanes.gather memory (indexes.map m.place)

end Machine

/-- The zones that compute on the processor or with one lane of its numbers. -/
inductive Zone where
  | cpu64
  | accel32
  | sse2
  | avx2
  deriving DecidableEq, Repr

namespace Zone

def backend : Zone → Backend
  | cpu64 => .cpu64
  | accel32 => .accel32
  | sse2 => .sse2
  | avx2 => .avx2

/-- The zone of a backend. The widest vectors have none here, and neither has the automatic choice. -/
def ofBackend? : Backend → Option Zone
  | .cpu64 => some cpu64
  | .accel32 => some accel32
  | .sse2 => some sse2
  | .avx2 => some avx2
  | .avx512f | .auto => none

theorem ofBackend?_eq_some_iff (b : Backend) (z : Zone) : ofBackend? b = some z ↔ z.backend = b := by
  cases b <;> cases z <;> simp [ofBackend?, backend]

def lanes : Zone → Nat
  | cpu64 | accel32 => 1
  | sse2 => 4
  | avx2 => 8

def format : Zone → Format
  | cpu64 => .double
  | accel32 | sse2 | avx2 => .single

/-- Width of the numbers and of the words. -/
def width (z : Zone) : Nat := z.format.width

/-- The numbers of the zone. -/
abbrev Number (z : Zone) := Binary z.format

def dimensions (z : Zone) : Dimensions := ⟨z.lanes, z.format⟩

/-- A zone has the dimensions that its backend promises. -/
theorem dimensions_backend (z : Zone) : z.backend.dimensions? = some z.dimensions := by
  cases z <;> rfl

theorem lanes_pos (z : Zone) : 0 < z.lanes := by cases z <;> decide

theorem width_dvd (z : Zone) : z.width ∣ 64 := by cases z <;> decide

/-- Vectors of several lanes take words for signed numbers when they convert them. -/
def ofWord (z : Zone) (x : BitVec z.width) : z.Number :=
  match z with
  | cpu64 | accel32 => Binary.ofNat x.toNat
  | sse2 | avx2 => Binary.ofInt x.toInt

/-- The gather instruction of eight lanes takes indexes for signed numbers. -/
def place (z : Zone) (x : BitVec z.width) : Int :=
  match z with
  | cpu64 | accel32 | sse2 => x.toNat
  | avx2 => x.toInt

/-- Halves are folded onto each other; the last four lanes are summed in neighbouring pairs, or
crosswise where four is all there are. -/
def total : (z : Zone) → Lanes z.Number z.lanes → z.Number
  | cpu64, v => v.get ⟨0, by decide⟩
  | accel32, v => v.get ⟨0, by decide⟩
  | sse2, v =>
    (v.get ⟨0, by decide⟩ + v.get ⟨2, by decide⟩) + (v.get ⟨1, by decide⟩ + v.get ⟨3, by decide⟩)
  | avx2, v =>
    ((v.get ⟨0, by decide⟩ + v.get ⟨4, by decide⟩) +
        (v.get ⟨1, by decide⟩ + v.get ⟨5, by decide⟩)) +
      ((v.get ⟨2, by decide⟩ + v.get ⟨6, by decide⟩) +
        (v.get ⟨3, by decide⟩ + v.get ⟨7, by decide⟩))

def machine (z : Zone) : Machine z.Number z.width z.lanes where
  lanes_pos := z.lanes_pos
  width_dvd := z.width_dvd
  ofWord := z.ofWord
  place := z.place
  total := z.total
  widen := Binary.convert .double
  narrow := Binary.convert z.format
  toCell := Binary.bits
  ofCell := Binary.mk

end Zone

end LaneBoost
