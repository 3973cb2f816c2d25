import LaneBoost.Number.Format

/-!
# Zones and their selection

A zone is a way to compute on lane vectors: a number format and a count of lanes. A request names a
*backend*, which is a zone or the wish for the best one that the machine has.
-/
namespace LaneBoost

inductive Backend where
  | cpu64
  | sse2
  | avx2
  | avx512f
  | accel32
  | auto
  deriving DecidableEq, Repr

/-- What the machine was found to have. -/
structure Probes where
  accelerator : Bool
  sse2 : Bool
  avx2 : Bool
  fma : Bool
  avx512f : Bool
  deriving DecidableEq, Repr

/-- What the objectives of a zone have to know about it. -/
structure Dimensions where
  lanes : Nat
  format : Format
  deriving DecidableEq, Repr

namespace Backend

/-- The name that messages use. -/
def label : Backend → String
  | cpu64 => "Cpu64"
  | sse2 => "Sse2"
  | avx2 => "Avx2"
  | avx512f => "Avx512f"
  | accel32 => "Accel32"
  | auto => "Auto"

/-- The zone behind a backend. The automatic choice has none of its own. -/
def dimensions? : Backend → Option Dimensions
  | cpu64 => some ⟨1, .double⟩
  | sse2 => some ⟨4, .single⟩
  | avx2 => some ⟨8, .single⟩
  | avx512f => some ⟨16, .single⟩
  | accel32 => some ⟨1, .single⟩
  | auto => none

/-- Zones from the fastest to the one that every machine has. -/
def selectionOrder : List Backend := [accel32, avx512f, avx2, sse2, cpu64]

/-- Whether the machine can run the backend. -/
def isAvailable (p : Probes) : Backend → Bool
  | cpu64 => true
  | accel32 => p.accelerator
  | auto => true
  | sse2 => p.sse2
  | avx2 => p.avx2 && p.fma
  | avx512f => p.avx512f

/-- The zones that the machine can run, fastest first. -/
def available (p : Probes) : List Backend := selectionOrder.filter (isAvailable p)

/-- The best zone of the processor, tested from the widest vectors down. -/
def bestProcessorZone (p : Probes) : Backend :=
  if p.avx512f then avx512f
  else if p.avx2 && p.fma then avx2
  else if p.sse2 then sse2
  else cpu64

/-- The zone that the automatic choice stands for. An accelerator goes before the processor. -/
def best (p : Probes) : Backend := if p.accelerator then accel32 else bestProcessorZone p

/-- The zone that a backend comes down to. -/
def resolve (p : Probes) : Backend → Backend
  | auto => best p
  | b => b

/-- Lanes to a vector. -/
def lanes (p : Probes) (b : Backend) : Nat := ((b.resolve p).dimensions?.map (·.lanes)).getD 0

/-- Bytes of a number, and of an unsigned word. -/
def floatBytes (p : Probes) (b : Backend) : Nat :=
  ((b.resolve p).dimensions?.map (·.format.bytes)).getD 0

end Backend

end LaneBoost
