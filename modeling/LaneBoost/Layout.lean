import LaneBoost.Checked

/-!
# Slots of the lane-interleaved buffers

Samples are taken in groups of as many as a zone has lanes. Within a group every score has one lane
vector, and the vectors of a group follow one another. With hessians, each gradient vector is
followed by the hessian vector of the same score.

The slots are plain arithmetic. The checked forms refuse a lane count of zero and slots that are no
sizes; since every factor is positive, the slot is the largest number on the way to it.
-/
namespace LaneBoost.Layout

/-- Vectors that a gradient buffer has for each score. -/
def perScore (hessian : Bool) : Nat := if hessian then 2 else 1

@[simp] theorem perScore_true : perScore true = 2 := rfl
@[simp] theorem perScore_false : perScore false = 1 := rfl

/-- Slot of a score of a sample. -/
def scoreSlot (sample score scores lanes : Nat) : Nat :=
  (sample / lanes * scores + score) * lanes + sample % lanes

/-- Slot of the gradient of a score of a sample. -/
def gradientSlot (sample score scores : Nat) (hessian : Bool) (lanes : Nat) : Nat :=
  (sample / lanes * scores + score) * perScore hessian * lanes + sample % lanes

/-- Slot of the hessian of a score of a sample, one vector after its gradient. -/
def hessianSlot (sample score scores lanes : Nat) : Nat :=
  gradientSlot sample score scores true lanes + lanes

/-- Slots of a gradient buffer. -/
def gradientSlots (samples scores : Nat) (hessian : Bool) : Nat :=
  samples * scores * perScore hessian

/-- The least whole number of groups that holds the samples, counted in samples. -/
def paddedSamples (samples lanes : Nat) : Nat := (samples + (lanes - 1)) / lanes * lanes

def checked (lanes slot : Nat) : Checked Nat :=
  if lanes = 0 then .error .divisionByZero else size slot

def scoreSlot? (sample score scores lanes : Nat) : Checked Nat :=
  checked lanes (scoreSlot sample score scores lanes)

def gradientSlot? (sample score scores : Nat) (hessian : Bool) (lanes : Nat) : Checked Nat :=
  checked lanes (gradientSlot sample score scores hessian lanes)

def hessianSlot? (sample score scores lanes : Nat) : Checked Nat :=
  checked lanes (hessianSlot sample score scores lanes)

def gradientSlots? (samples scores : Nat) (hessian : Bool) : Checked Nat :=
  size (gradientSlots samples scores hessian)

def paddedSamples? (samples lanes : Nat) : Checked Nat :=
  checked lanes (paddedSamples samples lanes)

/-- Slot of entry `i` of the table that has one row of scores for each sample. -/
def rowSlot? (i scores lanes : Nat) : Checked Nat :=
  if scores = 0 then .error .divisionByZero
  else scoreSlot? (i / scores) (i % scores) scores lanes

variable {α : Type} [Inhabited α]

/-- Puts one entry of a table of rows where the layout has it. -/
def place (values : Array α) (scores lanes : Nat) (out : Array α) (i : Nat) :
    Checked (Array α) := do
  let slot ← rowSlot? i scores lanes
  if slot < out.size then .ok (out.setIfInBounds slot (values.getD i default))
  else .error .outOfRange

/-- Rearranges a table with one row of scores for each sample into the layout. -/
def interleave (values : Array α) (scores lanes : Nat) : Checked (Array α) :=
  (List.range values.size).foldlM (place values scores lanes)
    (Array.replicate values.size default)

/-- The entry that stands at the slot of entry `i` of the table. -/
def fetch (values : Array α) (scores lanes : Nat) (i : Nat) : Checked α := do
  let slot ← rowSlot? i scores lanes
  match values[slot]? with
  | some v => .ok v
  | none => .error .outOfRange

/-- Rearranges the layout into a table with one row of scores for each sample. -/
def deinterleave (values : Array α) (scores lanes : Nat) : Checked (Array α) := do
  return ((← (List.range values.size).mapM (fetch values scores lanes))).toArray

end LaneBoost.Layout
