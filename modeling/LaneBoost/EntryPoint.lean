import LaneBoost.BinSums
import LaneBoost.Handle
import LaneBoost.Update

/-!
# Entry points

A caller reaches the kernels of a zone through entry points, which it hands a handle and a request,
either of which may be absent. A handle without an objective is turned down; but first its lane count
is compared with that of the zone, and a handle with other lanes, or a cleared one, breaks a rule.

The lane count is all that is compared, so the two zones with one lane do not tell their handles
apart. A handle brings along the kernels of the zone that filled it, and what those make of the other
zone's numbers is left out. The entry points here run the kernels of their own zone, and a caller
keeps a handle to the zone that filled it.
-/
namespace LaneBoost

namespace Handle

/-- The objective that a handle serves to a zone with these dimensions. -/
def serve (d : Dimensions) (h : Option Handle) : Checked (Option Objective) :=
  match h with
  | none => .ok none
  | some h =>
    if h.lanes ≠ d.lanes then .error .foreignObjective
    else .ok (if h.table.isSome then h.objective else none)

end Handle

namespace EntryPoint

variable (z : Zone) (h : Option Handle)

def applyUpdate (r : Option (Update.Request z.Number z.width)) (b : Update.Buffers z.Number) :
    Checked (Status × Update.Buffers z.Number) := do
  match ← Handle.serve z.dimensions h, r with
  | some o, some r => Update.run z.machine r o b
  | _, _ => return (.illegalParameter, b)

/-- Nothing to finish with gives a NaN. -/
def finishMetric (metric : Binary64) : Checked Binary64 := do
  match ← Handle.serve z.dimensions h with
  | some o => return o.finishMetric metric
  | none => return Binary.nan

/-- Whether the objective accepts the first `samples` targets. No samples are always fine. -/
def checkTargets (samples : Nat) (targets : Option (Array (BitVec z.width))) : Checked Bool := do
  match ← Handle.serve z.dimensions h with
  | none => return false
  | some o =>
    if samples = 0 then return true
    match targets with
    | none => return false
    | some ts => return (ts.toList.take samples).all (o.acceptsTarget z.machine)

def sumBins (span : BinSums.Span) (r : Option (BinSums.Boosting z.Number z.width))
    (cells : Cells) : Checked (Status × Cells) := do
  match ← Handle.serve z.dimensions h, r with
  | some _, some r => BinSums.boosting z.machine span r cells
  | _, _ => return (.illegalParameter, cells)

def sumInteraction (span : BinSums.Span) (r : Option (BinSums.Interaction z.Number z.width))
    (cells : Cells) : Checked (Status × Cells) := do
  match ← Handle.serve z.dimensions h, r with
  | some _, some r => BinSums.interaction z.machine span r cells
  | _, _ => return (.illegalParameter, cells)

end EntryPoint

end LaneBoost
