import LaneBoost.Handle

/-!
# Objectives on a chosen or on the best zone
-/
namespace LaneBoost

/-- An objective made by a zone that the machine can run. -/
structure Compute where
  handle : Handle
  backend : Backend
  deriving DecidableEq, Repr

namespace Compute

/-- Makes an objective on one zone. -/
def onZone (p : Probes) (b : Backend) (c : Config) (name : List UInt8) :
    Except Failure Compute :=
  if b.isAvailable p then
    match b.dimensions? with
    | none => .error (.unsupportedBackend b)
    | some d =>
      match Handle.create d (some c) (some (.ofBytes name)) (some .cleared) with
      | (status, h) => status.result.map fun _ => ⟨h.getD .cleared, b⟩
  else .error (.unsupportedBackend b)

/-- Tries zone after zone. When all fail, the last failure counts. -/
def tryZones (p : Probes) (c : Config) (name : List UInt8) :
    List Backend → Failure → Except Failure Compute
  | [], last => .error last
  | b :: rest, _ =>
    match onZone p b c name with
    | .ok compute => .ok compute
    | .error f => tryZones p c name rest f

/-- Makes an objective on the fastest zone that accepts it. -/
def create (p : Probes) (c : Config) (name : List UInt8) : Except Failure Compute :=
  tryZones p c name (Backend.available p) (.unsupportedBackend .auto)

/-- Makes an objective on a backend. -/
def onBackend (p : Probes) (b : Backend) (c : Config) (name : List UInt8) :
    Except Failure Compute :=
  if b = .auto then create p c name else onZone p b c name

end Compute

end LaneBoost
