import LaneBoost.Objective.Catalog

/-!
# Handles of objectives

A handle is what a caller holds of an objective: the entry points of the zone that made it, the
objective itself with its dispatch table, and a copy of the facts about both. A cleared handle holds
nothing. The factory of a zone fills a handle, or leaves it cleared when it fails.
-/
namespace LaneBoost

/-- An entry point is known by the zone that it belongs to. -/
abbrev Entry := Dimensions

/-- The fields have the values of a cleared handle unless they are given. -/
structure Handle where
  applyUpdate : Option Entry := none
  finishMetric : Option Entry := none
  checkTargets : Option Entry := none
  sumBins : Option Entry := none
  sumInteraction : Option Entry := none
  objective : Option Objective := none
  /-- The dispatch table that the entry points go through. -/
  table : Option Entry := none
  maximizesMetric : Bool := false
  link : Link := .unset
  linkParameter : Binary64 := 0
  adjustments : Adjustments := .uniform 0
  gradientConstant : Binary64 := 0
  hessianConstant : Binary64 := 0
  hasHessian : Bool := false
  isSquaredError : Bool := false
  lanes : Nat := 0
  floatBytes : Nat := 0
  wordBytes : Nat := 0
  deriving DecidableEq, Repr

namespace Handle

/-- A handle that holds nothing. -/
def cleared : Handle := {}

/-- Whether an objective has been put in. -/
def isInitialized (h : Handle) : Bool := h.objective.isSome && h.table.isSome

/-- Which of the five entry points are there. -/
def entries (h : Handle) : List Bool :=
  [h.applyUpdate.isSome, h.finishMetric.isSome, h.checkTargets.isSome, h.sumBins.isSome,
    h.sumInteraction.isSome]

/-- Puts an objective of a zone into a handle. -/
def install (d : Dimensions) (o : Objective) (h : Handle) : Handle :=
  { h with
    applyUpdate := some d
    finishMetric := some d
    checkTargets := some d
    sumBins := some d
    sumInteraction := some d
    objective := some o
    table := some d
    maximizesMetric := o.maximizesMetric
    link := o.link
    linkParameter := o.linkParameter
    adjustments := o.adjustments
    gradientConstant := o.gradientConstant
    hessianConstant := o.hessianConstant
    hasHessian := o.hasHessian
    isSquaredError := o.isSquaredError
    lanes := d.lanes
    floatBytes := d.format.bytes
    wordBytes := d.format.bytes }

/-- Gives back what the handle holds. -/
def free (_ : Handle) : Handle := cleared

/-- Makes the objective of a registration in a handle, which stays as it is on failure. -/
def register (d : Dimensions) (r : Registration) (c : Config) (h : Handle) : Status × Handle :=
  match r.create? c with
  | .ok o => (.ok, h.install d o)
  | .error f => (f.status, h)

/-- Looks a name up and makes its objective. A failure clears the handle. -/
def select (d : Dimensions) (c : Config) (bytes : List UInt8) (h : Handle) : Status × Handle :=
  match Registration.find? bytes with
  | none => (.unknownName, h)
  | some r =>
    let (status, h) := h.register d r c
    if status.isOk then (status, h) else (status, h.free)

/-- The factory of a zone, on a handle that may be absent. It clears the handle first; a
configuration, a name and a range that runs forwards have to be there. -/
def create (d : Dimensions) (config : Option Config) (name : Option NameSpan) :
    Option Handle → Status × Option Handle
  | none => (.illegalParameter, none)
  | some _ =>
    match config, name.bind NameSpan.bytes? with
    | some c, some bytes =>
      let (status, h) := cleared.select d c bytes
      (status, some h)
    | _, _ => (.illegalParameter, some cleared)

end Handle

end LaneBoost
