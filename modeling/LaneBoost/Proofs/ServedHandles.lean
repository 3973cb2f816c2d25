import LaneBoost.EntryPoint
import LaneBoost.Proofs.HandleLifecycle

/-!
# Which handles an entry point serves

An entry point turns an absent handle down and touches nothing. The lane count of a handle that is
there is compared with that of the zone before anything else. A cleared handle counts no lanes, so it
breaks off there, before it comes out that it holds nothing.
-/
namespace LaneBoost

namespace EntryPoint

variable {z : Zone} {h : Option Handle}

/-- Every entry point of the zone answers that there is nothing to work with, and changes nothing. -/
structure TurnsDown (z : Zone) (h : Option Handle) : Prop where
  applyUpdate_eq : ∀ r b, applyUpdate z h r b = .ok (.illegalParameter, b)
  finishMetric_eq : ∀ metric, finishMetric z h metric = .ok Binary.nan
  checkTargets_eq : ∀ samples targets, checkTargets z h samples targets = .ok false
  sumBins_eq : ∀ span r cells, sumBins z h span r cells = .ok (.illegalParameter, cells)
  sumInteraction_eq : ∀ span r cells, sumInteraction z h span r cells = .ok (.illegalParameter, cells)

/-- Every entry point of the zone breaks off, whatever it is given. -/
structure BreaksOff (z : Zone) (h : Option Handle) (v : Violation) : Prop where
  applyUpdate_eq : ∀ r b, applyUpdate z h r b = .error v
  finishMetric_eq : ∀ metric, finishMetric z h metric = .error v
  checkTargets_eq : ∀ samples targets, checkTargets z h samples targets = .error v
  sumBins_eq : ∀ span r cells, sumBins z h span r cells = .error v
  sumInteraction_eq : ∀ span r cells, sumInteraction z h span r cells = .error v

theorem turnsDown_of_serve (nothing : Handle.serve z.dimensions h = .ok none) : TurnsDown z h := by
  constructor
  all_goals
    intros
    simp only [applyUpdate, finishMetric, checkTargets, sumBins, sumInteraction, nothing]
    rfl

theorem breaksOff_of_serve {v : Violation} (broken : Handle.serve z.dimensions h = .error v) :
    BreaksOff z h v := by
  constructor
  all_goals
    intros
    simp only [applyUpdate, finishMetric, checkTargets, sumBins, sumInteraction, broken]
    rfl

/-- No samples are fine for any objective, so an entry point with one does not turn them down. -/
theorem checkTargets_none {o : Objective} (served : Handle.serve z.dimensions h = .ok (some o)) :
    checkTargets z h 0 none = .ok true := by
  rw [checkTargets, served]
  rfl

theorem turnsDown_iff : TurnsDown z h ↔ Handle.serve z.dimensions h = .ok none := by
  refine ⟨fun down => ?_, turnsDown_of_serve⟩
  have refused := down.checkTargets_eq 0 none
  cases served : Handle.serve z.dimensions h with
  | error v => cases (breaksOff_of_serve served).checkTargets_eq 0 none ▸ refused
  | ok held =>
    cases held with
    | none => rfl
    | some o => cases checkTargets_none served ▸ refused

end EntryPoint

namespace Handle

section Zones

variable {z z' : Zone} {o : Objective} {h : Handle}

theorem serve_of_lanes_ne (other : h.lanes ≠ z.lanes) :
    serve z.dimensions (some h) = .error .foreignObjective :=
  if_pos other

theorem serve_cleared (z : Zone) : serve z.dimensions (some cleared) = .error .foreignObjective :=
  serve_of_lanes_ne (Nat.ne_of_lt z.lanes_pos)

/-- A filled handle is compared by its lanes alone. -/
theorem Filled.serve_eq (filled : Filled z'.dimensions o h) (same : z'.lanes = z.lanes) :
    serve z.dimensions (some h) = .ok (some o) := by
  have table : h.table.isSome = true := by rw [filled.table_eq]; rfl
  have lanes : ¬ h.lanes ≠ z.dimensions.lanes := not_not.2 (filled.lanes_eq.trans same)
  rw [serve, if_neg lanes, if_pos table, filled.objective_eq]

theorem Filled.serve_foreign (filled : Filled z'.dimensions o h) (other : z'.lanes ≠ z.lanes) :
    serve z.dimensions (some h) = .error .foreignObjective :=
  serve_of_lanes_ne fun same => other (filled.lanes_eq.symm.trans same)

end Zones

namespace Event

/-- Whatever a caller has done with a handle, the entry points of a zone do not turn it down, as they
do an absent one. If it is cleared, or filled by a zone with other lanes, all of them break off, before
anything is read or written; if the zone has filled it, they work with its objective. -/
theorem only_absent_handles_turned_down (z : Zone) (events : List Event) :
    EntryPoint.TurnsDown z none ∧ ¬ EntryPoint.TurnsDown z (some (run events)) ∧
      (run events = cleared →
        EntryPoint.BreaksOff z (some (run events)) .foreignObjective) ∧
      (∀ (z' : Zone) (o : Objective), Filled z'.dimensions o (run events) → z'.lanes ≠ z.lanes →
        EntryPoint.BreaksOff z (some (run events)) .foreignObjective) ∧
      ∀ o : Objective, Filled z.dimensions o (run events) →
        serve z.dimensions (some (run events)) = .ok (some o) := by
  refine ⟨EntryPoint.turnsDown_of_serve rfl, fun down => ?_, fun dead => ?_,
    fun z' o filled other => EntryPoint.breaksOff_of_serve (filled.serve_foreign other),
    fun o filled => filled.serve_eq rfl⟩
  · have nothing := EntryPoint.turnsDown_iff.1 down
    rcases run_eq_cleared_or_filled events with dead | ⟨z', o, filled⟩
    · rw [dead, serve_cleared] at nothing
      cases nothing
    · by_cases same : z'.lanes = z.lanes
      · cases (filled.serve_eq same).symm.trans nothing
      · cases (filled.serve_foreign same).symm.trans nothing
  · rw [dead]
    exact EntryPoint.breaksOff_of_serve (serve_cleared z)

/-- A handle that is filled and freed again. -/
def freed : List Event :=
  [create .cpu64 (some .regression) (some (.ofBytes [0x72, 0x6D, 0x73, 0x65])), free]

theorem filled_before_free :
    Filled Zone.cpu64.dimensions .squaredError (run (freed.take 1)) := by
  have named : Registration.rmse.Names Name.isBlank [0x72, 0x6D, 0x73, 0x65] :=
    .of_spells (by decide)
  exact filled_perform_iff.2 ⟨some .regression, _, rfl, Objective.requested?_of_names rfl _ named⟩

/-- Before it is freed the zone serves it, and a zone with four lanes breaks off; afterwards its own
zone breaks off too. -/
theorem handle_served_until_freed :
    EntryPoint.TurnsDown .cpu64 none ∧
      serve Zone.cpu64.dimensions (some (run (freed.take 1))) = .ok (some .squaredError) ∧
      EntryPoint.BreaksOff .sse2 (some (run (freed.take 1))) .foreignObjective ∧
      EntryPoint.BreaksOff .cpu64 (some (run freed)) .foreignObjective := by
  obtain ⟨-, -, -, -, serves⟩ := only_absent_handles_turned_down .cpu64 (freed.take 1)
  obtain ⟨-, -, -, foreign, -⟩ := only_absent_handles_turned_down .sse2 (freed.take 1)
  obtain ⟨absent, -, dead, -, -⟩ := only_absent_handles_turned_down .cpu64 freed
  have filled := filled_before_free
  exact ⟨absent, serves _ filled, foreign .cpu64 _ filled (by decide), dead rfl⟩

/-- Its entry points break off, though it holds nothing. -/
theorem freed_handle_breaks_off :
    Filled Zone.cpu64.dimensions .squaredError (run (freed.take 1)) ∧ run freed = cleared ∧
      EntryPoint.finishMetric .cpu64 (some (run freed)) 1 = .error .foreignObjective ∧
      EntryPoint.checkTargets .cpu64 (some (run freed)) 0 none = .error .foreignObjective ∧
      ¬ EntryPoint.TurnsDown .cpu64 (some (run freed)) := by
  have broken := EntryPoint.breaksOff_of_serve (serve_cleared .cpu64)
  refine ⟨filled_before_free, rfl, broken.finishMetric_eq 1, broken.checkTargets_eq 0 none,
    fun down => ?_⟩
  cases (broken.checkTargets_eq 0 none).symm.trans (down.checkTargets_eq 0 none)

end Event

end Handle

end LaneBoost
