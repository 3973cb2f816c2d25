import LaneBoost.Compute
import LaneBoost.Proofs.HandleLifecycle

/-!
# The automatic choice of a backend

Zones grant the same requests and refuse the others for the same reason. So the zones that are tried
after the first one never matter: the automatic choice is the first zone that the machine can run, and
that zone is the best one.
-/
namespace LaneBoost

/-! ### Zones that the machine can run -/

namespace Backend

variable {p : Probes} {b : Backend}

/-- The machine can run the backend, and a zone stands behind it. -/
structure Runs (p : Probes) (d : Dimensions) (b : Backend) : Prop where
  isAvailable : b.isAvailable p
  dimensions_eq : b.dimensions? = some d

theorem exists_runs_of_mem (h : b ∈ available p) : ∃ d, Runs p d b := by
  obtain ⟨listed, runnable⟩ := List.mem_filter.1 h
  have behind : ∀ b ∈ selectionOrder, b.dimensions?.isSome := by decide
  obtain ⟨d, zone⟩ := Option.isSome_iff_exists.1 (behind b listed)
  exact ⟨d, runnable, zone⟩

/-- The list in the order of preference and the tests from the widest vectors down find the same
zone. -/
theorem head?_available (p : Probes) : (available p).head? = some (best p) := by
  obtain ⟨accelerator, sse2, avx2, fma, avx512f⟩ := p
  cases accelerator <;> cases avx512f <;> cases avx2 <;> cases fma <;> cases sse2 <;> rfl

theorem exists_runs_best (p : Probes) : ∃ d, Runs p d (best p) :=
  exists_runs_of_mem (List.mem_of_head? (head?_available p))

theorem runs_cpu64 (p : Probes) : Runs p Zone.cpu64.dimensions cpu64 := ⟨rfl, rfl⟩

end Backend

/-! ### Requests -/

/-- A factory reports a request that it refuses in such a way that the caller sees the reason. -/
theorem Objective.result_status {config : Option Config} {name : Option NameSpan} {f : Failure}
    (refused : requested? config name = .error f) : f.status.result = .error f := by
  rcases of_requested?_eq_error refused with rfl | rfl <;> rfl

namespace Handle

open Objective (requested?)

theorem fst_create_eq_ok_iff (d : Dimensions) (config : Option Config) (name : Option NameSpan)
    (h : Handle) :
    (create d config name (some h)).1 = .ok ↔ ∃ o, requested? config name = .ok o := by
  rw [create_eq_answer]
  cases requested? config name with
  | ok o => exact ⟨fun _ => ⟨o, rfl⟩, fun _ => rfl⟩
  | error f =>
    refine ⟨fun ok => ?_, nofun⟩
    cases f <;> cases ok

theorem result_create_eq_error_iff (d : Dimensions) (config : Option Config)
    (name : Option NameSpan) (h : Handle) (f : Failure) :
    (create d config name (some h)).1.result = .error f ↔ requested? config name = .error f := by
  rw [create_eq_answer]
  cases asked : requested? config name with
  | ok o => exact ⟨nofun, nofun⟩
  | error f' =>
    rw [answer, Objective.result_status asked]
    simp only [Except.error.injEq]

/-- Two zones answer alike and, if they grant the request, put the same objective in. -/
theorem create_alike (d d' : Dimensions) (config : Option Config) (name : Option NameSpan)
    (h h' : Handle) :
    ∃ status left left', create d config name (some h) = (status, some left) ∧
      create d' config name (some h') = (status, some left') ∧
        (status = .ok → ∃ o, Filled d o left ∧ Filled d' o left') := by
  rw [create_eq_answer, create_eq_answer]
  cases requested? config name with
  | ok o =>
    exact ⟨_, _, _, rfl, rfl, fun _ => ⟨o, filled_install d o cleared, filled_install d' o cleared⟩⟩
  | error f => exact ⟨_, _, _, rfl, rfl, fun ok => by cases f <;> cases ok⟩

end Handle

/-! ### Choosing -/

namespace Compute

open Objective (requested?)
open Backend (Runs)

variable {p : Probes} {b : Backend} {d : Dimensions} (c : Config) (name : List UInt8)

theorem onZone_eq (runs : Runs p d b) :
    onZone p b c name = (requested? (some c) (some (.ofBytes name))).map fun o =>
      ⟨Handle.cleared.install d o, b⟩ := by
  simp only [onZone, runs.isAvailable, runs.dimensions_eq, Handle.create_eq_answer, if_true]
  cases asked : requested? (some c) (some (.ofBytes name)) with
  | ok o => rfl
  | error f =>
    rw [Handle.answer, Objective.result_status asked]
    rfl

theorem onZone_eq_error_iff (runs : Runs p d b) {f : Failure} :
    onZone p b c name = .error f ↔ requested? (some c) (some (.ofBytes name)) = .error f := by
  rw [onZone_eq c name runs]
  cases requested? (some c) (some (.ofBytes name)) with
  | ok o => exact ⟨nofun, nofun⟩
  | error f' =>
    simp only [Except.map, Except.error.injEq]

/-- What one zone refuses, the others refuse for the same reason. -/
theorem tryZones_of_refused {f : Failure}
    (refused : requested? (some c) (some (.ofBytes name)) = .error f) {zones : List Backend}
    (runnable : ∀ b ∈ zones, ∃ d, Runs p d b) : tryZones p c name zones f = .error f := by
  induction zones with
  | nil => rfl
  | cons b rest ih =>
    obtain ⟨d, runs⟩ := runnable b List.mem_cons_self
    simp only [tryZones, (onZone_eq_error_iff c name runs).2 refused]
    exact ih fun b hb => runnable b (List.mem_cons_of_mem _ hb)

/-- The first of the zones settles the request. -/
theorem tryZones_cons {rest : List Backend} (runnable : ∀ b' ∈ b :: rest, ∃ d, Runs p d b')
    (last : Failure) : tryZones p c name (b :: rest) last = onZone p b c name := by
  obtain ⟨d, runs⟩ := runnable b List.mem_cons_self
  cases answered : onZone p b c name with
  | ok compute => simp only [tryZones, answered]
  | error f =>
    simp only [tryZones, answered]
    exact tryZones_of_refused c name ((onZone_eq_error_iff c name runs).1 answered)
      fun b hb => runnable b (List.mem_cons_of_mem _ hb)

theorem create_eq_onZone_best (p : Probes) : create p c name = onZone p (Backend.best p) c name := by
  obtain ⟨rest, zones⟩ := List.head?_eq_some_iff.1 (Backend.head?_available p)
  have runnable : ∀ b ∈ Backend.best p :: rest, ∃ d, Runs p d b := by
    rw [← zones]
    exact fun b => Backend.exists_runs_of_mem
  rw [create, zones]
  exact tryZones_cons c name runnable _

theorem create_eq_ok_iff (runs : Runs p d (Backend.best p)) {compute : Compute} :
    create p c name = .ok compute ↔ ∃ o, requested? (some c) (some (.ofBytes name)) = .ok o ∧
      compute = ⟨Handle.cleared.install d o, Backend.best p⟩ := by
  rw [create_eq_onZone_best, onZone_eq c name runs]
  cases requested? (some c) (some (.ofBytes name)) with
  | ok o => simp [Except.map, eq_comm]
  | error f => simp [Except.map]

theorem create_eq_error_iff (p : Probes) (f : Failure) :
    create p c name = .error f ↔ requested? (some c) (some (.ofBytes name)) = .error f := by
  obtain ⟨d, runs⟩ := Backend.exists_runs_best p
  rw [create_eq_onZone_best, onZone_eq_error_iff c name runs]

/-- Zones answer every request alike. So the automatic choice grants a request just if the zone grants
it that every machine has, and then always with the best zone, which is the first that the machine can
run. It refuses a request for the reason that the zone of every machine gives, and never for want of a
backend. -/
theorem automatic_choice (p : Probes) (c : Config) (name : List UInt8) :
    (∀ (d d' : Dimensions) (config : Option Config) (name : Option NameSpan) (h h' : Handle),
        ∃ status left left', Handle.create d config name (some h) = (status, some left) ∧
          Handle.create d' config name (some h') = (status, some left') ∧
            (status = .ok → ∃ o, Handle.Filled d o left ∧ Handle.Filled d' o left')) ∧
      (Backend.available p).head? = some (Backend.best p) ∧
      onBackend p .auto c name = create p c name ∧
      ((∃ compute, create p c name = .ok compute) ↔
        (Handle.create Zone.cpu64.dimensions (some c) (some (.ofBytes name)) (some .cleared)).1 =
          .ok) ∧
      (∀ compute, create p c name = .ok compute →
        compute.backend = Backend.best p ∧ ∃ d, (Backend.best p).dimensions? = some d ∧
          Handle.create d (some c) (some (.ofBytes name)) (some .cleared) =
            (.ok, some compute.handle)) ∧
      (∀ f, create p c name = .error f ↔
        (Handle.create Zone.cpu64.dimensions (some c) (some (.ofBytes name)) (some .cleared)).1.result =
          .error f) ∧
      (∀ f, create p c name = .error f ↔ onBackend p .cpu64 c name = .error f) ∧
      ∀ b, create p c name ≠ .error (.unsupportedBackend b) := by
  obtain ⟨d, runs⟩ := Backend.exists_runs_best p
  refine ⟨Handle.create_alike, Backend.head?_available p, rfl, ?_, fun compute made => ?_,
    fun f => ?_, fun f => ?_, fun b failed => ?_⟩
  · simp only [create_eq_ok_iff c name runs, Handle.fst_create_eq_ok_iff]
    exact ⟨fun ⟨_, o, granted, _⟩ => ⟨o, granted⟩, fun ⟨o, granted⟩ => ⟨_, o, granted, rfl⟩⟩
  · obtain ⟨o, granted, rfl⟩ := (create_eq_ok_iff c name runs).1 made
    refine ⟨rfl, d, runs.dimensions_eq, ?_⟩
    rw [Handle.create_eq_answer, granted]
    rfl
  · rw [create_eq_error_iff, Handle.result_create_eq_error_iff]
  · exact (create_eq_error_iff c name p f).trans
      (onZone_eq_error_iff c name (Backend.runs_cpu64 p)).symm
  · have refused := (create_eq_error_iff c name p _).1 failed
    rcases Objective.of_requested?_eq_error refused with other | other <;> cases other

/-- A machine with vectors of eight lanes takes them for three classes, and refuses the classes of a
single output. -/
theorem eight_lanes_chosen :
    let p : Probes := ⟨false, true, true, true, false⟩
    let logLoss : List UInt8 := [0x6C, 0x6F, 0x67, 0x5F, 0x6C, 0x6F, 0x73, 0x73]
    (∃ compute, create p (.classification 3) logLoss = .ok compute ∧ compute.backend = .avx2) ∧
      create p .regression logLoss = .error .illegalParameter := by
  intro p logLoss
  have named : Registration.logLoss.Names Name.isBlank logLoss := .of_spells (by decide)
  have given : (NameSpan.ofBytes logLoss).bytes? = some logLoss := rfl
  constructor
  · obtain ⟨-, -, -, granted_iff, backend_eq, -⟩ := automatic_choice p (.classification 3) logLoss
    obtain ⟨compute, made⟩ := granted_iff.2 (by rw [Handle.create_of_names given named]; rfl)
    exact ⟨compute, made, (backend_eq compute made).1⟩
  · obtain ⟨-, -, -, -, -, refused_iff, -⟩ := automatic_choice p .regression logLoss
    refine (refused_iff .illegalParameter).2 ?_
    rw [Handle.create_of_names given named]
    rfl

end Compute

end LaneBoost
