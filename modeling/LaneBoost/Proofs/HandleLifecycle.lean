import LaneBoost.Proofs.FactoryCalls
import Mathlib.Data.List.Basic

/-!
# The life of a handle

A handle is either cleared or filled. It is filled just after a factory has answered `ok`, with the
entry points and sizes of the factory's zone and the facts of the objective that was asked for. Every
other event leaves it cleared, and no event depends on the ones before it.
-/
namespace LaneBoost

/-- A name without a zero byte may have its extent given or a zero byte behind it. -/
theorem NameSpan.bytes?_terminated {bytes : List UInt8} (no_zero : 0 ∉ bytes)
    (rest rest' : List UInt8) :
    NameSpan.bytes? ⟨bytes ++ rest, some bytes.length⟩ =
      NameSpan.bytes? ⟨bytes ++ 0 :: rest', none⟩ := by
  have kept : ∀ b ∈ bytes, (b != 0) = true := fun b hb =>
    bne_iff_ne.2 fun zero => no_zero (zero ▸ hb)
  have whole : (bytes ++ 0 :: rest').takeWhile (· != 0) = bytes := by
    rw [List.takeWhile_append_of_pos kept]
    simp
  simp [bytes?, whole]

namespace Handle

/-! ### Filled handles -/

/-- The facts that a handle tells are those of an objective. -/
structure Tells (h : Handle) (o : Objective) : Prop where
  maximizesMetric_eq : h.maximizesMetric = o.maximizesMetric
  link_eq : h.link = o.link
  linkParameter_eq : h.linkParameter = o.linkParameter
  adjustments_eq : h.adjustments = o.adjustments
  gradientConstant_eq : h.gradientConstant = o.gradientConstant
  hessianConstant_eq : h.hessianConstant = o.hessianConstant
  hasHessian_eq : h.hasHessian = o.hasHessian
  isSquaredError_eq : h.isSquaredError = o.isSquaredError

/-- A handle that holds an objective of a zone, with all of the zone's entry points. -/
structure Filled (d : Dimensions) (o : Objective) (h : Handle) : Prop where
  applyUpdate_eq : h.applyUpdate = some d
  finishMetric_eq : h.finishMetric = some d
  checkTargets_eq : h.checkTargets = some d
  sumBins_eq : h.sumBins = some d
  sumInteraction_eq : h.sumInteraction = some d
  objective_eq : h.objective = some o
  table_eq : h.table = some d
  lanes_eq : h.lanes = d.lanes
  floatBytes_eq : h.floatBytes = d.format.bytes
  wordBytes_eq : h.wordBytes = d.format.bytes
  tells : h.Tells o

variable {d d' : Dimensions} {o o' : Objective} {h h' : Handle}

theorem filled_install (d : Dimensions) (o : Objective) (h : Handle) : Filled d o (h.install d o) :=
  ⟨rfl, rfl, rfl, rfl, rfl, rfl, rfl, rfl, rfl, rfl, ⟨rfl, rfl, rfl, rfl, rfl, rfl, rfl, rfl⟩⟩

theorem not_filled_cleared : ¬ Filled d o cleared := fun filled => nomatch filled.objective_eq

theorem Filled.zone_eq {z z' : Zone} (filled : Filled z.dimensions o h)
    (filled' : Filled z'.dimensions o' h) : z = z' := by
  have same := Option.some.inj (filled.table_eq.symm.trans filled'.table_eq)
  cases z <;> cases z' <;> first | rfl | cases same

theorem Filled.objective_unique (filled : Filled d o h) (filled' : Filled d' o' h) : o = o' :=
  Option.some.inj (filled.objective_eq.symm.trans filled'.objective_eq)

/-! ### Events -/

/-- What a caller does with a handle: have a factory put an objective in, or free it. -/
inductive Event where
  | create (z : Zone) (config : Option Config) (name : Option NameSpan)
  | free
  deriving DecidableEq, Repr

namespace Event

/-- The status, which only a factory answers, and the handle afterwards. -/
def perform (h : Handle) : Event → Option Status × Handle
  | create z config name =>
    let (status, left) := Handle.create z.dimensions config name (some h)
    (some status, left.getD h)
  | free => (none, h.free)

/-- The handle after some events, which found it cleared. -/
def run (events : List Event) : Handle := events.foldl (fun h e => (e.perform h).2) cleared

theorem run_concat (before : List Event) (e : Event) :
    run (before ++ [e]) = (e.perform (run before)).2 := by
  simp [run]

theorem perform_create (z : Zone) (config : Option Config) (name : Option NameSpan) (h : Handle) :
    (create z config name).perform h =
      (some (answer z.dimensions (Objective.requested? config name)).1,
        (answer z.dimensions (Objective.requested? config name)).2) := by
  simp only [perform, create_eq_answer]
  rfl

/-- All that an event can do, whatever the handle held: a factory answers `ok` and fills the handle with
what it was asked for, or the handle is cleared. -/
theorem perform_cases (e : Event) (h : Handle) :
    (∃ z config name o, e = create z config name ∧ Objective.requested? config name = .ok o ∧
        e.perform h = (some .ok, cleared.install z.dimensions o)) ∨
      (e.perform h).1 ≠ some .ok ∧ (e.perform h).2 = cleared := by
  cases e with
  | free => exact Or.inr ⟨nofun, rfl⟩
  | create z config name =>
    rw [perform_create]
    cases granted : Objective.requested? config name with
    | ok o => exact Or.inl ⟨z, config, name, o, rfl, granted, rfl⟩
    | error f => exact Or.inr ⟨by cases f <;> nofun, rfl⟩

theorem filled_perform_iff {e : Event} {z : Zone} :
    Filled z.dimensions o (e.perform h).2 ↔
      ∃ config name, e = create z config name ∧ Objective.requested? config name = .ok o := by
  constructor
  · intro filled
    rcases e.perform_cases h with ⟨z', config, name, o', rfl, granted, done⟩ | ⟨-, left⟩
    · have installed := filled_install z'.dimensions o' cleared
      rw [done] at filled
      rw [filled.zone_eq installed, filled.objective_unique installed]
      exact ⟨config, name, rfl, granted⟩
    · rw [left] at filled
      exact absurd filled not_filled_cleared
  · rintro ⟨config, name, rfl, granted⟩
    rw [perform_create, granted]
    exact filled_install z.dimensions o cleared

theorem exists_filled_perform_iff (e : Event) (h : Handle) :
    (∃ z : Zone, ∃ o, Filled z.dimensions o (e.perform h).2) ↔ (e.perform h).1 = some .ok := by
  rcases e.perform_cases h with ⟨z, config, name, o, rfl, -, done⟩ | ⟨failed, left⟩
  · rw [done]
    exact ⟨fun _ => rfl, fun _ => ⟨z, o, filled_install z.dimensions o cleared⟩⟩
  · rw [left]
    exact ⟨fun ⟨_, _, filled⟩ => absurd filled not_filled_cleared, fun ok => absurd ok failed⟩

/-- The configuration and the bytes of the name are all that a factory reads. -/
theorem perform_create_congr {name name' : Option NameSpan}
    (same : name.bind NameSpan.bytes? = name'.bind NameSpan.bytes?) (z : Zone)
    (config : Option Config) (h h' : Handle) :
    (create z config name).perform h = (create z config name').perform h' := by
  have asked : Objective.requested? config name = Objective.requested? config name' := by
    simp only [Objective.requested?, same]
  rw [perform_create, perform_create, asked]

/-! ### Runs -/

/-- What a cleared handle lacks, a handle has from its last event. -/
theorem run_iff_last {P : Handle → Prop} (lacking : ¬ P cleared) (events : List Event) :
    P (run events) ↔ ∃ before e, events = before ++ [e] ∧ P (e.perform (run before)).2 := by
  constructor
  · intro holds
    rcases List.eq_nil_or_concat' events with rfl | ⟨before, e, rfl⟩
    · exact absurd holds lacking
    · exact ⟨before, e, rfl, run_concat before e ▸ holds⟩
  · rintro ⟨before, e, rfl, holds⟩
    exact run_concat before e ▸ holds

theorem run_eq_cleared_or_filled (events : List Event) :
    run events = cleared ∨ ∃ (z : Zone) (o : Objective), Filled z.dimensions o (run events) := by
  rcases List.eq_nil_or_concat' events with rfl | ⟨before, e, rfl⟩
  · exact Or.inl rfl
  · rw [run_concat]
    rcases e.perform_cases (run before) with ⟨z, config, name, o, -, -, done⟩ | ⟨-, left⟩
    · rw [done]
      exact Or.inr ⟨z, o, filled_install z.dimensions o cleared⟩
    · exact Or.inl left

theorem filled_run_iff (events : List Event) (z : Zone) (o : Objective) :
    Filled z.dimensions o (run events) ↔ ∃ before c span bytes,
      events = before ++ [create z (some c) (some span)] ∧ span.bytes? = some bytes ∧
        Objective.Requested c bytes o := by
  rw [run_iff_last not_filled_cleared]
  constructor
  · rintro ⟨before, e, rfl, filled⟩
    obtain ⟨config, name, rfl, granted⟩ := filled_perform_iff.1 filled
    obtain ⟨c, span, bytes, rfl, rfl, given, asked⟩ := Objective.requested?_eq_ok_iff.1 granted
    exact ⟨before, c, span, bytes, rfl, given, asked⟩
  · rintro ⟨before, c, span, bytes, rfl, given, asked⟩
    exact ⟨before, _, rfl, filled_perform_iff.2
      ⟨some c, some span, rfl, (Objective.requested?_given given c).2 asked⟩⟩

theorem exists_filled_run_iff (events : List Event) :
    (∃ (z : Zone) (o : Objective), Filled z.dimensions o (run events)) ↔
      ∃ before e, events = before ++ [e] ∧ (e.perform (run before)).1 = some .ok := by
  have lacking : ¬ ∃ (z : Zone) (o : Objective), Filled z.dimensions o cleared :=
    fun ⟨_, _, filled⟩ => not_filled_cleared filled
  rw [run_iff_last (P := fun h => ∃ (z : Zone) (o : Objective), Filled z.dimensions o h) lacking]
  simp only [exists_filled_perform_iff]

/-- Whatever is done with a handle, it is cleared or filled. It is filled with an objective of a zone
just if the last event was a call of the zone's factory with a configuration and a name that ask for
the objective, so just if that call has answered `ok`; a call that answers anything else leaves the
handle cleared. A call depends on its zone, its configuration and the bytes of its name, and on nothing
that came before it; a name without a zero byte may have its extent given or a zero byte behind it. -/
theorem run_lifecycle (events : List Event) :
    (run events = cleared ∨ ∃ (z : Zone) (o : Objective), Filled z.dimensions o (run events)) ∧
      (∀ (z : Zone) (o : Objective), Filled z.dimensions o (run events) ↔
        ∃ before c span bytes, events = before ++ [create z (some c) (some span)] ∧
          span.bytes? = some bytes ∧ Objective.Requested c bytes o) ∧
      ((∃ (z : Zone) (o : Objective), Filled z.dimensions o (run events)) ↔
        ∃ before e, events = before ++ [e] ∧ (e.perform (run before)).1 = some .ok) ∧
      (∀ e : Event, (e.perform (run events)).1 ≠ some .ok → run (events ++ [e]) = cleared) ∧
      (∀ (others : List Event) (z : Zone) (config : Option Config) (name name' : Option NameSpan),
        name.bind NameSpan.bytes? = name'.bind NameSpan.bytes? →
          (create z config name).perform (run events) =
            (create z config name').perform (run others)) ∧
      ∀ (z : Zone) (config : Option Config) (bytes rest rest' : List UInt8), 0 ∉ bytes →
        run (events ++ [create z config (some ⟨bytes ++ rest, some bytes.length⟩)]) =
          run (events ++ [create z config (some ⟨bytes ++ 0 :: rest', none⟩)]) := by
  refine ⟨run_eq_cleared_or_filled events, filled_run_iff events, exists_filled_run_iff events,
    fun e failed => ?_, fun others z config name name' same => perform_create_congr same z config _ _,
    fun z config bytes rest rest' no_zero => ?_⟩
  · rw [run_concat]
    rcases e.perform_cases (run events) with ⟨z, config, name, o, -, -, done⟩ | ⟨-, left⟩
    · exact absurd (by rw [done]) failed
    · exact left
  · rw [run_concat, run_concat]
    refine congrArg Prod.snd (perform_create_congr ?_ z config (run events) (run events))
    exact NameSpan.bytes?_terminated no_zero rest rest'

/-- A handle that is filled, emptied by a call for the classes of a single output, and filled by
another zone. -/
theorem filled_twice :
    let rmse : List UInt8 := [0x72, 0x6D, 0x73, 0x65]
    let logLoss : List UInt8 := [0x6C, 0x6F, 0x67, 0x5F, 0x6C, 0x6F, 0x73, 0x73]
    let first := create .cpu64 (some .regression) (some (.ofBytes rmse))
    let refused := create .sse2 (some .regression) (some (.ofBytes logLoss))
    let second := create .avx2 (some (.classification 3)) (some ⟨logLoss ++ [0, 0x21], none⟩)
    Filled Zone.cpu64.dimensions .squaredError (run [first]) ∧ run [first, refused] = cleared ∧
      Filled Zone.avx2.dimensions (.multiclass 3 false) (run [first, refused, second]) := by
  intro rmse logLoss first refused second
  have squared : Registration.rmse.Names Name.isBlank rmse := .of_spells (by decide)
  have classes : Registration.logLoss.Names Name.isBlank logLoss := .of_spells (by decide)
  have failed : (refused.perform (run [first])).1 ≠ some .ok := by
    rw [perform_create, Objective.requested?_of_names rfl .regression classes]
    decide
  exact ⟨((run_lifecycle [first]).2.1 .cpu64 .squaredError).2
      ⟨[], .regression, _, rmse, rfl, rfl, .squaredError squared rfl⟩,
    (run_lifecycle [first]).2.2.2.1 refused failed,
    ((run_lifecycle [first, refused, second]).2.1 .avx2 (.multiclass 3 false)).2
      ⟨[first, refused], .classification 3, _, logLoss, rfl, rfl, .multiclass classes (by decide)⟩⟩

end Event

end Handle

end LaneBoost
