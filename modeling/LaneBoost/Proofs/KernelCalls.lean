import LaneBoost.Proofs.TableSums
import LaneBoost.Session

/-!
# Calls that are turned down

A call is checked in its entry point and again in the kernel. All the checks come before anything is
written, so a call that is turned down leaves the memory as it was, and a list of calls does the same
without it. Which calls are turned down, and with which answer, depends on the objective and on the
request alone.
-/
namespace LaneBoost

/-! ### Calls on one memory -/

/-- The buffers that calls share. -/
structure Memory (z : Zone) where
  scores : Array z.Number
  gradients : Array z.Number
  scratch : Array z.Number
  metric : Binary64
  cells : Cells

variable {z : Zone}

namespace Memory

/-- What an update works on. It may be given no gradients, and no scratch block. -/
def buffers (m : Memory z) (gradients scratch : Bool) : Update.Buffers z.Number where
  scores := m.scores
  gradients := if gradients then some m.gradients else none
  scratch := if scratch then some m.scratch else none
  metric := m.metric

/-- Takes over what an update has left. -/
def keep (m : Memory z) (b : Update.Buffers z.Number) : Memory z :=
  { m with
    scores := b.scores
    gradients := b.gradients.getD m.gradients
    scratch := b.scratch.getD m.scratch
    metric := b.metric }

@[simp] theorem isSome_gradients (m : Memory z) (gradients scratch : Bool) :
    (m.buffers gradients scratch).gradients.isSome = gradients := by
  cases gradients <;> rfl

@[simp] theorem isSome_scratch (m : Memory z) (gradients scratch : Bool) :
    (m.buffers gradients scratch).scratch.isSome = scratch := by
  cases scratch <;> rfl

@[simp] theorem keep_buffers (m : Memory z) (gradients scratch : Bool) :
    m.keep (m.buffers gradients scratch) = m := by
  cases gradients <;> cases scratch <;> rfl

@[simp] theorem keep_metric (m : Memory z) (gradients scratch : Bool) (metric : Binary64) :
    m.keep { m.buffers gradients scratch with metric } = { m with metric } := by
  cases gradients <;> cases scratch <;> rfl

/-- The gradients that a sum reads: some of its own, or those of the memory. -/
def read (m : Memory z) : Session.SumGradients z.Number → Array z.Number
  | .given gradients => gradients
  | .kept => m.gradients

end Memory

/-- A call of a kernel. The handle may be absent or hold an objective of the zone; the request may be
absent too. -/
inductive Call (z : Zone) where
  | update (handle : Option Objective) (request : Option (Update.Request z.Number z.width))
    (gradients scratch : Bool)
  | sums (handle : Option Objective) (span : BinSums.Span)
    (request : Option (BinSums.Boosting z.Number z.width))
    (gradients : Session.SumGradients z.Number)
  | table (handle : Option Objective) (span : BinSums.Span)
    (request : Option (BinSums.Interaction z.Number z.width))
    (gradients : Session.SumGradients z.Number)

/-- A handle with an objective of the zone. -/
def Handle.holding (z : Zone) (o : Option Objective) : Option Handle :=
  o.map fun o => Handle.cleared.install z.dimensions o

@[simp] theorem Handle.serve_holding (z : Zone) (o : Option Objective) :
    Handle.serve z.dimensions (Handle.holding z o) = .ok o := by
  cases o with
  | none => rfl
  | some o => exact if_neg (not_not.2 rfl)

namespace Call

/-- Makes the call. -/
def perform (m : Memory z) : Call z → Checked (Status × Memory z)
  | update handle request gradients scratch => do
    let (status, b) ← EntryPoint.applyUpdate z (Handle.holding z handle) request
      (m.buffers gradients scratch)
    return (status, m.keep b)
  | sums handle span request gradients => do
    let (status, cells) ← EntryPoint.sumBins z (Handle.holding z handle) span
      (request.map fun r => { r with gradients := m.read gradients }) m.cells
    return (status, { m with cells })
  | table handle span request gradients => do
    let (status, cells) ← EntryPoint.sumInteraction z (Handle.holding z handle) span
      (request.map fun r => { r with gradients := m.read gradients }) m.cells
    return (status, { m with cells })

/-- Makes one call after the other and collects the answers. -/
def run (m : Memory z) : List (Call z) → Checked (List Status × Memory z)
  | [] => .ok ([], m)
  | c :: cs => do
    let (status, m) ← c.perform m
    let (statuses, m) ← run m cs
    return (status :: statuses, m)

end Call

/-! ### Which calls are turned down -/

/-- Answers with the reason for turning a call down and changes nothing; without a reason has the
call's effect and answers `ok`. -/
def unlessRefused {σ : Type} (refusal : Option Status) (s : σ) (effect : Checked σ) :
    Checked (Status × σ) :=
  match refusal with
  | some status => .ok (status, s)
  | none => (.ok, ·) <$> effect

theorem unlessRefused_bind {σ τ : Type} (refusal : Option Status) (s : σ) (effect : Checked σ)
    (keep : σ → τ) :
    (unlessRefused refusal s effect >>= fun (status, s) => pure (status, keep s)) =
      unlessRefused refusal (keep s) (keep <$> effect) := by
  cases refusal with
  | some status => rfl
  | none => cases effect <;> rfl

/-- Effects only count in calls that are not turned down. -/
theorem unlessRefused_congr {σ : Type} {refusal : Option Status} (s : σ) {effect effect' : Checked σ}
    (same : refusal = none → effect = effect') :
    unlessRefused refusal s effect = unlessRefused refusal s effect' := by
  cases refusal with
  | some status => rfl
  | none => rw [same rfl]

theorem effect_eq_ok {σ : Type} {s s' : σ} {effect : Checked σ} {refusal : Option Status}
    (accepted : refusal = none) (done : unlessRefused refusal s effect = .ok (.ok, s')) :
    effect = .ok s' := by
  subst accepted
  cases effect with
  | error v => cases done
  | ok t => cases done; rfl

/-- No call is turned down with `ok`, so one that answers so has had its effect. -/
theorem of_unlessRefused {σ : Type} {s s' : σ} {effect : Checked σ} {refusal : Option Status}
    (not_ok : refusal ≠ some .ok) (done : unlessRefused refusal s effect = .ok (.ok, s')) :
    refusal = none ∧ effect = .ok s' := by
  cases refusal with
  | some status =>
    cases done
    exact absurd rfl not_ok
  | none => exact ⟨rfl, effect_eq_ok rfl done⟩

/-- A computation goes on behind a check that is passed. -/
theorem ite_bind_eq_ok_iff {ε σ τ : Type} {p : Prop} [Decidable p] {x : σ} {e : ε}
    {f : σ → Except ε τ} {y : τ} :
    ((if p then Except.ok x else Except.error e) >>= f) = .ok y ↔ p ∧ f x = .ok y := by
  split_ifs with passed
  · exact ⟨fun done => ⟨passed, done⟩, fun done => done.2⟩
  · exact ⟨nofun, fun done => absurd done.1 passed⟩

/-- Only the log loss of several classes computes in a scratch block. -/
def Objective.usesScratch : Objective → Bool
  | squaredError | binary _ => false
  | multiclass _ _ => true

namespace Update

variable {F : Type} {w : Nat}

/-- Why an update is turned down. Of several reasons the first one counts. -/
def refusal? (lanes : Nat) (o : Objective) (r : Request F w) (gradients scratch : Bool) :
    Option Status :=
  if r.scores ≠ o.scores then some .illegalParameter
  else if o.usesScratch ∧ ¬ scratch ∧ (r.calcMetric ∨ gradients) then some .illegalParameter
  else if ¬ lanes ∣ r.samples then some .unexpectedInternal
  else none

theorem dvd_of_accepted {lanes : Nat} {o : Objective} {r : Request F w} {gradients scratch : Bool}
    (accepted : refusal? lanes o r gradients scratch = none) : lanes ∣ r.samples := by
  simp only [refusal?] at accepted
  split_ifs at accepted with _ _ whole
  exact whole

end Update

namespace BinSums

variable {F : Type} {w : Nat}

/-- Why a sum over one feature is turned down. -/
def Boosting.refusal? (lanes : Nat) (r : Boosting F w) : Option Status :=
  if ¬ lanes ∣ r.samples ∨ r.scores = 0 then some .illegalParameter else none

theorem Boosting.refusal?_ne_ok (r : Boosting F w) (lanes : Nat) : r.refusal? lanes ≠ some .ok := by
  rw [refusal?]
  split_ifs <;> decide

theorem Boosting.dvd_of_accepted {lanes : Nat} {r : Boosting F w}
    (accepted : r.refusal? lanes = none) : lanes ∣ r.samples := by
  by_contra ragged
  simp [refusal?, ragged] at accepted

/-- Why a sum over several features is turned down. -/
def Interaction.refusal? (lanes : Nat) (r : Interaction F w) : Option Status :=
  if ¬ lanes ∣ r.samples ∨ r.scores = 0 ∨ r.dimensions = 0 ∨ maxFeatures < r.dimensions then
    some .illegalParameter
  else none

theorem Interaction.refusal?_ne_ok (r : Interaction F w) (lanes : Nat) :
    r.refusal? lanes ≠ some .ok := by
  rw [refusal?]
  split_ifs <;> decide

theorem Interaction.of_accepted {lanes : Nat} {r : Interaction F w}
    (accepted : r.refusal? lanes = none) :
    lanes ∣ r.samples ∧ 1 ≤ r.dimensions ∧ r.dimensions ≤ maxFeatures := by
  by_contra bad
  rw [refusal?, if_pos (by omega)] at accepted
  cases accepted

end BinSums

namespace Call

/-- Why a call is turned down, if it is. Without a handle or a request there is nothing to check. -/
def refusal? : Call z → Option Status
  | update (some o) (some r) gradients scratch => Update.refusal? z.lanes o r gradients scratch
  | sums (some _) _ (some r) _ => r.refusal? z.lanes
  | table (some _) _ (some r) _ => r.refusal? z.lanes
  | _ => some .illegalParameter

end Call

/-! ### Kernels -/

namespace Update

variable {F : Type} {w lanes : Nat} {o : Objective} {r : Request F w} {b : Buffers F}

theorem hasScratch_eq_false_iff : hasScratch o r b = false ↔
    o.usesScratch ∧ ¬ b.scratch.isSome ∧ (r.calcMetric ∨ b.gradients.isSome) := by
  cases o with
  | squaredError => simp [hasScratch, Objective.usesScratch]
  | binary _ => simp [hasScratch, Objective.usesScratch]
  | multiclass _ _ => simp [hasScratch, Objective.usesScratch, or_iff_not_imp_left]

variable [Arithmetic F] {m : Machine F w lanes}

/-- What an update does: without samples it only clears the metric. -/
def effect (m : Machine F w lanes) (r : Request F w) (o : Objective) (b : Buffers F) :
    Checked (Buffers F) :=
  if r.samples = 0 then .ok { b with metric := 0 }
  else (loop m r (wanted o r b) o · b) <$> Pack.Reader.make r.items r.packed

theorem exists_effect_eq_ok (m : Machine F w lanes) (o : Objective) (b : Buffers F)
    (fits : r.samples = 0 ∨ r.packed = none ∨ r.items ≤ w) : ∃ b', effect m r o b = .ok b' := by
  by_cases none : r.samples = 0
  · exact ⟨_, if_pos none⟩
  have made : ∃ reader : Pack.Reader w lanes, Pack.Reader.make r.items r.packed = .ok reader := by
    rcases fits.resolve_left none with unpacked | items
    · exact ⟨Option.none, by rw [unpacked]; rfl⟩
    · exact ⟨_, Pack.Reader.make_eq_after items r.packed⟩
  obtain ⟨reader, made⟩ := made
  rw [effect, if_neg none, made]
  exact ⟨_, rfl⟩

/-- The checks come first, in their order. -/
theorem run_eq_unlessRefused : run m r o b =
    unlessRefused (refusal? lanes o r b.gradients.isSome b.scratch.isSome) b (effect m r o b) := by
  by_cases scores : r.scores ≠ o.scores
  · simp only [run, refusal?, if_pos scores]
    rfl
  cases scratch : hasScratch o r b with
  | false =>
    have missing := hasScratch_eq_false_iff.1 scratch
    simp only [run, refusal?, if_neg scores, scratch, if_pos missing]
    rfl
  | true =>
    have given := mt hasScratch_eq_false_iff.2 (ne_false_of_eq_true scratch)
    by_cases whole : lanes ∣ r.samples
    · have rest : ¬ r.samples % lanes ≠ 0 := not_not.2 (Nat.mod_eq_zero_of_dvd whole)
      simp only [run, refusal?, if_neg scores, scratch, if_neg given, if_neg rest,
        if_neg (not_not.2 whole), effect]
      by_cases none : r.samples = 0
      · simp only [if_pos none]
        rfl
      · simp only [if_neg none]
        cases Pack.Reader.make r.items r.packed <;> rfl
    · have rest : r.samples % lanes ≠ 0 := mt Nat.dvd_of_mod_eq_zero whole
      simp only [run, refusal?, if_neg scores, scratch, if_neg given, if_pos rest, if_pos whole]
      rfl

end Update

namespace BinSums

variable {F : Type} [Arithmetic F] {w lanes : Nat} (m : Machine F w lanes) (span : Span)
  (cells : Cells)

/-- What a sum over one feature does. -/
def Boosting.effect (r : Boosting F w) : Checked Cells := do
  let target : Target := ⟨span, ← slots? r.toRequest, w / 8⟩
  let reader ← Pack.Reader.make r.items r.packed
  let stride ← stride? r.toRequest lanes
  r.loop m target stride reader cells

theorem boosting_eq_unlessRefused (r : Boosting F w) :
    boosting m span r cells =
      unlessRefused (r.refusal? lanes) cells (r.effect m span cells) := by
  simp only [boosting, Boosting.refusal?, Nat.dvd_iff_mod_eq_zero]
  split_ifs with refused
  · rfl
  · simp only [unlessRefused, Boosting.effect, map_bind, bind_pure_comp]

/-- A sum gets through if its sizes are sizes, its indexes can be read, and its loop ends. -/
theorem Boosting.effect_eq_ok_iff {m : Machine F w lanes} {span : Span} {cells cells' : Cells}
    {r : Boosting F w} : r.effect m span cells = .ok cells' ↔
      (2 + r.scores * Layout.perScore r.hessian < sizeBound ∧
          Pack.Readable r.items r.packed ∧
          r.scores * Layout.perScore r.hessian * lanes < sizeBound) ∧
        r.loop m ⟨span, 2 + r.scores * Layout.perScore r.hessian, w / 8⟩
          (r.scores * Layout.perScore r.hessian * lanes)
          (Pack.Reader.after r.items r.packed lanes 0) cells = .ok cells' := by
  simp only [effect, slots?, stride?, size, Pack.Reader.make_eq_ite, ite_bind_eq_ok_iff, and_assoc]

/-- What a sum over several features does. -/
def Interaction.effect (r : Interaction F w) : Checked Cells := do
  let target : Target := ⟨span, ← slots? r.toRequest, w / 8⟩
  let axes ← r.axes lanes
  let stride ← stride? r.toRequest lanes
  r.loop m target stride axes cells

theorem Interaction.effect_eq_ok_iff {m : Machine F w lanes} {span : Span} {cells cells' : Cells}
    {r : Interaction F w} {ds : List Nat} (walked : distances (r.used.map (·.bins)) = .ok ds) :
    r.effect m span cells = .ok cells' ↔
      (2 + r.scores * Layout.perScore r.hessian < sizeBound ∧
          (∀ f ∈ r.used, Pack.Readable f.items f.packed) ∧
          r.scores * Layout.perScore r.hessian * lanes < sizeBound) ∧
        r.loop m ⟨span, 2 + r.scores * Layout.perScore r.hessian, w / 8⟩
          (r.scores * Layout.perScore r.hessian * lanes)
          (axesAfter lanes 0 (r.used.zip ds)) cells = .ok cells' := by
  have axes : r.axes lanes =
      if ∀ f ∈ r.used, Pack.Readable f.items f.packed then
        .ok (axesAfter lanes 0 (r.used.zip ds))
      else .error .tooManyItems := by
    rw [axes_eq_ite, walked]
    rfl
  simp only [effect, slots?, stride?, size, axes, ite_bind_eq_ok_iff, and_assoc]

theorem interaction_eq_unlessRefused (r : Interaction F w) :
    interaction m span r cells =
      unlessRefused (r.refusal? lanes) cells (r.effect m span cells) := by
  simp only [interaction, Interaction.refusal?, Nat.dvd_iff_mod_eq_zero]
  split_ifs with refused
  · rfl
  · simp only [unlessRefused, Interaction.effect, map_bind, bind_pure_comp]

end BinSums

/-! ### Calls -/

namespace Call

/-- What a call does that has both a handle and a request. -/
def effect (m : Memory z) : Call z → Checked (Memory z)
  | update (some o) (some r) gradients scratch =>
    m.keep <$> Update.effect z.machine r o (m.buffers gradients scratch)
  | sums (some _) span (some r) gradients =>
    ({ m with cells := · }) <$>
      BinSums.Boosting.effect z.machine span m.cells { r with gradients := m.read gradients }
  | table (some _) span (some r) gradients =>
    ({ m with cells := · }) <$>
      BinSums.Interaction.effect z.machine span m.cells { r with gradients := m.read gradients }
  | _ => .ok m

/-- Every call checks before it changes anything. -/
theorem perform_eq_unlessRefused (c : Call z) (m : Memory z) :
    c.perform m = unlessRefused c.refusal? m (c.effect m) := by
  cases c with
  | update handle request gradients scratch =>
    rw [perform, EntryPoint.applyUpdate, Handle.serve_holding]
    match handle, request with
    | none, _ | some _, none =>
      exact congrArg (fun m => Except.ok (Status.illegalParameter, m)) (m.keep_buffers _ _)
    | some o, some r =>
      let b := m.buffers gradients scratch
      have ran : Update.run z.machine r o b =
          unlessRefused (Update.refusal? z.lanes o r gradients scratch) b
            (Update.effect z.machine r o b) := by
        rw [Update.run_eq_unlessRefused, m.isSome_gradients, m.isSome_scratch]
      refine (congrArg (· >>= fun (status, b) => pure (status, m.keep b)) ran).trans ?_
      rw [unlessRefused_bind, m.keep_buffers]
      rfl
  | sums handle span request gradients =>
    rw [perform, EntryPoint.sumBins, Handle.serve_holding]
    match handle, request with
    | none, _ | some _, none => rfl
    | some _, some r =>
      have ran := BinSums.boosting_eq_unlessRefused z.machine span m.cells
        { r with gradients := m.read gradients }
      refine (congrArg (· >>= fun (status, cells) => pure (status, { m with cells })) ran).trans ?_
      rw [unlessRefused_bind]
      rfl
  | table handle span request gradients =>
    rw [perform, EntryPoint.sumInteraction, Handle.serve_holding]
    match handle, request with
    | none, _ | some _, none => rfl
    | some _, some r =>
      have ran := BinSums.interaction_eq_unlessRefused z.machine span m.cells
        { r with gradients := m.read gradients }
      refine (congrArg (· >>= fun (status, cells) => pure (status, { m with cells })) ran).trans ?_
      rw [unlessRefused_bind]
      rfl

/-- No call is turned down with `ok`. -/
theorem isOk_of_refused {c : Call z} {status : Status} (refused : c.refusal? = some status) :
    status.isOk = false := by
  cases c with
  | update handle request gradients scratch =>
    match handle, request with
    | none, _ | some _, none => cases refused; rfl
    | some o, some r =>
      simp only [refusal?, Update.refusal?] at refused
      split_ifs at refused <;> (cases refused; rfl)
  | sums handle span request gradients =>
    match handle, request with
    | none, _ | some _, none => cases refused; rfl
    | some _, some r =>
      simp only [refusal?, BinSums.Boosting.refusal?] at refused
      split_ifs at refused
      cases refused
      rfl
  | table handle span request gradients =>
    match handle, request with
    | none, _ | some _, none => cases refused; rfl
    | some _, some r =>
      simp only [refusal?, BinSums.Interaction.refusal?] at refused
      split_ifs at refused
      cases refused
      rfl

theorem perform_of_refused {c : Call z} {status : Status} (refused : c.refusal? = some status)
    (m : Memory z) : c.perform m = .ok (status, m) := by
  rw [perform_eq_unlessRefused, refused]
  rfl

theorem perform_of_accepted {c : Call z} (accepted : c.refusal? = none) (m : Memory z) :
    c.perform m = (.ok, ·) <$> c.effect m := by
  rw [perform_eq_unlessRefused, accepted]
  rfl

/-- What a call answers, if it answers: the reason for which it is turned down, or `ok`. -/
theorem status_of_perform {c : Call z} {m m' : Memory z} {status : Status}
    (answered : c.perform m = .ok (status, m')) : status = c.refusal?.getD .ok := by
  cases reason : c.refusal? with
  | some status' =>
    rw [perform_of_refused reason] at answered
    cases answered
    rfl
  | none =>
    rw [perform_of_accepted reason] at answered
    cases done : c.effect m with
    | error v => rw [done] at answered; cases answered
    | ok _ => rw [done] at answered; cases answered; rfl

/-- The calls that fail are those that are turned down. They fail with the reason, and leave the
memory as it was. -/
theorem perform_eq_failure_iff {c : Call z} {m m' : Memory z} {status : Status}
    (failure : status ≠ .ok) :
    c.perform m = .ok (status, m') ↔ c.refusal? = some status ∧ m' = m := by
  constructor
  · intro answered
    have reply := status_of_perform answered
    cases reason : c.refusal? with
    | some status' =>
      rw [perform_of_refused reason] at answered
      cases answered
      exact ⟨rfl, rfl⟩
    | none =>
      rw [reason] at reply
      exact absurd reply failure
  · rintro ⟨reason, rfl⟩
    exact perform_of_refused reason m'

/-! ### Runs -/

/-- The answer of the first call, and what the others do after it. -/
theorem run_cons {c : Call z} {m m₁ : Memory z} {status : Status}
    (answered : c.perform m = .ok (status, m₁)) (cs : List (Call z)) :
    run m (c :: cs) = (fun ran => (status :: ran.1, ran.2)) <$> run m₁ cs := by
  rw [run, answered]
  exact bind_pure_comp (fun ran : List Status × Memory z => (status :: ran.1, ran.2)) (run m₁ cs)

/-- Without the calls that are turned down, a run leaves the same memory, and all that is missing
from its answers is theirs. -/
theorem run_filter (cs : List (Call z)) (m : Memory z) :
    run m (cs.filter fun c => c.refusal?.isNone) =
      (fun ran => (ran.1.filter Status.isOk, ran.2)) <$> run m cs := by
  -- The reason does not depend on the memory, so it can be asked before the call is reached.
  induction cs generalizing m with
  | nil => rfl
  | cons c cs ih =>
    cases reason : c.refusal? with
    | some status =>
      rw [List.filter_cons_of_neg (by simp [reason]), ih, run_cons (perform_of_refused reason m),
        Functor.map_map]
      refine congrArg (· <$> run m cs) (funext fun ran => ?_)
      rw [List.filter_cons_of_neg (by simp [isOk_of_refused reason])]
    | none =>
      rw [List.filter_cons_of_pos (by simp [reason])]
      cases first : c.perform m with
      | error v => rw [run, run, first]; rfl
      | ok answer =>
        obtain ⟨status, m₁⟩ := answer
        have accepted : status = .ok := by rw [status_of_perform first, reason]; rfl
        rw [run_cons first, run_cons first, ih, Functor.map_map, Functor.map_map, accepted]
        rfl

/-- The answers of a run are those that the calls have by themselves. -/
theorem answers_of_run {cs : List (Call z)} {m m' : Memory z} {statuses : List Status}
    (ran : run m cs = .ok (statuses, m')) : statuses = cs.map fun c => c.refusal?.getD .ok := by
  induction cs generalizing m statuses with
  | nil => cases ran; rfl
  | cons c cs ih =>
    cases first : c.perform m with
    | error v => rw [run, first] at ran; cases ran
    | ok answer =>
      obtain ⟨status, m₁⟩ := answer
      rw [run_cons first] at ran
      cases rest : run m₁ cs with
      | error v => rw [rest] at ran; cases ran
      | ok left =>
        rw [rest] at ran
        cases ran
        rw [List.map_cons, ← status_of_perform first, ← ih rest]

end Call

/-! ### Calls that keep the rules -/

/-- The cells of the memory are those of a buffer with the shape that a request asks for, and the
buffer lies at `span`. Only a buffer without bins does not bound the gradients of a group. -/
structure Memory.HasBins (m : Memory z) (span : BinSums.Span) (r : BinSums.Request z.Number)
    (b : BinBuffer) (start : BitVec 64) (guarded : Bool) : Prop where
  cells_eq : m.cells = b.cells
  span_eq : span = BinSums.Span.over b start guarded
  serves : BinSums.Serves b z.format r
  allotted : b.Allotted
  room : start.toNat + b.span < 2 ^ 64
  sized : b.bins = 0 → r.scores * Layout.perScore r.hessian * z.lanes < sizeBound

namespace Call

/-- The rules of a call: no word has more items than bits, and every sample of a sum selects a bin of
the memory. -/
def Sound (m : Memory z) : Call z → Prop
  | update _ (some r) _ _ => r.samples = 0 ∨ r.packed = none ∨ r.items ≤ z.width
  | sums _ span (some r) _ => ∃ b start guarded, m.HasBins span r.toRequest b start guarded ∧
      r.items ≤ z.width ∧ ∀ s, s < r.samples → r.binOf z.lanes s < b.bins
  | table _ span (some r) _ => ∃ b start guarded ds, m.HasBins span r.toRequest b start guarded ∧
      (∀ f ∈ r.used, f.items ≤ z.width) ∧ BinSums.distances (r.used.map (·.bins)) = .ok ds ∧
      ∀ s, s < r.samples → (r.placeOf ds z.lanes s).toNat < b.bins
  | _ => True

/-- A call that is not turned down and keeps the rules answers `ok`. -/
theorem exists_perform_eq_ok {c : Call z} (accepted : c.refusal? = none) {m : Memory z}
    (sound : c.Sound m) : ∃ m', c.perform m = .ok (.ok, m') := by
  cases c with
  | update handle request gradients scratch =>
    match handle, request with
    | none, _ | some _, none => cases accepted
    | some o, some r =>
      obtain ⟨b, done⟩ := Update.exists_effect_eq_ok z.machine o (m.buffers gradients scratch) sound
      rw [perform_of_accepted accepted, effect, done]
      exact ⟨m.keep b, rfl⟩
  | sums handle span request gradients =>
    match handle, request with
    | none, _ | some _, none => cases accepted
    | some o, some r =>
      obtain ⟨b, start, guarded, bins, items, inside⟩ := sound
      let read : BinSums.Boosting z.Number z.width := { r with gradients := m.read gradients }
      have serves : BinSums.Serves b z.format read.toRequest :=
        ⟨bins.serves.format_eq, bins.serves.scores_eq, bins.serves.hessian_eq⟩
      have summed := BinSums.boosting_over (m := z.machine) (r := read) (BinSums.few_lanes z) serves
        bins.allotted bins.room guarded bins.sized (BinSums.Boosting.dvd_of_accepted accepted)
        (.inr items) inside
      rw [← bins.span_eq, ← bins.cells_eq] at summed
      have checked := BinSums.boosting_eq_unlessRefused z.machine span m.cells read
      have done := effect_eq_ok accepted (checked.symm.trans summed)
      rw [perform_of_accepted accepted, effect, done]
      exact ⟨_, rfl⟩
  | table handle span request gradients =>
    match handle, request with
    | none, _ | some _, none => cases accepted
    | some o, some r =>
      obtain ⟨b, start, guarded, ds, bins, items, walked, inside⟩ := sound
      obtain ⟨whole, some_features, few_features⟩ := BinSums.Interaction.of_accepted accepted
      let read : BinSums.Interaction z.Number z.width := { r with gradients := m.read gradients }
      have serves : BinSums.Serves b z.format read.toRequest :=
        ⟨bins.serves.format_eq, bins.serves.scores_eq, bins.serves.hessian_eq⟩
      have summed := BinSums.interaction_over (m := z.machine) (r := read) (BinSums.few_lanes z)
        serves bins.allotted bins.room guarded bins.sized whole some_features few_features
        (fun f hf => .inr (items f hf)) walked inside
      rw [← bins.span_eq, ← bins.cells_eq] at summed
      have checked := BinSums.interaction_eq_unlessRefused z.machine span m.cells read
      have done := effect_eq_ok accepted (checked.symm.trans summed)
      rw [perform_of_accepted accepted, effect, done]
      exact ⟨_, rfl⟩

/-- An update of no samples only clears the metric. -/
theorem perform_no_samples {o : Objective} {r : Update.Request z.Number z.width}
    {gradients scratch : Bool} (none : r.samples = 0)
    (accepted : (update (some o) (some r) gradients scratch).refusal? = Option.none) (m : Memory z) :
    (update (some o) (some r) gradients scratch).perform m = .ok (.ok, { m with metric := 0 }) := by
  rw [perform_of_accepted accepted, effect, Update.effect, if_pos none]
  exact congrArg (fun m => Except.ok (Status.ok, m)) (m.keep_metric _ _ _)

end Call

/-- In every zone and for every objective, kernel calls do all of their work or none. A call fails
if and only if it is turned down, with the first reason for that, and a failing call leaves all of
the memory as it was; any other call that keeps the rules answers `ok`. So the calls that fail may be
left out of a list of calls: the rest answers the same and leaves the same memory. An update of no
samples that is not turned down only clears the metric. -/
theorem failing_calls_change_nothing (z : Zone) :
    (∀ (c : Call z) (m m' : Memory z) (status : Status), status ≠ .ok →
        (c.perform m = .ok (status, m') ↔ c.refusal? = some status ∧ m' = m)) ∧
      (∀ (c : Call z) (m : Memory z), c.refusal? = none → c.Sound m →
        ∃ m', c.perform m = .ok (.ok, m')) ∧
      (∀ (cs : List (Call z)) (m : Memory z),
        Call.run m (cs.filter fun c => c.refusal?.isNone) =
            (fun ran => (ran.1.filter Status.isOk, ran.2)) <$> Call.run m cs ∧
          ∀ statuses m', Call.run m cs = .ok (statuses, m') →
            statuses = cs.map fun c => c.refusal?.getD .ok) ∧
      ∀ (o : Objective) (r : Update.Request z.Number z.width) (gradients scratch : Bool)
        (m : Memory z), r.samples = 0 →
        (Call.update (some o) (some r) gradients scratch).refusal? = none →
        (Call.update (some o) (some r) gradients scratch).perform m =
          .ok (.ok, { m with metric := 0 }) :=
  ⟨fun _ _ _ _ failure => Call.perform_eq_failure_iff failure,
    fun _ _ accepted sound => Call.exists_perform_eq_ok accepted sound,
    fun cs m => ⟨Call.run_filter cs m, fun _ _ ran => Call.answers_of_run ran⟩,
    fun _ _ _ _ m none accepted => Call.perform_no_samples none accepted m⟩

/-- A sum, one without a handle, an update of six samples for groups of four, and one of none. -/
def fourCalls : List (Call .sse2) :=
  [.sums (some .squaredError) (BinSums.Span.over BinSums.twoBins 4096 true)
      (some BinSums.fourSamples) (.given BinSums.fourSamples.gradients),
    .sums none (BinSums.Span.over BinSums.twoBins 4096 true) (some BinSums.fourSamples) .kept,
    .update (some (.multiclass 3 false)) (some { scores := 3, samples := 6 }) true true,
    .update (some .squaredError) (some {}) false false]

/-- Two new bins, and a metric. -/
def fourCallsMemory : Memory .sse2 := ⟨#[], #[], #[], 1, BinSums.twoBins.cells⟩

theorem two_of_four_calls_fail :
    ∃ m, Call.run fourCallsMemory fourCalls =
        .ok ([.ok, .illegalParameter, .unexpectedInternal, .ok], m) ∧
      Call.run fourCallsMemory (fourCalls.filter fun c => c.refusal?.isNone) =
        .ok ([.ok, .ok], m) := by
  obtain ⟨failures, answers, runs, cleared⟩ := failing_calls_change_nothing .sse2
  have bins : fourCallsMemory.HasBins (BinSums.Span.over BinSums.twoBins 4096 true)
      BinSums.fourSamples.toRequest BinSums.twoBins 4096 true :=
    ⟨rfl, rfl, ⟨rfl, rfl, rfl⟩,
      @BinBuffer.make?_allotted BinSums.twoBins.shape 2 BinSums.twoBins (by decide), by decide,
      by decide⟩
  obtain ⟨m, summed⟩ := answers fourCalls[0] fourCallsMemory (by decide)
    ⟨BinSums.twoBins, 4096, true, bins, by decide, by decide⟩
  have absent := (failures fourCalls[1] m m .illegalParameter (by decide)).2 ⟨by decide, rfl⟩
  have ragged := (failures fourCalls[2] m m .unexpectedInternal (by decide)).2 ⟨by decide, rfl⟩
  have empty : fourCalls[3].perform m = .ok (.ok, { m with metric := 0 }) :=
    cleared .squaredError {} false false m rfl (by decide)
  have ran : Call.run fourCallsMemory fourCalls =
      .ok ([.ok, .illegalParameter, .unexpectedInternal, .ok], { m with metric := 0 }) := by
    have calls : fourCalls = [fourCalls[0], fourCalls[1], fourCalls[2], fourCalls[3]] := rfl
    rw [calls, Call.run_cons summed, Call.run_cons absent, Call.run_cons ragged,
      Call.run_cons empty]
    rfl
  refine ⟨{ m with metric := 0 }, ran, ?_⟩
  rw [(runs fourCalls fourCallsMemory).1, ran]
  rfl

end LaneBoost
