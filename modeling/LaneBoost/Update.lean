import LaneBoost.Layout
import LaneBoost.Objective.Pointwise
import LaneBoost.Objective.Softmax
import LaneBoost.Pack.Cursor

/-!
# Updating the scores of the samples

An update adds to each score of a sample the entry of a tensor that the sample's index selects. On
request it also writes the gradients and hessians at the new scores, and sums the metric over the
samples, lane by lane.

A call is checked before anything is written. An answer other than `ok` leaves every buffer alone.
-/
namespace LaneBoost.Update

/-- One call, for lanes with numbers `F` and words of width `w`. A target is a cell, since it is a
number or a class depending on the objective. -/
structure Request (F : Type) (w : Nat) where
  scores : Nat := 1
  samples : Nat := 0
  /-- Groups to a packed word; 0 or less for an update without indexes. -/
  items : Int := -1
  hessianNeeded : Bool := false
  calcMetric : Bool := false
  tensor : Array F := #[]
  packed : Option (Array (BitVec w)) := none
  targets : Array (BitVec w) := #[]
  weights : Option (Array F) := none

/-- What a call reads and changes. A caller that wants no gradients passes no buffer for them. -/
structure Buffers (F : Type) where
  scores : Array F := #[]
  gradients : Option (Array F) := none
  scratch : Option (Array F) := none
  metric : Binary64 := 0
  deriving DecidableEq

variable {F : Type} [Arithmetic F] {w lanes : Nat}

/-- What the call computes beside the scores. Hessians are written only beside gradients. -/
def wanted (o : Objective) (r : Request F w) (b : Buffers F) : Wanted where
  gradients := b.gradients.isSome
  hessians := b.gradients.isSome && r.hessianNeeded && o.hasHessian
  metric := r.calcMetric

/-- The loop over the lane groups carries these. -/
structure State (F : Type) (w lanes : Nat) where
  reader : Pack.Reader w lanes
  scores : Array F
  gradients : Array F
  scratch : Array F
  /-- Metric of the samples so far, in the lanes where they were. -/
  metric : Lanes F lanes

variable (m : Machine F w lanes) (r : Request F w) (wanted : Wanted)

/-- The targets of a group. -/
def targets (group : Nat) : Lanes (BitVec w) lanes := Lanes.load r.targets (group * lanes)

/-- Adds the term of a group, times the weights of its samples where there are any. -/
def addTerm (group : Nat) (term metric : Lanes F lanes) : Lanes F lanes :=
  match r.weights with
  | some weights => metric + term * Lanes.load weights (group * lanes)
  | none => metric + term

/-- The entries that a group adds to its scores. Without indexes that is the first one, and the
reader is not asked. -/
def entries (reader : Pack.Reader w lanes) : Lanes F lanes × Pack.Reader w lanes :=
  match reader with
  | none => (Lanes.splat (r.tensor.getD 0 0), none)
  | some c =>
    let (indexes, c) := c.next
    (m.gather r.tensor indexes, some c)

/-- One lane group of an objective with one score. -/
def stepSingle (p : Pointwise) (s : State F w lanes) (group : Nat) : State F w lanes :=
  let (entry, reader) := entries m r s.reader
  let score := Lanes.load s.scores (group * lanes) + entry
  let target := targets r group
  let gradients :=
    if wanted.gradients then
      let gradient := p.gradient m score target
      if wanted.hessians then
        let start := group * (2 * lanes)
        (p.hessian score).store (gradient.store s.gradients start) (start + lanes)
      else gradient.store s.gradients (group * lanes)
    else s.gradients
  { reader
    scores := score.store s.scores (group * lanes)
    gradients
    scratch := s.scratch
    metric :=
      if wanted.metric then addTerm r group (p.term m score target) s.metric else s.metric }

/-- Adds to the scores of a group the rows of the tensor that its indexes select. -/
def addRows (base : Lanes (BitVec w) lanes) (block : Block) (scores : Array F) : Array F :=
  (List.range r.scores).foldl
    (fun scores k =>
      let indexes := base + Lanes.splat (BitVec.ofNat w k)
      block.store scores k (block.load scores k + m.gather r.tensor indexes))
    scores

/-- One lane group of an objective with several scores. -/
def stepSeveral (s : State F w lanes) (group : Nat) : State F w lanes :=
  let (indexes, reader) := s.reader.next
  let block : Block := ⟨group * (r.scores * lanes), lanes⟩
  let scores := addRows m r (indexes.scale (BitVec.ofNat w r.scores)) block s.scores
  if wanted.gradients || wanted.metric then
    let stride := Layout.perScore wanted.hessians * lanes
    let start := group * (r.scores * stride)
    let result := Softmax.update r.scores wanted scores block (targets r group)
      s.gradients ⟨start, stride⟩ ⟨start + lanes, stride⟩ s.scratch ⟨0, lanes⟩
    { reader
      scores
      gradients := result.gradients
      scratch := result.scratch
      metric := if wanted.metric then addTerm r group result.term s.metric else s.metric }
  else { s with reader, scores }

/-- One lane group. -/
def step : Objective → State F w lanes → Nat → State F w lanes
  | .squaredError => stepSingle m r wanted .squaredError
  | .binary _ => stepSingle m r wanted .logistic
  | .multiclass _ _ => stepSeveral m r wanted

/-- Runs through all groups of an accepted call. -/
def loop (o : Objective) (reader : Pack.Reader w lanes) (b : Buffers F) : Buffers F :=
  let start : State F w lanes :=
    ⟨reader, b.scores, b.gradients.getD #[], b.scratch.getD #[], 0⟩
  let s := (List.range (r.samples / lanes)).foldl (step m r wanted o) start
  { scores := s.scores
    gradients := b.gradients.map fun _ => s.gradients
    scratch := b.scratch.map fun _ => s.scratch
    metric := if wanted.metric then m.widen (m.total s.metric) else 0 }

/-- Whether an objective with several scores gets the scratch block that its gradients and its
metric need. -/
def hasScratch (o : Objective) (r : Request F w) (b : Buffers F) : Bool :=
  match o with
  | .squaredError | .binary _ => true
  | .multiclass _ _ => b.scratch.isSome || !(r.calcMetric || b.gradients.isSome)

/-- Updates the scores. -/
def run (o : Objective) (b : Buffers F) : Checked (Status × Buffers F) := do
  if r.scores ≠ o.scores then return (.illegalParameter, b)
  if !hasScratch o r b then return (.illegalParameter, b)
  if r.samples % lanes ≠ 0 then return (.unexpectedInternal, b)
  if r.samples = 0 then return (.ok, { b with metric := 0 })
  let reader ← Pack.Reader.make r.items r.packed
  return (.ok, loop m r (Update.wanted o r b) o reader b)

end LaneBoost.Update
