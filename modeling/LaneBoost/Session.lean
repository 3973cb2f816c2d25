import LaneBoost.Compute
import LaneBoost.EntryPoint

/-!
# Sessions

A session works on one objective. Its steps call the entry points one after the other on buffers that
the session keeps: the scores of the samples, their gradients, and the bins. A step packs its indexes
before it looks for the entry point, so indexes that cannot be packed count even where there is none.
A step that breaks a rule leaves the session as it was. So does a sum over samples of bins that the
session does not have: its call is never made.
-/
namespace LaneBoost

/-- How the objective is held: by a bare handle, or together with the backend that was asked for. -/
inductive Owner where
  | handle (h : Handle)
  | compute (c : Compute)
  deriving DecidableEq, Repr

namespace Owner

/-- The handle that entry points are called with. -/
def held : Owner → Handle
  | handle h => h
  | compute c => c.handle

/-- A bare handle can be freed; the other kind is freed with its owner. -/
def free : Owner → Owner
  | handle h => handle h.free
  | compute c => compute c

end Owner

/-- The buffers are empty until a step brings others. -/
structure Session (z : Zone) where
  owner : Owner
  scores : Array z.Number := #[]
  gradients : Array z.Number := #[]
  bins : Option BinBuffer := none

namespace Session

/-- What an entry point is handed in place of the handle and the request, where it gets nothing. -/
structure Absent where
  handle : Bool := false
  request : Bool := false

/-- Where a step has its packed words from. -/
inductive Indexes (w : Nat) where
  | absent
  | words (packed : Array (BitVec w))
  /-- Indexes that are packed first, one for each sample. -/
  | samples (indexes : Array Nat)

/-- Which gradient buffer an update writes. -/
inductive UpdateGradients where
  | absent
  | fresh (size : Nat)
  | kept

/-- Which gradients a sum reads. -/
inductive SumGradients (F : Type) where
  | given (gradients : Array F)
  | kept

structure UpdateStep (z : Zone) where
  absent : Absent
  request : Update.Request z.Number z.width
  indexes : Indexes z.width
  /-- Scores that replace the session's. -/
  scores : Option (Array z.Number)
  gradients : UpdateGradients
  hasScratch : Bool

structure SumStep (z : Zone) where
  absent : Absent
  request : BinSums.Boosting z.Number z.width
  indexes : Indexes z.width
  gradients : SumGradients z.Number

structure InteractionStep (z : Zone) where
  absent : Absent
  request : BinSums.Request z.Number
  dimensions : Nat
  features : List (BinSums.Feature z.width × Indexes z.width)
  gradients : SumGradients z.Number

inductive Step (z : Zone) where
  | applyUpdate (s : UpdateStep z)
  | finishMetric (absent : Absent) (metric : Binary64)
  | checkTargets (absent : Absent) (samples : Nat) (targets : Option (Array (BitVec z.width)))
  | makeBins (scores : Nat) (hessian : Bool) (bins : Nat)
  | sumBins (s : SumStep z)
  | sumInteraction (s : InteractionStep z)
  | clearBins
  | totals
  | describe
  | free

inductive Reply (z : Zone) where
  | update (status : Status) (buffers : Update.Buffers z.Number)
  | number (value : Binary64)
  | truth (value : Bool)
  | slots (count : Nat)
  | bins (status : Status) (totals : Option (List BinTotals))
  | totals (count : Nat) (weight : Binary64)
  | owner (o : Owner)
  | handle (h : Handle)
  /-- The handle has no such entry point. -/
  | noEntry
  /-- The session does not have the bins that the step is about. -/
  | noBins
  | fault (f : Fault)

variable {z : Zone}

/-- What the metric holds before an update. -/
def metricBefore : Binary64 := Binary.ofNat 42

/-- What fills a new gradient buffer. -/
def gradientBefore : z.Number := Binary.ofNat 7

/-- Where the session keeps its bins. Any address does that leaves room for them. -/
def binsAt : BitVec 64 := 4096

namespace Indexes

/-- The words of a step. Indexes are packed for the lanes of the zone. -/
def resolve (z : Zone) (items : Int) : Indexes z.width →
    Except Fault (Option (Array (BitVec z.width)))
  | absent => .ok none
  | words packed => .ok (some packed)
  | samples indexes => do
    let packed ← Pack.pack indexes (BitVec.ofInt 64 items).toNat z.lanes z.format.bytes
    return some (packed.words.map fun x => x.setWidth z.width)

end Indexes

/-- The handle that an entry point gets. -/
def passed (s : Session z) (a : Absent) : Option Handle :=
  if a.handle then none else some s.owner.held

/-- A call of an entry point, if the handle has it. -/
def calling (s : Session z) (entry : Handle → Option Entry)
    (call : Except Fault (Reply z × Session z)) : Except Fault (Reply z × Session z) :=
  if (entry s.owner.held).isSome then call else .ok (.noEntry, s)

/-- A scratch block with one vector for each score. Of more scores than the buffer has, which an
update turns down, it keeps room for those only. -/
def scratchFor (count : Nat) (scores : Array z.Number) : Array z.Number :=
  Array.replicate (min (count * z.lanes) scores.size) gradientBefore

def applyUpdate (s : Session z) (u : UpdateStep z) : Except Fault (Reply z × Session z) := do
  let packed ← u.indexes.resolve z u.request.items
  let scores := u.scores.getD s.scores
  let gradients := match u.gradients with
    | .absent => none
    | .fresh n => some (Array.replicate n gradientBefore)
    | .kept => some s.gradients
  let scratch := if u.hasScratch then some (scratchFor u.request.scores scores) else none
  let request := if u.absent.request then none else some { u.request with packed }
  s.calling Handle.applyUpdate do
    let (status, b) ← EntryPoint.applyUpdate z (s.passed u.absent) request
      ⟨scores, gradients, scratch, metricBefore⟩
    return (.update status b,
      { s with scores := b.scores, gradients := b.gradients.getD s.gradients })

/-- The gradients that a sum reads. -/
def sumGradients (s : Session z) : SumGradients z.Number → Array z.Number
  | .given g => g
  | .kept => s.gradients

/-- Where the bins of the session lie, and what they hold. -/
def binMemory (s : Session z) : BinSums.Span × Cells :=
  match s.bins with
  | some b => (⟨binsAt, some (binsAt + BitVec.ofNat 64 b.span)⟩, b.cells)
  | none => (⟨binsAt, none⟩, ⟨#[]⟩)

/-- The reply about the bins, after a sum has left them with these cells. -/
def afterSum (s : Session z) (status : Status) (cells : Cells) : Reply z × Session z :=
  let bins := s.bins.map fun b => { b with cells }
  (.bins status (bins.map (·.totals)), { s with bins })

/-- Makes a sum, unless it is one over bins that the session does not have. -/
def summing (s : Session z) (lacking : Bool)
    (call : BinSums.Span → Cells → Checked (Status × Cells)) :
    Except Fault (Reply z × Session z) := do
  if lacking then return (.noBins, s)
  let (span, cells) := s.binMemory
  let (status, cells) ← call span cells
  return s.afterSum status cells

/-- Whether a call with these parts has an objective and a request to work with. -/
def complete (s : Session z) (a : Absent) : Bool :=
  s.owner.held.table.isSome && !a.handle && !a.request

/-- Whether one of these bins is not in the session. -/
def lacks (s : Session z) (named : List (BitVec z.width)) : Bool :=
  named.any fun i => (s.bins.map (·.bins)).getD 0 ≤ i.toNat

/-- The indexes of the samples of that many lane groups. -/
def drawn {w lanes : Nat} {σ : Type} (next : σ → Lanes (BitVec w) lanes × σ) :
    Nat → σ → List (BitVec w)
  | 0, _ => []
  | groups + 1, s =>
    let (indexes, s) := next s
    indexes.toList ++ drawn next groups s

/-- The bins that the samples of a call name. A call that is turned down asks for none, and neither
does one whose indexes cannot be read. -/
def namedBins (r : BinSums.Boosting z.Number z.width) : List (BitVec z.width) :=
  if r.samples % z.lanes ≠ 0 ∨ r.scores = 0 then []
  else match (Pack.Reader.make r.items r.packed : Checked (Pack.Reader z.width z.lanes)) with
    | .ok reader => drawn Pack.Reader.next (r.samples / z.lanes) reader
    | .error _ => []

/-- The bins of the table that the samples of a call name. -/
def namedPlaces (r : BinSums.Interaction z.Number z.width) : List (BitVec z.width) :=
  if r.samples % z.lanes ≠ 0 ∨ r.scores = 0 ∨ r.dimensions = 0 ∨
      BinSums.maxFeatures < r.dimensions then []
  else match r.axes z.lanes with
    | .ok axes => drawn BinSums.place (r.samples / z.lanes) axes
    | .error _ => []

/-- The request of a step, with the words that its indexes are packed into. -/
def sumRequest (s : Session z) (u : SumStep z) (packed : Option (Array (BitVec z.width))) :
    BinSums.Boosting z.Number z.width :=
  { u.request with packed, gradients := s.sumGradients u.gradients }

def sumBins (s : Session z) (u : SumStep z) : Except Fault (Reply z × Session z) := do
  let packed ← u.indexes.resolve z u.request.items
  let request := s.sumRequest u packed
  let lacking := s.complete u.absent && s.lacks (namedBins request)
  s.calling Handle.sumBins <| s.summing lacking fun span cells =>
    EntryPoint.sumBins z (s.passed u.absent) span
      (if u.absent.request then none else some request) cells

/-- Puts features into the places that a call has for them. Places left over stay empty, and features
left over are dropped. -/
def placeFeatures {w : Nat} (fs : List (BinSums.Feature w)) :
    Vector (BinSums.Feature w) BinSums.maxFeatures :=
  Vector.ofFn fun i => fs.getD i {}

/-- The features of a step, as many as a call takes, with the words of their indexes. -/
def resolveFeatures (fs : List (BinSums.Feature z.width × Indexes z.width)) :
    Except Fault (List (BinSums.Feature z.width)) :=
  (fs.take BinSums.maxFeatures).mapM fun f => do
    return { f.1 with packed := ← f.2.resolve z f.1.items }

/-- The request of a step for these features. -/
def interactionRequest (s : Session z) (u : InteractionStep z)
    (features : List (BinSums.Feature z.width)) : BinSums.Interaction z.Number z.width where
  toRequest := { u.request with gradients := s.sumGradients u.gradients }
  dimensions := u.dimensions
  features := placeFeatures features

def sumInteraction (s : Session z) (u : InteractionStep z) :
    Except Fault (Reply z × Session z) := do
  let features ← resolveFeatures u.features
  let request := s.interactionRequest u features
  let lacking := s.complete u.absent && s.lacks (namedPlaces request)
  s.calling Handle.sumInteraction <| s.summing lacking fun span cells =>
    EntryPoint.sumInteraction z (s.passed u.absent) span
      (if u.absent.request then none else some request) cells

def makeBins (s : Session z) (scores : Nat) (hessian : Bool) (bins : Nat) :
    Except Fault (Reply z × Session z) := do
  let shape ← BinShape.make? scores hessian z.format.bytes
  let b ← BinBuffer.make? shape bins
  return (.slots shape.slots, { s with bins := some b })

/-- One step. -/
def step (s : Session z) : Step z → Except Fault (Reply z × Session z)
  | .applyUpdate u => s.applyUpdate u
  | .finishMetric a metric => s.calling Handle.finishMetric do
    return (.number (← EntryPoint.finishMetric z (s.passed a) metric), s)
  | .checkTargets a samples targets => s.calling Handle.checkTargets do
    return (.truth (← EntryPoint.checkTargets z (s.passed a) samples targets), s)
  | .makeBins scores hessian bins => s.makeBins scores hessian bins
  | .sumBins u => s.sumBins u
  | .sumInteraction u => s.sumInteraction u
  | .clearBins =>
    let bins := s.bins.map (·.clear)
    .ok (.bins .ok (bins.map (·.totals)), { s with bins })
  | .totals => do
    match s.bins with
    | some b => return (.totals (← b.totalCount) b.totalWeight, s)
    | none => return (.noBins, s)
  | .describe => .ok (.owner s.owner, s)
  | .free =>
    let owner := s.owner.free
    .ok (.handle owner.held, { s with owner })

/-- The replies to a list of steps. -/
def run (s : Session z) : List (Step z) → List (Reply z)
  | [] => []
  | t :: rest =>
    match s.step t with
    | .ok (reply, s) => reply :: run s rest
    | .error f => .fault f :: run s rest

end Session

end LaneBoost
