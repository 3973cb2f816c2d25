import LaneBoost.Bins
import LaneBoost.Pack.Cursor
import LaneBoost.Zone

/-!
# Summing samples into bins

Every sample adds its count, its weight, and its gradients and hessians to the bin that its index
selects. Samples are added in their order: the lanes of a group one after the other, group after
group, so that samples of one bin never get lost over each other.

With one feature the index is the sample's packed index. With several, the bins form a table and the
index is the place in it that the sample's indexes select, the first feature counting fastest.
-/
namespace LaneBoost.BinSums

/-- The parts of a call that both kinds share. -/
structure Request (F : Type) where
  scores : Nat := 1
  hessian : Bool := false
  samples : Nat := 0
  gradients : Array F := #[]
  weights : Option (Array F) := none

/-- Where the caller's bins lie in its memory. Without an end, nothing guards it. -/
structure Span where
  start : BitVec 64
  finish : Option (BitVec 64)
  deriving DecidableEq, Repr

/-- The bins that a call works on: where they are, how many cells a bin has, and how wide they are. -/
structure Target where
  span : Span
  slots : Nat
  cellBytes : Nat
  deriving DecidableEq, Repr

namespace Target

/-- Address of the first cell of a bin. Addresses wrap around, the cell's number must be a size. -/
def address (t : Target) (index : Nat) : Checked (BitVec 64) := do
  let cell ← size (index * t.slots)
  return t.span.start + BitVec.ofNat 64 (cell * t.cellBytes)

/-- First cell of a bin, counted from the first cell of all. The bin must not end behind the end of
the bins. -/
def locate (t : Target) (index : Nat) : Checked Nat := do
  let first ← t.address index
  let last := first + BitVec.ofNat 64 (t.slots * t.cellBytes)
  match t.span.finish with
  | some finish => if finish < last then .error .pastEnd
  | none => pure ()
  return (first - t.span.start).toNat / t.cellBytes

end Target

variable {F : Type} [Arithmetic F] {w lanes : Nat}

/-- Cells of a bin, which have to be a size. -/
def slots? (r : Request F) : Checked Nat := size (2 + r.scores * Layout.perScore r.hessian)

/-- Gradients of a lane group, which have to be a size. -/
def stride? (r : Request F) (lanes : Nat) : Checked Nat :=
  size (r.scores * Layout.perScore r.hessian * lanes)

variable (m : Machine F w lanes)

/-- Adds a number to a cell. -/
def addNumber (cells : Cells) (slot : Nat) (x : F) : Cells :=
  cells.poke slot (m.toCell (m.ofCell (cells.peek w slot) + x))

/-- Adds a word to a cell, modulo the width. -/
def addWord (cells : Cells) (slot : Nat) (x : BitVec w) : Cells :=
  cells.poke slot (cells.peek w slot + x)

/-- The weight that a sample has: its own; else, where samples are counted, its count; else one. -/
def sampleWeight (weight : Option F) (count : Option (BitVec w)) : F :=
  match weight, count with
  | some x, _ => x
  | none, some c => m.narrow (Binary.ofNat c.toNat)
  | none, none => 1

/-- Adds the count and the weight of a sample to the bin at `first`. -/
def addSample (cells : Cells) (first : Nat) (weight : Option F) (count : Option (BitVec w)) :
    Cells :=
  addNumber m (addWord cells first (count.getD (BitVec.ofNat w 1))) (first + 1)
    (sampleWeight m weight count)

/-- Adds the gradient and, if there is one, the hessian of a score to the cells from `slot` on. -/
def addScore (cells : Cells) (slot : Nat) (gradient : F) (hessian : Option F) : Cells :=
  let cells := addNumber m cells slot gradient
  match hessian with
  | some h => addNumber m cells (slot + 1) h
  | none => cells

/-- A vector times the weights of its samples, where they have any. -/
def weighted (weight : Option (Lanes F lanes)) (v : Lanes F lanes) : Lanes F lanes :=
  match weight with
  | some x => v * x
  | none => v

/-- Adds one score of a lane group, whose gradients begin at `start`. -/
def addScores (r : Request F) (start : Nat) (firsts : Lanes Nat lanes)
    (weight : Option (Lanes F lanes)) (cells : Cells) (k : Nat) : Cells :=
  let each := Layout.perScore r.hessian
  let element := start + k * each * lanes
  let gradient := weighted weight (Lanes.load r.gradients element)
  let hessian : Option (Lanes F lanes) :=
    if r.hessian then some (weighted weight (Lanes.load r.gradients (element + lanes))) else none
  Fin.foldl lanes
    (fun cells l =>
      addScore m cells (firsts.get l + 2 + k * each) (gradient.get l)
        (hessian.map fun h => h.get l))
    cells

/-- Adds a lane group: first the counts and weights of its samples, then score after score. -/
def addGroup (r : Request F) (start : Nat) (firsts : Lanes Nat lanes)
    (weight : Option (Lanes F lanes)) (count : Option (Lanes (BitVec w) lanes)) (cells : Cells) :
    Cells :=
  let cells := Fin.foldl lanes
    (fun cells l =>
      addSample m cells (firsts.get l) (weight.map fun x => x.get l)
        (count.map fun c => c.get l))
    cells
  (List.range r.scores).foldl (addScores m r start firsts weight) cells

/-- Adds the lane group number `group`, whose samples have these indexes. -/
def step (r : Request F) (counts : Option (Array (BitVec 8))) (target : Target) (stride : Nat)
    (indexes : Lanes (BitVec w) lanes) (group : Nat) (cells : Cells) : Checked Cells := do
  let firsts ← indexes.traverse fun i => target.locate i.toNat
  let weight := r.weights.map fun ws => Lanes.load ws (group * lanes)
  let count := counts.map fun cs => Lanes.loadBytes cs (group * lanes)
  return addGroup m r (group * stride) firsts weight count cells

/-! ### One feature -/

/-- One call for one feature. `counts` says how often each sample occurs. -/
structure Boosting (F : Type) (w : Nat) extends Request F where
  /-- Groups to a packed word; 0 or less for samples that are all in the first bin. -/
  items : Int := -1
  packed : Option (Array (BitVec w)) := none
  counts : Option (Array (BitVec 8)) := none

/-- The next lane group: its indexes are read, then its samples are added. -/
def Boosting.step (r : Boosting F w) (target : Target) (stride : Nat)
    (s : Pack.Reader w lanes × Cells) (group : Nat) : Checked (Pack.Reader w lanes × Cells) := do
  let (indexes, reader) := s.1.next
  return (reader, ← BinSums.step m r.toRequest r.counts target stride indexes group s.2)

/-- Runs through all groups. -/
def Boosting.loop (r : Boosting F w) (target : Target) (stride : Nat)
    (reader : Pack.Reader w lanes) (cells : Cells) : Checked Cells := do
  return (← (List.range (r.samples / lanes)).foldlM (r.step m target stride) (reader, cells)).2

/-- Sums the samples into the bins that the feature selects. -/
def boosting (span : Span) (r : Boosting F w) (cells : Cells) : Checked (Status × Cells) := do
  if r.samples % lanes ≠ 0 ∨ r.scores = 0 then return (.illegalParameter, cells)
  let target : Target := ⟨span, ← slots? r.toRequest, w / 8⟩
  let reader ← Pack.Reader.make r.items r.packed
  let stride ← stride? r.toRequest lanes
  return (.ok, ← r.loop m target stride reader cells)

/-! ### Several features -/

/-- Most features that a call takes. -/
def maxFeatures : Nat := 30

/-- One feature of a table of bins: how many bins it has, and the packed indexes of the samples. -/
structure Feature (w : Nat) where
  bins : Nat := 0
  items : Int := -1
  packed : Option (Array (BitVec w)) := none

/-- One call for several features. Only the first `dimensions` of them count. -/
structure Interaction (F : Type) (w : Nat) extends Request F where
  dimensions : Nat := 0
  features : Vector (Feature w) maxFeatures := Vector.replicate maxFeatures {}

/-- The distance in the table between neighbours of each feature: the product of the bin counts of
the features before it. The product over all features has to be a size too. -/
def distances (bins : List Nat) : Checked (List Nat) := do
  let walked ← bins.foldlM
    (fun (s : List Nat × Nat) b => do return (s.1 ++ [s.2], ← size (s.2 * b)))
    ([], 1)
  return walked.1

/-- A feature's reader with its distance, as a word. -/
structure Axis (w lanes : Nat) where
  reader : Pack.Reader w lanes
  distance : BitVec w

/-- Takes the next index of a feature that many steps of its distance into the table. -/
def Axis.walk (s : Lanes (BitVec w) lanes × List (Axis w lanes)) (a : Axis w lanes) :
    Lanes (BitVec w) lanes × List (Axis w lanes) :=
  let (indexes, reader) := a.reader.next
  (s.1 + indexes.scale a.distance, s.2 ++ [{ a with reader }])

/-- The place in the table that the next index of each feature selects. -/
def place (axes : List (Axis w lanes)) : Lanes (BitVec w) lanes × List (Axis w lanes) :=
  axes.foldl Axis.walk (0, [])

namespace Interaction

/-- The features that count. -/
def used (r : Interaction F w) : List (Feature w) := r.features.toList.take r.dimensions

/-- Readers and distances of the features. -/
def axes (r : Interaction F w) (lanes : Nat) : Checked (List (Axis w lanes)) := do
  let readers ← r.used.mapM fun f => Pack.Reader.make f.items f.packed
  let ds ← distances (r.used.map (·.bins))
  return (readers.zip ds).map fun (reader, d) => ⟨reader, BitVec.ofNat w d⟩

/-- The next lane group: its indexes are read, then its samples are added. -/
def step (r : Interaction F w) (target : Target) (stride : Nat)
    (s : List (Axis w lanes) × Cells) (group : Nat) :
    Checked (List (Axis w lanes) × Cells) := do
  let (indexes, axes) := place s.1
  return (axes, ← BinSums.step m r.toRequest none target stride indexes group s.2)

/-- Runs through all groups. -/
def loop (r : Interaction F w) (target : Target) (stride : Nat) (axes : List (Axis w lanes))
    (cells : Cells) : Checked Cells := do
  return (← (List.range (r.samples / lanes)).foldlM (r.step m target stride) (axes, cells)).2

end Interaction

/-- Sums the samples into the bins of the table that the features span. -/
def interaction (span : Span) (r : Interaction F w) (cells : Cells) :
    Checked (Status × Cells) := do
  if r.samples % lanes ≠ 0 ∨ r.scores = 0 ∨ r.dimensions = 0 ∨ maxFeatures < r.dimensions then
    return (.illegalParameter, cells)
  let target : Target := ⟨span, ← slots? r.toRequest, w / 8⟩
  let axes ← r.axes lanes
  let stride ← stride? r.toRequest lanes
  return (.ok, ← r.loop m target stride axes cells)

end LaneBoost.BinSums
