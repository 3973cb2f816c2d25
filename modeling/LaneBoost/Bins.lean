import LaneBoost.Cells
import LaneBoost.Layout
import LaneBoost.Number.Arithmetic
import LaneBoost.Status

/-!
# Histogram bins

A bin is a row of cells: an unsigned count, a weight, and for every score a gradient and, where the
shape has them, a hessian. A buffer owns zeroed storage for its bins and reads them back as 64-bit
numbers.
-/
namespace LaneBoost

/-- Shape of a bin. `wide` marks cells of eight bytes, the others have four. -/
structure BinShape where
  scores : Nat
  hessian : Bool
  wide : Bool
  scores_pos : 0 < scores
  deriving DecidableEq, Repr

namespace BinShape

/-- A shape has a score and cells of four or eight bytes. -/
def make? (scores : Nat) (hessian : Bool) (cellBytes : Nat) : Except Failure BinShape :=
  if h : 0 < scores then
    if cellBytes = 4 then .ok ⟨scores, hessian, false, h⟩
    else if cellBytes = 8 then .ok ⟨scores, hessian, true, h⟩
    else .error .illegalParameter
  else .error .illegalParameter

/-- The format of the cells that are numbers. -/
def format (s : BinShape) : Format := if s.wide then .double else .single

/-- Cells of a bin. -/
def slots (s : BinShape) : Nat := 2 + s.scores * Layout.perScore s.hessian

/-- Bytes of a bin. -/
def bytes (s : BinShape) : Nat := s.slots * s.format.bytes

def slots? (s : BinShape) : Checked Nat := size s.slots

def bytes? (s : BinShape) : Checked Nat := do
  let _ ← s.slots?
  size s.bytes

end BinShape

/-- What a bin holds. A shape without hessians has none here. -/
structure BinTotals where
  count : Nat
  weight : Binary64
  gradients : List Binary64
  hessians : List Binary64
  deriving DecidableEq, Repr

/-- Bins of one shape. -/
structure BinBuffer where
  shape : BinShape
  bins : Nat
  cells : Cells
  deriving DecidableEq, Repr

namespace BinBuffer

/-- Storage has fewer bytes than this. -/
def storageBound : Nat := twoPow 63

/-- A buffer of zeroed bins. -/
def make? (shape : BinShape) (bins : Nat) : Checked BinBuffer := do
  let bytes ← shape.bytes?
  let total ← size (bytes * bins)
  if (total + 7) / 8 * 8 < storageBound then .ok ⟨shape, bins, Cells.ofBytes total⟩
  else .error .overflow

/-- Bytes from the start of the first bin to the end of the last. -/
def span (b : BinBuffer) : Nat := b.shape.bytes * b.bins

def clear (b : BinBuffer) : BinBuffer := { b with cells := b.cells.clear }

/-- Writes a cell of the buffer's width, counted from the first bin on. -/
def poke (b : BinBuffer) (slot : Nat) (v : BitVec b.shape.format.width) : BinBuffer :=
  { b with cells := b.cells.poke slot v }

def readCount (b : BinBuffer) (slot : Nat) : Nat :=
  (b.cells.peek b.shape.format.width slot).toNat

def readNumber (b : BinBuffer) (slot : Nat) : Binary64 :=
  Binary.convert .double (⟨b.cells.peek b.shape.format.width slot⟩ : Binary b.shape.format)

/-- What the bin that starts at cell `first` holds. -/
def totalsAt (b : BinBuffer) (first : Nat) : BinTotals where
  count := b.readCount first
  weight := b.readNumber (first + 1)
  gradients := (List.range b.shape.scores).map fun k =>
    b.readNumber (first + 2 + k * Layout.perScore b.shape.hessian)
  hessians := if b.shape.hessian then
      (List.range b.shape.scores).map fun k =>
        b.readNumber (first + 2 + k * Layout.perScore b.shape.hessian + 1)
    else []

/-- What a bin holds. -/
def bin (b : BinBuffer) (index : Nat) : Checked BinTotals :=
  if index < b.bins then .ok (b.totalsAt (index * b.shape.slots))
  else .error (.noSuchBin index b.bins)

/-- What every bin holds. -/
def totals (b : BinBuffer) : List BinTotals :=
  (List.range b.bins).map fun i => b.totalsAt (i * b.shape.slots)

/-- Sum of the counts, which has to be below `2 ^ 64`. -/
def totalCount (b : BinBuffer) : Checked Nat :=
  b.totals.foldlM (fun sum t => size (sum + t.count)) 0

/-- Sum of the weights in the order of the bins. No weights at all sum to the negative zero, which
changes no number that is added to it. -/
def totalWeight (b : BinBuffer) : Binary64 :=
  b.totals.foldl (fun sum t => sum + t.weight) (Binary.zero true)

end BinBuffer

end LaneBoost
