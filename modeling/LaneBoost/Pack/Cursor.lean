import LaneBoost.Lane.Vector
import LaneBoost.Pack.Codec

/-!
# Reading packed indexes group by group

A cursor hands out the indexes of one lane group after the other. It holds the words of the groups
that share them and loads new ones only when the last of their fields has been read.
-/
namespace LaneBoost.Pack

/-- A place in packed words, one of which each lane holds. -/
structure Cursor (w lanes : Nat) where
  words : Array (BitVec w)
  /-- Groups to a word. -/
  items : Nat
  /-- Words loaded so far. -/
  loaded : Nat := 0
  /-- Field of the held words that is read next; new words are loaded at field 0. -/
  field : Nat := 0
  held : Lanes (BitVec w) lanes := 0

namespace Cursor

variable {w lanes : Nat}

/-- A cursor that has the words of the next group. -/
def fill (c : Cursor w lanes) : Cursor w lanes :=
  if c.field = 0 then
    { c with held := Lanes.load c.words c.loaded, loaded := c.loaded + lanes }
  else c

/-- The indexes in the current field of the held words. -/
def current (c : Cursor w lanes) : Lanes (BitVec w) lanes :=
  (c.held.shiftRight (c.field * fieldBits w c.items)).and
    (Lanes.splat (Word.lowMask w (fieldBits w c.items)))

/-- Goes on to the next field, and from the last one to the first of new words. -/
def advance (c : Cursor w lanes) : Cursor w lanes :=
  { c with field := if c.field + 1 = c.items then 0 else c.field + 1 }

/-- The indexes of the next group. -/
def next (c : Cursor w lanes) : Lanes (BitVec w) lanes × Cursor w lanes :=
  let c := c.fill
  (c.current, c.advance)

end Cursor

/-- Where a kernel takes its indexes from. Without packed words every index is zero. -/
abbrev Reader (w lanes : Nat) := Option (Cursor w lanes)

namespace Reader

variable {w lanes : Nat}

/-- A reader of words with `items` groups each. No words, or no items, make the reader of zeros; a
word cannot hold more items than it has bits. -/
def make (items : Int) (packed : Option (Array (BitVec w))) : Checked (Reader w lanes) :=
  match packed with
  | none => .ok none
  | some words =>
    if items ≤ 0 then .ok none
    else if items.toNat ≤ w then .ok (some { words, items := items.toNat })
    else .error .tooManyItems

/-- The indexes of the next group. -/
def next : Reader w lanes → Lanes (BitVec w) lanes × Reader w lanes
  | none => (0, none)
  | some c =>
    let (indexes, c) := c.next
    (indexes, some c)

end Reader

end LaneBoost.Pack
