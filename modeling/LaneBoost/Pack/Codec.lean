import LaneBoost.Status
import LaneBoost.Word

/-!
# Packed indexes

Every lane owns a column of words. A word holds the indexes of `items` consecutive lane groups in
fields of `width / items` bits, the first group in the lowest field. What is left over above the
last field is zero.
-/
namespace LaneBoost.Pack

/-- Bits of one field. -/
def fieldBits (width items : Nat) : Nat := width / items

/-- The word that holds a sample. -/
def wordOf (items lanes sample : Nat) : Nat :=
  sample / (lanes * items) * lanes + sample % lanes

/-- Where in its word the field of a sample begins. -/
def shiftOf (width items lanes sample : Nat) : Nat :=
  sample % (lanes * items) / lanes * fieldBits width items

/-- Words that hold the samples: one for each lane of every group of words begun. -/
def wordCount (items lanes samples : Nat) : Nat :=
  (samples + (lanes * items - 1)) / (lanes * items) * lanes

/-- Puts an index into the field of its sample. -/
def insert {width : Nat} (items lanes : Nat) (words : Array (BitVec width)) (sample index : Nat) :
    Array (BitVec width) :=
  words.modify (wordOf items lanes sample)
    (· ||| BitVec.ofNat width index <<< shiftOf width items lanes sample)

/-- The words of a list of indexes, each of which fits a field. -/
def encode (width items lanes : Nat) (indexes : Array Nat) : Array (BitVec width) :=
  (List.range indexes.size).foldl
    (fun words s => insert items lanes words s (indexes.getD s 0))
    (Array.replicate (wordCount items lanes indexes.size) (0 : BitVec width))

/-- The index in the field of a sample. -/
def fieldAt {width : Nat} (words : Array (BitVec width)) (items lanes sample : Nat) :
    BitVec width :=
  (words.getD (wordOf items lanes sample) (0 : BitVec width) >>> shiftOf width items lanes sample) &&&
    Word.lowMask width (fieldBits width items)

/-- Bits that a word of `wordBytes` has for each of its items. -/
def bitsPerItem? (items wordBytes : Nat) : Checked Nat := do
  let width ← size (wordBytes * 8)
  if items = 0 then .error .divisionByZero else .ok (fieldBits width items)

/-- Whether `samples` indexes can be packed: whole groups of lanes, words of 4 or 8 bytes, and
between one item to a word and one to a bit. -/
def Accepts (samples items lanes wordBytes : Nat) : Prop :=
  lanes ≠ 0 ∧ samples % lanes = 0 ∧ 1 ≤ items ∧ items ≤ wordBytes * 8 ∧
    (wordBytes = 4 ∨ wordBytes = 8)

instance (samples items lanes wordBytes : Nat) : Decidable (Accepts samples items lanes wordBytes) :=
  inferInstanceAs (Decidable (_ ∧ _ ∧ _ ∧ _ ∧ _))

end Pack

/-- Packed words together with their width. -/
structure Packed where
  width : Nat
  words : Array (BitVec width)

namespace Pack

/-- Packs one index for each sample, for a zone with words of `wordBytes` bytes. -/
def pack (indexes : Array Nat) (items lanes wordBytes : Nat) : Except Fault Packed := do
  let width ← size (wordBytes * 8)
  if ¬ Accepts indexes.size items lanes wordBytes then
    throw (.failed .illegalParameter)
  if indexes.any (twoPow (fieldBits width items) ≤ ·) then
    throw (.failed .illegalParameter)
  let _ ← size (lanes * items)
  return ⟨width, encode width items lanes indexes⟩

/-- The index of one sample, which needs a word to be in. -/
def read {width : Nat} (words : Array (BitVec width)) (items lanes sample : Nat) : Checked Nat :=
  if lanes * items = 0 then .error .divisionByZero
  else if wordOf items lanes sample < words.size then
    .ok (fieldAt words items lanes sample).toNat
  else .error .outOfRange

/-- The indexes of `count` samples from `first` on, up to one that cannot be read. -/
def readFrom {width : Nat} (words : Array (BitVec width)) (items lanes : Nat) :
    (count first : Nat) → Checked (List Nat)
  | 0, _ => .ok []
  | count + 1, first => do
    let index ← read words items lanes first
    return index :: (← readFrom words items lanes count (first + 1))

/-- The first `samples` indexes of some words, whatever their unused bits hold. -/
def unpack {width : Nat} (words : Array (BitVec width)) (items lanes samples : Nat) :
    Checked (List Nat) := do
  let _ ← size (lanes * items)
  readFrom words items lanes samples 0

end LaneBoost.Pack
