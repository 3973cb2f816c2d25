/-!
# Names as bytes

A name arrives as a range of bytes. It is text in UTF-8, blanks at its ends do not count, and letters
of the Latin alphabet match in either case.
-/
namespace LaneBoost

/-- Bytes from the start of a name on. The extent is the distance to its end; without one the name
ends before the first zero byte. -/
structure NameSpan where
  memory : List UInt8
  extent : Option Int
  deriving DecidableEq, Repr

namespace NameSpan

/-- The bytes of the name. A range that ends before it starts has none. -/
def bytes? (s : NameSpan) : Option (List UInt8) :=
  match s.extent with
  | none => some (s.memory.takeWhile (· != 0))
  | some e => if e < 0 then none else some (s.memory.take e.toNat)

/-- The range that holds just these bytes. -/
def ofBytes (bytes : List UInt8) : NameSpan := ⟨bytes, some bytes.length⟩

end NameSpan

namespace Name

/-- The characters of a text in UTF-8. -/
def decode? (bytes : List UInt8) : Option (List Char) :=
  bytes.toByteArray.utf8Decode?.map Array.toList

/-- The code points with the White_Space property. -/
def blanks : List Nat :=
  [0x09, 0x0A, 0x0B, 0x0C, 0x0D, 0x20, 0x85, 0xA0, 0x1680,
    0x2000, 0x2001, 0x2002, 0x2003, 0x2004, 0x2005, 0x2006, 0x2007, 0x2008, 0x2009, 0x200A,
    0x2028, 0x2029, 0x202F, 0x205F, 0x3000]

def isBlank (c : Char) : Bool := blanks.contains c.toNat

/-- A text without the blanks at its ends. -/
def trim (text : List Char) : List Char :=
  ((text.dropWhile isBlank).reverse.dropWhile isBlank).reverse

/-- Equality up to the case of the letters A to Z. -/
def sameLetters (a b : List Char) : Bool := a.map Char.toLower == b.map Char.toLower

end Name

end LaneBoost
