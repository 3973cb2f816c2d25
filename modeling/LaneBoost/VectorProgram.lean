import LaneBoost.Zone

/-!
# Programs on named lane vectors

A program computes on the vectors of one zone. It names its vectors; numbers and words have names of
their own. Each instruction sets a name or shows something.
-/
namespace LaneBoost.VectorProgram

variable {F : Type} {w n : Nat}

inductive UnaryOp where
  | neg | abs | sqrt | exp | ln | double | reciprocal
  deriving DecidableEq, Repr

inductive BinaryOp where
  | add | sub | mul | div
  deriving DecidableEq, Repr

/-- Where a vector of numbers comes from. -/
inductive NumberSource (F : Type) (n : Nat) where
  | lanes (v : Lanes F n)
  | unary (op : UnaryOp) (a : String)
  | binary (op : BinaryOp) (a b : String)
  | whereLess (a b t e : String)
  | whereEqual (a b t e : String)
  | ofWords (a : String)
  | load (memory : Array F) (start : Nat)
  | gather (memory : Array F) (indexes : String)

/-- Where a vector of words comes from. -/
inductive WordSource (w n : Nat) where
  | lanes (v : Lanes (BitVec w) n)
  | add (a b : String)
  | and (a b : String)
  | shiftRight (a : String) (bits : Nat)
  | shiftLeft (a : String) (bits : Nat)
  | scale (a : String) (k : BitVec w)
  | load (memory : Array (BitVec w)) (start : Nat)
  | loadBytes (memory : Array (BitVec 8)) (start : Nat)

/-- What is shown of the vectors. -/
inductive Display (F : Type) (w : Nat) where
  | total (a : String)
  | store (a : String) (memory : Array F) (start : Nat)
  | scatter (a indexes : String) (memory : Array F)
  | storeWords (a : String) (memory : Array (BitVec w)) (start : Nat)
  | laneNumbers
  | numbersByLane (a : String)
  | wordsByLane (a : String)

inductive Instruction (F : Type) (w n : Nat) where
  | setNumbers (name : String) (source : NumberSource F n)
  | setWords (name : String) (source : WordSource w n)
  | display (what : Display F w)

/-- What an instruction shows; one that sets a name shows the new vector. -/
inductive Shown (F : Type) (w : Nat) where
  | numbers (values : List F)
  | words (values : List (BitVec w))
  | total (value : F)
  | numberMemory (memory : Array F)
  | wordMemory (memory : Array (BitVec w))
  | laneNumbers (lanes : List Nat)
  | numbersByLane (values : List (Nat × F))
  | wordsByLane (values : List (Nat × BitVec w))

/-- The named vectors, the latest of a name first. -/
structure State (F : Type) (w n : Nat) where
  numbers : List (String × Lanes F n) := []
  words : List (String × Lanes (BitVec w) n) := []

namespace State

/-- The vector of numbers of a name, if it has been set. -/
def number? (s : State F w n) (name : String) : Option (Lanes F n) := s.numbers.lookup name

def word? (s : State F w n) (name : String) : Option (Lanes (BitVec w) n) := s.words.lookup name

end State

section

variable [Arithmetic F]

def UnaryOp.apply (v : Lanes F n) : UnaryOp → Lanes F n
  | neg => -v
  | abs => v.abs
  | sqrt => v.sqrt
  | exp => v.exp
  | ln => v.ln
  | double => v.map fun x => x + x
  | reciprocal => v.map fun x => 1 / x

def BinaryOp.apply (u v : Lanes F n) : BinaryOp → Lanes F n
  | add => u + v
  | sub => u - v
  | mul => u * v
  | div => u / v

variable (m : Machine F w n) (s : State F w n)

def NumberSource.eval : NumberSource F n → Option (Lanes F n)
  | lanes v => some v
  | unary op a => do return op.apply (← s.number? a)
  | binary op a b => do return op.apply (← s.number? a) (← s.number? b)
  | whereLess a b t e => do
    return Lanes.whereLess (← s.number? a) (← s.number? b) (← s.number? t) (← s.number? e)
  | whereEqual a b t e => do
    return Lanes.whereEqual (← s.word? a) (← s.word? b) (← s.number? t) (← s.number? e)
  | ofWords a => do return (← s.word? a).map m.ofWord
  | load memory start => some (Lanes.load memory start)
  | gather memory i => do return m.gather memory (← s.word? i)

def WordSource.eval : WordSource w n → Option (Lanes (BitVec w) n)
  | lanes v => some v
  | add a b => do return (← s.word? a) + (← s.word? b)
  | and a b => do return (← s.word? a).and (← s.word? b)
  | shiftRight a bits => do return (← s.word? a).shiftRight bits
  | shiftLeft a bits => do return (← s.word? a).shiftLeft bits
  | scale a k => do return (← s.word? a).scale k
  | load memory start => some (Lanes.load memory start)
  | loadBytes memory start => some (Lanes.loadBytes memory start)

/-- The values of a vector with the numbers of their lanes. -/
def byLane {α : Type} (v : Lanes α n) : List (Nat × α) :=
  (List.finRange n).map fun l => (l.val, v.get l)

def Display.eval : Display F w → Option (Shown F w)
  | total a => do return .total (m.total (← s.number? a))
  | store a memory start => do return .numberMemory ((← s.number? a).store memory start)
  | scatter a i memory => do return .numberMemory ((← s.number? a).scatter (← s.word? i) memory)
  | storeWords a memory start => do return .wordMemory ((← s.word? a).store memory start)
  | laneNumbers => some (.laneNumbers (List.range n))
  | numbersByLane a => do return .numbersByLane (byLane (← s.number? a))
  | wordsByLane a => do return .wordsByLane (byLane (← s.word? a))

/-- Runs one instruction. There is no result when it uses a name that has not been set. -/
def step : Instruction F w n → Option (Shown F w × State F w n)
  | .setNumbers name source => do
    let v ← source.eval m s
    return (.numbers v.toList, { s with numbers := (name, v) :: s.numbers })
  | .setWords name source => do
    let v ← source.eval s
    return (.words v.toList, { s with words := (name, v) :: s.words })
  | .display what => do return (← what.eval m s, s)

end

/-- What a program shows, instruction by instruction. -/
def run [Arithmetic F] (m : Machine F w n) :
    State F w n → List (Instruction F w n) → Option (List (Shown F w))
  | _, [] => some []
  | s, i :: rest => do
    let (shown, s) ← step m s i
    return shown :: (← run m s rest)

end LaneBoost.VectorProgram
