import LaneBoost.Lane.Arithmetic
import LaneBoost.Word

/-!
# Lane vectors

One value for each lane. Arithmetic works on every lane by itself, as the `get_*` laws say; only
the memory operations and the sum of a zone mix lanes.

Reading beyond the end of a buffer gives zero and writing there changes nothing.
-/
namespace LaneBoost

structure Lanes (α : Type) (n : Nat) where
  toVector : Vector α n
  deriving DecidableEq

namespace Lanes

variable {α β γ δ : Type} {n w : Nat}

/-- The value in a lane. -/
def get (v : Lanes α n) (l : Fin n) : α := v.toVector[l]

def ofFn (f : Fin n → α) : Lanes α n := ⟨Vector.ofFn f⟩

@[simp] theorem get_ofFn (f : Fin n → α) (l : Fin n) : (ofFn f).get l = f l := by
  simp [get, ofFn]

@[ext] theorem ext {u v : Lanes α n} (h : ∀ l, u.get l = v.get l) : u = v := by
  obtain ⟨u⟩ := u
  obtain ⟨v⟩ := v
  congr 1
  exact Vector.ext fun i hi => h ⟨i, hi⟩

def toList (v : Lanes α n) : List α := v.toVector.toList

/-- The same value in every lane. -/
def splat (a : α) : Lanes α n := ofFn fun _ => a

@[simp] theorem get_splat (a : α) (l : Fin n) : (splat a).get l = a := by simp [splat]

def map (f : α → β) (v : Lanes α n) : Lanes β n := ofFn fun l => f (v.get l)

@[simp] theorem get_map (f : α → β) (v : Lanes α n) (l : Fin n) :
    (v.map f).get l = f (v.get l) := by simp [map]

def zip (f : α → β → γ) (u : Lanes α n) (v : Lanes β n) : Lanes γ n :=
  ofFn fun l => f (u.get l) (v.get l)

@[simp] theorem get_zip (f : α → β → γ) (u : Lanes α n) (v : Lanes β n) (l : Fin n) :
    (zip f u v).get l = f (u.get l) (v.get l) := by simp [zip]

/-- The results of a computation on every lane, or the failure of the first lane that fails. -/
def traverse (f : α → Except δ β) (v : Lanes α n) : Except δ (Lanes β n) :=
  (Vector.ofFnM fun l => f (v.get l)).map Lanes.mk

theorem ofFnM_eq_ok (f : Fin n → Except δ β) (u : Vector β n) :
    Vector.ofFnM f = .ok u ↔ ∀ l : Fin n, f l = .ok u[l] := by
  constructor
  · intro h
    induction n with
    | zero => exact fun l => l.elim0
    | succ n ih =>
      rw [Vector.ofFnM_succ] at h
      cases hs : Vector.ofFnM (fun i => f i.castSucc) with
      | error e => rw [hs] at h; cases h
      | ok as =>
        cases ha : f (Fin.last n) with
        | error e => rw [hs, ha] at h; cases h
        | ok a =>
          rw [hs, ha] at h
          cases h
          intro l
          rcases Nat.lt_or_ge l.val n with hl | hl
          · have := ih (fun i => f i.castSucc) as hs ⟨l.val, hl⟩
            simpa [Vector.getElem_push, hl] using this
          · have e : l = Fin.last n := Fin.ext (Nat.le_antisymm (Nat.le_of_lt_succ l.isLt) hl)
            subst e
            simpa using ha
  · intro h
    have pure_f : f = fun l => pure u[l] := funext h
    rw [pure_f, Vector.ofFnM_pure]
    exact congrArg Except.ok (Vector.ext fun i hi => by simp)

/-- All lanes succeed, or there is no result. -/
theorem traverse_eq_ok (f : α → Except δ β) (v : Lanes α n) (u : Lanes β n) :
    v.traverse f = .ok u ↔ ∀ l, f (v.get l) = .ok (u.get l) := by
  obtain ⟨u⟩ := u
  have := ofFnM_eq_ok (fun l => f (v.get l)) u
  cases h : Vector.ofFnM fun l => f (v.get l) <;> simp_all [traverse, Except.map, get]

/-! ### Numbers -/

instance [Zero α] : Zero (Lanes α n) := ⟨splat 0⟩
instance [One α] : One (Lanes α n) := ⟨splat 1⟩
instance [Add α] : Add (Lanes α n) := ⟨zip (· + ·)⟩
instance [Sub α] : Sub (Lanes α n) := ⟨zip (· - ·)⟩
instance [Mul α] : Mul (Lanes α n) := ⟨zip (· * ·)⟩
instance [Div α] : Div (Lanes α n) := ⟨zip (· / ·)⟩
instance [Neg α] : Neg (Lanes α n) := ⟨map (- ·)⟩

@[simp] theorem get_zero [Zero α] (l : Fin n) : (0 : Lanes α n).get l = 0 := get_splat 0 l
@[simp] theorem get_one [One α] (l : Fin n) : (1 : Lanes α n).get l = 1 := get_splat 1 l
@[simp] theorem get_add [Add α] (u v : Lanes α n) (l : Fin n) :
    (u + v).get l = u.get l + v.get l := get_zip _ u v l
@[simp] theorem get_sub [Sub α] (u v : Lanes α n) (l : Fin n) :
    (u - v).get l = u.get l - v.get l := get_zip _ u v l
@[simp] theorem get_mul [Mul α] (u v : Lanes α n) (l : Fin n) :
    (u * v).get l = u.get l * v.get l := get_zip _ u v l
@[simp] theorem get_div [Div α] (u v : Lanes α n) (l : Fin n) :
    (u / v).get l = u.get l / v.get l := get_zip _ u v l
@[simp] theorem get_neg [Neg α] (v : Lanes α n) (l : Fin n) : (-v).get l = -v.get l :=
  get_map _ v l

section Arithmetic

variable [Arithmetic α]

def abs (v : Lanes α n) : Lanes α n := v.map Arithmetic.abs
def sqrt (v : Lanes α n) : Lanes α n := v.map Arithmetic.sqrt
def exp (v : Lanes α n) : Lanes α n := v.map Arithmetic.exp
def ln (v : Lanes α n) : Lanes α n := v.map Arithmetic.ln

/-- In each lane `t` where `a` is below `b`, and `e` elsewhere. -/
def whereLess (a b t e : Lanes α n) : Lanes α n :=
  ofFn fun l => if Arithmetic.less (a.get l) (b.get l) then t.get l else e.get l

@[simp] theorem get_abs (v : Lanes α n) (l : Fin n) : v.abs.get l = Arithmetic.abs (v.get l) :=
  get_map _ v l
@[simp] theorem get_sqrt (v : Lanes α n) (l : Fin n) : v.sqrt.get l = Arithmetic.sqrt (v.get l) :=
  get_map _ v l
@[simp] theorem get_exp (v : Lanes α n) (l : Fin n) : v.exp.get l = Arithmetic.exp (v.get l) :=
  get_map _ v l
@[simp] theorem get_ln (v : Lanes α n) (l : Fin n) : v.ln.get l = Arithmetic.ln (v.get l) :=
  get_map _ v l
@[simp] theorem get_whereLess (a b t e : Lanes α n) (l : Fin n) :
    (whereLess a b t e).get l =
      if Arithmetic.less (a.get l) (b.get l) then t.get l else e.get l := by
  simp [whereLess]

end Arithmetic

/-- In each lane `t` where the words are equal, and `e` elsewhere. -/
def whereEqual (a b : Lanes (BitVec w) n) (t e : Lanes α n) : Lanes α n :=
  ofFn fun l => if a.get l = b.get l then t.get l else e.get l

@[simp] theorem get_whereEqual (a b : Lanes (BitVec w) n) (t e : Lanes α n) (l : Fin n) :
    (whereEqual a b t e).get l = if a.get l = b.get l then t.get l else e.get l := by
  simp [whereEqual]

/-! ### Words -/

/-- The number of each lane. -/
def numbers : Lanes (BitVec w) n := ofFn fun l => BitVec.ofNat w l

def and (u v : Lanes (BitVec w) n) : Lanes (BitVec w) n := zip (· &&& ·) u v

/-- Multiplies every lane by one word. -/
def scale (v : Lanes (BitVec w) n) (k : BitVec w) : Lanes (BitVec w) n := v.map (· * k)

/-- A shift by the width or more leaves nothing. -/
def shiftRight (v : Lanes (BitVec w) n) (bits : Nat) : Lanes (BitVec w) n :=
  v.map fun x : BitVec w => x >>> bits

/-- A shift by the width or more leaves nothing, so none is taken further than that. -/
def shiftLeft (v : Lanes (BitVec w) n) (bits : Nat) : Lanes (BitVec w) n :=
  v.map fun x : BitVec w => x <<< min bits w

@[simp] theorem get_and (u v : Lanes (BitVec w) n) (l : Fin n) :
    (u.and v).get l = u.get l &&& v.get l := get_zip _ u v l
@[simp] theorem get_scale (v : Lanes (BitVec w) n) (k : BitVec w) (l : Fin n) :
    (v.scale k).get l = v.get l * k := get_map _ v l
@[simp] theorem get_shiftRight (v : Lanes (BitVec w) n) (bits : Nat) (l : Fin n) :
    (v.shiftRight bits).get l = v.get l >>> bits := get_map _ v l
@[simp] theorem get_shiftLeft (v : Lanes (BitVec w) n) (bits : Nat) (l : Fin n) :
    (v.shiftLeft bits).get l = v.get l <<< bits := by
  rw [shiftLeft, get_map]
  rcases Nat.le_total bits w with h | h
  · rw [Nat.min_eq_left h]
  · rw [Nat.min_eq_right h, BitVec.shiftLeft_eq_zero (Nat.le_refl w), BitVec.shiftLeft_eq_zero h]

/-! ### Memory -/

/-- Consecutive elements from `start` on. -/
def load [Zero α] (memory : Array α) (start : Nat) : Lanes α n :=
  ofFn fun l => memory.getD (start + l) 0

@[simp] theorem get_load [Zero α] (memory : Array α) (start : Nat) (l : Fin n) :
    (load memory start : Lanes α n).get l = memory.getD (start + l) 0 := by simp [load]

/-- Replaces the element at the place of each lane, lane by lane, so the last lane with a place
decides it. -/
def writeAt (v : Lanes α n) (places : Fin n → Nat) (memory : Array α) : Array α :=
  Fin.foldl n (fun m l => m.setIfInBounds (places l) (v.get l)) memory

theorem size_foldl_set (k : Nat) (places : Fin k → Nat) (f : Fin k → α) (memory : Array α) :
    (Fin.foldl k (fun m l => m.setIfInBounds (places l) (f l)) memory).size = memory.size := by
  induction k with
  | zero => simp
  | succ k ih => rw [Fin.foldl_succ_last, Array.size_setIfInBounds, ih]

theorem foldl_set_of_last (k : Nat) (places : Fin k → Nat) (f : Fin k → α) (memory : Array α)
    (l : Fin k) (last : ∀ j, l < j → places j ≠ places l) (h : places l < memory.size) :
    (Fin.foldl k (fun m l => m.setIfInBounds (places l) (f l)) memory)[places l]? =
      some (f l) := by
  induction k with
  | zero => exact l.elim0
  | succ k ih =>
    rw [Fin.foldl_succ_last, Array.getElem?_setIfInBounds, size_foldl_set]
    rcases Nat.lt_or_ge l.val k with hl | hl
    · have e : l = (⟨l.val, hl⟩ : Fin k).castSucc := rfl
      rw [if_neg (last (Fin.last k) (Fin.lt_def.2 hl)), e]
      exact ih (fun j => places j.castSucc) (fun j => f j.castSucc) ⟨l.val, hl⟩
        (fun j hj => last j.castSucc (Fin.lt_def.2 (Fin.lt_def.1 hj))) h
    · have e : l = Fin.last k := Fin.ext (Nat.le_antisymm (Nat.le_of_lt_succ l.isLt) hl)
      subst e
      simp [h]

theorem foldl_set_of_ne (k : Nat) (places : Fin k → Nat) (f : Fin k → α) (memory : Array α)
    (i : Nat) (h : ∀ l, places l ≠ i) :
    (Fin.foldl k (fun m l => m.setIfInBounds (places l) (f l)) memory)[i]? = memory[i]? := by
  induction k with
  | zero => simp
  | succ k ih =>
    rw [Fin.foldl_succ_last, Array.getElem?_setIfInBounds, if_neg (h _)]
    exact ih _ _ fun l => h l.castSucc

@[simp] theorem size_writeAt (v : Lanes α n) (places : Fin n → Nat) (memory : Array α) :
    (v.writeAt places memory).size = memory.size := size_foldl_set n places v.get memory

theorem getElem?_writeAt_of_last (v : Lanes α n) (places : Fin n → Nat) (memory : Array α)
    (l : Fin n) (last : ∀ j, l < j → places j ≠ places l) (h : places l < memory.size) :
    (v.writeAt places memory)[places l]? = some (v.get l) :=
  foldl_set_of_last n places v.get memory l last h

theorem getElem?_writeAt_of_ne (v : Lanes α n) (places : Fin n → Nat) (memory : Array α)
    (i : Nat) (h : ∀ l, places l ≠ i) : (v.writeAt places memory)[i]? = memory[i]? :=
  foldl_set_of_ne n places v.get memory i h

/-- Replaces the elements from `start` on. -/
def store (v : Lanes α n) (memory : Array α) (start : Nat) : Array α :=
  v.writeAt (fun l => start + l) memory

@[simp] theorem size_store (v : Lanes α n) (memory : Array α) (start : Nat) :
    (v.store memory start).size = memory.size := size_writeAt _ _ _

theorem getElem?_store (v : Lanes α n) (memory : Array α) (start : Nat) (l : Fin n)
    (h : start + l < memory.size) : (v.store memory start)[start + l.val]? = some (v.get l) :=
  getElem?_writeAt_of_last v (fun l => start + l) memory l
    (fun j hj e => by have := Fin.lt_def.1 hj; omega) h

theorem getElem?_store_of_outside (v : Lanes α n) (memory : Array α) (start i : Nat)
    (h : i < start ∨ start + n ≤ i) : (v.store memory start)[i]? = memory[i]? :=
  getElem?_writeAt_of_ne v (fun l => start + l) memory i fun l e => by
    have := l.isLt
    omega

/-- Bytes as words. -/
def loadBytes (memory : Array (BitVec 8)) (start : Nat) : Lanes (BitVec w) n :=
  (load memory start).map (·.setWidth w)

/-- The element at a place that may lie before the buffer. -/
def elementAt [Zero α] (memory : Array α) (place : Int) : α :=
  if place < 0 then 0 else memory.getD place.toNat 0

/-- The elements at the places that the lanes name. -/
def gather [Zero α] (memory : Array α) (places : Lanes Int n) : Lanes α n :=
  places.map (elementAt memory)

@[simp] theorem get_gather [Zero α] (memory : Array α) (places : Lanes Int n) (l : Fin n) :
    (gather memory places).get l = elementAt memory (places.get l) := get_map _ places l

/-- Replaces the elements that the lanes name. -/
def scatter (v : Lanes α n) (indexes : Lanes (BitVec w) n) (memory : Array α) : Array α :=
  v.writeAt (fun l => (indexes.get l).toNat) memory

end Lanes

end LaneBoost
