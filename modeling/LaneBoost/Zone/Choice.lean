import LaneBoost.Zone

/-!
# How a zone chooses between two vectors

One lane is chosen by a branch. Several lanes are chosen at once and without one: a comparison leaves a
mask in every lane, and the bits of the two vectors are combined with it.
-/
namespace LaneBoost

namespace Word

variable {w : Nat}

/-- All bits set, or none. -/
def mask (w : Nat) (b : Bool) : BitVec w := if b then BitVec.allOnes w else 0#w

/-- The bits of `t` where the mask is set, and those of `e` elsewhere. -/
def merge (mask t e : BitVec w) : BitVec w := (mask &&& t) ||| (~~~mask &&& e)

/-- `t` where the highest bit of the mask is set, and `e` elsewhere. -/
def blend (mask t e : BitVec w) : BitVec w := if mask.msb then t else e

theorem merge_mask (b : Bool) (t e : BitVec w) :
    merge (mask w b) t e = if b then t else e := by
  cases b <;> simp [merge, mask]

theorem blend_mask (hw : 0 < w) (b : Bool) (t e : BitVec w) :
    blend (mask w b) t e = if b then t else e := by
  cases b <;> simp [blend, mask, BitVec.msb_allOnes hw]

end Word

namespace Zone

/-- The number that a zone puts into a lane for which the outcome of a comparison is `b`. -/
def choose (z : Zone) (b : Bool) (t e : z.Number) : z.Number :=
  match z with
  | cpu64 | accel32 => if b then t else e
  | sse2 => ⟨Word.merge (Word.mask _ b) t.bits e.bits⟩
  | avx2 => ⟨Word.blend (Word.mask _ b) t.bits e.bits⟩

theorem choose_eq (z : Zone) (b : Bool) (t e : z.Number) :
    z.choose b t e = if b then t else e := by
  cases z with
  | cpu64 => rfl
  | accel32 => rfl
  | sse2 =>
    rw [choose, Word.merge_mask]
    cases b <;> rfl
  | avx2 =>
    rw [choose, Word.blend_mask (by decide)]
    cases b <;> rfl

variable (z : Zone) (a b t e : Lanes z.Number z.lanes)

/-- In each lane `t` where `a` is below `b`, and `e` elsewhere, as the zone chooses. -/
def whereLess : Lanes z.Number z.lanes :=
  Lanes.ofFn fun l => z.choose ((a.get l).less (b.get l)) (t.get l) (e.get l)

/-- Every zone chooses the same. -/
theorem whereLess_eq : z.whereLess a b t e = Lanes.whereLess a b t e := by
  ext l
  rw [whereLess, Lanes.get_ofFn, choose_eq, Lanes.get_whereLess]
  rfl

end Zone

end LaneBoost
