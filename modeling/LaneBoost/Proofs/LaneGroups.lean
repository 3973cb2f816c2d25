import LaneBoost.Checked
import Mathlib.Data.List.Basic

/-!
# Samples by lane groups

A kernel walks over the lane groups, and over the lanes of each group. Sample `g * lanes + l` is lane
`l` of group `g`, so the walk visits the samples in their order.
-/
namespace LaneBoost

/-! ### Walks over numbers -/

/-- What holds at first and is kept by every step holds at the end of the walk. -/
theorem foldl_range_induct {σ : Type} (P : Nat → σ → Prop) (f : σ → Nat → σ) (n : Nat) (s : σ)
    (first : P 0 s) (step : ∀ k t, k < n → P k t → P (k + 1) (f t k)) :
    P n ((List.range n).foldl f s) := by
  induction n with
  | zero => simpa using first
  | succ n ih =>
    rw [List.range_succ, List.foldl_append]
    exact step n _ (Nat.lt_succ_self n) (ih fun k t hk => step k t (Nat.lt_succ_of_lt hk))

/-- A walk whose steps all succeed succeeds. -/
theorem foldlM_range_eq_ok {σ ε : Type} (f : σ → Nat → Except ε σ) (state : Nat → σ) (n : Nat)
    (step : ∀ k, k < n → f (state k) k = .ok (state (k + 1))) :
    (List.range n).foldlM f (state 0) = .ok (state n) := by
  induction n with
  | zero => rfl
  | succ n ih =>
    rw [List.range_succ, List.foldlM_append, ih fun k hk => step k (Nat.lt_succ_of_lt hk)]
    show List.foldlM f (state n) [n] = _
    rw [List.foldlM_cons, step n (Nat.lt_succ_self n)]
    rfl

/-- A walk that succeeds has succeeded at every step. -/
theorem exists_step_of_foldlM_range {σ ε : Type} {f : σ → Nat → Except ε σ} {n : Nat} {s t : σ}
    (walked : (List.range n).foldlM f s = .ok t) {k : Nat} (hk : k < n) :
    ∃ u v, f u k = .ok v := by
  induction n generalizing t with
  | zero => exact absurd hk (Nat.not_lt_zero k)
  | succ n ih =>
    rw [List.range_succ, List.foldlM_append] at walked
    cases before : (List.range n).foldlM f s with
    | error e => rw [before] at walked; cases walked
    | ok u =>
      rw [before] at walked
      rcases Nat.lt_succ_iff_lt_or_eq.1 hk with earlier | rfl
      · exact ih before earlier
      · cases last : f u k with
        | ok v => exact ⟨u, v, last⟩
        | error e =>
          change List.foldlM f u [k] = .ok t at walked
          rw [List.foldlM_cons, last] at walked
          cases walked

/-- A walk that moves on at a pace of its own, whatever it carries, acts on what it carries. -/
theorem foldlM_range_paced {σ τ ε : Type} (pace : Nat → τ) (f : τ × σ → Nat → Except ε (τ × σ))
    (act : σ → Nat → Except ε σ) (n : Nat) (s : σ)
    (step : ∀ k s, k < n → f (pace k, s) k = act s k >>= fun t => pure (pace (k + 1), t)) :
    (List.range n).foldlM f (pace 0, s) =
      (List.range n).foldlM act s >>= fun t => pure (pace n, t) := by
  induction n with
  | zero => rfl
  | succ n ih =>
    rw [List.range_succ, List.foldlM_append, List.foldlM_append,
      ih fun k s hk => step k s (Nat.lt_succ_of_lt hk), bind_assoc, bind_assoc]
    refine bind_congr fun t => ?_
    rw [pure_bind, List.foldlM_cons, List.foldlM_cons, step n t (Nat.lt_succ_self n)]
    simp

/-- Walks that take the same steps end alike. -/
theorem foldl_range_congr {σ : Type} (f g : σ → Nat → σ) (n : Nat) (s : σ)
    (step : ∀ k t, k < n → f t k = g t k) :
    (List.range n).foldl f s = (List.range n).foldl g s :=
  List.foldl_ext f g s fun t k hk => step k t (List.mem_range.1 hk)

/-- The same for walks whose steps can fail. -/
theorem foldlM_range_congr {σ ε : Type} (f g : σ → Nat → Except ε σ) (n : Nat) (s : σ)
    (step : ∀ k t, k < n → f t k = g t k) :
    (List.range n).foldlM f s = (List.range n).foldlM g s := by
  induction n with
  | zero => rfl
  | succ n ih =>
    rw [List.range_succ, List.foldlM_append, List.foldlM_append,
      ih fun k t hk => step k t (Nat.lt_succ_of_lt hk)]
    refine bind_congr fun t => ?_
    simp only [List.foldlM_cons, List.foldlM_nil, step n t (Nat.lt_succ_self n)]

/-! ### Groups and lanes -/

@[simp] theorem lane_div {lanes : Nat} (g : Nat) (l : Fin lanes) :
    (g * lanes + l.val) / lanes = g := by
  have hl := l.isLt
  rw [Nat.mul_comm, Nat.mul_add_div (by omega), Nat.div_eq_of_lt hl, Nat.add_zero]

@[simp] theorem lane_mod {lanes : Nat} (g : Nat) (l : Fin lanes) :
    (g * lanes + l.val) % lanes = l.val := by
  rw [Nat.mul_comm, Nat.mul_add_mod, Nat.mod_eq_of_lt l.isLt]

/-- Groups of no lanes have no samples. -/
theorem lanes_pos_of_lt {lanes samples s : Nat} (whole : lanes ∣ samples) (hs : s < samples) :
    0 < lanes := by
  apply Nat.pos_of_ne_zero
  rintro rfl
  rw [Nat.eq_zero_of_zero_dvd whole] at hs
  exact Nat.not_lt_zero s hs

/-- A sample of a whole number of groups is a lane of one of them. -/
theorem exists_lane {lanes samples s : Nat} (whole : lanes ∣ samples) (hs : s < samples) :
    ∃ g, g < samples / lanes ∧ ∃ l : Fin lanes, s = g * lanes + l.val := by
  have hl := lanes_pos_of_lt whole hs
  obtain ⟨groups, rfl⟩ := whole
  refine ⟨s / lanes, ?_, ⟨s % lanes, Nat.mod_lt s hl⟩, ?_⟩
  · rw [Nat.mul_div_cancel_left _ hl]
    exact Nat.div_lt_of_lt_mul hs
  · exact (Nat.div_add_mod' s lanes).symm

/-- A lane of a group is one of the samples. -/
theorem lane_lt {lanes groups g : Nat} (hg : g < groups) (l : Fin lanes) :
    g * lanes + l.val < groups * lanes := by
  have hl := l.isLt
  have hm := Nat.mul_le_mul_right lanes (Nat.succ_le_of_lt hg)
  rw [Nat.succ_mul] at hm
  omega

/-- The same for a whole number of groups. -/
theorem lane_lt_samples {lanes samples g : Nat} (whole : lanes ∣ samples)
    (hg : g < samples / lanes) (l : Fin lanes) : g * lanes + l.val < samples := by
  have inside := lane_lt hg l
  rwa [Nat.div_mul_cancel whole] at inside

/-- A walk over the groups, and over the lanes of each, visits the samples in their order. -/
theorem foldl_range_groups {σ : Type} (f : σ → Nat → σ) (groups lanes : Nat) (s : σ) :
    (List.range groups).foldl
        (fun t g => Fin.foldl lanes (fun t l => f t (g * lanes + l.val)) t) s =
      (List.range (groups * lanes)).foldl f s := by
  induction groups with
  | zero => simp
  | succ groups ih =>
    rw [List.range_succ, List.foldl_append, ih, Nat.succ_mul, List.range_add, List.foldl_append,
      List.foldl_map]
    simp only [List.foldl_cons, List.foldl_nil]
    rw [Fin.foldl_eq_finRange_foldl, ← List.map_coe_finRange_eq_range (n := lanes), List.foldl_map]

end LaneBoost
