import LaneBoost.Lane.Vector
import LaneBoost.Proofs.SlotPartition
import Mathlib.Data.List.Forall2
import Mathlib.Data.List.Nodup
import Mathlib.Data.Set.Finite.Basic

/-!
# Tables rearranged into the layout and back

Different entries of a table have different slots. So if every entry finds its slot in a buffer of the
table's length, then every slot of the buffer has its entry: no entry is lost over another one, and no
slot keeps what stood there before. This holds for any length, also for one that leaves a group of
samples incomplete.
-/
namespace LaneBoost.Layout

variable {scores lanes : Nat}

/-! ### Entries and their slots -/

/-- Slot of entry `i` of a table of rows. -/
def rowSlot (i scores lanes : Nat) : Nat := scoreSlot (i / scores) (i % scores) scores lanes

/-- Entry `i` has a slot in a buffer of this length. -/
structure HasSlot (length scores lanes i : Nat) : Prop where
  scores_pos : 0 < scores
  lanes_pos : 0 < lanes
  small : rowSlot i scores lanes < sizeBound
  inside : rowSlot i scores lanes < length

/-- Every entry of a table of this length has a slot in a buffer of the same length. -/
def Fits (length scores lanes : Nat) : Prop := ∀ i, i < length → HasSlot length scores lanes i

theorem rowSlot_injective (scores_pos : 0 < scores) (lanes_pos : 0 < lanes) {i j : Nat}
    (h : rowSlot i scores lanes = rowSlot j scores lanes) : i = j := by
  obtain ⟨sample, score⟩ := scoreSlot_injective lanes_pos (Nat.mod_lt i scores_pos)
    (Nat.mod_lt j scores_pos) h
  rw [← Nat.div_add_mod i scores, sample, score, Nat.div_add_mod]

/-- An injection of finitely many slots into as many slots leaves none out. -/
theorem Fits.bijOn {length : Nat} (fits : Fits length scores lanes) :
    Set.BijOn (fun i => rowSlot i scores lanes) (Set.Iio length) (Set.Iio length) := by
  have maps : Set.MapsTo (fun i => rowSlot i scores lanes) (Set.Iio length) (Set.Iio length) :=
    fun i hi => (fits i hi).inside
  refine ((Set.finite_lt_nat length).injOn_iff_bijOn_of_mapsTo maps).1 fun i hi j _ same => ?_
  exact rowSlot_injective (fits i hi).scores_pos (fits i hi).lanes_pos same

/-- A table of whole groups of rows fits. -/
theorem fits_of_dvd {length : Nat} (whole : scores * lanes ∣ length) (small : length < sizeBound) :
    Fits length scores lanes := by
  intro i hi
  obtain ⟨groups, rfl⟩ := whole
  have factors : 0 < scores * lanes := Nat.pos_of_ne_zero fun none => by simp [none] at hi
  have scores_pos := Nat.pos_of_mul_pos_right factors
  have lanes_pos := Nat.pos_of_mul_pos_left factors
  have length_eq : lanes * groups * scores = scores * lanes * groups := by
    rw [Nat.mul_comm, Nat.mul_assoc]
  have sample : i / scores < lanes * groups :=
    Nat.div_lt_of_lt_mul (by rwa [← Nat.mul_assoc])
  have inside : rowSlot i scores lanes < scores * lanes * groups := by
    rw [← length_eq]
    exact scoreSlot_lt (Nat.dvd_mul_right lanes groups) sample (Nat.mod_lt i scores_pos)
  exact ⟨scores_pos, lanes_pos, Nat.lt_trans inside small, inside⟩

/-! ### One entry -/

theorem rowSlot?_eq_ok_iff {i j : Nat} : rowSlot? i scores lanes = .ok j ↔
    (0 < scores ∧ 0 < lanes ∧ rowSlot i scores lanes < sizeBound) ∧ rowSlot i scores lanes = j := by
  unfold rowSlot? scoreSlot? checked size
  rw [← rowSlot]
  split_ifs with no_scores no_lanes small
  · exact ⟨nofun, fun h => absurd no_scores (Nat.ne_of_gt h.1.1)⟩
  · exact ⟨nofun, fun h => absurd no_lanes (Nat.ne_of_gt h.1.2.1)⟩
  · exact ⟨fun h => ⟨⟨Nat.pos_of_ne_zero no_scores, Nat.pos_of_ne_zero no_lanes, small⟩,
      Except.ok.inj h⟩, fun h => congrArg Except.ok h.2⟩
  · exact ⟨nofun, fun h => absurd h.1.2.2 small⟩

theorem HasSlot.rowSlot?_eq {length i : Nat} (slot : HasSlot length scores lanes i) :
    rowSlot? i scores lanes = .ok (rowSlot i scores lanes) :=
  rowSlot?_eq_ok_iff.2 ⟨⟨slot.scores_pos, slot.lanes_pos, slot.small⟩, rfl⟩

variable {α : Type} [Inhabited α]

theorem place_eq_ok_iff {values out out' : Array α} {i : Nat} :
    place values scores lanes out i = .ok out' ↔
      HasSlot out.size scores lanes i ∧
        out' = out.setIfInBounds (rowSlot i scores lanes) (values.getD i default) := by
  unfold place
  cases found : rowSlot? i scores lanes with
  | error e =>
    exact ⟨nofun, fun ⟨slot, _⟩ => absurd (found.symm.trans slot.rowSlot?_eq) nofun⟩
  | ok j =>
    obtain ⟨⟨scores_pos, lanes_pos, small⟩, rfl⟩ := rowSlot?_eq_ok_iff.1 found
    show (if _ then _ else _) = _ ↔ _
    split_ifs with inside
    · exact ⟨fun h => ⟨⟨scores_pos, lanes_pos, small, inside⟩, (Except.ok.inj h).symm⟩,
        fun h => congrArg Except.ok h.2.symm⟩
    · exact ⟨nofun, fun h => absurd h.1.inside inside⟩

omit [Inhabited α] in
theorem fetch_eq_ok_iff {values : Array α} {i : Nat} {v : α} :
    fetch values scores lanes i = .ok v ↔
      HasSlot values.size scores lanes i ∧ values[rowSlot i scores lanes]? = some v := by
  unfold fetch
  cases found : rowSlot? i scores lanes with
  | error e =>
    refine iff_of_false (fun h => by cases h) fun h => ?_
    rw [h.1.rowSlot?_eq] at found
    cases found
  | ok j =>
    obtain ⟨⟨scores_pos, lanes_pos, small⟩, rfl⟩ := rowSlot?_eq_ok_iff.1 found
    simp only [bind, Except.bind]
    cases held : values[rowSlot i scores lanes]? with
    | none => exact iff_of_false (fun h => by cases h) fun h => by cases h.2
    | some u =>
      have inside := (Array.getElem?_eq_some_iff.1 held).1
      exact ⟨fun h => ⟨⟨scores_pos, lanes_pos, small, inside⟩, congrArg some (Except.ok.inj h)⟩,
        fun h => congrArg Except.ok (Option.some.inj h.2)⟩

/-! ### All entries -/

/-- The table of rows, and the buffer that has it in the layout. -/
structure LaidOut (scores lanes : Nat) (rows out : Array α) : Prop where
  size_eq : out.size = rows.size
  getElem?_eq : ∀ i, i < rows.size → out[rowSlot i scores lanes]? = rows[i]?

omit [Inhabited α] in
/-- Only one buffer has the table. -/
theorem LaidOut.unique {rows out out' : Array α} (fits : Fits rows.size scores lanes)
    (laid : LaidOut scores lanes rows out) (laid' : LaidOut scores lanes rows out') :
    out = out' := by
  apply Array.ext_getElem?
  intro j
  by_cases inside : j < rows.size
  · obtain ⟨i, hi, rfl⟩ := fits.bijOn.surjOn inside
    rw [laid.getElem?_eq i hi, laid'.getElem?_eq i hi]
  · rw [Array.getElem?_eq_none (by rw [laid.size_eq]; omega),
      Array.getElem?_eq_none (by rw [laid'.size_eq]; omega)]

/-- Entries are put one by one where they belong, if all of them have slots. -/
theorem foldlM_place_eq_ok_iff {values out out' : Array α} (entries : List Nat) :
    entries.foldlM (place values scores lanes) out = .ok out' ↔
      (∀ i ∈ entries, HasSlot out.size scores lanes i) ∧
        out' = entries.foldl
          (fun out i => out.setIfInBounds (rowSlot i scores lanes) (values.getD i default)) out := by
  induction entries generalizing out with
  | nil => exact ⟨fun h => ⟨nofun, (Except.ok.inj h).symm⟩, fun h => congrArg Except.ok h.2.symm⟩
  | cons i entries ih =>
    rw [List.foldlM_cons, List.foldl_cons, List.forall_mem_cons]
    cases put : place values scores lanes out i with
    | error e =>
      exact ⟨nofun, fun ⟨⟨slot, _⟩, _⟩ =>
        absurd (put.symm.trans (place_eq_ok_iff.2 ⟨slot, rfl⟩)) nofun⟩
    | ok next =>
      obtain ⟨slot, rfl⟩ := place_eq_ok_iff.1 put
      -- An entry that is put leaves the size alone, so the others need the same slots as before.
      refine ih.trans ?_
      rw [Array.size_setIfInBounds]
      exact ⟨fun h => ⟨⟨slot, h.1⟩, h.2⟩, fun h => ⟨h.1.2, h.2⟩⟩

/-- Every entry stands at its slot in the end: none is overwritten, since no two have the same. -/
theorem laidOut_foldl {values : Array α} (fits : Fits values.size scores lanes) :
    LaidOut scores lanes values ((List.range values.size).foldl
      (fun out i => out.setIfInBounds (rowSlot i scores lanes) (values.getD i default))
      (Array.replicate values.size default)) := by
  -- Putting the entries is like writing a vector as long as the table, lane by lane.
  rw [← List.map_coe_finRange_eq_range, List.foldl_map, ← Fin.foldl_eq_finRange_foldl]
  refine ⟨by rw [Lanes.size_foldl_set, Array.size_replicate], fun i hi => ?_⟩
  have slot := fits i hi
  have put := Lanes.foldl_set_of_last values.size (fun j => rowSlot j scores lanes)
    (fun j => values.getD j default) (Array.replicate values.size default) ⟨i, hi⟩
    (fun j later same => Nat.ne_of_gt later (rowSlot_injective slot.scores_pos slot.lanes_pos same))
    (by rw [Array.size_replicate]; exact slot.inside)
  rw [put]
  simp [hi]

theorem interleave_eq_ok_iff {rows out : Array α} :
    interleave rows scores lanes = .ok out ↔
      Fits rows.size scores lanes ∧ LaidOut scores lanes rows out := by
  rw [interleave, foldlM_place_eq_ok_iff, Array.size_replicate]
  simp only [List.mem_range]
  constructor
  · rintro ⟨fits, rfl⟩
    exact ⟨fits, laidOut_foldl fits⟩
  · rintro ⟨fits, laid⟩
    exact ⟨fits, laid.unique fits (laidOut_foldl fits)⟩

/-- All calls succeed, or there is no list of results. -/
theorem mapM_eq_ok_iff {ι β ε : Type} {f : ι → Except ε β} (items : List ι) (results : List β) :
    items.mapM f = .ok results ↔ List.Forall₂ (fun i v => f i = .ok v) items results := by
  induction items generalizing results with
  | nil =>
    rw [List.mapM_nil, List.forall₂_nil_left_iff]
    exact ⟨fun h => (Except.ok.inj h).symm, fun h => congrArg Except.ok h.symm⟩
  | cons i items ih =>
    rw [List.mapM_cons, List.forall₂_cons_left_iff]
    cases first : f i with
    | error e => exact ⟨nofun, fun ⟨_, _, h, _⟩ => absurd h nofun⟩
    | ok v =>
      cases rest : items.mapM f with
      | error e =>
        refine ⟨nofun, fun ⟨_, vs, _, all, _⟩ => ?_⟩
        exact absurd (rest.symm.trans ((ih vs).2 all)) nofun
      | ok vs =>
        constructor
        · intro h
          exact ⟨v, vs, rfl, (ih vs).1 rest, (Except.ok.inj h).symm⟩
        · rintro ⟨v', vs', h, all, rfl⟩
          have same : vs = vs' := Except.ok.inj (rest.symm.trans ((ih vs').2 all))
          rw [← Except.ok.inj h, ← same]
          rfl

omit [Inhabited α] in
theorem deinterleave_eq_ok_iff {rows out : Array α} :
    deinterleave out scores lanes = .ok rows ↔
      Fits rows.size scores lanes ∧ LaidOut scores lanes rows out := by
  have fetched : deinterleave out scores lanes = .ok rows ↔
      (List.range out.size).mapM (fetch out scores lanes) = .ok rows.toList := by
    unfold deinterleave
    cases (List.range out.size).mapM (fetch out scores lanes) with
    | error e => exact ⟨nofun, nofun⟩
    | ok values =>
      constructor
      · intro h
        rw [← Except.ok.inj h]
      · intro h
        rw [Except.ok.inj h]
        rfl
  rw [fetched, mapM_eq_ok_iff, List.forall₂_iff_get]
  simp only [List.length_range, Array.length_toList, List.get_eq_getElem, List.getElem_range,
    Array.getElem_toList, fetch_eq_ok_iff]
  constructor
  · rintro ⟨size_eq, found⟩
    rw [size_eq] at found
    exact ⟨fun i hi => (found i hi hi).1, size_eq, fun i hi => by simpa [hi] using (found i hi hi).2⟩
  · rintro ⟨fits, laid⟩
    refine ⟨laid.size_eq, fun i _ hi => ?_⟩
    rw [laid.size_eq, laid.getElem?_eq i hi]
    exact ⟨fits i hi, Array.getElem?_eq_getElem hi⟩

/-- Each of the two is the other one backwards. -/
theorem deinterleave_eq_ok_iff_interleave {rows out : Array α} :
    deinterleave out scores lanes = .ok rows ↔ interleave rows scores lanes = .ok out :=
  deinterleave_eq_ok_iff.trans interleave_eq_ok_iff.symm

/-- A table that fits is laid out. -/
theorem Fits.exists_interleave {rows : Array α} (fits : Fits rows.size scores lanes) :
    ∃ out, interleave rows scores lanes = .ok out :=
  ⟨_, interleave_eq_ok_iff.2 ⟨fits, laidOut_foldl fits⟩⟩

/-- And a buffer of its length is read back, whatever it holds. -/
theorem Fits.exists_deinterleave {out : Array α} (fits : Fits out.size scores lanes) :
    ∃ rows, deinterleave out scores lanes = .ok rows := by
  let rows : Array α := Array.ofFn fun i : Fin out.size => out.getD (rowSlot i scores lanes) default
  have size_eq : rows.size = out.size := Array.size_ofFn
  refine ⟨rows, deinterleave_eq_ok_iff.2 ⟨by rwa [size_eq], size_eq.symm, fun i hi => ?_⟩⟩
  rw [size_eq] at hi
  have inside := (fits i hi).inside
  simp [rows, hi, inside, Array.getD_eq_getD_getElem?]

/-- The slots of the entries are all slots in another order. -/
theorem Fits.map_rowSlot_perm {length : Nat} (fits : Fits length scores lanes) :
    ((List.range length).map fun i => rowSlot i scores lanes).Perm (List.range length) := by
  have distinct : ((List.range length).map fun i => rowSlot i scores lanes).Nodup :=
    List.nodup_range.map_on fun i hi j hj same =>
      fits.bijOn.injOn (List.mem_range.1 hi) (List.mem_range.1 hj) same
  refine (List.perm_ext_iff_of_nodup distinct List.nodup_range).2 fun j => ?_
  rw [List.mem_map, List.mem_range]
  constructor
  · rintro ⟨i, hi, rfl⟩
    exact (fits i (List.mem_range.1 hi)).inside
  · intro hj
    obtain ⟨i, hi, here⟩ := fits.bijOn.surjOn hj
    exact ⟨i, List.mem_range.2 hi, here⟩

/-- The buffer holds the entries of the table in another order. -/
theorem LaidOut.perm {rows out : Array α} (fits : Fits rows.size scores lanes)
    (laid : LaidOut scores lanes rows out) : out.Perm rows := by
  have listed : out.toList = (List.range rows.size).map fun j => out.getD j default := by
    apply List.ext_getElem (by simp [laid.size_eq])
    intro j hj _
    simp [Array.length_toList ▸ hj]
  -- Read at the slots of the entries, the buffer is the table; read in order, it is itself.
  have in_order : rows.toList =
      ((List.range rows.size).map fun i => rowSlot i scores lanes).map fun j =>
        out.getD j default := by
    apply List.ext_getElem (by simp)
    intro i hi _
    have here := laid.getElem?_eq i (Array.length_toList ▸ hi)
    simp [Array.getD_eq_getD_getElem?, here, Array.length_toList ▸ hi]
  rw [Array.perm_iff_toList_perm, listed, in_order]
  exact (fits.map_rowSlot_perm.map _).symm

/-- A table of whole groups of rows can be rearranged both ways. And whenever a table can be laid out,
whatever its length, entry `i` comes to the slot that the layout has for it, every slot receives exactly
one entry, reading the layout back returns the table, and every buffer of that length is the layout of
the table that is read from it. -/
theorem interleave_rearranges (values : Array α) (scores lanes : Nat) :
    (scores * lanes ∣ values.size → values.size < sizeBound →
      (∃ out, interleave values scores lanes = .ok out) ∧
        ∃ rows, deinterleave values scores lanes = .ok rows) ∧
    ∀ out, interleave values scores lanes = .ok out →
      (out.Perm values ∧
        (∀ i (hi : i < values.size),
          out[scoreSlot (i / scores) (i % scores) scores lanes]? = some values[i]) ∧
        Set.BijOn (fun i => scoreSlot (i / scores) (i % scores) scores lanes)
          (Set.Iio values.size) (Set.Iio values.size)) ∧
      deinterleave out scores lanes = .ok values ∧
      ∀ {β : Type} [Inhabited β] (other : Array β), other.size = values.size →
        ∃ rows, deinterleave other scores lanes = .ok rows ∧
          interleave rows scores lanes = .ok other := by
  refine ⟨fun whole small => ?_, fun out put => ?_⟩
  · have fits := fits_of_dvd whole small
    exact ⟨fits.exists_interleave, fits.exists_deinterleave⟩
  · obtain ⟨fits, laid⟩ := interleave_eq_ok_iff.1 put
    refine ⟨⟨laid.perm fits, fun i hi => ?_, fits.bijOn⟩,
      deinterleave_eq_ok_iff_interleave.2 put, fun other size_eq => ?_⟩
    · exact (laid.getElem?_eq i hi).trans (Array.getElem?_eq_getElem hi)
    · obtain ⟨rows, read⟩ : ∃ rows, deinterleave other scores lanes = .ok rows :=
        Fits.exists_deinterleave (by rwa [size_eq])
      exact ⟨rows, read, deinterleave_eq_ok_iff_interleave.1 read⟩

/-- Two whole samples of three classes in two lanes; and the same without the last entry, a length that
is no whole number of groups and can still be laid out. -/
theorem six_and_five_rearranged :
    3 * 2 ∣ #[1, 2, 3, 4, 5, 6].size ∧
      (∃ out, interleave #[1, 2, 3, 4, 5, 6] 3 2 = .ok out) ∧
      interleave #[1, 2, 3, 4, 5] 3 2 = .ok #[1, 4, 2, 5, 3] ∧
      deinterleave #[1, 4, 2, 5, 3] 3 2 = .ok #[1, 2, 3, 4, 5] ∧
      ∃ rows, deinterleave #[5, 4, 3, 2, 1] 3 2 = .ok rows ∧
        interleave rows 3 2 = .ok #[5, 4, 3, 2, 1] := by
  have whole : 3 * 2 ∣ #[1, 2, 3, 4, 5, 6].size := by decide
  have put : interleave #[1, 2, 3, 4, 5] 3 2 = .ok #[1, 4, 2, 5, 3] := rfl
  have laid := (interleave_rearranges #[1, 2, 3, 4, 5, 6] 3 2).1 whole (by decide)
  obtain ⟨-, read, others⟩ := (interleave_rearranges #[1, 2, 3, 4, 5] 3 2).2 _ put
  exact ⟨whole, laid.1, put, read, others #[5, 4, 3, 2, 1] rfl⟩

end LaneBoost.Layout
