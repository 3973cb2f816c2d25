import LaneBoost.Proofs.BinCounts
import LaneBoost.Proofs.KernelCalls
import LaneBoost.Proofs.PackRoundTrip

/-!
# No sample is lost

However many calls sum into a buffer, each bin's count grows by the occurrences of the samples whose
index was packed for it, and the counts of all bins grow by the occurrences of all samples, in whichever
order these come.
-/
namespace LaneBoost

/-- Words that were packed for words of their width are read back as the indexes that were packed. -/
theorem Pack.toNat_indexAt_of_width {w bytes lanes : Nat} (width : w = bytes * 8)
    {indexes : Array Nat} {items : Int} {words : Array (BitVec w)}
    (h : pack indexes items.toNat lanes bytes = .ok ⟨w, words⟩) {s : Nat} (hs : s < indexes.size) :
    (indexAt items (some words) lanes s).toNat = indexes.getD s 0 := by
  subst width
  exact toNat_indexAt_of_pack h hs

theorem Zone.width_eq (z : Zone) : z.width = z.format.bytes * 8 := by cases z <;> rfl

namespace BinSums

variable {z : Zone}

/-! ### Calls on a buffer -/

/-- A call for one feature, its indexes before they are packed, and the address of the buffer. -/
structure Deposit (z : Zone) where
  indexes : Array Nat
  request : Boosting z.Number z.width
  start : BitVec 64
  guarded : Bool

namespace Deposit

variable {b : BinBuffer} {d : Deposit z} {cells : Cells}

/-- The samples of the call. -/
def landings (d : Deposit z) : List Landing :=
  (List.range d.request.samples).map fun s =>
    ⟨d.indexes.getD s 0, timesOf d.request.counts s⟩

/-- What the call answers, and the cells that it leaves. -/
def sum (d : Deposit z) (b : BinBuffer) : Checked (Status × Cells) :=
  boosting z.machine (Span.over b d.start d.guarded) d.request b.cells

/-- The indexes are those of bins of the buffer, and they are handed over packed for the zone. The
buffer has the cells that the call asks for. -/
structure Fits (d : Deposit z) (b : BinBuffer) : Prop where
  packed : ∃ words, d.request.packed = some words ∧
    Pack.pack d.indexes d.request.items.toNat z.lanes z.format.bytes = .ok ⟨z.width, words⟩
  covers : d.request.samples ≤ d.indexes.size
  inside : ∀ i ∈ d.indexes, i < b.bins
  serves : Serves b z.format d.request.toRequest
  room : d.start.toNat + b.span < 2 ^ 64

/-- The samples fill groups of lanes. Where no bin bounds the gradients of a group, they have to be a
size. -/
structure Grouped (d : Deposit z) (b : BinBuffer) : Prop where
  whole : z.lanes ∣ d.request.samples
  sized : b.bins = 0 →
    d.request.scores * Layout.perScore d.request.hessian * z.lanes < sizeBound

theorem grouped_with_cells_iff (cells : Cells) : d.Grouped { b with cells } ↔ d.Grouped b :=
  ⟨fun h => ⟨h.whole, h.sized⟩, fun h => ⟨h.whole, h.sized⟩⟩

namespace Fits

theorem with_cells (fits : d.Fits b) (cells : Cells) : d.Fits { b with cells } :=
  ⟨fits.packed, fits.covers, fits.inside,
    ⟨fits.serves.format_eq, fits.serves.scores_eq, fits.serves.hessian_eq⟩, fits.room⟩

theorem binOf_eq (fits : d.Fits b) {s : Nat} (hs : s < d.request.samples) :
    d.request.binOf z.lanes s = d.indexes.getD s 0 := by
  obtain ⟨words, handed, packed⟩ := fits.packed
  rw [Boosting.binOf, handed]
  exact Pack.toNat_indexAt_of_width z.width_eq packed (Nat.lt_of_lt_of_le hs fits.covers)

theorem map_binOf_eq (fits : d.Fits b) :
    ((List.range d.request.samples).map fun s =>
      (⟨d.request.binOf z.lanes s, timesOf d.request.counts s⟩ : Landing)) = d.landings :=
  List.map_congr_left fun s hs => by rw [fits.binOf_eq (List.mem_range.1 hs)]

theorem items_le (fits : d.Fits b) : d.request.items ≤ z.width := by
  obtain ⟨words, -, packed⟩ := fits.packed
  exact (Pack.items_le_of_pack packed).trans_eq (congrArg Nat.cast z.width_eq.symm)

theorem index_lt (fits : d.Fits b) {s : Nat} (hs : s < d.request.samples) :
    d.indexes.getD s 0 < b.bins := by
  have covered := Nat.lt_of_lt_of_le hs fits.covers
  rw [show d.indexes.getD s 0 = d.indexes[s] from (Array.getElem_eq_getD 0).symm]
  exact fits.inside _ (Array.getElem_mem covered)

theorem bin_lt (fits : d.Fits b) : ∀ x ∈ d.landings, x.bin < b.bins := by
  intro x hx
  obtain ⟨s, hs, rfl⟩ := List.mem_map.1 hx
  exact fits.index_lt (List.mem_range.1 hs)

theorem sum_eq (fits : d.Fits b) (allotted : b.Allotted) (grouped : d.Grouped b) : d.sum b =
    .ok (.ok, inSampleOrder z.machine d.request.toRequest d.request.counts
      (d.request.binOf z.lanes) b.shape.slots b.cells) := by
  have inside : ∀ s, s < d.request.samples → d.request.binOf z.lanes s < b.bins := by
    intro s hs
    rw [fits.binOf_eq hs]
    exact fits.index_lt hs
  exact boosting_over (few_lanes z) fits.serves allotted fits.room d.guarded grouped.sized
    grouped.whole (.inr fits.items_le) inside

end Fits

/-- A call that answers `ok` has samples in whole groups, and strides that are sizes. -/
theorem grouped_of_sum_eq_ok (done : d.sum b = .ok (.ok, cells)) : d.Grouped b := by
  rw [sum, boosting_eq_unlessRefused] at done
  cases refused : d.request.refusal? z.lanes with
  | some status =>
    rw [refused] at done
    obtain rfl : status = .ok := congrArg Prod.fst (Except.ok.inj done)
    simp [Boosting.refusal?] at refused
  | none =>
    exact ⟨Boosting.dvd_of_accepted refused,
      fun _ => (Boosting.effect_eq_ok_iff.1 (effect_eq_ok refused done)).1.2.2⟩

theorem sum_eq_ok_iff (fits : d.Fits b) (allotted : b.Allotted) : d.sum b = .ok (.ok, cells) ↔
    d.Grouped b ∧ cells = inSampleOrder z.machine d.request.toRequest d.request.counts
      (d.request.binOf z.lanes) b.shape.slots b.cells := by
  constructor
  · intro done
    have grouped := grouped_of_sum_eq_ok done
    rw [fits.sum_eq allotted grouped] at done
    exact ⟨grouped, (congrArg Prod.snd (Except.ok.inj done)).symm⟩
  · rintro ⟨grouped, rfl⟩
    exact fits.sum_eq allotted grouped

/-- A call adds the occurrences of its samples to the counts of their bins, modulo the width of a count,
and keeps the size of the storage. -/
theorem Fits.of_sum_eq_ok (fits : d.Fits b) (allotted : b.Allotted)
    (done : d.sum b = .ok (.ok, cells)) :
    { b with cells }.Allotted ∧ ∀ i, i < b.bins → { b with cells }.countOfBin i =
      (b.countOfBin i + timesIn i d.landings) % 2 ^ b.shape.format.width := by
  obtain ⟨-, left⟩ := (sum_eq_ok_iff fits allotted).1 done
  have format := fits.serves.format_eq
  constructor
  · rw [left]
    exact allotted.of_size (size_inSampleOrder _ _ _)
  · intro i hi
    have stored := allotted.stored hi
    have before := BinBuffer.countOfBin_of_format format i
    have after : { b with cells }.countOfBin i = (cells.peek z.width (i * b.shape.slots)).toNat :=
      @BinBuffer.countOfBin_of_format { b with cells } z.format format i
    rw [format] at stored ⊢
    rw [after, before, left, ← fits.map_binOf_eq]
    exact toNat_peek_count z.machine (d.request.binOf z.lanes) fits.serves.slots_eq stored

end Deposit

/-! ### Calls one after the other -/

/-- Calls that all answer `ok`, from one state of the buffer to another. -/
inductive Deposited : BinBuffer → List (Deposit z) → BinBuffer → Prop where
  | nil (b : BinBuffer) : Deposited b [] b
  | cons {b : BinBuffer} {d : Deposit z} {cells : Cells} {ds : List (Deposit z)} {b' : BinBuffer} :
    d.sum b = .ok (.ok, cells) → Deposited { b with cells } ds b' → Deposited b (d :: ds) b'

/-- The samples of some calls. -/
def landings (ds : List (Deposit z)) : List Landing := ds.flatMap Deposit.landings

namespace Deposited

variable {b b' : BinBuffer} {ds : List (Deposit z)}

theorem exists_cells (done : Deposited b ds b') : ∃ cells, b' = { b with cells } := by
  induction done with
  | nil b => exact ⟨b.cells, rfl⟩
  | cons _ _ ih =>
    obtain ⟨cells, rfl⟩ := ih
    exact ⟨cells, rfl⟩

/-- The calls add to each count what they add one by one. -/
theorem countOfBin_eq (done : Deposited b ds b') (allotted : b.Allotted)
    (fits : ∀ d ∈ ds, d.Fits b) {i : Nat} (hi : i < b.bins) :
    b'.countOfBin i = (b.countOfBin i + timesIn i (landings ds)) % 2 ^ b.shape.format.width := by
  induction done with
  | nil b => exact (Nat.mod_eq_of_lt (b.countOfBin_lt i)).symm
  | @cons b d cells ds b' answered _ ih =>
    obtain ⟨allotted', counted⟩ := (fits d List.mem_cons_self).of_sum_eq_ok allotted answered
    have rest : ∀ d ∈ ds, d.Fits { b with cells } :=
      fun d hd => (fits d (List.mem_cons_of_mem _ hd)).with_cells cells
    rw [ih allotted' rest hi, counted i hi, Nat.mod_add_mod, Nat.add_assoc, ← timesIn_append]
    rfl

end Deposited

/-- Whether calls get through does not depend on what the buffer holds. -/
theorem exists_deposited_iff {b : BinBuffer} {ds : List (Deposit z)} (allotted : b.Allotted)
    (fits : ∀ d ∈ ds, d.Fits b) : (∃ b', Deposited b ds b') ↔ ∀ d ∈ ds, d.Grouped b := by
  induction ds generalizing b with
  | nil => exact ⟨fun _ => nofun, fun _ => ⟨b, .nil b⟩⟩
  | cons d ds ih =>
    have first := fits d List.mem_cons_self
    have rest : ∀ cells, d.sum b = .ok (.ok, cells) →
        ((∃ b', Deposited { b with cells } ds b') ↔ ∀ d ∈ ds, d.Grouped b) := by
      intro cells answered
      have later : ∀ d ∈ ds, d.Fits { b with cells } :=
        fun d hd => (fits d (List.mem_cons_of_mem _ hd)).with_cells cells
      rw [ih (first.of_sum_eq_ok allotted answered).1 later]
      simp only [Deposit.grouped_with_cells_iff]
    rw [List.forall_mem_cons]
    constructor
    · rintro ⟨b', done⟩
      cases done with
      | cons answered later =>
        exact ⟨Deposit.grouped_of_sum_eq_ok answered, (rest _ answered).1 ⟨b', later⟩⟩
    · rintro ⟨grouped, later⟩
      have answered := first.sum_eq allotted grouped
      obtain ⟨b', done⟩ := (rest _ answered).2 later
      exact ⟨b', .cons answered done⟩

theorem bin_lt_of_mem_landings {b : BinBuffer} {ds : List (Deposit z)}
    (fits : ∀ d ∈ ds, d.Fits b) : ∀ x ∈ landings ds, x.bin < b.bins := by
  intro x hx
  obtain ⟨d, hd, hx⟩ := List.mem_flatMap.1 hx
  exact (fits d hd).bin_lt x hx

namespace Deposited

variable {b b' b'' : BinBuffer} {ds ds' : List (Deposit z)} (allotted : b.Allotted)
  (fits : ∀ d ∈ ds, d.Fits b) (done : Deposited b ds b')

include allotted fits done

/-- Where no count overflows, the calls add exactly what occurs. -/
theorem countOfBin_exact {i : Nat} (hi : i < b.bins)
    (narrow : b.countOfBin i + timesIn i (landings ds) < 2 ^ b.shape.format.width) :
    b'.countOfBin i = b.countOfBin i + timesIn i (landings ds) :=
  (done.countOfBin_eq allotted fits hi).trans (Nat.mod_eq_of_lt narrow)

theorem totalCount_exact
    (narrow : ∀ i, i < b.bins →
      b.countOfBin i + timesIn i (landings ds) < 2 ^ b.shape.format.width)
    {total : Nat} (before : b.totalCount = .ok total)
    (small : total + timesOfAll (landings ds) < sizeBound) :
    b'.totalCount = .ok (total + timesOfAll (landings ds)) := by
  obtain ⟨sum, -⟩ := BinBuffer.totalCount_eq_ok_iff.1 before
  have grown : ((List.range b.bins).map b'.countOfBin).sum = total + timesOfAll (landings ds) := by
    have each : ∀ i ∈ List.range b.bins,
        b'.countOfBin i = b.countOfBin i + timesIn i (landings ds) := fun i hi =>
      done.countOfBin_exact allotted fits (List.mem_range.1 hi) (narrow i (List.mem_range.1 hi))
    rw [List.map_congr_left each, List.sum_map_add, sum,
      sum_timesIn (bin_lt_of_mem_landings fits)]
  obtain ⟨cells, rfl⟩ := done.exists_cells
  exact BinBuffer.totalCount_eq_ok_iff.2 ⟨grown, small⟩

/-- The order of the samples, and how calls share them, makes no difference to any count. -/
theorem countOfBin_of_perm (fits' : ∀ d ∈ ds', d.Fits b) (done' : Deposited b ds' b'')
    (same : (landings ds').Perm (landings ds)) {i : Nat} (hi : i < b.bins) :
    b''.countOfBin i = b'.countOfBin i := by
  rw [done'.countOfBin_eq allotted fits' hi, done.countOfBin_eq allotted fits hi,
    timesIn_of_perm same i]

end Deposited

/-- Calls with indexes that were packed for the zone answer `ok` just if their samples fill groups of
lanes, whichever of them have weights or occurrences. After calls that do, each bin's count has grown by
the occurrences of the samples with its index, and the sum of the counts by all occurrences, unless a
count leaves the width of its cell or the sum is no size. Another order of the samples leaves the same
counts, and the same sum. -/
theorem samples_conserved (z : Zone) (b : BinBuffer) (allotted : b.Allotted)
    (ds : List (Deposit z)) (fits : ∀ d ∈ ds, d.Fits b) :
    ((∃ b', Deposited b ds b') ↔ ∀ d ∈ ds, d.Grouped b) ∧
      ∀ b', Deposited b ds b' →
        ((∀ i t, b.bin i = .ok t →
            t.count + timesIn i (landings ds) < 2 ^ b.shape.format.width) →
          (∀ i t, b.bin i = .ok t → ∃ t', b'.bin i = .ok t' ∧
            t'.count = t.count + timesIn i (landings ds)) ∧
          ∀ total, b.totalCount = .ok total → total + timesOfAll (landings ds) < sizeBound →
            b'.totalCount = .ok (total + timesOfAll (landings ds))) ∧
        ∀ (ds' : List (Deposit z)) (b'' : BinBuffer), (∀ d ∈ ds', d.Fits b) →
          (landings ds').Perm (landings ds) → Deposited b ds' b'' →
            b''.totalCount = b'.totalCount ∧
              ∀ i, (b''.bin i).map (·.count) = (b'.bin i).map (·.count) := by
  refine ⟨exists_deposited_iff allotted fits, fun b' done => ⟨fun narrow => ⟨?_, ?_⟩, ?_⟩⟩
  · intro i t read
    obtain ⟨hi, rfl⟩ := BinBuffer.bin_eq_ok_iff.1 read
    have counted := done.countOfBin_exact allotted fits hi (narrow i _ read)
    obtain ⟨cells, rfl⟩ := done.exists_cells
    exact ⟨_, BinBuffer.bin_eq_ok_iff.2 ⟨hi, rfl⟩, counted⟩
  · intro total before small
    refine done.totalCount_exact allotted fits (fun i hi => ?_) before small
    exact narrow i _ (BinBuffer.bin_eq_ok_iff.2 ⟨hi, rfl⟩)
  · intro ds' b'' fits' same done'
    have counts : ∀ i, i < b.bins → b''.countOfBin i = b'.countOfBin i := fun i hi =>
      done.countOfBin_of_perm allotted fits fits' done' same hi
    obtain ⟨cells, rfl⟩ := done.exists_cells
    obtain ⟨cells', rfl⟩ := done'.exists_cells
    constructor
    · rw [BinBuffer.totalCount_eq, BinBuffer.totalCount_eq]
      exact congrArg _ (List.map_congr_left fun i hi => counts i (List.mem_range.1 hi))
    · intro i
      rw [BinBuffer.map_bin_count, BinBuffer.map_bin_count]
      by_cases hi : i < b.bins
      · rw [counts i hi]
      · simp only [hi, if_false]

/-- Four samples that share two bins, five indexes to a word. -/
def fourInTwo (counts : Option (Array (BitVec 8))) : Deposit .sse2 where
  indexes := #[0, 1, 1, 0]
  request := { fourSamples with
    items := 5
    packed := some (Pack.encode 32 5 4 #[0, 1, 1, 0])
    counts }
  start := 4096
  guarded := true

theorem fourInTwo_fits (counts : Option (Array (BitVec 8))) : (fourInTwo counts).Fits twoBins := by
  have inside : ∀ i ∈ #[0, 1, 1, 0], i < twoBins.bins := by decide
  have room : (4096 : BitVec 64).toNat + twoBins.span < 2 ^ 64 := by decide
  refine ⟨⟨_, rfl, ?_⟩, Nat.le_refl 4, inside, ⟨rfl, rfl, rfl⟩, room⟩
  exact @Pack.pack_of_packable #[0, 1, 1, 0] 5 4 4 (by decide) (by decide)
    ⟨by decide, by decide, by decide, by decide, by decide, by decide⟩

theorem eight_samples_conserved :
    let counted := fourInTwo (some #[1, 2, 3, 255])
    let uncounted := fourInTwo none
    ∃ b', Deposited twoBins [counted, uncounted] b' ∧ b'.totalCount = .ok 265 ∧
      (∃ t, b'.bin 1 = .ok t ∧ t.count = 7) ∧
        ∀ b'', Deposited twoBins [uncounted, counted] b'' → b''.totalCount = .ok 265 := by
  intro counted uncounted
  have allotted : twoBins.Allotted := @BinBuffer.make?_allotted twoBins.shape 2 twoBins (by decide)
  have fits : ∀ d ∈ [counted, uncounted], d.Fits twoBins := by
    simp [counted, uncounted, fourInTwo_fits]
  have grouped : ∀ d ∈ [counted, uncounted], d.Grouped twoBins := by
    have each : ∀ counts, (fourInTwo counts).Grouped twoBins := fun _ => ⟨⟨1, rfl⟩, nofun⟩
    simp [counted, uncounted, each]
  obtain ⟨answered_iff, conserved⟩ := samples_conserved .sse2 twoBins allotted _ fits
  obtain ⟨b', done⟩ := answered_iff.2 grouped
  obtain ⟨grown, permuted⟩ := conserved b' done
  have narrow : ∀ i, i < 2 →
      twoBins.countOfBin i + timesIn i (landings [counted, uncounted]) < 2 ^ 32 := by decide
  have within : ∀ i t, twoBins.bin i = .ok t →
      t.count + timesIn i (landings [counted, uncounted]) < 2 ^ 32 := by
    intro i t read
    obtain ⟨hi, rfl⟩ := BinBuffer.bin_eq_ok_iff.1 read
    exact narrow i hi
  obtain ⟨each, all⟩ := grown within
  have occurrences : 0 + timesOfAll (landings [counted, uncounted]) = 265 := by decide
  have total : b'.totalCount = .ok 265 :=
    (all 0 (by rfl) (by decide)).trans (congrArg Except.ok occurrences)
  obtain ⟨t, read, count⟩ := each 1 _ (BinBuffer.bin_eq_ok_iff.2 ⟨by decide, rfl⟩)
  have seven : twoBins.countOfBin 1 + timesIn 1 (landings [counted, uncounted]) = 7 := by decide
  refine ⟨b', done, total, ⟨t, read, count.trans seven⟩, fun b'' done' => ?_⟩
  have swapped := permuted [uncounted, counted] b'' (by simp [counted, uncounted, fourInTwo_fits])
    (by decide) done'
  rw [swapped.1, total]

end BinSums

end LaneBoost
