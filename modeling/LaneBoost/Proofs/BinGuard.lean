import LaneBoost.Proofs.KernelCalls
import LaneBoost.Proofs.TablePlaces

/-!
# The guard at the end of the bins

A sum that is told where its bins end compares the end of every bin with that before it touches the
bin. The number of the bin's first cell has to be a size, but addresses wrap around. So the guard stops
at every index that the buffer has no bin for, unless the bin would end beyond the last address and
its end comes round to one that is not behind the bins. Samples with any other index are added to the
bins that they name, and to nothing else.
-/
namespace LaneBoost.BinSums

/-! ### One index -/

/-- Where the bin of an index ends, if addresses go on behind the last one. -/
def binEnd (b : BinBuffer) (start : BitVec 64) (i : Nat) : Nat :=
  start.toNat + (i + 1) * b.shape.bytes

/-- The guard finds a bin that the buffer has, at its first cell, and stops at an index that the
buffer has no bin for. -/
structure Guards (b : BinBuffer) (start : BitVec 64) (i : Nat) : Prop where
  found : i < b.bins → (Target.over b start true).locate i = .ok (i * b.shape.slots)
  stopped : b.bins ≤ i → ∃ v, (Target.over b start true).locate i = .error v

/-- The bin of an index ends beyond the last address, and its end comes round to one that is not
behind the bins. -/
structure Slips (b : BinBuffer) (start : BitVec 64) (i : Nat) : Prop where
  cell_lt : i * b.shape.slots < sizeBound
  wraps : 2 ^ 64 ≤ binEnd b start i
  comes_round : binEnd b start i % 2 ^ 64 ≤ start.toNat + b.span

section Index

variable {b : BinBuffer} {start : BitVec 64} (room : start.toNat + b.span < 2 ^ 64) {i : Nat}

include room

theorem locate_guarded_eq_ok_iff {first : Nat} :
    (Target.over b start true).locate i = .ok first ↔
      i * b.shape.slots < sizeBound ∧ binEnd b start i % 2 ^ 64 ≤ start.toNat + b.span ∧
        first = i * b.shape.slots * b.shape.format.bytes % 2 ^ 64 / b.shape.format.bytes := by
  have finish : (start + BitVec.ofNat 64 b.span).toNat = start.toNat + b.span := by
    simp only [BitVec.toNat_add, BitVec.toNat_ofNat]
    omega
  have passes : (Target.over b start true).Passes i ↔
      binEnd b start i % 2 ^ 64 ≤ start.toNat + b.span := by
    rw [← finish]
    exact ⟨fun h => h _ rfl, fun h _ some => Option.some.inj some ▸ h⟩
  rw [Target.locate_eq_ok_iff, passes]
  rfl

/-- No bin of the buffer ends beyond the last address. -/
theorem Slips.bins_le (slips : Slips b start i) : b.bins ≤ i := by
  refine Nat.le_of_not_lt fun inside => ?_
  have ends : (i + 1) * b.shape.bytes ≤ b.span := by
    rw [Nat.mul_comm]
    exact Nat.mul_le_mul_left b.shape.bytes inside
  have wraps := slips.wraps
  rw [binEnd] at wraps
  omega

theorem guards_iff (allotted : b.Allotted) : Guards b start i ↔ ¬ Slips b start i := by
  constructor
  · intro guards slips
    obtain ⟨v, stopped⟩ := guards.stopped (slips.bins_le room)
    have passed := (locate_guarded_eq_ok_iff room).2 ⟨slips.cell_lt, slips.comes_round, rfl⟩
    exact nomatch stopped.symm.trans passed
  · intro honest
    refine ⟨locate_over allotted room true, fun beyond => ?_⟩
    cases located : (Target.over b start true).locate i with
    | error v => exact ⟨v, rfl⟩
    | ok first =>
      obtain ⟨cell_lt, comes_round, -⟩ := (locate_guarded_eq_ok_iff room).1 located
      -- The end has not wrapped around, so it is the exact one, and it is not behind the bins.
      have below : binEnd b start i < 2 ^ 64 :=
        Nat.lt_of_not_le fun wraps => honest ⟨cell_lt, wraps, comes_round⟩
      rw [Nat.mod_eq_of_lt below, binEnd] at comes_round
      have bytes_pos : 0 < b.shape.bytes :=
        Nat.lt_of_lt_of_le (by rw [BinShape.slots]; omega) b.shape.slots_le_bytes
      have ends : b.shape.bytes * (i + 1) ≤ b.shape.bytes * b.bins := by
        rw [Nat.mul_comm]
        exact Nat.le_of_add_le_add_left comes_round
      have inside : i < b.bins := Nat.le_of_mul_le_mul_left ends bytes_pos
      omega

omit room in
/-- An index that the guard lets through is that of a bin. -/
theorem Guards.index_lt (guards : Guards b start i)
    (located : ∃ first, (Target.over b start true).locate i = .ok first) : i < b.bins := by
  refine Nat.lt_of_not_le fun beyond => ?_
  obtain ⟨first, passed⟩ := located
  obtain ⟨v, stopped⟩ := guards.stopped beyond
  exact nomatch passed.symm.trans stopped

end Index

/-- Half of the addresses have room for every bin that a narrow word names, as long as bins are not
larger than half of what such a word counts. -/
theorem not_slips_of_narrow {b : BinBuffer} {start : BitVec 64} (low : start.toNat < 2 ^ 63)
    (small : b.shape.bytes ≤ 2 ^ 31) {i : Nat} (narrow : i < 2 ^ 32) : ¬ Slips b start i := by
  intro slips
  have ends : (i + 1) * b.shape.bytes ≤ 2 ^ 32 * 2 ^ 31 := Nat.mul_le_mul narrow small
  have wraps := slips.wraps
  rw [binEnd] at wraps
  omega

/-! ### One call -/

section Calls

variable {F : Type} [Arithmetic F]

/-- All that a sum can answer for bins of a buffer: it is turned down and leaves the cells alone, or
every sample names a bin and is added to that bin, and the other bins keep what they hold. -/
def Confined {w lanes : Nat} (m : Machine F w lanes) (r : Request F)
    (counts : Option (Array (BitVec 8))) (bin : Nat → Nat) (b : BinBuffer)
    (answer : Checked (Status × Cells)) : Prop :=
  ∀ status cells, answer = .ok (status, cells) →
    status ≠ .ok ∧ cells = b.cells ∨
      status = .ok ∧ (∀ s, s < r.samples → bin s < b.bins) ∧
        cells = inSampleOrder m r counts bin b.shape.slots b.cells ∧
        ∀ slot, (∀ s, s < r.samples → bin s ≠ slot / b.shape.slots) →
          cells.peek w slot = b.cells.peek w slot

theorem exists_locate_of_step {w lanes : Nat} {m : Machine F w lanes} {r : Request F}
    {counts : Option (Array (BitVec 8))} {target : Target} {stride group : Nat}
    {indexes : Lanes (BitVec w) lanes} {cells cells' : Cells}
    (done : step m r counts target stride indexes group cells = .ok cells') (l : Fin lanes) :
    ∃ first, target.locate (indexes.get l).toNat = .ok first := by
  rw [step] at done
  cases located : indexes.traverse fun i => target.locate i.toNat with
  | error v => rw [located] at done; cases done
  | ok firsts => exact ⟨firsts.get l, (Lanes.traverse_eq_ok _ _ _).1 located l⟩

variable {φ : Format} {lanes : Nat} {m : Machine F φ.width lanes} {b : BinBuffer}
  {start : BitVec 64}

/-- A loop that ends has found the bins of all samples. -/
theorem index_lt_of_walked {r : Request F} {counts : Option (Array (BitVec 8))} {stride : Nat}
    (whole : lanes ∣ r.samples) {bin : Nat → Nat} {indexes : Nat → Lanes (BitVec φ.width) lanes}
    (indexes_eq : ∀ g (l : Fin lanes), ((indexes g).get l).toNat = bin (g * lanes + l.val))
    (guards : ∀ s, s < r.samples → Guards b start (bin s)) {cells cells' : Cells}
    (walked : (List.range (r.samples / lanes)).foldlM
      (fun cells g => step m r counts (Target.over b start true) stride (indexes g) g cells)
      cells = .ok cells')
    {s : Nat} (hs : s < r.samples) : bin s < b.bins := by
  obtain ⟨g, hg, l, rfl⟩ := exists_lane whole hs
  obtain ⟨before, after, done⟩ := exists_step_of_foldlM_range walked hg
  have located := exists_locate_of_step done l
  rw [indexes_eq] at located
  exact (guards _ hs).index_lt located

/-- A call that is turned down, or else adds its samples to the bins that they name, is confined. -/
theorem confined_of_accepted {r : Request F} {counts : Option (Array (BitVec 8))} {bin : Nat → Nat}
    (serves : Serves b φ r) {refusal : Option Status} (refused_not_ok : refusal ≠ some .ok)
    {effect : Checked Cells}
    (done : refusal = none → ∀ cells, effect = .ok cells →
      (∀ s, s < r.samples → bin s < b.bins) ∧
        cells = inSampleOrder m r counts bin b.shape.slots b.cells) :
    Confined m r counts bin b (unlessRefused refusal b.cells effect) := by
  intro status cells answered
  cases refusal with
  | some status' =>
    cases answered
    exact .inl ⟨fun ok => refused_not_ok (congrArg some ok), rfl⟩
  | none =>
    cases effect with
    | error v => cases answered
    | ok left =>
      cases answered
      obtain ⟨inside, rfl⟩ := done rfl cells rfl
      exact .inr ⟨rfl, inside, rfl,
        fun slot free => peek_inSampleOrder m r counts bin serves.slots_eq b.cells slot free⟩

variable (few_lanes : lanes ≤ φ.bytes * 2) (allotted : b.Allotted)
  (room : start.toNat + b.span < 2 ^ 64)

include few_lanes allotted room

theorem boosting_confined {r : Boosting F φ.width} (serves : Serves b φ r.toRequest)
    (guards : ∀ s, s < r.samples → Guards b start (r.binOf lanes s)) :
    Confined m r.toRequest r.counts (r.binOf lanes) b
      (boosting m (Span.over b start true) r b.cells) := by
  have checked := boosting_eq_unlessRefused m (Span.over b start true) b.cells r
  have target := serves.target_eq start true
  rw [checked]
  refine confined_of_accepted serves (r.refusal?_ne_ok lanes) fun accepted cells done => ?_
  have whole := Boosting.dvd_of_accepted accepted
  obtain ⟨⟨-, readable, stride⟩, looped⟩ := Boosting.effect_eq_ok_iff.1 done
  rw [← target, Boosting.loop_paced] at looped
  have inside : ∀ s, s < r.samples → r.binOf lanes s < b.bins := fun s hs =>
    index_lt_of_walked whole (fun g l => by rw [Pack.Reader.get_indexesOf]; rfl) guards looped hs
  have summed := boosting_over (m := m) few_lanes serves allotted room true (fun _ => stride)
    whole readable inside
  exact ⟨inside, Except.ok.inj (done.symm.trans (effect_eq_ok accepted (checked.symm.trans summed)))⟩

theorem interaction_confined {r : Interaction F φ.width} {ds : List Nat}
    (serves : Serves b φ r.toRequest) (walked : distances (r.used.map (·.bins)) = .ok ds)
    (guards : ∀ s, s < r.samples → Guards b start (r.placeOf ds lanes s).toNat) :
    Confined m r.toRequest none (fun s => (r.placeOf ds lanes s).toNat) b
      (interaction m (Span.over b start true) r b.cells) := by
  have checked := interaction_eq_unlessRefused m (Span.over b start true) b.cells r
  have target := serves.target_eq start true
  rw [checked]
  refine confined_of_accepted serves (r.refusal?_ne_ok lanes) fun accepted cells done => ?_
  obtain ⟨whole, some_features, few_features⟩ := Interaction.of_accepted accepted
  obtain ⟨⟨-, readable, stride⟩, looped⟩ := (Interaction.effect_eq_ok_iff walked).1 done
  let places : Nat → Lanes (BitVec φ.width) lanes := fun g =>
    Lanes.ofFn fun l => r.placeOf ds lanes (g * lanes + l.val)
  have places_eq : ∀ g (l : Fin lanes),
      (places g).get l = r.placeOf ds lanes (g * lanes + l.val) := fun g l => Lanes.get_ofFn _ l
  rw [← target, r.loop_paced m ds _ _ places fun g _ => places_eq g] at looped
  have inside : ∀ s, s < r.samples → (r.placeOf ds lanes s).toNat < b.bins := fun _ hs =>
    index_lt_of_walked whole (fun g l => congrArg BitVec.toNat (places_eq g l)) guards looped hs
  have summed := interaction_over (m := m) few_lanes serves allotted room true (fun _ => stride)
    whole some_features few_features readable walked inside
  exact ⟨inside, Except.ok.inj (done.symm.trans (effect_eq_ok accepted (checked.symm.trans summed)))⟩

end Calls

/-! ### The guard of a zone -/

/-- In every zone, the guard at the end of a buffer finds the bins of the buffer and stops at all other
indexes, except those whose bin ends beyond the last address and comes round to an address that is not
behind the bins. A call whose samples have no such index is turned down and changes nothing, breaks
off, or adds each of its samples to the bin that it names and changes no other. Indexes of 32 bits never
come round to a buffer of small bins among the lower addresses. -/
theorem zone_guard_stops (z : Zone) (b : BinBuffer) (allotted : b.Allotted) (start : BitVec 64)
    (room : start.toNat + b.span < 2 ^ 64) :
    (∀ i : BitVec z.width, Guards b start i.toNat ↔ ¬ Slips b start i.toNat) ∧
      (∀ r : Boosting z.Number z.width, Serves b z.format r.toRequest →
        (∀ s, s < r.samples → ¬ Slips b start (r.binOf z.lanes s)) →
          Confined z.machine r.toRequest r.counts (r.binOf z.lanes) b
            (boosting z.machine (Span.over b start true) r b.cells)) ∧
      (∀ (r : Interaction z.Number z.width) (ds : List Nat), Serves b z.format r.toRequest →
        distances (r.used.map (·.bins)) = .ok ds →
        (∀ s, s < r.samples → ¬ Slips b start (r.placeOf ds z.lanes s).toNat) →
          Confined z.machine r.toRequest none (fun s => (r.placeOf ds z.lanes s).toNat) b
            (interaction z.machine (Span.over b start true) r b.cells)) ∧
      (z.width = 32 → start.toNat < 2 ^ 63 → b.shape.bytes ≤ 2 ^ 31 →
        ∀ i : BitVec z.width, ¬ Slips b start i.toNat) := by
  refine ⟨fun i => guards_iff room allotted, fun r serves honest => ?_,
    fun r ds serves walked honest => ?_, fun narrow low small i => ?_⟩
  · exact boosting_confined (few_lanes z) allotted room serves fun s hs =>
      (guards_iff room allotted).2 (honest s hs)
  · exact interaction_confined (few_lanes z) allotted room serves walked fun s hs =>
      (guards_iff room allotted).2 (honest s hs)
  · exact not_slips_of_narrow low small (narrow ▸ i.isLt)

theorem four_samples_confined :
    (∃ v, (Target.over twoBins 4096 true).locate 2 = .error v) ∧
      Confined Zone.sse2.machine fourSamples.toRequest fourSamples.counts (fourSamples.binOf 4)
        twoBins (boosting Zone.sse2.machine (Span.over twoBins 4096 true) fourSamples
          twoBins.cells) := by
  have allotted : twoBins.Allotted := @BinBuffer.make?_allotted twoBins.shape 2 twoBins (by decide)
  obtain ⟨guarded, confined, -, narrow⟩ :=
    zone_guard_stops .sse2 twoBins allotted 4096 (by decide)
  have honest := narrow rfl (by decide) (by decide)
  exact ⟨((guarded 2).2 (honest 2)).stopped (by decide),
    confined fourSamples ⟨rfl, rfl, rfl⟩ fun s _ => honest (Pack.indexAt _ _ _ s)⟩

/-- One new bin of three words: its count, its weight and one gradient. -/
def oneBin : BinBuffer where
  shape := ⟨1, false, true, Nat.one_pos⟩
  bins := 1
  cells := Cells.ofBytes 24

/-- A sample of the bin with the number `2 ^ 61`. As a bin has `3 * 8` bytes, the address of that one
is the start of the buffer. -/
def farSample : Boosting Zone.cpu64.Number Zone.cpu64.width where
  samples := 1
  gradients := #[1]
  items := 1
  packed := some #[0x2000000000000000]

/-- The guard lets the sample through, and the only bin of the buffer counts it. -/
theorem far_sample_taken_for_first_bin :
    oneBin.bins ≤ farSample.binOf 1 0 ∧
      (Target.over oneBin 4096 true).locate (farSample.binOf 1 0) = .ok 0 ∧
      (boosting Zone.cpu64.machine (Span.over oneBin 4096 true) farSample oneBin.cells).map
        (fun (status, cells) => (status, cells.peek 64 0)) = .ok (.ok, 1) := by
  decide +kernel

end LaneBoost.BinSums
