import LaneBoost.Proofs.KernelCalls

/-!
# Sums of a session

A session does not leave it to the guard of its bins to stop a sum. It draws the indexes of all samples
first, and makes the call only if it has a bin for each of them. So a sum that a session answers with
`ok` has added every sample to the bin that it names.
-/
namespace LaneBoost

theorem exists_of_bind_eq_ok {ε α β : Type} {x : Except ε α} {f : α → Except ε β} {b : β}
    (done : x >>= f = .ok b) : ∃ a, x = .ok a ∧ f a = .ok b := by
  cases x with
  | error e => cases done
  | ok a => exact ⟨a, rfl, done⟩

theorem Lanes.get_mem_toList {α : Type} {n : Nat} (v : Lanes α n) (l : Fin n) :
    v.get l ∈ v.toList :=
  Vector.mem_toList_iff.2 (Vector.getElem_mem l.isLt)

/-! ### Entry points that answer `ok` -/

namespace EntryPoint

variable {z : Zone} {h : Option Handle} {span : BinSums.Span} {cells cells' : Cells}

theorem of_sumBins {r : Option (BinSums.Boosting z.Number z.width)}
    (done : sumBins z h span r cells = .ok (.ok, cells')) :
    ∃ o r', Handle.serve z.dimensions h = .ok (some o) ∧ r = some r' ∧
      BinSums.boosting z.machine span r' cells = .ok (.ok, cells') := by
  obtain ⟨held, served, done⟩ := exists_of_bind_eq_ok done
  rcases held with _ | o
  · cases done
  · rcases r with _ | r
    · cases done
    · exact ⟨o, r, served, rfl, done⟩

theorem of_sumInteraction {r : Option (BinSums.Interaction z.Number z.width)}
    (done : sumInteraction z h span r cells = .ok (.ok, cells')) :
    ∃ o r', Handle.serve z.dimensions h = .ok (some o) ∧ r = some r' ∧
      BinSums.interaction z.machine span r' cells = .ok (.ok, cells') := by
  obtain ⟨held, served, done⟩ := exists_of_bind_eq_ok done
  rcases held with _ | o
  · cases done
  · rcases r with _ | r
    · cases done
    · exact ⟨o, r, served, rfl, done⟩

end EntryPoint

/-- A sum over several features that gets through has measured its table. -/
theorem BinSums.Interaction.exists_distances {F : Type} [Arithmetic F] {w lanes : Nat}
    {m : Machine F w lanes} {span : Span} {cells cells' : Cells} (r : Interaction F w)
    (done : r.effect m span cells = .ok cells') :
    ∃ ds, distances (r.used.map (·.bins)) = .ok ds := by
  obtain ⟨_, -, done⟩ := exists_of_bind_eq_ok done
  obtain ⟨_, made, -⟩ := exists_of_bind_eq_ok done
  rw [axes_eq_ite] at made
  split_ifs at made
  obtain ⟨ds, walked, -⟩ := exists_of_bind_eq_ok made
  exact ⟨ds, walked⟩

namespace Session

open BinSums

/-! ### Indexes that are drawn -/

/-- From a source whose state after every group is known, the indexes of all groups are drawn. -/
theorem mem_drawn {w lanes : Nat} {σ : Type} {next : σ → Lanes (BitVec w) lanes × σ}
    {after : Nat → σ} {indexes : Nat → Lanes (BitVec w) lanes}
    (walk : ∀ g, next (after g) = (indexes g, after (g + 1))) {groups g : Nat} (hg : g < groups)
    (first : Nat) (l : Fin lanes) :
    (indexes (first + g)).get l ∈ drawn next groups (after first) := by
  induction groups generalizing first g with
  | zero => exact absurd hg (Nat.not_lt_zero g)
  | succ groups ih =>
    rw [drawn, walk, List.mem_append]
    cases g with
    | zero => exact .inl (Lanes.get_mem_toList _ l)
    | succ g =>
      rw [← Nat.succ_add_eq_add_succ]
      exact .inr (ih (Nat.lt_of_succ_lt_succ hg) (first + 1))

variable {z : Zone}

/-- An accepted call whose indexes can be read names the bins of all its samples. -/
theorem indexAt_mem_namedBins {r : Boosting z.Number z.width}
    (accepted : r.refusal? z.lanes = none) (readable : Pack.Readable r.items r.packed) {i : Nat}
    (hi : i < r.samples) : Pack.indexAt r.items r.packed z.lanes i ∈ namedBins r := by
  obtain ⟨g, hg, l, rfl⟩ := exists_lane (Boosting.dvd_of_accepted accepted) hi
  simp only [Boosting.refusal?, Nat.dvd_iff_mod_eq_zero] at accepted
  split_ifs at accepted with refused
  have drawn := mem_drawn (fun g => @Pack.Reader.next_after _ _ r.items r.packed g) hg 0 l
  rw [Nat.zero_add, Pack.Reader.get_indexesOf] at drawn
  simpa only [namedBins, if_neg refused, Pack.Reader.make_eq_ite, if_pos readable] using drawn

/-- A call for several features names the places of all its samples. -/
theorem placeOf_mem_namedPlaces {r : Interaction z.Number z.width}
    (accepted : r.refusal? z.lanes = none)
    (readable : ∀ f ∈ r.used, Pack.Readable f.items f.packed) {ds : List Nat}
    (walked : distances (r.used.map (·.bins)) = .ok ds) {i : Nat} (hi : i < r.samples) :
    r.placeOf ds z.lanes i ∈ namedPlaces r := by
  obtain ⟨g, hg, l, rfl⟩ := exists_lane (Interaction.of_accepted accepted).1 hi
  simp only [Interaction.refusal?, Nat.dvd_iff_mod_eq_zero] at accepted
  split_ifs at accepted with refused
  have drawn := mem_drawn (r.place_after ds) hg 0 l
  rw [Nat.zero_add, Lanes.get_ofFn] at drawn
  simpa only [namedPlaces, if_neg refused, Interaction.axes_eq readable walked] using drawn

theorem lt_of_not_lacks {s : Session z} {b : BinBuffer} (held : s.bins = some b)
    {named : List (BitVec z.width)} (enough : s.lacks named = false) {i : BitVec z.width}
    (hi : i ∈ named) : i.toNat < b.bins := by
  rw [lacks, held, List.any_eq_false] at enough
  simpa using enough i hi

/-! ### Sums that are answered -/

theorem complete_of_serve {s : Session z} {a : Absent} {o : Objective}
    (served : Handle.serve z.dimensions (s.passed a) = .ok (some o)) (request : a.request = false) :
    s.complete a = true := by
  rw [passed] at served
  split_ifs at served with absent
  · cases served
  · simp only [Handle.serve] at served
    split_ifs at served with other table
    · simp [complete, table, absent, request]
    · cases served

/-- A sum that is answered with `ok` is one that the session has the bins for, and its kernel has
answered so. -/
theorem of_summing {R : Type} {s s' : Session z} {a : Absent} {entry : Handle → Option Entry}
    {named : List (BitVec z.width)} {r : R} {totals : Option (List BinTotals)}
    (point : Option Handle → Span → Option R → Cells → Checked (Status × Cells))
    (kernel : Span → R → Cells → Checked (Status × Cells))
    (reaches : ∀ {h span r cells cells'}, point h span r cells = .ok (.ok, cells') →
      ∃ o r', Handle.serve z.dimensions h = .ok (some o) ∧ r = some r' ∧
        kernel span r' cells = .ok (.ok, cells'))
    (answered : s.calling entry (s.summing (s.complete a && s.lacks named) fun span cells =>
      point (s.passed a) span (if a.request then none else some r) cells) =
        .ok (.bins .ok totals, s')) :
    s.lacks named = false ∧ ∃ cells, kernel s.binMemory.1 r s.binMemory.2 = .ok (.ok, cells) ∧
      s'.bins = s.bins.map fun b => { b with cells } := by
  rw [calling] at answered
  by_cases listed : (entry s.owner.held).isSome = true
  · rw [if_pos listed] at answered
    cases lacking : s.complete a && s.lacks named with
    | true =>
      rw [lacking] at answered
      cases answered
    | false =>
      let given := if a.request then none else some r
      rw [lacking] at answered
      cases made : point (s.passed a) s.binMemory.1 given s.binMemory.2 with
      | error v =>
        simp only [summing, given, made] at answered
        cases answered
      | ok left =>
        obtain ⟨status, cells⟩ := left
        simp only [summing, given, made] at answered
        cases answered
        obtain ⟨o, r', served, request, summed⟩ := reaches made
        cases absent : a.request with
        | true => simp [given, absent] at request
        | false =>
          obtain rfl : r = r' := by simpa [given, absent] using request
          rw [complete_of_serve served absent, Bool.true_and] at lacking
          exact ⟨lacking, cells, summed, rfl⟩
  · rw [if_neg listed] at answered
    cases answered

theorem room_of_allotted {b : BinBuffer} (allotted : b.Allotted) :
    binsAt.toNat + b.span < 2 ^ 64 := by
  have span := allotted.span_lt_storageBound
  have bound : BinBuffer.storageBound = 2 ^ 63 := by decide
  have start : binsAt.toNat = 4096 := rfl
  omega

section Answered

variable {s s' : Session z} {b : BinBuffer} (held : s.bins = some b) (allotted : b.Allotted)
  {totals : Option (List BinTotals)}

include held

theorem binMemory_eq : s.binMemory = (Span.over b binsAt true, b.cells) := by
  rw [binMemory, held]
  rfl

include allotted

/-- A sum over one feature that a session answers with `ok` has found the bins of all its samples, and
leaves the bins that one gets by adding one sample after the other. -/
theorem of_sumBins {u : SumStep z} (serves : Serves b z.format u.request.toRequest)
    (answered : s.sumBins u = .ok (.bins .ok totals, s')) :
    ∃ packed, u.indexes.resolve z u.request.items = .ok packed ∧
      let r := s.sumRequest u packed
      (∀ i, i < r.samples → r.binOf z.lanes i < b.bins) ∧
        s'.bins = some { b with
          cells := inSampleOrder z.machine r.toRequest r.counts (r.binOf z.lanes) b.shape.slots
            b.cells } := by
  obtain ⟨packed, resolved, answered⟩ := exists_of_bind_eq_ok answered
  refine ⟨packed, resolved, ?_⟩
  intro r
  obtain ⟨enough, cells, summed, left⟩ := of_summing (EntryPoint.sumBins z) (boosting z.machine)
    EntryPoint.of_sumBins answered
  rw [binMemory_eq held] at summed
  obtain ⟨accepted, done⟩ := of_unlessRefused (r.refusal?_ne_ok z.lanes)
    ((boosting_eq_unlessRefused _ _ _ _).symm.trans summed)
  obtain ⟨⟨-, readable, stride⟩, -⟩ := Boosting.effect_eq_ok_iff.1 done
  have inside : ∀ i, i < r.samples → r.binOf z.lanes i < b.bins := fun i hi =>
    lt_of_not_lacks held enough (indexAt_mem_namedBins accepted readable hi)
  have serves' : Serves b z.format r.toRequest :=
    ⟨serves.format_eq, serves.scores_eq, serves.hessian_eq⟩
  have in_order := boosting_over (m := z.machine) (few_lanes z) serves' allotted
    (room_of_allotted allotted) true (fun _ => stride) (Boosting.dvd_of_accepted accepted) readable
    inside
  obtain ⟨-, cells_eq⟩ := Prod.mk.inj (Except.ok.inj (summed.symm.trans in_order))
  refine ⟨inside, ?_⟩
  rw [left, held, cells_eq]
  rfl

-- The bin `2 ^ 61` of three words has the address of the first bin, so the guard would let it through.
example :
    let s : Session .cpu64 := {
      owner := .handle (Handle.cleared.install Zone.cpu64.dimensions .squaredError)
      bins := some ⟨⟨1, false, true, Nat.one_pos⟩, 1, Cells.ofBytes 24⟩ }
    let u : SumStep .cpu64 := {
      absent := {}
      request := { samples := 1, items := 1 }
      indexes := .words #[0x2000000000000000]
      gradients := .given #[1] }
    s.sumBins u = .ok (.noBins, s) := rfl

/-- A sum over several features that a session answers with `ok` has found the places of all its
samples among the bins, and has added each sample at its place. -/
theorem of_sumInteraction {u : InteractionStep z} (serves : Serves b z.format u.request)
    (answered : s.sumInteraction u = .ok (.bins .ok totals, s')) :
    ∃ features ds, resolveFeatures u.features = .ok features ∧
      let r := s.interactionRequest u features
      distances (r.used.map (·.bins)) = .ok ds ∧
        (∀ i, i < r.samples → (r.placeOf ds z.lanes i).toNat < b.bins) ∧
        s'.bins = some { b with
          cells := inSampleOrder z.machine r.toRequest none
            (fun i => (r.placeOf ds z.lanes i).toNat) b.shape.slots b.cells } := by
  obtain ⟨features, resolved, answered⟩ := exists_of_bind_eq_ok answered
  let r := s.interactionRequest u features
  obtain ⟨enough, cells, summed, left⟩ := of_summing (EntryPoint.sumInteraction z)
    (interaction z.machine) EntryPoint.of_sumInteraction answered
  rw [binMemory_eq held] at summed
  obtain ⟨accepted, done⟩ := of_unlessRefused (r.refusal?_ne_ok z.lanes)
    ((interaction_eq_unlessRefused _ _ _ _).symm.trans summed)
  obtain ⟨ds, walked⟩ := r.exists_distances done
  obtain ⟨⟨-, readable, stride⟩, -⟩ := (Interaction.effect_eq_ok_iff walked).1 done
  obtain ⟨whole, some_features, few_features⟩ := Interaction.of_accepted accepted
  have inside : ∀ i, i < r.samples → (r.placeOf ds z.lanes i).toNat < b.bins := fun i hi =>
    lt_of_not_lacks held enough (placeOf_mem_namedPlaces accepted readable walked hi)
  have serves' : Serves b z.format r.toRequest :=
    ⟨serves.format_eq, serves.scores_eq, serves.hessian_eq⟩
  have in_order := interaction_over (m := z.machine) (few_lanes z) serves' allotted
    (room_of_allotted allotted) true (fun _ => stride) whole some_features few_features readable
    walked inside
  obtain ⟨-, cells_eq⟩ := Prod.mk.inj (Except.ok.inj (summed.symm.trans in_order))
  refine ⟨features, ds, resolved, walked, inside, ?_⟩
  rw [left, held, cells_eq]
  rfl

end Answered

end Session

end LaneBoost
