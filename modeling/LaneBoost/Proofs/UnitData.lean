import LaneBoost.Proofs.Representation
import LaneBoost.Proofs.TablePlaces
import LaneBoost.Proofs.UpdateSlots
import LaneBoost.Proofs.KernelCalls

/-!
# Weights and counts of one

A kernel takes another path where samples have weights, and another one where they are counted. The
paths end alike where every weight is one and every sample occurs once: a product with one differs
from the other factor at most as one NaN differs from another, and no sum can tell these apart.
-/
namespace LaneBoost

variable {F : Type} [Arithmetic F] {w lanes : Nat}

/-! ### Unit data -/

/-- What the paths need in order to agree. -/
structure Machine.UnitLaws (m : Machine F w lanes) : Prop where
  /-- A sum takes a product with one for the other factor. -/
  add_mul_one : ∀ a x : F, a + x * 1 = a + x
  /-- The weight of a sample that occurs once. -/
  narrow_one : m.narrow (Binary.ofNat (BitVec.ofNat w 1).toNat) = 1

/-- No data, or data with one value for each of the first samples. -/
def Uniform {α : Type} (x : α) (samples : Nat) (data : Option (Array α)) : Prop :=
  ∀ a ∈ data, ∀ s, s < samples → a[s]? = some x

namespace Uniform

theorem none {α : Type} (x : α) (samples : Nat) : Uniform x samples .none := by
  rintro a ⟨⟩

variable {samples g : Nat} (whole : lanes ∣ samples) (hg : g < samples / lanes)

include whole hg

/-- A lane group sees the value in every lane. -/
theorem load_eq {α : Type} [Zero α] {x : α} {data : Option (Array α)}
    (uniform : Uniform x samples data) {a : Array α} (given : a ∈ data) :
    (Lanes.load a (g * lanes) : Lanes α lanes) = Lanes.splat x := by
  ext l
  rw [Lanes.get_load, Lanes.get_splat, Array.getD_eq_getD_getElem?,
    uniform a given _ (lane_lt_samples whole hg l), Option.getD_some]

theorem weights_eq {weights : Option (Array F)} (uniform : Uniform 1 samples weights) :
    ∀ x ∈ weights.map fun ws => (Lanes.load ws (g * lanes) : Lanes F lanes), x = Lanes.splat 1 := by
  intro x loaded
  obtain ⟨ws, given, rfl⟩ := Option.mem_map.1 loaded
  exact uniform.load_eq whole hg given

theorem counts_eq {counts : Option (Array (BitVec 8))} (uniform : Uniform 1 samples counts) :
    ∀ c ∈ counts.map fun cs => (Lanes.loadBytes cs (g * lanes) : Lanes (BitVec w) lanes),
      c = Lanes.splat (BitVec.ofNat w 1) := by
  intro c loaded
  obtain ⟨cs, given, rfl⟩ := Option.mem_map.1 loaded
  refine Lanes.ext fun l => ?_
  rw [Lanes.loadBytes, uniform.load_eq whole hg given, Lanes.get_map, Lanes.get_splat,
    Lanes.get_splat]
  apply BitVec.eq_of_toNat_eq
  rw [BitVec.toNat_setWidth, BitVec.toNat_ofNat]
  rfl

end Uniform

/-! ### Sums -/

namespace BinSums

variable {m : Machine F w lanes} (laws : m.UnitLaws)

include laws

theorem addNumber_mul_one (cells : Cells) (slot : Nat) (x : F) :
    addNumber m cells slot (x * 1) = addNumber m cells slot x := by
  rw [addNumber, addNumber, laws.add_mul_one]

theorem addScore_mul_one (cells : Cells) (slot : Nat) (gradient : F) (hessian : Option F) :
    addScore m cells slot (gradient * 1) (hessian.map (· * 1)) =
      addScore m cells slot gradient hessian := by
  cases hessian with
  | none => exact addNumber_mul_one laws cells slot gradient
  | some h =>
    simp only [addScore, Option.map_some]
    rw [addNumber_mul_one laws, addNumber_mul_one laws]

/-- A sample of weight one that occurs once has the same share whichever of the two is given. -/
theorem addSample_unit (cells : Cells) (first : Nat) {weight : Option F}
    {count : Option (BitVec w)} (weighs : ∀ x ∈ weight, x = 1)
    (occurs : ∀ c ∈ count, c = BitVec.ofNat w 1) :
    addSample m cells first weight count = addSample m cells first none none := by
  have counted : count.getD (BitVec.ofNat w 1) = BitVec.ofNat w 1 := by
    cases count with
    | none => rfl
    | some c => exact occurs c rfl
  -- A weight comes before a count, and a count before the constant.
  have weighed : sampleWeight m weight count = 1 := by
    match weight, count with
    | some x, _ => exact weighs x rfl
    | none, some c =>
      rw [occurs c rfl]
      exact laws.narrow_one
    | none, none => rfl
  rw [addSample, addSample, counted, weighed]
  rfl

/-- A vector times the weights one differs in no sum from the vector. -/
theorem addScores_unit (r : Request F) (start : Nat) (firsts : Lanes Nat lanes)
    {weight : Option (Lanes F lanes)} (weighs : ∀ x ∈ weight, x = Lanes.splat 1) (cells : Cells)
    (k : Nat) :
    addScores m r start firsts weight cells k = addScores m r start firsts none cells k := by
  cases weight with
  | none => rfl
  | some x =>
    obtain rfl := weighs x rfl
    refine congrArg (Fin.foldl lanes · cells) (funext₂ fun cells l => ?_)
    refine Eq.trans ?_ (addScore_mul_one laws _ _ _ _)
    cases r.hessian <;> simp [weighted]

theorem addGroup_unit (r : Request F) (start : Nat) (firsts : Lanes Nat lanes)
    {weight : Option (Lanes F lanes)} {count : Option (Lanes (BitVec w) lanes)}
    (weighs : ∀ x ∈ weight, x = Lanes.splat 1)
    (occurs : ∀ c ∈ count, c = Lanes.splat (BitVec.ofNat w 1)) (cells : Cells) :
    addGroup m r start firsts weight count cells = addGroup m r start firsts none none cells := by
  have heads : ∀ (cells : Cells) (l : Fin lanes),
      addSample m cells (firsts.get l) (weight.map fun x => x.get l) (count.map fun c => c.get l) =
        addSample m cells (firsts.get l) none none := by
    intro cells l
    refine addSample_unit laws cells _ ?_ ?_
    · intro x taken
      obtain ⟨v, given, rfl⟩ := Option.mem_map.1 taken
      rw [weighs v given, Lanes.get_splat]
    · intro c taken
      obtain ⟨v, given, rfl⟩ := Option.mem_map.1 taken
      rw [occurs v given, Lanes.get_splat]
  simp only [addGroup, heads, Option.map_none]
  exact foldl_range_congr _ _ _ _ fun k cells _ => addScores_unit laws r start firsts weighs cells k

theorem step_unit {r : Request F} {ws : Option (Array F)} {cs : Option (Array (BitVec 8))}
    (weights : Uniform 1 r.samples ws) (counts : Uniform 1 r.samples cs)
    (whole : lanes ∣ r.samples) {g : Nat} (hg : g < r.samples / lanes) (target : Target)
    (stride : Nat) (indexes : Lanes (BitVec w) lanes) (cells : Cells) :
    step m { r with weights := ws } cs target stride indexes g cells =
      step m { r with weights := none } none target stride indexes g cells :=
  bind_congr fun firsts => congrArg pure <|
    addGroup_unit laws r (g * stride) firsts (weights.weights_eq whole hg)
      (counts.counts_eq whole hg) cells

section Boosting

variable {r : Boosting F w} {ws : Option (Array F)} {cs : Option (Array (BitVec 8))}
  (weights : Uniform 1 r.samples ws) (counts : Uniform 1 r.samples cs)

include weights counts

/-- The next indexes are read without a look at the weights and counts. -/
theorem Boosting.step_unit (whole : lanes ∣ r.samples) {g : Nat} (hg : g < r.samples / lanes)
    (target : Target) (stride : Nat) (s : Pack.Reader w lanes × Cells) :
    Boosting.step m { r with weights := ws, counts := cs } target stride s g =
      Boosting.step m { r with weights := none, counts := none } target stride s g :=
  congrArg (· >>= fun cells => pure (s.1.next.2, cells))
    (BinSums.step_unit laws weights counts whole hg target stride s.1.next.1 s.2)

theorem Boosting.loop_unit (whole : lanes ∣ r.samples) (target : Target) (stride : Nat)
    (reader : Pack.Reader w lanes) (cells : Cells) :
    Boosting.loop m { r with weights := ws, counts := cs } target stride reader cells =
      Boosting.loop m { r with weights := none, counts := none } target stride reader cells := by
  have walked := foldlM_range_congr _ _ (r.samples / lanes) (reader, cells) fun g s hg =>
    Boosting.step_unit laws weights counts whole hg target stride s
  simp only [Boosting.loop, walked]

/-- Sums over one feature of unit data answer alike and leave the same cells. -/
theorem boosting_unit (span : Span) (cells : Cells) :
    boosting m span { r with weights := ws, counts := cs } cells =
      boosting m span { r with weights := none, counts := none } cells := by
  rw [boosting_eq_unlessRefused, boosting_eq_unlessRefused]
  refine unlessRefused_congr cells fun accepted => ?_
  have whole : lanes ∣ r.samples := Boosting.dvd_of_accepted accepted
  simp only [Boosting.effect, slots?, stride?, Boosting.loop_unit laws weights counts whole]

end Boosting

section Interaction

variable {r : Interaction F w} {ws : Option (Array F)} (weights : Uniform 1 r.samples ws)

include weights

theorem Interaction.step_unit (whole : lanes ∣ r.samples) {g : Nat}
    (hg : g < r.samples / lanes) (target : Target) (stride : Nat)
    (s : List (Axis w lanes) × Cells) :
    Interaction.step m { r with weights := ws } target stride s g =
      Interaction.step m { r with weights := none } target stride s g :=
  congrArg (· >>= fun cells => pure ((place s.1).2, cells))
    (BinSums.step_unit laws weights (.none 1 _) whole hg target stride (place s.1).1 s.2)

theorem Interaction.loop_unit (whole : lanes ∣ r.samples) (target : Target) (stride : Nat)
    (axes : List (Axis w lanes)) (cells : Cells) :
    Interaction.loop m { r with weights := ws } target stride axes cells =
      Interaction.loop m { r with weights := none } target stride axes cells := by
  have walked := foldlM_range_congr _ _ (r.samples / lanes) (axes, cells) fun g s hg =>
    Interaction.step_unit laws weights whole hg target stride s
  simp only [Interaction.loop, walked]

/-- Sums over a table of samples of weight one answer alike and leave the same cells. -/
theorem interaction_unit (span : Span) (cells : Cells) :
    interaction m span { r with weights := ws } cells =
      interaction m span { r with weights := none } cells := by
  rw [interaction_eq_unlessRefused, interaction_eq_unlessRefused]
  refine unlessRefused_congr cells fun accepted => ?_
  have whole : lanes ∣ r.samples := (Interaction.of_accepted accepted).1
  simp only [Interaction.effect, slots?, stride?, Interaction.loop_unit laws weights whole]
  rfl

end Interaction

end BinSums

/-! ### Updates -/

namespace Update

variable {m : Machine F w lanes} (laws : m.UnitLaws) {r : Request F w} {ws : Option (Array F)}
  (weights : Uniform 1 r.samples ws)

include laws weights

theorem addTerm_unit (whole : lanes ∣ r.samples) {g : Nat} (hg : g < r.samples / lanes) :
    (addTerm { r with weights := ws } g : Lanes F lanes → Lanes F lanes → Lanes F lanes) =
      addTerm { r with weights := none } g := by
  cases ws with
  | none => rfl
  | some a =>
    funext term metric
    have ones : (Lanes.load a (g * lanes) : Lanes F lanes) = Lanes.splat 1 :=
      weights.load_eq whole hg rfl
    simp only [addTerm, ones]
    ext l
    rw [Lanes.get_add, Lanes.get_mul, Lanes.get_splat, Lanes.get_add, laws.add_mul_one]

/-- Weights count in the metric and nowhere else. -/
theorem step_unit (whole : lanes ∣ r.samples) (wanted : Wanted) (o : Objective)
    (s : State F w lanes) {g : Nat} (hg : g < r.samples / lanes) :
    step m { r with weights := ws } wanted o s g = step m { r with weights := none } wanted o s g := by
  have term := addTerm_unit laws weights whole hg
  cases o with
  | squaredError =>
    simp only [step, stepSingle, term]
    rfl
  | binary privacy =>
    simp only [step, stepSingle, term]
    rfl
  | multiclass classes privacy =>
    simp only [step, stepSeveral, term]
    rfl

theorem loop_unit (whole : lanes ∣ r.samples) (wanted : Wanted) (o : Objective)
    (reader : Pack.Reader w lanes) (b : Buffers F) :
    loop m { r with weights := ws } wanted o reader b =
      loop m { r with weights := none } wanted o reader b := by
  have walked := foldl_range_congr _ _ (r.samples / lanes)
    ⟨reader, b.scores, b.gradients.getD #[], b.scratch.getD #[], 0⟩
    fun g s hg => step_unit laws weights whole wanted o s hg
  simp only [loop, walked]

/-- Updates of samples of weight one answer alike and leave the same buffers. -/
theorem run_unit (o : Objective) (b : Buffers F) :
    run m { r with weights := ws } o b = run m { r with weights := none } o b := by
  rw [run_eq_unlessRefused, run_eq_unlessRefused]
  refine unlessRefused_congr b fun accepted => ?_
  have whole : lanes ∣ r.samples := dvd_of_accepted accepted
  have loops : ∀ reader, loop m { r with weights := ws } (Update.wanted o r b) o reader b =
      loop m { r with weights := none } (Update.wanted o r b) o reader b := fun reader =>
    loop_unit laws weights whole _ o reader b
  show (if r.samples = 0 then _ else _) = if r.samples = 0 then _ else _
  split_ifs
  · rfl
  · exact congrArg (· <$> Pack.Reader.make r.items r.packed) (funext loops)

end Update

/-! ### The calls of a zone -/

namespace Zone

/-- One is neutral among the numbers of a zone. -/
theorem mul_one_of_number (z : Zone) {x : z.Number} (number : x.isNaN = false) : x * 1 = x :=
  Binary.mul_one_of_number z.toDatum_one number

/-- A product of a NaN and one is a NaN, and so is every sum with either of them. -/
theorem unitLaws (z : Zone) : z.machine.UnitLaws where
  add_mul_one a x := by
    cases number : x.isNaN with
    | false => rw [z.mul_one_of_number number]
    | true =>
      have product : (x * 1).isNaN = true := by
        rw [Binary.mul_of_isNaN number]
        cases z <;> decide +kernel
      rw [Binary.add_of_isNaN a product, Binary.add_of_isNaN a number]
  narrow_one := by cases z <;> decide +kernel

end Zone

/-- In every zone a product of a number and one is the number, and unit data may be left out. Sums
over one feature answer the same and leave the same bins, bit for bit, whether the samples have
weights that are all one or none, and whether they have counts that are all one or none. Sums over a
table and updates do the same with weights that are all one as without weights; an update leaves the
same scores, gradients and metric, for every objective and whatever is wanted. -/
theorem zone_unit_data (z : Zone) :
    (∀ x : z.Number, x.isNaN = false → x * 1 = x) ∧
      (∀ (span : BinSums.Span) (r : BinSums.Boosting z.Number z.width) (cells : Cells)
          (ws : Option (Array z.Number)) (cs : Option (Array (BitVec 8))),
        Uniform 1 r.samples ws → Uniform 1 r.samples cs →
          BinSums.boosting z.machine span { r with weights := ws, counts := cs } cells =
            BinSums.boosting z.machine span { r with weights := none, counts := none } cells) ∧
      (∀ (span : BinSums.Span) (r : BinSums.Interaction z.Number z.width) (cells : Cells)
          (ws : Option (Array z.Number)), Uniform 1 r.samples ws →
        BinSums.interaction z.machine span { r with weights := ws } cells =
          BinSums.interaction z.machine span { r with weights := none } cells) ∧
      ∀ (o : Objective) (r : Update.Request z.Number z.width) (b : Update.Buffers z.Number)
          (ws : Option (Array z.Number)), Uniform 1 r.samples ws →
        Update.run z.machine { r with weights := ws } o b =
          Update.run z.machine { r with weights := none } o b :=
  ⟨fun _ number => z.mul_one_of_number number,
    fun span _ cells _ _ weights counts =>
      BinSums.boosting_unit z.unitLaws weights counts span cells,
    fun span _ cells _ weights => BinSums.interaction_unit z.unitLaws weights span cells,
    fun o _ b _ weights => Update.run_unit z.unitLaws weights o b⟩

/-- A weight of one for each of four samples, and one that no sample has. -/
def fourOnes : Array Zone.sse2.Number := #[1, 1, 1, 1, 0]

theorem four_samples_of_unit_data :
    (0 : Zone.sse2.Number) * 1 = 0 ∧
      BinSums.boosting Zone.sse2.machine (BinSums.Span.over BinSums.twoBins 4096 true)
          { BinSums.fourSamples with weights := some fourOnes, counts := some #[1, 1, 1, 1] }
          BinSums.twoBins.cells =
        BinSums.boosting Zone.sse2.machine (BinSums.Span.over BinSums.twoBins 4096 true)
          { BinSums.fourSamples with weights := none, counts := none } BinSums.twoBins.cells ∧
      BinSums.interaction Zone.sse2.machine (BinSums.Span.over BinSums.twelveBins 4096 true)
          { BinSums.fourInTable with weights := some fourOnes } BinSums.twelveBins.cells =
        BinSums.interaction Zone.sse2.machine (BinSums.Span.over BinSums.twelveBins 4096 true)
          { BinSums.fourInTable with weights := none } BinSums.twelveBins.cells ∧
      Update.run Zone.sse2.machine
          { Update.fourOfTwoClasses with calcMetric := true, weights := some fourOnes }
          (.binary false) Update.singleBuffers =
        Update.run Zone.sse2.machine
          { Update.fourOfTwoClasses with calcMetric := true, weights := none }
          (.binary false) Update.singleBuffers := by
  have ones : Uniform 1 4 (some fourOnes) := by
    rintro _ ⟨⟩
    decide +kernel
  have once : Uniform (1 : BitVec 8) 4 (some #[1, 1, 1, 1]) := by
    rintro _ ⟨⟩
    decide
  obtain ⟨products, sums, tables, updates⟩ := zone_unit_data .sse2
  exact ⟨products 0 (by decide), sums _ _ _ _ _ ones once, tables _ _ _ _ ones,
    updates _ { Update.fourOfTwoClasses with calcMetric := true } _ _ ones⟩

end LaneBoost
