import LaneBoost.Proofs.Representation
import LaneBoost.Proofs.ServedHandles
import LaneBoost.Proofs.SoftmaxLanes
import LaneBoost.Proofs.UpdateSlots

/-!
# Targets that have been checked

The check of targets compares numbers. The loops over the classes compare words, and the loss of two
classes turns words into numbers, which some zones take for signed. Where words can name every class,
a target that passes the check means the same to all of them.
-/
namespace LaneBoost

/-! ### Several classes -/

namespace Softmax

variable {F : Type} [Arithmetic F] {w n : Nat}

/-- A lane whose target the loops over the classes find once, at the class of its number: there alone
a comparison takes its first choice and the gradient is lower by one, and the score of that class is
the one of the target. -/
structure FoundOnce (F : Type) [Arithmetic F] (classes : Nat) (target : Lanes (BitVec w) n)
    (l : Fin n) : Prop where
  one_class : ∃! k, k < classes ∧ target.get l = BitVec.ofNat w k
  selects : ∀ k, k < classes → ∀ first second : Lanes F n,
    (Lanes.whereEqual target (classNumber k) first second).get l =
      if k = (target.get l).toNat then first.get l else second.get l
  gradient_eq : ∀ (hessians metric : Bool) (scores : Array F) (scoreBlock : Block)
    (gradients scratch : Array F) (g : Nat), classes * n ≤ scratch.size →
    (g + 1) * classes * Layout.perScore hessians * n ≤ gradients.size → ∀ k, k < classes →
      ((gradientsAt classes n hessians g).load (updateGroup classes hessians metric scores scoreBlock
        target gradients scratch g).gradients k : Lanes F n).get l =
        probabilityOf classes (fun k => (scoreBlock.load scores k : Lanes F n).get l) k -
          if k = (target.get l).toNat then 1 else 0
  score_eq : ∀ (score : Nat → Lanes F n) (top : Lanes F n) (block : Block) (scratch : Array F),
    (sums classes true score top target block scratch).targetScore.get l =
      (score (target.get l).toNat).get l

variable {classes : Nat} (named : classes ≤ 2 ^ w)

include named

theorem foundOnce (target : Lanes (BitVec w) n) (l : Fin n)
    (inside : (target.get l).toNat < classes) : FoundOnce F classes target l := by
  have class_word : ∀ k, k < classes →
      (target.get l = BitVec.ofNat w k ↔ k = (target.get l).toNat) := fun k hk =>
    (eq_classNumber_iff (Nat.lt_of_lt_of_le hk named) _).trans eq_comm
  refine ⟨existsUnique_class named inside, fun k hk first second => ?_, ?_,
    fun score top block scratch => ?_⟩
  · simp only [Lanes.get_whereEqual, classNumber, Lanes.get_splat, class_word k hk]
  · intro hessians metric scores scoreBlock gradients scratch g scratch_room room k hk
    rw [(get_updateGroup hessians metric scores scoreBlock target g scratch_room room hk l).1,
      namedGradientOf]
    simp only [class_word k hk]
  · rw [get_sums_targetScore, namedScore_of_class _ named inside]

end Softmax

/-! ### Two classes -/

/-- A word that becomes exactly the number zero or one, whether it is taken for signed or not. -/
structure Zone.NumbersClass (z : Zone) (t : BitVec z.width) : Prop where
  exact : (t = 0 ∧ (z.machine.ofWord t).toDatum = .finite false 0) ∨
    (t = 1 ∧ (z.machine.ofWord t).toDatum = .finite false (twoPow z.format.scale))
  signed_eq : (Binary.ofInt t.toInt : z.Number) = Binary.ofNat t.toNat

theorem Zone.numbersClass (z : Zone) {t : BitVec z.width} (two : t.toNat < 2) :
    z.NumbersClass t := by
  have wide := Nat.pow_le_pow_right (show 0 < 2 by decide) z.wide
  have number : z.machine.ofWord t = Binary.ofNat t.toNat := z.ofWord_of_lt t (by omega)
  refine ⟨?_, z.ofInt_toInt t (by omega)⟩
  rw [number, z.toDatum_ofNat two]
  obtain zero | one : t.toNat = 0 ∨ t.toNat = 1 := by omega
  · exact .inl ⟨BitVec.eq_of_toNat_eq zero, by rw [zero, Nat.zero_mul]⟩
  · exact .inr ⟨BitVec.eq_of_toNat_eq (by rw [one]; cases z <;> rfl), by rw [one, Nat.one_mul]⟩

/-! ### The check -/

namespace Handle

/-- A handle that a factory has filled, but not with squared error, has the log loss for the classes of
the configuration. -/
theorem exists_logLoss_of_create {d : Dimensions} {c : Config} {name : Option NameSpan}
    {old h : Handle} (created : create d (some c) name (some old) = (.ok, some h))
    (classes : h.isSquaredError = false) :
    ∃ o, Filled d o h ∧ Objective.logLoss? c = .ok o := by
  rw [create_eq_answer] at created
  cases granted : Objective.requested? (some c) name with
  | error f => rw [granted] at created; cases f <;> cases created
  | ok o =>
    rw [granted] at created
    obtain rfl : cleared.install d o = h := Option.some.inj (Prod.mk.inj created).2
    refine ⟨o, filled_install d o cleared, Objective.logLoss?_eq_ok_iff.2 ?_⟩
    obtain ⟨_, _, _, given, -, -, asked⟩ := Objective.requested?_eq_ok_iff.1 granted
    cases given
    cases asked with
    | squaredError => cases classes
    | binary _ two => exact .inl ⟨two, rfl⟩
    | multiclass _ several => exact .inr ⟨several, rfl⟩

end Handle

/-- A log loss accepts the targets that count less than the outputs. -/
theorem Objective.acceptsTarget_of_logLoss {F : Type} {w lanes : Nat} (m : Machine F w lanes)
    {c : Config} {o : Objective} (made : logLoss? c = .ok o) (t : BitVec w) :
    o.acceptsTarget m t = decide (t.toNat < c.outputs) := by
  obtain ⟨two, rfl⟩ | ⟨-, rfl⟩ := logLoss?_eq_ok_iff.1 made
  · rw [acceptsTarget, two]
  · rfl

theorem EntryPoint.checkTargets_of_logLoss {z : Zone} {c : Config} {o : Objective} {h : Handle}
    (filled : Handle.Filled z.dimensions o h) (made : Objective.logLoss? c = .ok o)
    (ts : Array (BitVec z.width)) :
    checkTargets z (some h) ts.size (some ts) = .ok (decide (∀ t ∈ ts, t.toNat < c.outputs)) := by
  have accepts : ∀ t, o.acceptsTarget z.machine t = decide (t.toNat < c.outputs) :=
    Objective.acceptsTarget_of_logLoss z.machine made
  have all : (ts.toList.take ts.size).all (o.acceptsTarget z.machine) =
      decide (∀ t ∈ ts, t.toNat < c.outputs) := by
    rw [List.take_of_length_le (Nat.le_of_eq ts.length_toList)]
    simp only [accepts, List.all_eq, Array.mem_toList_iff, decide_eq_true_eq]
  rw [checkTargets, filled.serve_eq rfl]
  show (if ts.size = 0 then Except.ok true
    else .ok ((ts.toList.take ts.size).all (o.acceptsTarget z.machine))) = _
  split_ifs with none
  · obtain rfl := Array.eq_empty_of_size_eq_zero none
    simp
  · rw [all]

/-- In every zone, the check of a log loss that the factory has made answers whether every target
counts less than the outputs. Where words can name every class, the targets that pass it mean the same
to the kernels: with two outputs each becomes exactly the number zero or one, and the same in the zones
that take words for signed; with more of them each is found once in the loops over the classes. An array
with another target is turned down, and the words of all classes differ from such a target. -/
theorem checked_targets_select_classes (z : Zone) (c : Config) (name : Option NameSpan)
    (old h : Handle) (created : Handle.create z.dimensions (some c) name (some old) = (.ok, some h))
    (classes : h.isSquaredError = false) (named : c.outputs ≤ 2 ^ z.width)
    (ts : Array (BitVec z.width)) :
    EntryPoint.checkTargets z (some h) ts.size (some ts) =
        .ok (decide (∀ t ∈ ts, t.toNat < c.outputs)) ∧
      (EntryPoint.checkTargets z (some h) ts.size (some ts) = .ok true →
        (h.objective = some (.binary c.differentialPrivacy) → ∀ t ∈ ts, z.NumbersClass t) ∧
          (h.objective = some (.multiclass c.outputs c.differentialPrivacy) →
            ∀ (target : Lanes (BitVec z.width) z.lanes) (l : Fin z.lanes), target.get l ∈ ts →
              Softmax.FoundOnce z.Number c.outputs target l)) ∧
      ((h.objective = some (.binary c.differentialPrivacy) ∧ c.outputs = 2) ∨
        (h.objective = some (.multiclass c.outputs c.differentialPrivacy) ∧ 3 ≤ c.outputs)) ∧
      ∀ t ∈ ts, c.outputs ≤ t.toNat →
        EntryPoint.checkTargets z (some h) ts.size (some ts) = .ok false ∧
          ∀ k, k < c.outputs → t ≠ BitVec.ofNat z.width k := by
  obtain ⟨o, filled, made⟩ := Handle.exists_logLoss_of_create created classes
  have checked := EntryPoint.checkTargets_of_logLoss filled made ts
  have kind := Objective.logLoss?_eq_ok_iff.1 made
  rw [checked, filled.objective_eq]
  refine ⟨rfl, fun passed => ?_, ?_, fun t ht beyond => ⟨?_, fun k hk => ?_⟩⟩
  · have inside : ∀ t ∈ ts, t.toNat < c.outputs := of_decide_eq_true (Except.ok.inj passed)
    refine ⟨fun two t ht => ?_, fun several target l ht => ?_⟩
    · obtain ⟨outputs, -⟩ | ⟨-, rfl⟩ := kind
      · exact z.numbersClass (outputs ▸ inside t ht)
      · cases two
    · exact Softmax.foundOnce named target l (inside _ ht)
  · obtain ⟨two, rfl⟩ | ⟨several, rfl⟩ := kind
    · exact .inl ⟨rfl, two⟩
    · exact .inr ⟨rfl, several⟩
  · refine congrArg Except.ok (decide_eq_false fun inside => ?_)
    exact Nat.not_lt.2 beyond (inside t ht)
  · exact Softmax.ne_classNumber named beyond hk

/-- Each of three classes once; a fourth class is none of them. -/
theorem three_targets_found :
    let h := Handle.cleared.install Zone.sse2.dimensions (.multiclass 3 false)
    let ts : Array (BitVec Zone.sse2.width) := #[2, 0, 1]
    EntryPoint.checkTargets .sse2 (some h) 3 (some ts) = .ok true ∧
      (∀ (target : Lanes (BitVec Zone.sse2.width) Zone.sse2.lanes) (l : Fin Zone.sse2.lanes),
        target.get l ∈ ts → Softmax.FoundOnce Zone.sse2.Number 3 target l) ∧
      EntryPoint.checkTargets .sse2 (some h) 2 (some #[0, 3]) = .ok false := by
  intro h ts
  let logLoss : List UInt8 := [0x6C, 0x6F, 0x67, 0x5F, 0x6C, 0x6F, 0x73, 0x73]
  have named : Registration.logLoss.Names Name.isBlank logLoss := .of_spells (by decide)
  have created : Handle.create Zone.sse2.dimensions (some (.classification 3))
      (some (.ofBytes logLoss)) (some Handle.cleared) = (.ok, some h) :=
    Handle.create_of_names rfl named Handle.cleared
  have checks := checked_targets_select_classes .sse2 (.classification 3) (some (.ofBytes logLoss))
    Handle.cleared h created rfl (by decide)
  obtain ⟨-, selected, -, -⟩ := checks ts
  have passed : EntryPoint.checkTargets .sse2 (some h) ts.size (some ts) = .ok true := rfl
  obtain ⟨-, -, -, refused⟩ := checks #[0, 3]
  exact ⟨passed, (selected passed).2 rfl, (refused 3 (by simp) (by decide)).1⟩

end LaneBoost
