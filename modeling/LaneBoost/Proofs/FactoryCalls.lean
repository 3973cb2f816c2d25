import LaneBoost.Handle
import LaneBoost.Proofs.NameLanguage

/-!
# What a factory answers

Zones share one factory. Whether it makes an objective, and which, depends on the configuration and on
the bytes of the name alone; the zone only says what the handle is filled with. A call that fails
leaves a cleared handle, whatever was in it before.
-/
namespace LaneBoost

/-! ### The objective that is asked for -/

namespace Objective

/-- The objective that a configuration and a name ask for, or why there is none. -/
def requested? (config : Option Config) (name : Option NameSpan) : Except Failure Objective :=
  match config, name.bind NameSpan.bytes? with
  | some c, some bytes =>
    match Registration.find? bytes with
    | some r => r.create? c
    | none => .error .unknownName
  | _, _ => .error .illegalParameter

/-- The objective that a configuration asks for under a name between blanks. -/
inductive Requested (c : Config) (bytes : List UInt8) : Objective → Prop where
  | squaredError : Registration.rmse.Names Name.isBlank bytes → c.outputs = 1 →
      Requested c bytes .squaredError
  | binary : Registration.logLoss.Names Name.isBlank bytes → c.outputs = 2 →
      Requested c bytes (.binary c.differentialPrivacy)
  | multiclass : Registration.logLoss.Names Name.isBlank bytes → 3 ≤ c.outputs →
      Requested c bytes (.multiclass c.outputs c.differentialPrivacy)

section Given

variable {span : NameSpan} {bytes : List UInt8} (given : span.bytes? = some bytes) (c : Config)

include given

theorem requested?_of_names {r : Registration} (named : r.Names Name.isBlank bytes) :
    requested? (some c) (some span) = r.create? c := by
  have found := (r.find?_eq_some_iff bytes).2 named
  simp only [requested?, Option.bind_some, given, found]

theorem requested?_of_unnamed (unnamed : ∀ r : Registration, ¬ r.Names Name.isBlank bytes) :
    requested? (some c) (some span) = .error .unknownName := by
  have missing : Registration.find? bytes = none :=
    Option.eq_none_iff_forall_ne_some.2 fun r found => unnamed r ((r.find?_eq_some_iff bytes).1 found)
  simp only [requested?, Option.bind_some, given, missing]

end Given

theorem squaredError?_eq_ok_iff {c : Config} {o : Objective} :
    squaredError? c = .ok o ↔ c.outputs = 1 ∧ o = squaredError := by
  rw [squaredError?]
  split_ifs with one
  · simp [one, eq_comm]
  · simp [one]

theorem logLoss?_eq_ok_iff {c : Config} {o : Objective} :
    logLoss? c = .ok o ↔ c.outputs = 2 ∧ o = binary c.differentialPrivacy ∨
      3 ≤ c.outputs ∧ o = multiclass c.outputs c.differentialPrivacy := by
  rw [logLoss?]
  split_ifs with few two
  · simp [show c.outputs ≠ 2 by omega, show ¬ 3 ≤ c.outputs by omega]
  · simp [two, eq_comm]
  · simp [two, show 3 ≤ c.outputs by omega, eq_comm]

theorem create?_eq_ok_iff {c : Config} {bytes : List UInt8} {r : Registration}
    (named : r.Names Name.isBlank bytes) {o : Objective} :
    r.create? c = .ok o ↔ Requested c bytes o := by
  cases r with
  | rmse =>
    refine squaredError?_eq_ok_iff.trans ⟨?_, ?_⟩
    · rintro ⟨one, rfl⟩
      exact .squaredError named one
    · intro asked
      cases asked with
      | squaredError _ one => exact ⟨one, rfl⟩
      | binary other | multiclass other => cases named.unique other
  | logLoss =>
    refine logLoss?_eq_ok_iff.trans ⟨?_, ?_⟩
    · rintro (⟨two, rfl⟩ | ⟨several, rfl⟩)
      · exact .binary named two
      · exact .multiclass named several
    · intro asked
      cases asked with
      | squaredError other => cases named.unique other
      | binary _ two => exact Or.inl ⟨two, rfl⟩
      | multiclass _ several => exact Or.inr ⟨several, rfl⟩

theorem Requested.exists_names {c : Config} {bytes : List UInt8} {o : Objective}
    (asked : Requested c bytes o) : ∃ r : Registration, r.Names Name.isBlank bytes := by
  cases asked with
  | squaredError named | binary named | multiclass named => exact ⟨_, named⟩

/-- With both at hand, a request is granted just if it asks for an objective. -/
theorem requested?_given {span : NameSpan} {bytes : List UInt8} (given : span.bytes? = some bytes)
    (c : Config) {o : Objective} :
    requested? (some c) (some span) = .ok o ↔ Requested c bytes o := by
  by_cases named : ∃ r : Registration, r.Names Name.isBlank bytes
  · obtain ⟨r, named⟩ := named
    rw [requested?_of_names given c named, create?_eq_ok_iff named]
  · rw [requested?_of_unnamed given c (not_exists.1 named)]
    exact ⟨nofun, fun asked => absurd asked.exists_names named⟩

/-- A request is granted just if it has a configuration and a name and asks for an objective. -/
theorem requested?_eq_ok_iff {config : Option Config} {name : Option NameSpan} {o : Objective} :
    requested? config name = .ok o ↔ ∃ c span bytes, config = some c ∧ name = some span ∧
      span.bytes? = some bytes ∧ Requested c bytes o := by
  constructor
  · intro granted
    cases config with
    | none => cases granted
    | some c =>
      cases given : name.bind NameSpan.bytes? with
      | none => simp only [requested?, given] at granted; cases granted
      | some bytes =>
        obtain ⟨span, rfl, given⟩ := Option.bind_eq_some_iff.1 given
        exact ⟨c, span, bytes, rfl, rfl, given, (requested?_given given c).1 granted⟩
  · rintro ⟨c, span, bytes, rfl, rfl, given, asked⟩
    exact (requested?_given given c).2 asked

theorem of_create?_eq_error {r : Registration} {c : Config} {f : Failure}
    (h : r.create? c = .error f) : f = .illegalParameter := by
  cases r with
  | rmse =>
    simp only [Registration.create?, squaredError?] at h
    split_ifs at h
    exact (Except.error.inj h).symm
  | logLoss =>
    simp only [Registration.create?, logLoss?] at h
    split_ifs at h
    exact (Except.error.inj h).symm

/-- A request that is not granted has an illegal parameter or names no objective. -/
theorem of_requested?_eq_error {config : Option Config} {name : Option NameSpan} {f : Failure}
    (h : requested? config name = .error f) : f = .illegalParameter ∨ f = .unknownName := by
  unfold requested? at h
  split at h
  · split at h
    · exact Or.inl (of_create?_eq_error h)
    · exact Or.inr (Except.error.inj h).symm
  · exact Or.inl (Except.error.inj h).symm

end Objective

/-! ### Factories -/

theorem Failure.isOk_status (f : Failure) : f.status.isOk = false := by cases f <;> rfl

namespace Handle

/-- The status of a factory and the handle that it leaves. -/
def answer (d : Dimensions) : Except Failure Objective → Status × Handle
  | .ok o => (.ok, cleared.install d o)
  | .error f => (f.status, cleared)

theorem select_of_found {d : Dimensions} {c : Config} {bytes : List UInt8} {r : Registration}
    (found : Registration.find? bytes = some r) :
    cleared.select d c bytes = answer d (r.create? c) := by
  cases made : r.create? c with
  | ok o =>
    have registered : cleared.register d r c = (.ok, cleared.install d o) := by rw [register, made]
    simp only [select, found, registered]
    rfl
  | error f =>
    have registered : cleared.register d r c = (f.status, cleared) := by rw [register, made]
    simp only [select, found, registered, f.isOk_status]
    rfl

/-- What was in the handle before does not matter, and the zone only to what is put in. -/
theorem create_eq_answer (d : Dimensions) (config : Option Config) (name : Option NameSpan)
    (h : Handle) : create d config name (some h) =
      ((answer d (Objective.requested? config name)).1,
        some (answer d (Objective.requested? config name)).2) := by
  cases config with
  | none => rfl
  | some c =>
    cases given : name.bind NameSpan.bytes? with
    | none => simp only [create, Objective.requested?, given]; rfl
    | some bytes =>
      cases found : Registration.find? bytes with
      | none => simp only [create, Objective.requested?, given, select, found]; rfl
      | some r => simp only [create, Objective.requested?, given, select_of_found found, found]

theorem create_of_names {d : Dimensions} {c : Config} {span : NameSpan} {bytes : List UInt8}
    (given : span.bytes? = some bytes) {r : Registration} (named : r.Names Name.isBlank bytes)
    (h : Handle) : create d (some c) (some span) (some h) =
      ((answer d (r.create? c)).1, some (answer d (r.create? c)).2) := by
  rw [create_eq_answer, Objective.requested?_of_names given c named]

theorem create_unknown_iff {d : Dimensions} {c : Config} {span : NameSpan} {bytes : List UInt8}
    (given : span.bytes? = some bytes) (h : Handle) :
    create d (some c) (some span) (some h) = (.unknownName, some cleared) ↔
      ∀ r : Registration, ¬ r.Names Name.isBlank bytes := by
  constructor
  · intro unknown r named
    rw [create_of_names given named] at unknown
    cases made : r.create? c with
    | ok o => rw [made] at unknown; cases unknown
    | error f =>
      rw [made, Objective.of_create?_eq_error made] at unknown
      cases unknown
  · intro unnamed
    rw [create_eq_answer, Objective.requested?_of_unnamed given c unnamed]
    rfl

/-- Every factory takes bytes for a name if they spell it, up to the case of letters, between blanks
of any kind, written in UTF-8. With such bytes it does what the registration does, and with any others,
among them all that are not UTF-8, it answers that the name is unknown and leaves a cleared handle. So
it takes the bytes that spell a name between blanks of ASCII, and no others just if the blanks around
these are of ASCII. -/
theorem factory_takes_padded_names (z : Zone) (c : Config) (span : NameSpan) (bytes : List UInt8)
    (given : span.bytes? = some bytes) (h : Handle) :
    (∀ r : Registration, Registration.find? bytes = some r ↔ r.Names Name.isBlank bytes) ∧
      (∀ r : Registration, r.Names Name.isBlank bytes →
        create z.dimensions (some c) (some span) (some h) =
          ((answer z.dimensions (r.create? c)).1, some (answer z.dimensions (r.create? c)).2)) ∧
      (create z.dimensions (some c) (some span) (some h) = (.unknownName, some cleared) ↔
        ∀ r : Registration, ¬ r.Names Name.isBlank bytes) ∧
      (¬ bytes.toByteArray.IsValidUTF8 →
        create z.dimensions (some c) (some span) (some h) = (.unknownName, some cleared)) ∧
      ((∀ r : Registration, Registration.find? bytes = some r ↔ r.Spells (Name.trimAscii bytes)) ↔
        ∀ r : Registration, r.Names Name.isBlank bytes → r.Names Name.isAsciiBlank bytes) := by
  refine ⟨fun r => r.find?_eq_some_iff bytes, fun r named => create_of_names given named h,
    create_unknown_iff given h, fun invalid => ?_, ?_⟩
  · exact (create_unknown_iff given h).2 fun r named => invalid named.isValidUTF8
  · simp only [Registration.find?_eq_some_iff, Registration.spells_trimAscii_iff]
    exact forall_congr' fun r => ⟨Iff.mp, fun ascii => ⟨ascii, Registration.Names.of_ascii⟩⟩

/-- A name in either case between an em space and a tab. -/
def betweenBlanks : List UInt8 :=
  [0xE2, 0x80, 0x83, 0x4C, 0x6F, 0x67, 0x5F, 0x4C, 0x4F, 0x53, 0x53, 0x09]

theorem name_between_blanks_taken :
    create Zone.sse2.dimensions (some (.classification 3))
        (some ⟨betweenBlanks ++ [0, 0x72], none⟩) (some cleared) =
      (.ok, some (cleared.install Zone.sse2.dimensions (.multiclass 3 false))) := by
  have named : Registration.logLoss.Names Name.isBlank betweenBlanks :=
    .padded [Char.ofNat 0x2003] [0x4C, 0x6F, 0x67, 0x5F, 0x4C, 0x4F, 0x53, 0x53] [Char.ofNat 0x09]
      (List.forall_mem_singleton.2 (by decide)) (List.forall_mem_singleton.2 (by decide)) (by decide)
  exact (factory_takes_padded_names .sse2 (.classification 3) ⟨betweenBlanks ++ [0, 0x72], none⟩
    betweenBlanks rfl cleared).2.1 .logLoss named

/-- The name of squared error behind a no-break space. -/
def behindNoBreakSpace : List UInt8 := [0xC2, 0xA0, 0x72, 0x6D, 0x73, 0x65]

/-- A no-break space is no blank of ASCII, and yet it is taken off. -/
theorem no_break_space_taken_off :
    (∀ r : Registration, ¬ r.Spells (Name.trimAscii behindNoBreakSpace)) ∧
      create Zone.cpu64.dimensions (some .regression) (some (.ofBytes behindNoBreakSpace))
          (some cleared) =
        (.ok, some (cleared.install Zone.cpu64.dimensions .squaredError)) := by
  constructor
  · intro r
    cases r <;> decide
  · have named : Registration.rmse.Names Name.isBlank behindNoBreakSpace :=
      .padded [Char.ofNat 0xA0] [0x72, 0x6D, 0x73, 0x65] []
        (List.forall_mem_singleton.2 (by decide)) nofun (by decide)
    exact create_of_names rfl named cleared

end Handle

end LaneBoost
