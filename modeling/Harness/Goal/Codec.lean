-- SUMMARY: The durable form of a goal change: what decodes is well formed, and what is well formed decodes to itself.
import Harness.Goal.Fold

namespace Harness

open Json (ofNat get? field)
open Except (bind_eq_ok)

/-! ## Well-formed values -/

/-- A positive safe integer. -/
def IsPositive (n : Nat) : Prop := 1 ≤ n ∧ n ≤ maxSafeInteger

/-- An epoch time the log can hold. -/
def IsTime (t : Int) : Prop := 0 ≤ t ∧ t ≤ maxSafeInteger

structure GoalBlockReason.WellFormed (reason : GoalBlockReason) : Prop where
  code : isLowerKebab reason.code = true
  message : isNormalized reason.message = true

structure GoalRef.WellFormed (ref : GoalRef) : Prop where
  id : ref.id.units.isEmpty = false
  revision : IsPositive ref.revision

structure GoalSnapshot.WellFormed (goal : GoalSnapshot) : Prop where
  ref : goal.toGoalRef.WellFormed
  objective : isNormalized goal.objective = true
  maxGoalRounds : IsPositive goal.maxGoalRounds
  blocked : goal.blockedReason.isSome ↔ goal.phase = .blocked
  reason : ∀ reason, goal.blockedReason = some reason → reason.WellFormed

structure GoalSnapshotChange.WellFormed (change : GoalSnapshotChange) : Prop where
  goal : change.goal.WellFormed
  roundsStarted : change.roundsStarted ≤ maxSafeInteger
  createdAt : IsTime change.createdAt
  updatedAt : IsTime change.updatedAt
  ordered : change.createdAt ≤ change.updatedAt

def GoalChange.WellFormed : GoalChange → Prop
  | .snapshot change => change.WellFormed
  | .clear cleared clearedAt => cleared.WellFormed ∧ IsTime clearedAt

/-! ## Fields -/

theorem asSafeInteger_int {z : Int} (h : isSafeInt z = true) :
    (Json.num (.int z)).asSafeInteger = some z := by
  simp [Json.asSafeInteger, Num.asSafeInteger, h]

theorem isSafeInt_of_le {z : Int} (hlow : 0 ≤ z) (hhigh : z ≤ maxSafeInteger) :
    isSafeInt z = true := by
  simp only [isSafeInt, decide_eq_true_eq]
  omega

theorem isSafeInt_of_asSafeInteger {value : Json} {z : Int} (h : value.asSafeInteger = some z) :
    isSafeInt z = true := by
  cases value with
  | num n =>
    cases n with
    | int z' =>
      simp only [Json.asSafeInteger, Num.asSafeInteger] at h
      split at h
      · cases h
        assumption
      · cases h
    | frac m s r => cases h
  | null => cases h
  | bool b => cases h
  | str s => cases h
  | arr items => cases h
  | obj fields => cases h

variable {n : Nat}

theorem positiveInteger_ofNat (h : IsPositive n) (field : String) :
    positiveInteger (some (ofNat n)) field = .ok n := by
  obtain ⟨hlow, hhigh⟩ := h
  have hsafe : isSafeInt (n : Int) = true :=
    isSafeInt_of_le (by omega) (by exact_mod_cast hhigh)
  have hnot : ¬ (n : Int) < 1 := by omega
  simp [positiveInteger, ofNat, asSafeInteger_int hsafe, hnot]

theorem nonNegativeInteger_int {t : Int} (h : IsTime t) (field : String) :
    nonNegativeInteger (some (.num (.int t))) field = .ok t.toNat := by
  have hnot : ¬ t < 0 := by
    have := h.1
    omega
  simp [nonNegativeInteger, asSafeInteger_int (isSafeInt_of_le h.1 h.2), hnot]

variable {value : Option Json}

theorem positiveInteger_positive {field : String}
    (h : positiveInteger value field = .ok n) : IsPositive n := by
  simp only [positiveInteger] at h
  split at h
  · cases h
  rename_i z hz
  split at h
  · cases h
  rename_i hlow
  cases h
  obtain ⟨v, -, hv⟩ := Option.bind_eq_some_iff.mp hz
  have hsafe := isSafeInt_of_asSafeInteger hv
  simp only [isSafeInt, decide_eq_true_eq] at hsafe
  exact ⟨by omega, by omega⟩

theorem nonNegativeInteger_safe {field : String}
    (h : nonNegativeInteger value field = .ok n) : n ≤ maxSafeInteger := by
  simp only [nonNegativeInteger] at h
  split at h
  · cases h
  rename_i z hz
  split at h
  · cases h
  rename_i hlow
  cases h
  obtain ⟨v, -, hv⟩ := Option.bind_eq_some_iff.mp hz
  have hsafe := isSafeInt_of_asSafeInteger hv
  simp only [isSafeInt, decide_eq_true_eq] at hsafe
  omega

theorem isTime_of_le (h : n ≤ maxSafeInteger) : IsTime (n : Int) :=
  ⟨by omega, by exact_mod_cast h⟩

/-! ## Round trips -/

theorem decodePhase_name (phase : GoalPhase) :
    decodePhase (some (.str phase.name)) = some phase := by
  cases phase <;> decide

theorem decodeOperation_name (operation : SnapshotOperation) :
    decodeOperation (some (.str operation.name)) = some operation := by
  cases operation <;> decide

theorem SnapshotOperation.name_ne_clear (operation : SnapshotOperation) :
    JsString.ofString operation.name ≠ "clear" := by
  cases operation <;> decide

theorem decodeBlockReason_toJson {reason : GoalBlockReason} (h : reason.WellFormed) :
    decodeBlockReason (some reason.toJson) = .ok reason := by
  have hkeys : sortedKeys ["code", "message"] = "code,message" := by decide
  have hcode : get? "code"
      [field "code" (.str reason.code), field "message" (.str reason.message)]
      = some (.str reason.code) := rfl
  have hmessage : get? "message"
      [field "code" (.str reason.code), field "message" (.str reason.message)]
      = some (.str reason.message) := rfl
  simp only [decodeBlockReason, GoalBlockReason.toJson, hcode, hmessage, asText, h.code, h.message]
  simp [field, hkeys]

theorem decodeRef_toJson {ref : GoalRef} (h : ref.WellFormed) :
    decodeRef (some ref.toJson) = .ok ref := by
  have hkeys : sortedKeys ["id", "revision"] = "id,revision" := by decide
  have hid : get? "id"
      [field "id" (.str ref.id), field "revision" (ofNat ref.revision)]
      = some (.str ref.id) := rfl
  have hrevision : get? "revision"
      [field "id" (.str ref.id), field "revision" (ofNat ref.revision)]
      = some (ofNat ref.revision) := rfl
  simp only [decodeRef, GoalRef.toJson, hid, hrevision, asText, h.id,
    positiveInteger_ofNat h.revision]
  simp [field, hkeys]

def GoalSnapshot.fields (goal : GoalSnapshot) : List (JsString × Json) :=
  [field "id" (.str goal.id), field "revision" (ofNat goal.revision),
    field "objective" (.str goal.objective), field "phase" (.str goal.phase.name),
    field "maxGoalRounds" (ofNat goal.maxGoalRounds)] ++
  goal.blockedReason.toList.map fun reason => field "blockedReason" reason.toJson

variable {goal : GoalSnapshot}

theorem GoalSnapshot.fields_keys (h : goal.WellFormed) :
    sortedKeys (goal.fields.map Prod.fst) = goal.phase.expectedKeys := by
  have hplain : sortedKeys ["id", "revision", "objective", "phase", "maxGoalRounds"]
      = "id,maxGoalRounds,objective,phase,revision" := by decide
  have hblocked : sortedKeys
      ["id", "revision", "objective", "phase", "maxGoalRounds", "blockedReason"]
      = "blockedReason,id,maxGoalRounds,objective,phase,revision" := by decide
  cases hreason : goal.blockedReason with
  | none =>
    have hphase : goal.phase ≠ .blocked := fun hp => by simpa [hreason] using h.blocked.mpr hp
    have hexpected : goal.phase.expectedKeys = "id,maxGoalRounds,objective,phase,revision" := by
      cases hp : goal.phase <;> simp_all [GoalPhase.expectedKeys]
    simpa [GoalSnapshot.fields, hreason, field, hexpected] using hplain
  | some reason =>
    have hphase : goal.phase = .blocked := h.blocked.mp (by simp [hreason])
    simpa [GoalSnapshot.fields, hreason, field, hphase, GoalPhase.expectedKeys] using hblocked

theorem decodePhaseReason_toJson (h : goal.WellFormed) :
    decodePhaseReason goal.phase (get? "blockedReason" goal.fields)
      = .ok goal.blockedReason := by
  cases hreason : goal.blockedReason with
  | none =>
    have hphase : goal.phase ≠ .blocked := fun hp => by simpa [hreason] using h.blocked.mpr hp
    cases hp : goal.phase with
    | blocked => exact absurd hp hphase
    | active => rfl
    | paused => rfl
    | complete => rfl
  | some reason =>
    have hphase : goal.phase = .blocked := h.blocked.mp (by simp [hreason])
    have hget : get? "blockedReason" goal.fields = some reason.toJson := by
      simp only [GoalSnapshot.fields, hreason]
      rfl
    rw [hphase, hget, decodePhaseReason, decodeBlockReason_toJson (h.reason reason hreason)]
    rfl

theorem decodeSnapshot_toJson (h : goal.WellFormed) :
    decodeSnapshot (some goal.toJson) = .ok goal := by
  have hid : get? "id" goal.fields = some (.str goal.id) := rfl
  have hrevision : get? "revision" goal.fields = some (ofNat goal.revision) := rfl
  have hobjective : get? "objective" goal.fields = some (.str goal.objective) := rfl
  have hphase : get? "phase" goal.fields = some (.str goal.phase.name) := rfl
  have hmax : get? "maxGoalRounds" goal.fields = some (ofNat goal.maxGoalRounds) := rfl
  have hjson : goal.toJson = .obj goal.fields := rfl
  simp only [decodeSnapshot, hjson, hid, hrevision, hobjective, hphase, hmax, asText, h.ref.id,
    h.objective, decodePhase_name, GoalSnapshot.fields_keys h, positiveInteger_ofNat h.ref.revision,
    positiveInteger_ofNat h.maxGoalRounds, decodePhaseReason_toJson h, Bool.false_eq_true,
    Bool.not_true, ne_eq, not_true_eq_false, if_false]
  rfl

def clearFields (cleared : GoalRef) (clearedAt : Int) : List (JsString × Json) :=
  [field "kind" (.str goalChangeType), field "version" (ofNat goalChangeVersion),
    field "operation" (.str "clear"), field "cleared" cleared.toJson,
    field "clearedAt" (.num (.int clearedAt))]

def GoalSnapshotChange.fields (change : GoalSnapshotChange) : List (JsString × Json) :=
  [field "kind" (.str goalChangeType), field "version" (ofNat goalChangeVersion),
    field "operation" (.str change.operation.name), field "goal" change.goal.toJson,
    field "roundsStarted" (ofNat change.roundsStarted),
    field "createdAt" (.num (.int change.createdAt)),
    field "updatedAt" (.num (.int change.updatedAt))]

theorem decodeClear_fields {cleared : GoalRef} {clearedAt : Int} (hcleared : cleared.WellFormed)
    (htime : IsTime clearedAt) :
    decodeClear (clearFields cleared clearedAt) = .ok (.clear cleared clearedAt) := by
  have hkeys : sortedKeys ((clearFields cleared clearedAt).map Prod.fst) = clearKeys := by
    show sortedKeys ["kind", "version", "operation", "cleared", "clearedAt"] = clearKeys
    decide
  have hget : get? "cleared" (clearFields cleared clearedAt) = some cleared.toJson := rfl
  have hget' : get? "clearedAt" (clearFields cleared clearedAt)
      = some (.num (.int clearedAt)) := rfl
  have hnat : ((clearedAt.toNat : Nat) : Int) = clearedAt := Int.toNat_of_nonneg htime.1
  simp only [decodeClear, hkeys, hget, hget', decodeRef_toJson hcleared,
    nonNegativeInteger_int htime, ne_eq, not_true_eq_false, if_false]
  simp only [bind, Except.bind, pure, Except.pure, hnat]

theorem decodeSnapshotChange_fields {change : GoalSnapshotChange} (h : change.WellFormed) :
    decodeSnapshotChange change.operation change.fields = .ok (.snapshot change) := by
  have hkeys : sortedKeys (change.fields.map Prod.fst) = snapshotKeys := by
    show sortedKeys ["kind", "version", "operation", "goal", "roundsStarted", "createdAt",
      "updatedAt"] = snapshotKeys
    decide
  have hgoal : get? "goal" change.fields = some change.goal.toJson := rfl
  have hrounds : get? "roundsStarted" change.fields
      = some (.num (.int (change.roundsStarted : Int))) := rfl
  have hcreated : get? "createdAt" change.fields = some (.num (.int change.createdAt)) := rfl
  have hupdated : get? "updatedAt" change.fields = some (.num (.int change.updatedAt)) := rfl
  have hcnat : ((change.createdAt.toNat : Nat) : Int) = change.createdAt :=
    Int.toNat_of_nonneg h.createdAt.1
  have hunat : ((change.updatedAt.toNat : Nat) : Int) = change.updatedAt :=
    Int.toNat_of_nonneg h.updatedAt.1
  have hordered : ¬ change.updatedAt.toNat < change.createdAt.toNat := by
    have := h.ordered
    omega
  simp only [decodeSnapshotChange, hkeys, hgoal, hrounds, hcreated, hupdated,
    nonNegativeInteger_int h.createdAt, nonNegativeInteger_int h.updatedAt,
    nonNegativeInteger_int (isTime_of_le h.roundsStarted), decodeSnapshot_toJson h.goal, ne_eq,
    not_true_eq_false, if_false, bind, Except.bind, pure, Except.pure, hordered, Int.toNat_natCast,
    hcnat, hunat]

variable {change : GoalChange}

theorem decodeGoalChange_toJson (h : change.WellFormed) :
    decodeGoalChange change.toJson = .ok (some change) := by
  have hversion : isInteger (some (ofNat goalChangeVersion)) goalChangeVersion = true := by
    decide
  cases change with
  | clear cleared clearedAt =>
    have hjson : (GoalChange.clear cleared clearedAt).toJson
        = .obj (clearFields cleared clearedAt) := rfl
    have hkind : get? "kind" (clearFields cleared clearedAt)
        = some (.str goalChangeType) := rfl
    have hget : get? "version" (clearFields cleared clearedAt)
        = some (ofNat goalChangeVersion) := rfl
    have hoperation : get? "operation" (clearFields cleared clearedAt)
        = some (.str "clear") := rfl
    simp only [hjson, decodeGoalChange, hkind, hget, hoperation, hversion, asText, ne_eq,
      not_true_eq_false, if_false, Bool.not_true, Bool.false_eq_true,
      decodeClear_fields h.1 h.2, if_true]
    rfl
  | snapshot change =>
    have hjson : (GoalChange.snapshot change).toJson = .obj change.fields := rfl
    have hkind : get? "kind" change.fields = some (.str goalChangeType) := rfl
    have hget : get? "version" change.fields = some (ofNat goalChangeVersion) := rfl
    have hoperation : get? "operation" change.fields
        = some (.str change.operation.name) := rfl
    simp only [hjson, decodeGoalChange, hkind, hget, hoperation, hversion, asText, ne_eq,
      not_true_eq_false, if_false, Bool.not_true, Bool.false_eq_true, Option.some.injEq,
      change.operation.name_ne_clear]
    have hdecode := decodeOperation_name change.operation
    simp only [hdecode, decodeSnapshotChange_fields h]
    rfl

/-! ## What decodes -/

theorem decodeBlockReason_wellFormed {reason : GoalBlockReason}
    (h : decodeBlockReason value = .ok reason) : reason.WellFormed := by
  unfold decodeBlockReason at h
  split at h
  · split at h
    · cases h
    split at h
    · cases h
    split at h
    · cases h
    rename_i hcode
    split at h
    · cases h
    split at h
    · cases h
    rename_i hmessage
    cases h
    exact ⟨by simpa using hcode, by simpa using hmessage⟩
  · cases h

theorem decodePhaseReason_cases {phase : GoalPhase}
    {reason : Option GoalBlockReason} (h : decodePhaseReason phase value = .ok reason) :
    (reason.isSome ↔ phase = .blocked) ∧ ∀ r, reason = some r → r.WellFormed := by
  cases phase with
  | blocked =>
    simp only [decodePhaseReason] at h
    obtain ⟨r, hdecode, h⟩ := Except.bind_eq_ok.mp h
    cases h
    refine ⟨by simp, ?_⟩
    rintro r' hr'
    cases hr'
    exact decodeBlockReason_wellFormed hdecode
  | active =>
    cases h
    simp
  | paused =>
    cases h
    simp
  | complete =>
    cases h
    simp

theorem decodeSnapshot_wellFormed (h : decodeSnapshot value = .ok goal) : goal.WellFormed := by
  unfold decodeSnapshot at h
  split at h
  · split at h
    · cases h
    split at h
    · cases h
    rename_i hid
    split at h
    · cases h
    split at h
    · cases h
    rename_i hobjective
    split at h
    · cases h
    split at h
    · cases h
    obtain ⟨revision, hrevision, h⟩ := bind_eq_ok.mp h
    obtain ⟨maxGoalRounds, hmax, h⟩ := bind_eq_ok.mp h
    obtain ⟨blockedReason, hreason, h⟩ := bind_eq_ok.mp h
    cases h
    obtain ⟨hblocked, hwell⟩ := decodePhaseReason_cases hreason
    exact {
      ref := ⟨by simpa using hid, positiveInteger_positive hrevision⟩
      objective := by simpa using hobjective
      maxGoalRounds := positiveInteger_positive hmax
      blocked := hblocked
      reason := hwell }
  · cases h

theorem decodeRef_wellFormed {ref : GoalRef} (h : decodeRef value = .ok ref) : ref.WellFormed := by
  unfold decodeRef at h
  split at h
  · split at h
    · cases h
    split at h
    · cases h
    split at h
    · cases h
    rename_i hid
    obtain ⟨revision, hrevision, h⟩ := bind_eq_ok.mp h
    cases h
    exact ⟨by simpa using hid, positiveInteger_positive hrevision⟩
  · cases h

theorem decodeClear_wellFormed {fields : List (JsString × Json)}
    (h : decodeClear fields = .ok change) : change.WellFormed := by
  unfold decodeClear at h
  split at h
  · cases h
  obtain ⟨cleared, hcleared, h⟩ := bind_eq_ok.mp h
  obtain ⟨clearedAt, htime, h⟩ := bind_eq_ok.mp h
  cases h
  exact ⟨decodeRef_wellFormed hcleared, isTime_of_le (nonNegativeInteger_safe htime)⟩

theorem decodeSnapshotChange_wellFormed {operation : SnapshotOperation}
    {fields : List (JsString × Json)}
    (h : decodeSnapshotChange operation fields = .ok change) : change.WellFormed := by
  unfold decodeSnapshotChange at h
  split at h
  · cases h
  obtain ⟨createdAt, hcreated, h⟩ := bind_eq_ok.mp h
  obtain ⟨updatedAt, hupdated, h⟩ := bind_eq_ok.mp h
  split at h
  · cases h
  rename_i hordered
  obtain ⟨goal, hgoal, h⟩ := bind_eq_ok.mp h
  obtain ⟨roundsStarted, hrounds, h⟩ := bind_eq_ok.mp h
  cases h
  exact {
    goal := decodeSnapshot_wellFormed hgoal
    roundsStarted := nonNegativeInteger_safe hrounds
    createdAt := isTime_of_le (nonNegativeInteger_safe hcreated)
    updatedAt := isTime_of_le (nonNegativeInteger_safe hupdated)
    ordered := by
      show (createdAt : Int) ≤ (updatedAt : Int)
      omega }

theorem map_some_ok {α : Type} {x : Except String α} {a : α}
    (h : x.map some = .ok (some a)) : x = .ok a := by
  cases x with
  | error e => cases h
  | ok b =>
    cases h
    rfl

theorem decodeGoalChange_wellFormed {value : Json}
    (h : decodeGoalChange value = .ok (some change)) : change.WellFormed := by
  unfold decodeGoalChange at h
  split at h
  · split at h
    · cases h
    split at h
    · cases h
    split at h
    · exact decodeClear_wellFormed (map_some_ok h)
    split at h
    · cases h
    · exact decodeSnapshotChange_wellFormed (map_some_ok h)
  · cases h

end Harness
