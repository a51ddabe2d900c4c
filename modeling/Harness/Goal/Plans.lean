-- SUMMARY: What each request plans is what the strict fold accepts: the guards of the service against the validators of the fold.
import Harness.Goal.Service
import Harness.Goal.FoldContract
import Mathlib.Data.List.DropRight

/-!
# Plans

The service checks a request against its cache, the fold checks the change against the log. Where
the cache is the fold of the log, a change that the service plans is one the fold accepts.
-/

namespace Harness

open Except (bind_eq_ok)

/-! ## Normalized texts -/

theorem JsString.trim_units (s : JsString) :
    s.trim.units = (s.units.dropWhile isWhiteSpace).rdropWhile isWhiteSpace := rfl

theorem JsString.trim_trim (s : JsString) : s.trim.trim = s.trim := by
  have hunits : s.trim.trim.units = s.trim.units := by
    rw [JsString.trim_units s.trim, JsString.trim_units s]
    -- what is left starts where the text without its leading white space starts
    have hhead : ((s.units.dropWhile isWhiteSpace).rdropWhile isWhiteSpace).dropWhile isWhiteSpace
        = (s.units.dropWhile isWhiteSpace).rdropWhile isWhiteSpace := by
      rw [List.dropWhile_eq_self_iff]
      intro hlen
      have hbegins := List.rdropWhile_prefix isWhiteSpace (s.units.dropWhile isWhiteSpace)
      have hpos : 0 < (s.units.dropWhile isWhiteSpace).length := hlen.trans_le hbegins.length_le
      have hsame : ((s.units.dropWhile isWhiteSpace).rdropWhile isWhiteSpace)[0]
          = (s.units.dropWhile isWhiteSpace)[0] := hbegins.getElem hlen
      rw [hsame]
      exact List.dropWhile_eq_self_iff.mp (List.dropWhile_idempotent _ _) hpos
    rw [hhead, List.rdropWhile_idempotent]
  cases hs : s.trim.trim
  cases ht : s.trim
  simp_all

theorem isNormalized_trim {s : JsString} (h : s.trim.units.isEmpty = false) :
    isNormalized s.trim = true := by
  simp [isNormalized, JsString.trim_trim, h]

/-! ## Request checks -/

variable {value : JsValue}

theorem JsValue.asSafeInteger_safe {z : Int} (h : value.asSafeInteger = some z) :
    isSafeInt z = true := by
  unfold JsValue.asSafeInteger at h
  split at h
  · rename_i n
    have hnum : (Json.num n).asSafeInteger = some z := h
    exact isSafeInt_of_asSafeInteger hnum
  · cases h
    decide
  · cases h

theorem resolveMaxGoalRounds_positive {n : Nat}
    (h : resolveMaxGoalRounds value = .ok n) : IsPositive n := by
  unfold resolveMaxGoalRounds at h
  split at h
  · cases h
  rename_i z hz
  split at h
  · cases h
  rename_i hlow
  cases h
  have hsafe := JsValue.asSafeInteger_safe hz
  simp only [isSafeInt, decide_eq_true_eq] at hsafe
  exact ⟨by omega, by omega⟩

theorem resolveObjective_normalized {objective : JsString}
    (h : resolveObjective value = .ok objective) : isNormalized objective = true := by
  unfold resolveObjective at h
  split at h
  · split at h
    · cases h
    rename_i hempty
    cases h
    exact isNormalized_trim (by simpa using hempty)
  · cases h

theorem resolveBlockReason_wellFormed {reason : GoalBlockReason}
    (h : resolveBlockReason value = .ok reason) : reason.WellFormed := by
  unfold resolveBlockReason at h
  split at h
  · split at h
    · cases h
    rename_i hbad
    cases h
    simp only [Bool.or_eq_true, Bool.not_eq_true', not_or, Bool.not_eq_true,
      Bool.not_eq_false] at hbad
    exact ⟨hbad.1, isNormalized_trim hbad.2⟩
  · cases h

theorem resolveCreateGoal_ok {request : CreateGoalRequest} {cap : Nat} {spec : ResolvedCreateGoal}
    (h : resolveCreateGoal request cap = .ok spec) :
    isNormalized spec.objective = true ∧ IsPositive spec.maxGoalRounds := by
  obtain ⟨objective, hobjective, h⟩ := bind_eq_ok.mp h
  obtain ⟨maxGoalRounds, hmax, h⟩ := bind_eq_ok.mp h
  cases h
  exact ⟨resolveObjective_normalized hobjective, resolveMaxGoalRounds_positive hmax⟩

/-! ## The fold accepts the plan -/

/-- Where a request names a revision, it is the current one. -/
def GoalRequest.ref? : GoalRequest → Option GoalRefArg
  | .create .. => none
  | .edit ref .. => some ref
  | .pause ref _ => some ref
  | .resume ref _ => some ref
  | .complete ref _ => some ref
  | .block ref .. => some ref
  | .clear ref _ => some ref

def GoalRefArg.Names (ref : GoalRefArg) (goal : GoalSnapshot) : Prop :=
  ref.id = goal.id ∧ ref.revision = .finite (.int goal.revision)

variable {cache : GoalCache} {log : List SessionEvent} {ref : GoalRefArg} {now : TimeValue}
  {intent : GoalIntent}

variable {current : GoalSnapshot}

theorem GoalCache.expectCurrent_ok (h : cache.expectCurrent ref = .ok current) :
    cache.state.goal = some current ∧ ref.Names current := by
  unfold GoalCache.expectCurrent at h
  split at h
  · cases h
  rename_i goal hgoal
  split at h
  · cases h
  rename_i hstale
  cases h
  simp only [not_or, not_not] at hstale
  exact ⟨hgoal, hstale⟩

/-- What a plan promises. -/
structure GoalIntent.Sound (intent : GoalIntent) (state : GoalFoldState) : Prop where
  wellFormed : intent.change.WellFormed
  accepted : ∃ state', state.Accepts intent.change state'

variable {activation : GoalActivation} {operation : SnapshotOperation}

/-- A revision that the fold accepts, with the counters and times of the current goal. -/
theorem commitCurrent_sound (hreplays : cache.state.Replays log)
    (hroom : log.length < maxSafeInteger)
    {current goal : GoalSnapshot}
    (h : commitCurrent cache operation goal activation now = .ok intent)
    (hcurrent : cache.state.goal = some current) (hoperation : operation ≠ .create)
    (hid : goal.id = current.id) (hrevision : goal.revision = current.revision + 1)
    (hobjective : isNormalized goal.objective = true) (hcap : IsPositive goal.maxGoalRounds)
    (hblocked : goal.blockedReason.isSome ↔ goal.phase = .blocked)
    (hreason : ∀ reason, goal.blockedReason = some reason → reason.WellFormed)
    (hvalid : validateOperation cache.state.roundsStarted operation current goal = .ok ()) :
    intent.Sound cache.state := by
  obtain ⟨createdAt, updatedAt, hcarries⟩ := hreplays.carries current hcurrent
  have hbound := hreplays.revision_le hcurrent
  have hmax : (now.val : Int) ≤ maxSafeInteger := by
    have := now.property.2
    simp only [maxSafeInteger]
    omega
  simp only [commitCurrent, hcarries.created] at h
  obtain ⟨time, htime, h⟩ := bind_eq_ok.mp h
  simp only [GoalCache.nextMutationTime, hcarries.updated, Except.ok.injEq] at htime
  cases h
  have hlater : updatedAt ≤ time := htime ▸ le_max_right _ _
  have hsafe : time ≤ maxSafeInteger := htime ▸ max_le hmax hcarries.updatedTime.2
  have hgoal : goal.WellFormed := {
    ref := ⟨hid ▸ hcarries.wellFormed.ref.id, by omega, by omega⟩
    objective := hobjective
    maxGoalRounds := hcap
    blocked := hblocked
    reason := hreason }
  refine ⟨?_, _, .revise hoperation hcurrent hid hrevision hcarries.updated hlater
    hcarries.created rfl hvalid⟩
  exact {
    goal := hgoal
    roundsStarted := hcarries.roundsStarted
    createdAt := hcarries.createdTime
    updatedAt := ⟨hcarries.updatedTime.1.trans hlater, hsafe⟩
    ordered := hcarries.ordered.trans hlater }

variable {phase : GoalPhase}

/-- The current goal under another phase than `blocked`. -/
theorem withPhase_sound (hreplays : cache.state.Replays log)
    (hroom : log.length < maxSafeInteger)
    (hcurrent : cache.state.goal = some current) (hoperation : operation ≠ .create)
    (hphase : phase ≠ .blocked)
    (hvalid : validateOperation cache.state.roundsStarted operation current
      (withPhase current phase) = .ok ())
    (h : commitCurrent cache operation (withPhase current phase) activation now = .ok intent) :
    intent.Sound cache.state := by
  obtain ⟨createdAt, updatedAt, hcarries⟩ := hreplays.carries current hcurrent
  have hid : (withPhase current phase).id = current.id := rfl
  have hrevision : (withPhase current phase).revision = current.revision + 1 := rfl
  have hobjective : isNormalized (withPhase current phase).objective = true :=
    hcarries.wellFormed.objective
  have hcap : IsPositive (withPhase current phase).maxGoalRounds :=
    hcarries.wellFormed.maxGoalRounds
  have hnone : (withPhase current phase).blockedReason = none := rfl
  have hplain : (withPhase current phase).phase ≠ .blocked := hphase
  refine commitCurrent_sound hreplays hroom h hcurrent hoperation hid hrevision hobjective hcap ?_ ?_
    hvalid
  · simp [hnone, hplain]
  · intro reason hreason
    cases hnone.symm.trans hreason

theorem transition_ok {allowed : List GoalPhase}
    (h : transition cache ref operation allowed phase activation now = .ok intent) :
    ∃ current, cache.state.goal = some current ∧ ref.Names current ∧
      allowed.contains current.phase = true ∧
      commitCurrent cache operation (withPhase current phase) activation now = .ok intent := by
  obtain ⟨current, hcurrent, h⟩ := bind_eq_ok.mp h
  obtain ⟨hgoal, hnames⟩ := GoalCache.expectCurrent_ok hcurrent
  split at h
  · cases h
  · rename_i hallowed
    exact ⟨current, hgoal, hnames, by simpa using hallowed, h⟩

/-! ## Every request -/

/-- The clock of a create is not before the epoch. -/
def GoalRequest.Timely : GoalRequest → Prop
  | .create _ now _ => 0 ≤ now.val
  | _ => True

/-- The id of a create is one the log has not seen. -/
def GoalRequest.Fresh (request : GoalRequest) (state : GoalFoldState) : Prop :=
  match request with
  | .create _ _ uuid => newGoalId uuid ∉ state.seenGoalIds
  | _ => True

/-- What the service relies on when it appends what it planned. -/
structure GoalRequest.Planned (request : GoalRequest) (log : List SessionEvent)
    (cache : GoalCache) (intent : GoalIntent) : Prop where
  names : ∀ ref, request.ref? = some ref →
    ∃ goal, cache.state.goal = some goal ∧ ref.Names goal
  arms : intent.activation = .armed →
    intent.change.operation = .snapshot .create ∨ intent.change.operation = .snapshot .resume ∨
      intent.change.operation = .snapshot .edit ∧ cache.activation = .armed
  sound : log.length < maxSafeInteger → request.Timely → request.Fresh cache.state →
    intent.Sound cache.state

theorem commitCurrent_ok {goal : GoalSnapshot}
    (h : commitCurrent cache operation goal activation now = .ok intent) :
    intent.change.operation = .snapshot operation ∧ intent.activation = activation := by
  unfold commitCurrent at h
  split at h
  · cases h
  obtain ⟨updatedAt, -, h⟩ := bind_eq_ok.mp h
  cases h
  exact ⟨rfl, rfl⟩

theorem create_planned {request : CreateGoalRequest} {uuid : JsString} {cap : Nat}
    {spec : ResolvedCreateGoal} (hspec : resolveCreateGoal request cap = .ok spec)
    (h : GoalService.create cache spec now uuid = .ok intent) :
    (GoalRequest.create request now uuid).Planned log cache intent := by
  obtain ⟨hobjective, hcap⟩ := resolveCreateGoal_ok hspec
  let goal : GoalSnapshot := {
    id := newGoalId uuid
    revision := 1
    objective := spec.objective
    phase := .active
    maxGoalRounds := spec.maxGoalRounds }
  let change : GoalSnapshotChange := {
    operation := .create, goal, roundsStarted := 0, createdAt := now.val, updatedAt := now.val }
  have hcases : intent = { change := .snapshot change, activation := .armed } ∧
      cache.state.goal.all (·.phase == .complete) = true := by
    unfold GoalService.create at h
    split at h
    · rename_i hnone
      cases h
      exact ⟨rfl, by rw [hnone]; rfl⟩
    rename_i current hcurrent
    split at h
    · cases h
    rename_i hcomplete
    cases h
    exact ⟨rfl, by simpa [hcurrent] using hcomplete⟩
  obtain ⟨rfl, hreplaces⟩ := hcases
  refine ⟨fun ref h => (by cases h), fun _ => .inl rfl, fun _ htimely hfresh => ?_⟩
  have htime : IsTime now.val := by
    refine ⟨htimely, ?_⟩
    have := now.property.2
    simp only [maxSafeInteger]
    omega
  have hunseen : cache.state.seenGoalIds.contains (newGoalId uuid) = false := by
    simpa [GoalRequest.Fresh] using hfresh
  have hfounds : cache.state.founds change = true := by
    simpa [GoalFoldState.founds, change, goal, hreplaces] using hunseen
  have hone : IsPositive 1 := ⟨le_rfl, by decide⟩
  refine ⟨?_, _, .create rfl hfounds⟩
  exact {
    goal := {
      ref := ⟨rfl, hone⟩
      objective := hobjective
      maxGoalRounds := hcap
      blocked := by simp [change, goal]
      reason := by simp }
    roundsStarted := Nat.zero_le _
    createdAt := htime
    updatedAt := htime
    ordered := le_rfl }

theorem validate_edit {rounds : Nat} {current next : GoalSnapshot}
    (hphase : next.phase = current.phase) (hreason : next.blockedReason = current.blockedReason) :
    validateOperation rounds .edit current next = .ok () := by
  simp [validateOperation, hphase, hreason]

section

variable (hreplays : cache.state.Replays log)
include hreplays

theorem edit_planned {request : EditGoalRequest}
    (h : GoalService.edit cache ref request now = .ok intent) :
    (GoalRequest.edit ref request now).Planned log cache intent := by
  obtain ⟨current, hcurrent, h⟩ := bind_eq_ok.mp h
  obtain ⟨hgoal, hnames⟩ := GoalCache.expectCurrent_ok hcurrent
  obtain ⟨createdAt, updatedAt, hcarries⟩ := hreplays.carries current hgoal
  have hedits : ∃ objective maxGoalRounds,
      GoalService.replaceField request.objective current.objective resolveObjective
        = .ok objective ∧
      GoalService.replaceField request.maxGoalRounds current.maxGoalRounds resolveMaxGoalRounds
        = .ok maxGoalRounds ∧
      commitCurrent cache .edit
        { current with revision := current.revision + 1, objective, maxGoalRounds }
        cache.activation now = .ok intent := by
    split at h
    · cases h
    obtain ⟨objective, hobjective, h⟩ := bind_eq_ok.mp h
    obtain ⟨maxGoalRounds, hmax, h⟩ := bind_eq_ok.mp h
    exact ⟨objective, maxGoalRounds, hobjective, hmax, h⟩
  obtain ⟨objective, maxGoalRounds, hobjective, hmax, hcommit⟩ := hedits
  have hnormal : isNormalized objective = true := by
    unfold GoalService.replaceField at hobjective
    split at hobjective
    · cases hobjective
      exact hcarries.wellFormed.objective
    · exact resolveObjective_normalized hobjective
  have hcap : IsPositive maxGoalRounds := by
    unfold GoalService.replaceField at hmax
    split at hmax
    · cases hmax
      exact hcarries.wellFormed.maxGoalRounds
    · exact resolveMaxGoalRounds_positive hmax
  obtain ⟨hoperation, hactivation⟩ := commitCurrent_ok hcommit
  refine ⟨?_, ?_, ?_⟩
  · rintro ref' ⟨⟩
    exact ⟨current, hgoal, hnames⟩
  · intro harmed
    exact .inr (.inr ⟨hoperation, hactivation.symm.trans harmed⟩)
  · intro hroom _ _
    exact commitCurrent_sound hreplays hroom hcommit hgoal (by decide) rfl rfl hnormal hcap
      hcarries.wellFormed.blocked hcarries.wellFormed.reason (validate_edit rfl rfl)

/-- A request that moves the current goal to another phase. -/
theorem phase_planned {request : GoalRequest}
    (h : commitCurrent cache operation (withPhase current phase) activation now = .ok intent)
    (href : request.ref? = some ref)
    (hgoal : cache.state.goal = some current) (hnames : ref.Names current)
    (hoperation : operation ≠ .create) (hphase : phase ≠ .blocked)
    (harms : activation = .armed → operation = .resume)
    (hvalid : validateOperation cache.state.roundsStarted operation current
      (withPhase current phase) = .ok ()) :
    request.Planned log cache intent := by
  obtain ⟨hop, hactivation⟩ := commitCurrent_ok h
  refine ⟨?_, ?_, ?_⟩
  · intro ref' href'
    cases href.symm.trans href'
    exact ⟨current, hgoal, hnames⟩
  · intro harmed
    have hresume : operation = .resume := harms (hactivation.symm.trans harmed)
    exact .inr (.inl (by rw [hop, hresume]))
  · intro hroom _ _
    exact withPhase_sound hreplays hroom hgoal hoperation hphase hvalid h

theorem pause_planned (h : GoalService.pause cache ref now = .ok intent) :
    (GoalRequest.pause ref now).Planned log cache intent := by
  obtain ⟨current, hgoal, hnames, hallowed, hcommit⟩ := transition_ok h
  refine phase_planned hreplays hcommit rfl hgoal hnames (by decide) (by decide) nofun ?_
  have hphase : current.phase = .active := by simpa using hallowed
  simp [validateOperation, requirePhases, requireSameDefinition, withPhase, hphase]

theorem complete_planned (h : GoalService.complete cache ref now = .ok intent) :
    (GoalRequest.complete ref now).Planned log cache intent := by
  obtain ⟨current, hgoal, hnames, hallowed, hcommit⟩ := transition_ok h
  refine phase_planned hreplays hcommit rfl hgoal hnames (by decide) (by decide) nofun ?_
  have hphase : current.phase ≠ .complete := by
    rintro hcomplete
    simp [hcomplete] at hallowed
  simp [validateOperation, requirePhases, requireSameDefinition, withPhase, hphase]

theorem resume_planned (h : GoalService.resume cache ref now = .ok intent) :
    (GoalRequest.resume ref now).Planned log cache intent := by
  obtain ⟨current, hcurrent, h⟩ := bind_eq_ok.mp h
  obtain ⟨hgoal, hnames⟩ := GoalCache.expectCurrent_ok hcurrent
  dsimp only at h
  split at h
  · cases h
  rename_i hresumable
  split at h
  · cases h
  split at h
  · cases h
  rename_i hbudget
  refine phase_planned hreplays h rfl hgoal hnames (by decide) (by decide) (fun _ => rfl) ?_
  have hallowed : current.phase = .active ∨ current.phase = .paused ∨
      current.phase = .blocked := by
    cases hphase : current.phase <;> simp_all
  have hleft : cache.state.roundsStarted < current.maxGoalRounds := not_le.mp hbudget
  simp [validateOperation, requirePhases, requireSameDefinition, withPhase, hleft, hallowed]

theorem block_planned {reason : JsValue} (h : GoalService.block cache ref reason now = .ok intent) :
    (GoalRequest.block ref reason now).Planned log cache intent := by
  obtain ⟨current, hcurrent, h⟩ := bind_eq_ok.mp h
  obtain ⟨hgoal, hnames⟩ := GoalCache.expectCurrent_ok hcurrent
  obtain ⟨createdAt, updatedAt, hcarries⟩ := hreplays.carries current hgoal
  split at h
  · cases h
  rename_i hactive
  obtain ⟨blockedReason, hreason, h⟩ := bind_eq_ok.mp h
  obtain ⟨hop, hactivation⟩ := commitCurrent_ok h
  refine ⟨?_, ?_, ?_⟩
  · rintro ref' ⟨⟩
    exact ⟨current, hgoal, hnames⟩
  · intro harmed
    cases hactivation.symm.trans harmed
  intro hroom _ _
  refine commitCurrent_sound hreplays hroom h hgoal (by decide) rfl rfl
    hcarries.wellFormed.objective hcarries.wellFormed.maxGoalRounds ?_ ?_ ?_
  · simp [withPhase]
  · rintro reason' ⟨⟩
    exact resolveBlockReason_wellFormed hreason
  · have hphase : current.phase = .active := not_not.mp hactive
    simp [validateOperation, requirePhases, requireSameDefinition, withPhase, hphase]

theorem clear_planned (h : GoalService.clear cache ref now = .ok intent) :
    (GoalRequest.clear ref now).Planned log cache intent := by
  obtain ⟨current, hcurrent, h⟩ := bind_eq_ok.mp h
  obtain ⟨hgoal, hnames⟩ := GoalCache.expectCurrent_ok hcurrent
  obtain ⟨createdAt, updatedAt, hcarries⟩ := hreplays.carries current hgoal
  obtain ⟨clearedAt, htime, h⟩ := bind_eq_ok.mp h
  simp only [GoalCache.nextMutationTime, hcarries.updated, Except.ok.injEq] at htime
  cases h
  have hlater : updatedAt ≤ clearedAt := htime ▸ le_max_right _ _
  have hmax : (now.val : Int) ≤ maxSafeInteger := by
    have := now.property.2
    simp only [maxSafeInteger]
    omega
  have hsafe : clearedAt ≤ maxSafeInteger := htime ▸ max_le hmax hcarries.updatedTime.2
  have hbound := hreplays.revision_le hgoal
  refine ⟨?_, nofun, fun hroom _ _ => ⟨?_, _, .clear hgoal hcarries.updated hlater⟩⟩
  · rintro ref' ⟨⟩
    exact ⟨current, hgoal, hnames⟩
  · have hrevision : IsPositive (current.revision + 1) := ⟨by omega, by omega⟩
    exact ⟨⟨hcarries.wellFormed.ref.id, hrevision⟩, hcarries.updatedTime.1.trans hlater, hsafe⟩

/-- Whatever a request plans, the fold accepts. -/
theorem GoalRequest.plan_planned
    {request : GoalRequest} {config : GoalServiceConfig}
    (h : request.plan config cache = .ok intent) : request.Planned log cache intent := by
  cases request with
  | create request now uuid =>
    obtain ⟨spec, hspec, h⟩ := bind_eq_ok.mp h
    exact create_planned hspec h
  | edit ref request now => exact edit_planned hreplays h
  | pause ref now => exact pause_planned hreplays h
  | resume ref now => exact resume_planned hreplays h
  | complete ref now => exact complete_planned hreplays h
  | block ref reason now => exact block_planned hreplays h
  | clear ref now => exact clear_planned hreplays h

end

theorem applyGoalEvent_change {state state' : GoalFoldState} {change : GoalChange}
    (hwell : change.WellFormed) (haccepts : state.Accepts change state') {event : SessionEvent}
    (hdata : event.data = change.eventData) : applyGoalEvent state event = .ok state' := by
  simp only [applyGoalEvent, hdata, GoalChange.eventData, if_true, decodeGoalChange_toJson hwell]
  exact haccepts.apply

end Harness
