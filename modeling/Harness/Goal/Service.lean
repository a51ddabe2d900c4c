-- SUMMARY: The goal service of `goal/src/index.ts`: request checks, the per-session cache and the calls, up to the session's append and around it.
import Harness.Goal.Fold
import Harness.Lib.Transitions

/-!
# Goal service

The service keeps a fold of the session log with a process-local activation. A mutation checks
its ref against that fold, appends one change and folds it in again. The append runs the
session's listeners before and after the log grows, and the listeners of `goal/changed` run
before the call returns; all of them may call the service. A call is therefore several steps.
-/

namespace Harness

/-! ## Request checks -/

/-- A time value of a `Date`. -/
abbrev TimeValue := { t : Int // -8640000000000000 ≤ t ∧ t ≤ 8640000000000000 }

structure GoalServiceConfig where
  defaultMaxGoalRounds : Nat
  /-- Checked when the service is built. -/
  positive : 1 ≤ defaultMaxGoalRounds ∧ defaultMaxGoalRounds ≤ maxSafeInteger

/-- The value of a safe integer, `none` for every other value. -/
def JsValue.asSafeInteger : JsValue → Option Int
  | .number (.finite n) => n.asSafeInteger
  | .number .negZero => some 0
  | _ => none

/-- `String(number)`. -/
def JsNumber.display : JsNumber → JsString
  | .nan => "NaN"
  | .infinity true => "-Infinity"
  | .infinity false => "Infinity"
  | .negZero => "0"
  | .finite n => ⟨n.toText⟩

/-- `record?.[key]` of a value that is a record. -/
def JsValue.field (key : JsString) : JsValue → JsValue
  | .object _ _ fields => ((fields.find? fun field => field.1 == key).map Prod.snd).getD .undefined
  | _ => .undefined

/-- Validate a caller-visible positive safe-integer round cap. -/
def resolveMaxGoalRounds (value : JsValue) : Except GoalThrow Nat :=
  match value.asSafeInteger with
  | none => .error (.goalError "maxGoalRounds must be a positive safe integer" .invalidMaxRounds)
  | some z =>
    if z < 1 then
      .error (.goalError "maxGoalRounds must be a positive safe integer" .invalidMaxRounds)
    else .ok z.toNat

/-- Validate and normalize an objective at the domain boundary. -/
def resolveObjective : JsValue → Except GoalThrow JsString
  | .str value =>
    if value.trim.units.isEmpty then
      .error (.goalError "goal objective must be a non-empty string" .invalidObjective)
    else .ok value.trim
  | _ => .error (.goalError "goal objective must be a non-empty string" .invalidObjective)

structure ResolvedCreateGoal where
  objective : JsString
  maxGoalRounds : Nat

/-- `value ?? fallback`. -/
def JsValue.orElse (value fallback : JsValue) : JsValue :=
  match value with
  | .undefined => fallback
  | .null => fallback
  | value => value

/-- Materialize deployment defaults and validate one create request. -/
def resolveCreateGoal (request : CreateGoalRequest) (defaultMaxGoalRounds : Nat) :
    Except GoalThrow ResolvedCreateGoal := do
  let objective ← resolveObjective request.objective
  let maxGoalRounds ← resolveMaxGoalRounds
    (request.maxGoalRounds.orElse (.number (.finite (.int defaultMaxGoalRounds))))
  return { objective, maxGoalRounds }

/-- Validate and detach one policy-owned blocker explanation. -/
def resolveBlockReason (reason : JsValue) : Except GoalThrow GoalBlockReason :=
  match reason.field "code", reason.field "message" with
  | .str code, .str message =>
    if !isLowerKebab code || message.trim.units.isEmpty then
      .error (.goalError
        "goal block reason requires a lower-kebab-case code and a non-empty message"
        .invalidBlockReason)
    else .ok { code, message := message.trim }
  | _, _ =>
    .error (.goalError
      "goal block reason requires a lower-kebab-case code and a non-empty message"
      .invalidBlockReason)

/-! ## Cache -/

/-- The activation a change brings along when the cache observes its event. -/
structure PendingActivation where
  seq : Nat
  activation : GoalActivation

structure GoalCache where
  state : GoalFoldState
  activation : GoalActivation
  observedSeq : Nat
  pendingActivation : Option PendingActivation

namespace GoalCache

/-- Fold a seed once, with activation disarmed. -/
def fresh (log : List SessionEvent) : Except String GoalCache :=
  (foldGoalEvents log).map fun state =>
    { state, activation := .disarmed, observedSeq := log.length, pendingActivation := none }

variable (cache : GoalCache)

def activationAfter (event : SessionEvent) : GoalActivation :=
  if event.type = goalChangeType then
    match cache.pendingActivation with
    | some pending => if pending.seq = event.seq then pending.activation else .disarmed
    | none => .disarmed
  else cache.activation

/-- Observe events in turn; a refused event stops the loop behind the events before it. -/
def observe (cache : GoalCache) : List SessionEvent → Except String Unit × GoalCache
  | [] => (.ok (), cache)
  | event :: rest =>
    match applyGoalEvent cache.state event with
    | .error e => (.error e, cache)
    | .ok state =>
      observe { cache with
        state, activation := cache.activationAfter event
        observedSeq := cache.observedSeq + 1 } rest

/-- Incrementally observe durable events and reconcile local activation intent. -/
def sync (log : List SessionEvent) : Except String Unit × GoalCache :=
  cache.observe (log.drop cache.observedSeq)

/-- Build a detached current view. -/
def view : Except GoalThrow (Option GoalView) :=
  match cache.state.goal with
  | none => .ok none
  | some goal =>
    match cache.state.createdAt, cache.state.updatedAt with
    | some createdAt, some updatedAt =>
      .ok (some { goal with
        roundsStarted := cache.state.roundsStarted, createdAt, updatedAt
        activation := cache.activation })
    | _, _ => .error (.error s!"goal \"{goal.id}\" cache lacks timestamps")

/-- Reject stale or missing current-state refs. -/
def expectCurrent (ref : GoalRefArg) : Except GoalThrow GoalSnapshot :=
  match cache.state.goal with
  | none => .error (.goalError "no current goal" .notFound)
  | some current =>
    if ref.id ≠ current.id ∨ ref.revision ≠ .finite (.int current.revision) then
      .error (.goalError
        s!"stale goal ref \"{ref.id}\" revision {ref.revision.display}; current is \"{current.id}\" revision {current.revision}"
        .staleRevision)
    else .ok current

/-- Clamp a current goal's next timestamp across backward wall-clock movement. -/
def nextMutationTime (now : TimeValue) : Except GoalThrow Int :=
  match cache.state.updatedAt with
  | none => .error (.error "current goal cache lacks updatedAt")
  | some updatedAt => .ok (max now.val updatedAt)

end GoalCache

/-! ## Mutations -/

/-- A change to append and the activation it brings along. -/
structure GoalIntent where
  change : GoalChange
  activation : GoalActivation

/-- Render a stable invalid-transition error. -/
def transitionError (current : GoalSnapshot) (operation : SnapshotOperation)
    (allowed : List GoalPhase) : GoalThrow :=
  let expected := " or ".intercalate (allowed.map GoalPhase.name)
  .goalError
    s!"cannot {operation.name} goal \"{current.id}\" from phase \"{current.phase.name}\"; expected {expected}"
    .invalidTransition

/-- Build a new revision with one replacement phase. -/
def withPhase (current : GoalSnapshot) (phase : GoalPhase) : GoalSnapshot where
  id := current.id
  revision := current.revision + 1
  objective := current.objective
  phase := phase
  maxGoalRounds := current.maxGoalRounds

/-- A mutation that retains the current goal's derived counters and times. -/
def commitCurrent (cache : GoalCache) (operation : SnapshotOperation) (goal : GoalSnapshot)
    (activation : GoalActivation) (now : TimeValue) : Except GoalThrow GoalIntent :=
  match cache.state.createdAt with
  | none => .error (.error "current goal cache lacks createdAt")
  | some createdAt => do
    let updatedAt ← cache.nextMutationTime now
    let change := { operation, goal, roundsStarted := cache.state.roundsStarted, createdAt, updatedAt }
    return { change := .snapshot change, activation }

/-- Shared validated phase transition. -/
def transition (cache : GoalCache) (ref : GoalRefArg) (operation : SnapshotOperation)
    (allowed : List GoalPhase) (phase : GoalPhase) (activation : GoalActivation)
    (now : TimeValue) : Except GoalThrow GoalIntent := do
  let current ← cache.expectCurrent ref
  if !allowed.contains current.phase then .error (transitionError current operation allowed)
  else commitCurrent cache operation (withPhase current phase) activation now

/-- `goal-${uuid}`. -/
def newGoalId (uuid : JsString) : GoalId := ⟨(JsString.ofString "goal-").units ++ uuid.units⟩

namespace GoalService

variable (cache : GoalCache)

/-- Create and arm a goal; `uuid` is what `randomUUID()` gives. -/
def create (spec : ResolvedCreateGoal) (now : TimeValue) (uuid : JsString) :
    Except GoalThrow GoalIntent :=
  let goal : GoalSnapshot := {
    id := newGoalId uuid
    revision := 1
    objective := spec.objective
    phase := .active
    maxGoalRounds := spec.maxGoalRounds }
  let intent : GoalIntent := {
    change := .snapshot {
      operation := .create, goal, roundsStarted := 0, createdAt := now.val, updatedAt := now.val }
    activation := .armed }
  match cache.state.goal with
  | none => .ok intent
  | some current =>
    if current.phase ≠ .complete then
      .error (.goalError
        s!"goal \"{current.id}\" already exists with phase \"{current.phase.name}\"" .alreadyExists)
    else .ok intent

/-- The optional replacement of one field. -/
def replaceField {α : Type} (value : JsValue) (current : α) (resolve : JsValue → Except GoalThrow α) :
    Except GoalThrow α :=
  match value with
  | .undefined => .ok current
  | value => resolve value

/-- Edit objective and/or round cap without changing phase. -/
def edit (cache : GoalCache) (ref : GoalRefArg) (request : EditGoalRequest) (now : TimeValue) :
    Except GoalThrow GoalIntent := do
  let current ← cache.expectCurrent ref
  match request.objective, request.maxGoalRounds with
  | .undefined, .undefined =>
    .error (.goalError "goal edit requires objective and/or maxGoalRounds" .invalidEdit)
  | _, _ =>
    let objective ← replaceField request.objective current.objective resolveObjective
    let maxGoalRounds ← replaceField request.maxGoalRounds current.maxGoalRounds resolveMaxGoalRounds
    commitCurrent cache .edit
      { current with revision := current.revision + 1, objective, maxGoalRounds } cache.activation now

/-- Pause an active goal and disarm automatic continuation. -/
def pause (ref : GoalRefArg) (now : TimeValue) : Except GoalThrow GoalIntent :=
  transition cache ref .pause [.active] .paused .disarmed now

/-- Resume and arm a stopped goal, or rearm an active one, while its budget has capacity. -/
def resume (ref : GoalRefArg) (now : TimeValue) : Except GoalThrow GoalIntent := do
  let current ← cache.expectCurrent ref
  let resumable : List GoalPhase := [.active, .paused, .blocked]
  if !resumable.contains current.phase then .error (transitionError current .resume resumable)
  else if current.phase = .active ∧ cache.activation = .armed then
    .error (.goalError s!"goal \"{current.id}\" is already active and armed" .invalidTransition)
  else if current.maxGoalRounds ≤ cache.state.roundsStarted then
    .error (.goalError
      s!"goal \"{current.id}\" exhausted {current.maxGoalRounds} goal rounds; increase maxGoalRounds before resuming"
      .invalidTransition)
  else commitCurrent cache .resume (withPhase current .active) .armed now

/-- Mark a current non-complete goal complete and disarm it. -/
def complete (ref : GoalRefArg) (now : TimeValue) : Except GoalThrow GoalIntent :=
  transition cache ref .complete [.active, .paused, .blocked] .complete .disarmed now

/-- Mark an active goal blocked and disarm it. -/
def block (ref : GoalRefArg) (reason : JsValue) (now : TimeValue) :
    Except GoalThrow GoalIntent := do
  let current ← cache.expectCurrent ref
  if current.phase ≠ .active then .error (transitionError current .block [.active])
  else
    let blockedReason ← resolveBlockReason reason
    commitCurrent cache .block { withPhase current .blocked with blockedReason := some blockedReason }
      .disarmed now

/-- Clear the current goal while retaining a durable tombstone and history. -/
def clear (ref : GoalRefArg) (now : TimeValue) : Except GoalThrow GoalIntent := do
  let current ← cache.expectCurrent ref
  let clearedAt ← cache.nextMutationTime now
  return { change := .clear ⟨current.id, current.revision + 1⟩ clearedAt, activation := .disarmed }

end GoalService

/-! ## Calls -/

/-- One mutation request, with what `Date.now()` and `randomUUID()` give in it. -/
inductive GoalRequest where
  | create (request : CreateGoalRequest) (now : TimeValue) (uuid : JsString)
  | edit (ref : GoalRefArg) (request : EditGoalRequest) (now : TimeValue)
  | pause (ref : GoalRefArg) (now : TimeValue)
  | resume (ref : GoalRefArg) (now : TimeValue)
  | complete (ref : GoalRefArg) (now : TimeValue)
  | block (ref : GoalRefArg) (reason : JsValue) (now : TimeValue)
  | clear (ref : GoalRefArg) (now : TimeValue)

/-- What a request plans to append, from a cache that has observed the log. -/
def GoalRequest.plan (request : GoalRequest) (config : GoalServiceConfig) (cache : GoalCache) :
    Except GoalThrow GoalIntent :=
  match request with
  | .create request now uuid => do
    let spec ← resolveCreateGoal request config.defaultMaxGoalRounds
    GoalService.create cache spec now uuid
  | .edit ref request now => GoalService.edit cache ref request now
  | .pause ref now => GoalService.pause cache ref now
  | .resume ref now => GoalService.resume cache ref now
  | .complete ref now => GoalService.complete cache ref now
  | .block ref reason now => GoalService.block cache ref reason now
  | .clear ref now => GoalService.clear cache ref now

/-- What a request checks before it reads the cache. -/
def GoalRequest.check (request : GoalRequest) (config : GoalServiceConfig) :
    Except GoalThrow Unit :=
  match request with
  | .create request _ _ =>
    (resolveCreateGoal request config.defaultMaxGoalRounds).map fun _ => ()
  | _ => .ok ()

/-- What a request answers. -/
inductive GoalReply where
  | view (view : GoalView)
  | ref (ref : GoalRef)

end Harness
