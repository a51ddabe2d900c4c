-- SUMMARY: The strict goal fold of `goal/src/fold.ts`: the decoder of durable changes, the transition checks and the replay.
import Mathlib.Data.List.Sort
import Harness.Goal.Types
import Harness.Json.Utf8

/-!
# Goal fold

Replays the goal events of a session log. A change that does not decode, or that the
projection before it does not allow, fails the replay.
-/

namespace Harness

open Json (asSafeInteger get?)

/-! ## Reading JSON -/

/-- `typeof value === 'string'`. -/
def asText : Option Json → Option JsString
  | some (.str s) => some s
  | _ => none

variable (value : Option Json)

/-- `value === n`, for an integer. -/
def isInteger (n : Int) : Bool :=
  match value with
  | some (.num (.int z)) => z == n
  | _ => false

/-- The order of `sort` on strings: by UTF-16 code units. -/
def JsString.precedes (a b : JsString) : Bool := !decide (b.units < a.units)

/-- `keys.sort().join(',')`. -/
def sortedKeys (keys : List JsString) : JsString :=
  ⟨List.intercalate [unit ','] ((keys.insertionSort fun a b => a.precedes b = true).map
    JsString.units)⟩

def positiveInteger (field : String) : Except String Nat :=
  match value.bind asSafeInteger with
  | none => .error s!"goal change {field} must be a positive safe integer"
  | some z =>
    if z < 1 then .error s!"goal change {field} must be a positive safe integer" else .ok z.toNat

def nonNegativeInteger (field : String) : Except String Nat :=
  match value.bind asSafeInteger with
  | none => .error s!"goal change {field} must be a non-negative safe integer"
  | some z =>
    if z < 0 then .error s!"goal change {field} must be a non-negative safe integer"
    else .ok z.toNat

/-! ## Strings -/

def isLowerAscii (u : UInt16) : Bool := 0x61 ≤ u.toNat && u.toNat ≤ 0x7A

def isAsciiDigit (u : UInt16) : Bool := 0x30 ≤ u.toNat && u.toNat ≤ 0x39

/-- The rest of a kebab word; `word` when the last unit was no hyphen. -/
def kebabRest (word : Bool) : List UInt16 → Bool
  | [] => word
  | u :: rest =>
    if isLowerAscii u || isAsciiDigit u then kebabRest true rest
    else u == unit '-' && word && kebabRest false rest

/-- `/^[a-z][a-z0-9]*(?:-[a-z0-9]+)*$/`. -/
def isLowerKebab (s : JsString) : Bool :=
  match s.units with
  | [] => false
  | u :: rest => isLowerAscii u && kebabRest true rest

/-- Whether a text is its own `trim()`, and not empty. -/
def isNormalized (s : JsString) : Bool := !s.trim.units.isEmpty && s == s.trim

/-! ## Decoder -/

/-- Decode one canonical blocker explanation. -/
def decodeBlockReason : Option Json → Except String GoalBlockReason
  | some (.obj fields) =>
    if sortedKeys (fields.map Prod.fst) ≠ "code,message" then
      .error "goal change goal.blockedReason must have exactly code and message fields"
    else
      match asText (get? "code" fields) with
      | none => .error "goal change goal.blockedReason.code must be lower-kebab-case"
      | some code =>
        if !isLowerKebab code then
          .error "goal change goal.blockedReason.code must be lower-kebab-case"
        else
          match asText (get? "message" fields) with
          | none => .error "goal change goal.blockedReason.message must be non-empty and normalized"
          | some message =>
            if !isNormalized message then
              .error "goal change goal.blockedReason.message must be non-empty and normalized"
            else .ok { code, message }
  | _ => .error "goal change goal.blockedReason must have exactly code and message fields"

/-- `PHASES.has(value)`. -/
def decodePhase : Option GoalPhase :=
  (asText value).bind fun name =>
    [GoalPhase.active, .paused, .blocked, .complete].find? fun phase =>
      name == JsString.ofString phase.name

/-- The keys of a snapshot, sorted. -/
def GoalPhase.expectedKeys : GoalPhase → String
  | .blocked => "blockedReason,id,maxGoalRounds,objective,phase,revision"
  | _ => "id,maxGoalRounds,objective,phase,revision"

/-- The reason of a snapshot, which only a blocked one has. -/
def decodePhaseReason (phase : GoalPhase) (value : Option Json) :
    Except String (Option GoalBlockReason) :=
  match phase with
  | .blocked => (decodeBlockReason value).map some
  | _ => .ok none

def decodeSnapshot : Option Json → Except String GoalSnapshot
  | some (.obj fields) =>
    match asText (get? "id" fields) with
    | none => .error "goal change goal.id must be a non-empty string"
    | some id =>
      if id.units.isEmpty then .error "goal change goal.id must be a non-empty string"
      else
        match asText (get? "objective" fields) with
        | none => .error "goal change goal.objective must be non-empty and normalized"
        | some objective =>
          if !isNormalized objective then
            .error "goal change goal.objective must be non-empty and normalized"
          else
            match decodePhase (get? "phase" fields) with
            | none => .error "goal change goal.phase is invalid"
            | some phase =>
              if sortedKeys (fields.map Prod.fst) ≠ phase.expectedKeys then
                .error s!"goal change goal for phase {phase.name} must have exactly {phase.expectedKeys} fields"
              else do
                let revision ← positiveInteger (get? "revision" fields) "goal.revision"
                let maxGoalRounds ←
                  positiveInteger (get? "maxGoalRounds" fields) "goal.maxGoalRounds"
                let blockedReason ← decodePhaseReason phase (get? "blockedReason" fields)
                return { id, revision, objective, phase, maxGoalRounds, blockedReason }
  | _ => .error "goal change goal must be a record"

def decodeRef : Option Json → Except String GoalRef
  | some (.obj fields) =>
    if sortedKeys (fields.map Prod.fst) ≠ "id,revision" then
      .error "goal clear tombstone must have exactly id and revision fields"
    else
      match asText (get? "id" fields) with
      | none => .error "goal clear tombstone id must be a non-empty string"
      | some id =>
        if id.units.isEmpty then .error "goal clear tombstone id must be a non-empty string"
        else do
          let revision ← positiveInteger (get? "revision" fields) "cleared.revision"
          return { id, revision }
  | _ => .error "goal clear tombstone must have exactly id and revision fields"

/-- `SNAPSHOT_OPERATIONS.has(value)`. -/
def decodeOperation : Option SnapshotOperation :=
  (asText value).bind fun name =>
    [SnapshotOperation.create, .edit, .pause, .resume, .complete, .block].find? fun operation =>
      name == JsString.ofString operation.name

def clearKeys : String := "cleared,clearedAt,kind,operation,version"

def snapshotKeys : String := "createdAt,goal,kind,operation,roundsStarted,updatedAt,version"

/-- The fields of a clear tombstone. -/
def decodeClear (fields : List (JsString × Json)) : Except String GoalChange :=
  if sortedKeys (fields.map Prod.fst) ≠ clearKeys then
    .error s!"goal clear change must have exactly {clearKeys} fields"
  else do
    let cleared ← decodeRef (get? "cleared" fields)
    let clearedAt ← nonNegativeInteger (get? "clearedAt" fields) "clearedAt"
    return .clear cleared clearedAt

def decodeSnapshotChange (operation : SnapshotOperation) (fields : List (JsString × Json)) :
    Except String GoalChange :=
  if sortedKeys (fields.map Prod.fst) ≠ snapshotKeys then
    .error s!"goal snapshot change must have exactly {snapshotKeys} fields"
  else do
    let createdAt ← nonNegativeInteger (get? "createdAt" fields) "createdAt"
    let updatedAt ← nonNegativeInteger (get? "updatedAt" fields) "updatedAt"
    if updatedAt < createdAt then .error "goal change updatedAt cannot precede createdAt"
    else
      let goal ← decodeSnapshot (get? "goal" fields)
      let roundsStarted ← nonNegativeInteger (get? "roundsStarted" fields) "roundsStarted"
      return .snapshot { operation, goal, roundsStarted, createdAt, updatedAt }

/-- Decode a value that declares itself as a goal change; an unrelated value gives `none`. -/
def decodeGoalChange : Json → Except String (Option GoalChange)
  | .obj fields =>
    if asText (get? "kind" fields) ≠ some goalChangeType then .ok none
    else if !isInteger (get? "version" fields) goalChangeVersion then
      let version := templateText (get? "version" fields)
      .error s!"unsupported goal change version {version}"
    else if asText (get? "operation" fields) = some ("clear" : JsString) then
      (decodeClear fields).map some
    else
      match decodeOperation (get? "operation" fields) with
      | none => .error "goal change operation is invalid"
      | some operation => (decodeSnapshotChange operation fields).map some
  | _ => .ok none

/-- Narrow message attribution to a valid goal source. -/
def goalSource : MessageSource → Except String (Option GoalMessageSource)
  | .other (.obj fields) =>
    if asText (get? "kind" fields) ≠ some ("goal" : JsString) then .ok none
    else
      match asText (get? "goalId" fields),
        (get? "revision" fields).bind asSafeInteger,
        (get? "round" fields).bind asSafeInteger with
      | some goalId, some revision, some round =>
        if goalId.units.isEmpty || revision < 1 || round < 1 then
          .error "goal message source is invalid"
        else .ok (some { goalId, revision := revision.toNat, round := round.toNat })
      | _, _, _ => .error "goal message source is invalid"
  | _ => .ok none

/-! ## Transitions -/

structure GoalFoldState where
  goal : Option GoalSnapshot
  roundsStarted : Nat
  createdAt : Option Int
  updatedAt : Option Int
  lastRef : Option GoalRef
  seenGoalIds : List GoalId
  deriving DecidableEq

def emptyGoalFoldState : GoalFoldState where
  goal := none
  roundsStarted := 0
  createdAt := none
  updatedAt := none
  lastRef := none
  seenGoalIds := []

/-- Require two snapshots to retain fields that only `edit` may replace. -/
def requireSameDefinition (current next : GoalSnapshot) (operation : SnapshotOperation) :
    Except String Unit :=
  if next.objective ≠ current.objective ∨ next.maxGoalRounds ≠ current.maxGoalRounds then
    .error s!"goal {operation.name} cannot change objective or maxGoalRounds"
  else .ok ()

def requireNextRevision (current : GoalSnapshot) (next : GoalRef) (operation : GoalOperation) :
    Except String Unit :=
  if next.id ≠ current.id ∨ next.revision ≠ current.revision + 1 then
    .error s!"goal {operation.name} must advance the current goal by one revision"
  else .ok ()

/-- `JSON.stringify(reason)`. -/
def stringifyReason (reason : Option GoalBlockReason) : Option Text :=
  reason.map fun reason => Json.stringify reason.toJson

/-- The check of one operation that keeps the goal's definition. -/
def requirePhases (current next : GoalSnapshot) (operation : SnapshotOperation) (allowed : Bool)
    (message : String) : Except String Unit :=
  match requireSameDefinition current next operation with
  | .error e => .error e
  | .ok () => if allowed then .ok () else .error message

/-- The cases of the operation, once the counters and timestamps are preserved. -/
def validateOperation (roundsStarted : Nat) (operation : SnapshotOperation)
    (current next : GoalSnapshot) : Except String Unit :=
  match operation with
  | .edit =>
    if next.phase ≠ current.phase
      ∨ stringifyReason next.blockedReason ≠ stringifyReason current.blockedReason then
      .error "goal edit cannot change phase or blocked reason"
    else .ok ()
  | .pause =>
    requirePhases current next .pause (current.phase == .active && next.phase == .paused)
      "goal pause has an invalid phase transition"
  | .resume =>
    requirePhases current next .resume
      ([GoalPhase.active, .paused, .blocked].contains current.phase && next.phase == .active &&
        roundsStarted < next.maxGoalRounds)
      "goal resume has an invalid phase transition or exhausted round budget"
  | .complete =>
    requirePhases current next .complete (current.phase != .complete && next.phase == .complete)
      "goal complete has an invalid phase transition"
  | .block =>
    requirePhases current next .block (current.phase == .active && next.phase == .blocked)
      "goal block has an invalid phase transition"
  | .create => .error "goal create cannot be validated as a current-goal transition"

variable (state : GoalFoldState)

/-- Validate one snapshot operation other than `create` against the preceding projection. -/
def validateSnapshotTransition (change : GoalSnapshotChange)
    (current : GoalSnapshot) : Except String Unit :=
  match requireNextRevision current change.goal.toGoalRef (.snapshot change.operation) with
  | .error e => .error e
  | .ok () =>
    match state.updatedAt with
    | none => .error "current goal fold lacks updatedAt"
    | some updatedAt =>
      if some change.createdAt ≠ state.createdAt ∨ change.updatedAt < updatedAt
        ∨ change.roundsStarted ≠ state.roundsStarted then
        .error s!"goal {change.operation.name} does not preserve the current counters and timestamps"
      else validateOperation state.roundsStarted change.operation current change.goal

/-- The revision identity carried by a snapshot or tombstone. -/
def goalChangeRef : GoalChange → GoalRef
  | .snapshot change => change.goal.toGoalRef
  | .clear cleared _ => cleared

/-- What a snapshot change leaves. -/
def GoalFoldState.install (change : GoalSnapshotChange) : GoalFoldState :=
  { state with
    goal := some change.goal
    roundsStarted := change.roundsStarted
    createdAt := some change.createdAt
    updatedAt := some change.updatedAt
    lastRef := some change.goal.toGoalRef }

/-- Whether a snapshot may found a new goal. -/
def GoalFoldState.founds (change : GoalSnapshotChange) : Bool :=
  change.goal.revision == 1 && change.goal.phase == .active && change.roundsStarted == 0 &&
    state.goal.all (·.phase == .complete) && !state.seenGoalIds.contains change.goal.id

def applyGoalChange : GoalChange → Except String GoalFoldState
  | .clear cleared clearedAt =>
    match state.goal with
    | none => .error "goal clear requires a current goal"
    | some current =>
      match requireNextRevision current cleared .clear with
      | .error e => .error e
      | .ok () =>
        match state.updatedAt with
        | none => .error "current goal fold lacks updatedAt"
        | some updatedAt =>
          if clearedAt < updatedAt then
            .error "goal clear timestamp cannot precede the current goal update"
          else
            .ok { state with
                  goal := none
                  roundsStarted := 0
                  createdAt := none
                  updatedAt := none
                  lastRef := some cleared }
  | .snapshot change =>
    if change.operation = .create then
      if state.founds change then
        .ok ({ state with seenGoalIds := state.seenGoalIds ++ [change.goal.id] }.install change)
      else .error "goal create requires a fresh active revision-one goal with zero rounds"
    else
      match state.goal with
      | none => .error s!"goal {change.operation.name} requires a current goal"
      | some current =>
        match validateSnapshotTransition state change current with
        | .error e => .error e
        | .ok () => .ok (state.install change)

/-! ## Replay -/

/-- Whether a message is the next round of the active goal. -/
def GoalFoldState.admits (source : GoalMessageSource) : Bool :=
  state.goal.any fun current =>
    current.phase == .active && source.goalId == current.id &&
      source.revision == current.revision && source.round == state.roundsStarted + 1 &&
      source.round ≤ current.maxGoalRounds

def applyGoalEvent (event : SessionEvent) : Except String GoalFoldState :=
  match event.data with
  | .other type data _ =>
    if type = goalChangeType then
      match decodeGoalChange data with
      | .error e => .error e
      | .ok none => .error s!"goal change at session event {event.seq} has an invalid kind"
      | .ok (some change) => applyGoalChange state change
    else .ok state
  | .userMessage message =>
    match goalSource message.source with
    | .error e => .error e
    | .ok none => .ok state
    | .ok (some source) =>
      if state.admits source then .ok { state with roundsStarted := source.round }
      else
        .error s!"goal round at session event {event.seq} is not the next admitted round of the active goal"
  | _ => .ok state

/-- Fold a log from the empty accumulator. -/
def foldGoalEvents (events : List SessionEvent) : Except String GoalFoldState :=
  events.foldlM applyGoalEvent emptyGoalFoldState

def GoalFoldState.folded : FoldedGoal where
  goal := state.goal
  roundsStarted := state.roundsStarted
  createdAt := state.createdAt
  updatedAt := state.updatedAt
  lastRef := state.lastRef

/-- Fold current goal state from a session event log. -/
def foldGoal (events : List SessionEvent) : Except String FoldedGoal :=
  (foldGoalEvents events).map GoalFoldState.folded

end Harness
