-- SUMMARY: The vocabulary of the goal domain (`goal/src/types.ts`, `domain.ts`, `runtime.ts`): snapshots, durable changes, requests and errors.
import Harness.Session.Types

namespace Harness

open Json (field ofNat)

/-! ## Durable values -/

abbrev GoalId := JsString

/-- Compare-and-set identity for one exact goal revision. -/
structure GoalRef where
  id : GoalId
  revision : Nat
  deriving DecidableEq

/-- Durable continuation phase. -/
inductive GoalPhase where
  | active
  | paused
  | blocked
  | complete
  deriving DecidableEq

/-- Machine-routable and human-readable explanation for a blocked goal. -/
structure GoalBlockReason where
  code : JsString
  message : JsString
  deriving DecidableEq

/-- Full durable state written by every mutation but a clear. -/
structure GoalSnapshot extends GoalRef where
  objective : JsString
  phase : GoalPhase
  maxGoalRounds : Nat
  blockedReason : Option GoalBlockReason := none
  deriving DecidableEq

/-- The verbs that write a snapshot. -/
inductive SnapshotOperation where
  | create
  | edit
  | pause
  | resume
  | complete
  | block
  deriving DecidableEq

structure GoalSnapshotChange where
  operation : SnapshotOperation
  goal : GoalSnapshot
  roundsStarted : Nat
  createdAt : Int
  updatedAt : Int
  deriving DecidableEq

/-- The payload of a `goal/change` event. -/
inductive GoalChange where
  | snapshot (change : GoalSnapshotChange)
  /-- The tombstone retained when the current goal is cleared. -/
  | clear (cleared : GoalRef) (clearedAt : Int)
  deriving DecidableEq

/-- State-changing verbs recorded in a change. -/
inductive GoalOperation where
  | snapshot (operation : SnapshotOperation)
  | clear
  deriving DecidableEq

def GoalChange.operation : GoalChange → GoalOperation
  | .snapshot change => .snapshot change.operation
  | .clear .. => .clear

/-! ## Live values -/

/-- Whether this live process may continue an active goal by itself. -/
inductive GoalActivation where
  | armed
  | disarmed
  deriving DecidableEq

/-- Current goal projection, including values derived from the session log. -/
structure GoalView extends GoalSnapshot where
  roundsStarted : Nat
  createdAt : Int
  updatedAt : Int
  activation : GoalActivation
  deriving DecidableEq

/-- What a full fold of the log answers. -/
structure FoldedGoal where
  goal : Option GoalSnapshot
  roundsStarted : Nat
  createdAt : Option Int
  updatedAt : Option Int
  lastRef : Option GoalRef
  deriving DecidableEq

/-- Message attribution for admitted continuation rounds. -/
structure GoalMessageSource where
  goalId : GoalId
  revision : Nat
  round : Nat

/-! ## Requests -/

/-- The ref a caller passes: any string and any number. -/
structure GoalRefArg where
  id : JsString
  revision : JsNumber

structure CreateGoalRequest where
  objective : JsValue
  maxGoalRounds : JsValue := .undefined

structure EditGoalRequest where
  objective : JsValue := .undefined
  maxGoalRounds : JsValue := .undefined

/-- Stable error codes for rejected reads and mutations. -/
inductive GoalErrorCode where
  | agentNotLive
  | notFound
  | alreadyExists
  | staleRevision
  | invalidObjective
  | invalidMaxRounds
  | invalidBlockReason
  | invalidEdit
  | invalidTransition
  deriving DecidableEq

/-- What a call of the service throws. -/
inductive GoalThrow where
  | goalError (message : String) (code : GoalErrorCode)
  | error (message : String)
  deriving DecidableEq

/-! ## Spellings -/

def GoalPhase.name : GoalPhase → String
  | .active => "active"
  | .paused => "paused"
  | .blocked => "blocked"
  | .complete => "complete"

def SnapshotOperation.name : SnapshotOperation → String
  | .create => "create"
  | .edit => "edit"
  | .pause => "pause"
  | .resume => "resume"
  | .complete => "complete"
  | .block => "block"

def GoalOperation.name : GoalOperation → String
  | .snapshot operation => operation.name
  | .clear => "clear"

/-- `GOAL_CHANGE_VERSION`. -/
def goalChangeVersion : Nat := 1

def goalChangeType : JsString := "goal/change"

theorem goalChangeType_merged : goalChangeType ∉ coreEventTypes := by decide

def GoalBlockReason.toJson (reason : GoalBlockReason) : Json :=
  .obj [field "code" (.str reason.code), field "message" (.str reason.message)]

def GoalRef.toJson (ref : GoalRef) : Json :=
  .obj [field "id" (.str ref.id), field "revision" (ofNat ref.revision)]

/-- The snapshot as JSON; a reason that is not there is no field. -/
def GoalSnapshot.toJson (goal : GoalSnapshot) : Json :=
  .obj ([field "id" (.str goal.id), field "revision" (ofNat goal.revision),
      field "objective" (.str goal.objective), field "phase" (.str goal.phase.name),
      field "maxGoalRounds" (ofNat goal.maxGoalRounds)] ++
    goal.blockedReason.toList.map fun reason => field "blockedReason" reason.toJson)

/-- The change as the log stores it. -/
def GoalChange.toJson : GoalChange → Json
  | .snapshot change =>
    .obj [field "kind" (.str goalChangeType),
      field "version" (ofNat goalChangeVersion),
      field "operation" (.str change.operation.name),
      field "goal" change.goal.toJson,
      field "roundsStarted" (ofNat change.roundsStarted),
      field "createdAt" (.num (.int change.createdAt)),
      field "updatedAt" (.num (.int change.updatedAt))]
  | .clear cleared clearedAt =>
    .obj [field "kind" (.str goalChangeType),
      field "version" (ofNat goalChangeVersion),
      field "operation" (.str "clear"),
      field "cleared" cleared.toJson,
      field "clearedAt" (.num (.int clearedAt))]

/-- The payload of the event that records `change`. -/
def GoalChange.eventData (change : GoalChange) : EventData :=
  .other goalChangeType change.toJson goalChangeType_merged

end Harness
