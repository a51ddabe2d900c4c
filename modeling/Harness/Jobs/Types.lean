-- SUMMARY: Job records, snapshots and producer declarations of the job registry (`jobs/jobs/src/types.ts`).
import Harness.Goal.Service
import Harness.Session.Repair
import Harness.Scope.Layers

/-!
# Jobs

A job is running, perhaps stopping, and then terminal. The registry keeps a mutable record for
each job and hands out snapshots.
-/

namespace Harness

namespace Jobs

inductive JobStatus where
  | running
  | stopping
  | completed
  | killed
  | failed
  deriving DecidableEq

def JobStatus.isTerminal : JobStatus → Bool
  | .completed | .killed | .failed => true
  | .running | .stopping => false

/-- How a producer's job ended. -/
inductive TerminalStatus where
  | completed
  | killed
  | failed
  deriving DecidableEq

def TerminalStatus.toStatus : TerminalStatus → JobStatus
  | .completed => .completed
  | .killed => .killed
  | .failed => .failed

@[simp] theorem TerminalStatus.isTerminal_toStatus (status : TerminalStatus) :
    status.toStatus.isTerminal = true := by
  cases status <;> rfl

/-- What a producer's `done` resolves to. -/
structure JobOutcome where
  status : TerminalStatus
  detail : Option JsString := none
  output : Option JsString := none
  deriving DecidableEq

/-- A live agent object: its identity, its session id, and the scope chain of its context. -/
structure Agent where
  object : Nat
  id : JsString
  scopes : ScopeChain
  deriving DecidableEq

/-- The registry-issued `<kind>-<count>`. The count has no dash, so the text fixes both. -/
structure JobId where
  kind : JsString
  count : Nat
  deriving DecidableEq

def JobId.text (id : JobId) : JsString := id.kind ++ JsString.ofString "-" ++ ⟨natText id.count⟩

/-- What a producer hands to `start`, its starter apart. -/
structure JobStart where
  kind : JsString
  label : JsString
  outputLimitBytes : Option JsNumber := none
  owner : Option Agent := none
  deriving DecidableEq

/-- The registry's mutable record of a job. -/
structure TrackedTask where
  id : JobId
  kind : JsString
  label : JsString
  outputLimitBytes : Option JsNumber
  owner : Option Agent
  /-- Whether the producer gave a `readOutput` hook. -/
  streams : Bool
  status : JobStatus
  detail : Option JsString
  output : Option JsString
  startedAt : Nat
  finishedAt : Option Nat
  reported : Bool
  /-- The `settled` promise has resolved. -/
  settled : Bool
  /-- Live waits. -/
  waiters : Nat
  waitResolvers : List Nat
  deriving DecidableEq

structure JobSnapshot where
  id : JobId
  kind : JsString
  label : JsString
  outputLimitBytes : Option JsNumber
  ownerSession : Option JsString
  status : JobStatus
  detail : Option JsString
  startedAt : Nat
  finishedAt : Option Nat
  reported : Bool
  deriving DecidableEq

/-- Project a fresh snapshot from the record. -/
def TrackedTask.snapshot (job : TrackedTask) : JobSnapshot where
  id := job.id
  kind := job.kind
  label := job.label
  outputLimitBytes := job.outputLimitBytes
  ownerSession := job.owner.map Agent.id
  status := job.status
  detail := job.detail
  startedAt := job.startedAt
  finishedAt := job.finishedAt
  reported := job.reported

/-- `JSON.stringify` of a number. -/
def stringifyNumber : JsNumber → JsString
  | .nan | .infinity _ => "null"
  | n => n.display

/-- `Number.isSafeInteger(n) && n > 0`. -/
def isPositiveSafeInteger : JsNumber → Bool
  | .finite n => n.asSafeInteger.any (0 < ·)
  | _ => false

/-- `Number.isFinite(n) && n > 0`. -/
def isPositiveFinite : JsNumber → Bool
  | .finite n => !n.isNegative && n != .int 0
  | _ => false

/-- `MAX_TIMER_DELAY_MS`. -/
def maxTimerDelayMs : Int := 2147483647

/-- `timeoutMs > MAX_TIMER_DELAY_MS`. -/
def exceedsTimerDelay : JsNumber → Bool
  | .finite (.int z) => decide (maxTimerDelayMs < z)
  | .finite (.frac m s _) => decide (maxTimerDelayMs * 10 ^ (s + 1) < m)
  | .infinity negative => !negative
  | _ => false

end Jobs

end Harness
