-- SUMMARY: A continuable child's activation (`subagent/src/continuation.ts`): its agent, its lock, its wake promise and the watcher that settles it.
import Harness.AgentLoop.World
import Harness.Lib.Transitions

/-!
# Settlement of a continuable child

One activation and everything that can happen to it. The watcher is asynchronous code: it
waits for the agent to be quiet or for a poke, decides inside the child's lock, and looks at
the agent again when it comes back from there. Every step here is one synchronous span.
-/

namespace Harness

/-! ## The agent -/

inductive AgentStatus where
  | idle
  | running
  deriving DecidableEq

/-- `agent.status`: maintenance is not a status of its own. -/
def Phase.status : Phase → AgentStatus
  | .running .. => .running
  | _ => .idle

/-- What a child's agent shows its manager: its phase, the messages in its inbox, and the promises
of its activities, numbered in the order they began. -/
structure ChildAgent where
  phase : Phase
  pending : List MessageId
  /-- The activity whose promise `activityDone` holds. -/
  activityDone : Nat
  /-- The activities whose promises have not been resolved. -/
  unresolved : List Nat

namespace ChildAgent

variable (agent : ChildAgent)

def status : AgentStatus := agent.phase.status

/-- Enter a phase with a new activity. -/
def begin (phase : Phase) : ChildAgent :=
  { agent with
    phase
    activityDone := agent.activityDone + 1
    unresolved := (agent.activityDone + 1) :: agent.unresolved }

/-- Start one driver, or latch its wake behind maintenance or an aborted activity. -/
def wakeDriver (wakeAfterAbort : Bool) : ChildAgent :=
  match agent.phase with
  | .idle lastTurn => agent.begin (.running none lastTurn 0 false)
  | .maintenance abort .. =>
    if abort = some .disposed then agent
    else { agent with phase := agent.phase.setWakeRequested true }
  | .running abort .. =>
    if abort ≠ some .disposed && wakeAfterAbort then
      { agent with phase := agent.phase.setWakeRequested true }
    else agent

/-- `send`: waking input cannot join an aborted activity. -/
def send (message : MessageId) (wakeup : Bool) : ChildAgent :=
  let wakingAfterAbort := wakeup && agent.phase.reason.isSome
  let agent := { agent with pending := agent.pending ++ [message] }
  if wakeup then agent.wakeDriver wakingAfterAbort else agent

/-- The effect of `cancel` on the phase; the inbox is cleared before. -/
def cancel (cause : AgentCancelCause) (keepInbox : Bool) : ChildAgent :=
  { agent with
    phase := (if keepInbox then agent.phase else agent.phase.setWakeRequested false).cancel cause }

/-- `runMaintenance`, which an active agent refuses. -/
def runMaintenance : Option ChildAgent :=
  match agent.phase with
  | .idle lastTurn => some (agent.begin (.maintenance none lastTurn false))
  | _ => none

def nextTurn : Option ChildAgent :=
  match agent.phase with
  | .running _ turn _ _ => some { agent with phase := .running none (turn + 1) 0 false }
  | _ => none

/-- The driver or the maintenance task ends; a latched wake starts the next driver. -/
def endActivity : Option ChildAgent :=
  match agent.phase with
  | .idle _ => none
  | .maintenance _ lastTurn wakeRequested | .running _ lastTurn _ wakeRequested =>
    let agent := { agent with phase := .idle lastTurn }
    some (if wakeRequested && !agent.pending.isEmpty then agent.wakeDriver false else agent)

def resolveActivity (activity : Nat) : Option ChildAgent :=
  if activity ∈ agent.unresolved ∧ (agent.phase.isIdle = true ∨ activity ≠ agent.activityDone) then
    some { agent with unresolved := agent.unresolved.erase activity }
  else none

end ChildAgent

/-! ## The activation -/

/-- Who waits for the child's lock. -/
inductive LockTicket where
  | watcher
  | delivery (message : MessageId)
  deriving DecidableEq

/-- Where the settlement watcher stands. Pokes are numbered: the one that an activation holds is
unresolved, and all before it are resolved. -/
inductive Watcher where
  /-- At the race of `whenIdle()`, which awaits an activity, and the poke. -/
  | racing (poked activity : Nat)
  /-- The race is decided. -/
  | raced (poked : Nat)
  /-- Waiting for the lock. -/
  | locking (poked : Nat)
  /-- Back from the critical section. -/
  | decided (poked : Nat) (settling : Bool)
  /-- At `await poked`. -/
  | blocked (poked : Nat)
  /-- Awaiting the disposal it opened. -/
  | disposing
  | returned
  deriving DecidableEq

structure Activation where
  agent : ChildAgent
  ownedChildren : List JsString
  /-- The disposal transaction has been opened. -/
  disposal : Bool
  /-- Accepted waking message ids that have not been seen to leave the inbox. -/
  accepted : List MessageId
  poke : Nat
  /-- The tickets of the child's lock; the first one runs. -/
  lock : List LockTicket
  watcher : Watcher
  /-- Ghost: the agent's status at the watcher's last look inside the lock. -/
  lookedAt : AgentStatus

inductive ActivationState where
  | running
  | waiting
  | settled
  deriving DecidableEq

namespace Activation

variable (a : Activation)

/-- Derive residency from agent quiescence and the owned-child set. -/
def stateOf : ActivationState :=
  if a.agent.status = .running ∨ a.accepted ≠ [] then .running
  else if a.ownedChildren ≠ [] then .waiting
  else .settled

/-- Let a settlement watcher re-observe quiescence. -/
def wake : Activation := { a with poke := a.poke + 1 }

/-- Whether a sampled poke has been resolved. -/
def isPoked (poked : Nat) : Bool := poked < a.poke

/-! ## Messages -/

/-- A message leaves the inbox, claimed or discarded, and the manager is told. -/
def leave (message : MessageId) : Activation :=
  let a := { a with agent := { a.agent with pending := a.agent.pending.erase message } }
  if message ∈ a.accepted then { a with accepted := a.accepted.erase message }.wake else a

/-- Several messages leave the inbox in turn. -/
def leaveAll (messages : List MessageId) : Activation := messages.foldl leave a

/-- Account one waking send; a send that throws leaves nothing behind. -/
def admitWaking (message : MessageId) (throws : Bool) : Activation :=
  if throws then a
  else
    { a with
      accepted := a.accepted.insert message
      agent := a.agent.send message true }.wake

/-! ## Ownership and disposal -/

/-- Register a child; an activation being disposed refuses. -/
def acquireOwnership (child : JsString) : Option Activation :=
  if a.disposal then none else some { a with ownedChildren := a.ownedChildren.insert child }

/-- Remove one child and let the owner re-check settlement. -/
def releaseOwnership (child : JsString) : Activation :=
  if child ∈ a.ownedChildren then { a with ownedChildren := a.ownedChildren.erase child }.wake else a

/-- The synchronous start of a disposal: the cutoff, a wake, and a cancel that clears the inbox. -/
def dispose : Activation :=
  if a.disposal then a
  else
    let a := { a with disposal := true }.wake
    let a := a.leaveAll a.agent.pending
    { a with agent := a.agent.cancel .parent false }

/-! ## The watcher -/

/-- The head of the watcher's loop: sample the poke and race. -/
def loopHead : Activation :=
  if a.disposal then { a with watcher := .returned }
  else { a with watcher := .racing a.poke a.agent.activityDone }

/-- The watcher's critical section. -/
def attempt (poked : Nat) : Activation :=
  let a := { a with lookedAt := a.agent.status }
  if a.disposal || a.stateOf ≠ .settled then { a with watcher := .decided poked false }
  else { a.dispose with watcher := .decided poked true }

end Activation

/-! ## Steps -/

/-- What happens next. -/
inductive ActivationAction where
  /-- A later message of the parent asks for the lock. -/
  | followup (message : MessageId)
  /-- The first ticket runs. A delivery may be refused, and its send may throw. -/
  | runLock (refused throws : Bool)
  /-- A waking send to this agent that the manager accounts outside the child's lock: a report or
  a settlement notice of one of its children. -/
  | notice (message : MessageId) (throws : Bool)
  | acquireOwnership (child : JsString)
  | releaseOwnership (child : JsString)
  /-- Cancel the current turn and keep the inbox. -/
  | interrupt (cause : AgentCancelCause)
  | dispose
  /-- A send that the manager did not make. -/
  | send (message : MessageId) (wakeup : Bool)
  /-- The driver claims messages. -/
  | claim (messages : List MessageId)
  /-- Pending messages are discarded. -/
  | discard (messages : List MessageId)
  | runMaintenance
  | nextTurn
  | endActivity
  | resolveActivity (activity : Nat)
  /-- `whenIdle()` finds its activity over. -/
  | raceIdle
  /-- The race is won by the poke. -/
  | racePoke
  /-- The watcher goes on behind the race. -/
  | enterLock
  /-- The watcher goes on behind its critical section. -/
  | lookAgain
  /-- The poke that the watcher awaits is resolved. -/
  | wakeUp

namespace Activation

/-- Run the first ticket of the lock. A delivery to a closing activation keeps the lock. -/
def runLock (a : Activation) (refused throws : Bool) : Option Activation :=
  match a.lock with
  | [] => none
  | .watcher :: rest =>
    match a.watcher with
    | .locking poked => some ({ a with lock := rest }.attempt poked)
    | _ => none
  | .delivery message :: rest =>
    if a.disposal then none
    else if refused then some { a with lock := rest }
    else some ({ a with lock := rest }.admitWaking message throws)

/-- The watcher's continuation behind its critical section. -/
def lookAgain (a : Activation) : Option Activation :=
  match a.watcher with
  | .decided _ true => some { a with watcher := .disposing }
  | .decided poked false =>
    some (if a.agent.status ≠ .running then { a with watcher := .blocked poked } else a.loopHead)
  | _ => none

def step (a : Activation) : ActivationAction → Option Activation
  | .followup message => some { a with lock := a.lock ++ [.delivery message] }
  | .runLock refused throws => a.runLock refused throws
  | .notice message throws => some (a.admitWaking message throws)
  | .acquireOwnership child => a.acquireOwnership child
  | .releaseOwnership child => some (a.releaseOwnership child)
  | .interrupt cause =>
    if a.disposal then some a else some { a with agent := a.agent.cancel cause true }
  | .dispose => some a.dispose
  | .send message wakeup => some { a with agent := a.agent.send message wakeup }
  | .claim messages =>
    if a.agent.status = .running then some (a.leaveAll messages) else none
  | .discard messages => some (a.leaveAll messages)
  | .runMaintenance => a.agent.runMaintenance.map fun agent => { a with agent }
  | .nextTurn => a.agent.nextTurn.map fun agent => { a with agent }
  | .endActivity => a.agent.endActivity.map fun agent => { a with agent }
  | .resolveActivity activity => (a.agent.resolveActivity activity).map fun agent => { a with agent }
  | .raceIdle =>
    match a.watcher with
    | .racing poked activity =>
      if activity ∈ a.agent.unresolved then none
      else if activity = a.agent.activityDone then some { a with watcher := .raced poked }
      else some { a with watcher := .racing poked a.agent.activityDone }
    | _ => none
  | .racePoke =>
    match a.watcher with
    | .racing poked _ => if a.isPoked poked then some { a with watcher := .raced poked } else none
    | _ => none
  | .enterLock =>
    match a.watcher with
    | .raced poked =>
      if a.disposal then some { a with watcher := .returned }
      else some { a with watcher := .locking poked, lock := a.lock ++ [.watcher] }
    | _ => none
  | .lookAgain => a.lookAgain
  | .wakeUp =>
    match a.watcher with
    | .blocked poked => if a.isPoked poked then some a.loopHead else none
    | _ => none

/-- An activation whose start edge has just been published and whose watcher begins. The delivery
it was made for holds the lock, and others may wait. -/
def materialized (agent : ChildAgent) (deliveries : List MessageId) : Activation where
  agent := agent
  ownedChildren := []
  disposal := false
  accepted := []
  poke := 0
  lock := deliveries.map .delivery
  watcher := .racing 0 agent.activityDone
  lookedAt := .idle

end Activation

end Harness
