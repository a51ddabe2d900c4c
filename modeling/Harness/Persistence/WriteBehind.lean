-- SUMMARY: The bounded write batching of `session-persistence/src/write-behind.ts`.
import Mathlib.Data.List.Basic

/-!
# Write-behind

One live session's pending events, batching deadline, active write and barrier, together
with what surrounds them: the timers that are set, the writes and barriers in progress and
the reactions of settled promises that have not run yet.

A timer fires only when no such reaction is waiting. A write that rejects stores nothing.
-/

namespace Harness

/-- One call of `options.write`. -/
structure BatchWrite (Event : Type) where
  id : Nat
  batch : List Event
  background : Bool

namespace WriteBehind

/-- Where `drainBarrier` is suspended. -/
inductive DrainPoint where
  /-- `await Promise.allSettled([overlapping])`. -/
  | overlapping
  /-- `await this.startWrite(false)`. -/
  | written
  deriving DecidableEq

/-- One suspended `drainBarrier`, with the write it awaits. -/
structure Drain where
  barrier : Nat
  point : DrainPoint
  write : Nat

/-- The reactions of settled promises. -/
inductive Job (Event : Type) where
  /-- The `finally` of a write. -/
  | settled (write : BatchWrite Event) (ok : Bool)
  | continueAutomatic
  /-- A barrier goes on after the write it awaited. -/
  | resume (drain : Drain) (ok : Bool)

/-- A call of `flush`: the barrier it got, and how many events were enqueued before it. -/
structure FlushCall where
  barrier : Nat
  before : Nat

end WriteBehind

open WriteBehind

/-- One controller and its surroundings. The first six fields are the controller's own. -/
structure SessionWriteBehind (Event : Type) where
  pending : List Event
  timer : Option Nat
  active : Option Nat
  barrier : Option Nat
  deadlineExpired : Bool
  automaticPaused : Bool
  /-- Timers that are set and have not fired. -/
  timers : List Nat
  /-- Writes that have not settled. -/
  writes : List (BatchWrite Event)
  drains : List Drain
  jobs : List (Job Event)
  /-- The identity of the next timer, write or barrier. -/
  nextId : Nat
  /-- What the backend holds. -/
  durable : List Event
  /-- Every event that was ever enqueued. -/
  enqueued : List Event
  flushes : List FlushCall
  /-- The barriers whose promise has resolved. -/
  resolved : List Nat
  rejected : List Nat

namespace SessionWriteBehind

variable {Event : Type}

/-- A new controller. -/
def create : SessionWriteBehind Event where
  pending := []
  timer := none
  active := none
  barrier := none
  deadlineExpired := false
  automaticPaused := false
  timers := []
  writes := []
  drains := []
  jobs := []
  nextId := 0
  durable := []
  enqueued := []
  flushes := []
  resolved := []
  rejected := []

variable (w : SessionWriteBehind Event)

/-- Whether this controller owns queued events or an active durable write. -/
def hasWork : Bool := !w.pending.isEmpty || w.active.isSome

/-- Start the one fixed window for the current pending prefix. -/
def armTimer : SessionWriteBehind Event :=
  { w with timer := some w.nextId, timers := w.timers ++ [w.nextId], nextId := w.nextId + 1 }

/-- Cancel any pending automatic deadline. -/
def cancelTimer : SessionWriteBehind Event :=
  match w.timer with
  | none => w
  | some id => { w with timer := none, timers := w.timers.erase id }

/-- Start one stable pending prefix. -/
def startWrite (background : Bool) : SessionWriteBehind Event :=
  let batch := w.pending
  let w := { w with pending := [] }.cancelTimer
  { w with
    deadlineExpired := false
    writes := w.writes ++ [{ id := w.nextId, batch, background }]
    active := some w.nextId
    nextId := w.nextId + 1 }

/-- Start one detached write whose failure is reported and retained. -/
def startBackground : SessionWriteBehind Event := w.startWrite true

def enqueue (event : Event) : SessionWriteBehind Event :=
  let wasEmpty := w.pending.isEmpty
  let w := { w with pending := w.pending ++ [event], enqueued := w.enqueued ++ [event] }
  if w.barrier.isSome then w
  else if w.automaticPaused then
    { w with automaticPaused := false, deadlineExpired := false }.armTimer
  else if wasEmpty then w.armTimer
  else w

/-- Start a background write now, or remember that an active write used the budget. -/
def onDeadline (id : Nat) : SessionWriteBehind Event :=
  let w := { w with timer := none, timers := w.timers.erase id }
  if w.active.isSome then { w with deadlineExpired := true } else w.startBackground

/-- Continue immediately after an over-budget active write, otherwise keep its timer. -/
def continueAutomatic : SessionWriteBehind Event :=
  if w.barrier.isSome || w.pending.isEmpty then w
  else if w.deadlineExpired then { w with deadlineExpired := false }.startBackground
  else w

/-- The loop of `drainBarrier`, up to its next `await`, and its end. -/
def drain (barrier : Nat) : SessionWriteBehind Event :=
  if w.pending.isEmpty then { w with barrier := none, resolved := w.resolved ++ [barrier] }
  else
    let write := w.nextId
    let w := w.startWrite false
    { w with drains := w.drains ++ [{ barrier, point := .written, write }] }

/-- `drainBarrier`, up to its first `await`. -/
def drainBarrier (barrier : Nat) : SessionWriteBehind Event :=
  match w.active with
  | some write => { w with drains := w.drains ++ [{ barrier, point := .overlapping, write }] }
  | none => w.drain barrier

/-- Put a call of `flush` on record. -/
def called (barrier : Nat) : SessionWriteBehind Event :=
  { w with flushes := w.flushes ++ [{ barrier, before := w.enqueued.length }] }

def flush : SessionWriteBehind Event :=
  match w.barrier with
  | some barrier => w.called barrier
  | none =>
    let barrier := w.nextId
    let w := { (w.called barrier).cancelTimer with
      deadlineExpired := false
      automaticPaused := false
      barrier := some barrier
      nextId := w.nextId + 1 }
    w.drainBarrier barrier

/-- Cancel the current automatic deadline without draining retained work. -/
def cancelAutomaticWait : SessionWriteBehind Event := { w.cancelTimer with deadlineExpired := false }

/-- `drainBarrier` after an `await`. -/
def resume (d : Drain) (ok : Bool) : SessionWriteBehind Event :=
  match d.point with
  | .overlapping => { w with automaticPaused := false }.drain d.barrier
  | .written =>
    if ok then w.drain d.barrier
    else { w with barrier := none, rejected := w.rejected ++ [d.barrier] }

/-- The `finally` of a write, and the reactions on the promise it settles. -/
def settled (write : BatchWrite Event) (ok : Bool) : SessionWriteBehind Event :=
  let continues := if write.background && ok then [Job.continueAutomatic] else []
  let resumes := (w.drains.filter (·.write == write.id)).map (Job.resume · ok)
  { w with
    active := none
    drains := w.drains.filter (·.write != write.id)
    jobs := w.jobs ++ continues ++ resumes }

/-- The `catch` of a write: its batch is retained in order. -/
def retain (write : BatchWrite Event) : SessionWriteBehind Event :=
  { { w with pending := write.batch ++ w.pending }.cancelTimer with
    deadlineExpired := false, automaticPaused := true }

def runJob : Job Event → SessionWriteBehind Event
  | .settled write ok => w.settled write ok
  | .continueAutomatic => w.continueAutomatic
  | .resume d ok => w.resume d ok

/-- What happens to a controller. -/
inductive Act (Event : Type) where
  | enqueue (event : Event)
  | flush
  | cancelAutomaticWait
  /-- A timer fires. -/
  | deadline (timer : Nat)
  /-- The write at an index settles: it has stored its batch, or rejects. -/
  | settle (index : Nat) (ok : Bool)
  /-- The reaction at an index runs. -/
  | job (index : Nat)

def step : Act Event → Option (SessionWriteBehind Event)
  | .enqueue event => some (w.enqueue event)
  | .flush => some w.flush
  | .cancelAutomaticWait => some w.cancelAutomaticWait
  | .deadline timer => if timer ∈ w.timers ∧ w.jobs.isEmpty then some (w.onDeadline timer) else none
  | .settle index ok =>
    w.writes[index]?.map fun write =>
      let w := { w with writes := w.writes.eraseIdx index }
      let w := if ok then { w with durable := w.durable ++ write.batch } else w.retain write
      { w with jobs := w.jobs ++ [.settled write ok] }
  | .job index =>
    w.jobs[index]?.map fun job => { w with jobs := w.jobs.eraseIdx index }.runJob job

/-- The batches of the writes in progress. -/
def inFlight : List Event := w.writes.flatMap (·.batch)

end SessionWriteBehind
end Harness
