-- SUMMARY: The sharing and reservation of unpublished sessions of `session-persistence/src/preparations.ts`.
import Harness.Lib.OrderedMap

/-!
# Session preparations

The table of `SessionPreparations`, its entry and reservation objects, and the calls of
`inspect` and `reserve` that are suspended at an `await`. Objects and promises are named by
numbers, in the order in which they were made.
-/

namespace Harness

inductive PreparationPhase where
  | loading
  | ready
  | committing
  | reserved
  deriving DecidableEq

structure PreparationEntry (SessionId Source : Type) where
  id : SessionId
  /-- The shared read: pending, rejected or resolved. -/
  result : Option (Option Source)
  phase : PreparationPhase
  source : Option Source
  reservation : Option Nat
  /-- The promise `reservationSettled`, which `settleReservation` resolves. -/
  reservationSettled : Option Nat

def PreparationEntry.start {SessionId Source : Type} (id : SessionId) :
    PreparationEntry SessionId Source where
  id
  result := none
  phase := .loading
  source := none
  reservation := none
  reservationSettled := none

/-- One exclusively held prepared source and its committed persistence state. -/
structure SessionPreparationReservation (Source CommitState : Type) where
  entry : Nat
  source : Source
  state : CommitState

/-- One table with its entry and reservation objects. -/
structure SessionPreparations (SessionId Source CommitState : Type) where
  capacity : Nat
  entries : OrderedMap SessionId Nat
  /-- The entry objects. -/
  heap : List (PreparationEntry SessionId Source)
  reservations : List (SessionPreparationReservation Source CommitState)
  /-- The settlement promises that are resolved. -/
  settled : List Nat
  nextPromise : Nat

namespace SessionPreparations

/-- How a call of `reserve` goes on: where it awaits next, or how it ends. -/
inductive ReserveOutcome where
  | committing
  | waiting (promise : Nat)
  | undefined
  | thrown
  | reservation (index : Nat)

inductive DiscardReady where
  | discarded
  | retained
  | missing
  deriving DecidableEq

variable {SessionId Source CommitState : Type} [DecidableEq SessionId]

def create (capacity : Nat) : SessionPreparations SessionId Source CommitState where
  capacity
  entries := []
  heap := []
  reservations := []
  settled := []
  nextPromise := 0

variable (s : SessionPreparations SessionId Source CommitState)

variable (id : SessionId)

/-- Whether this pool currently knows about an unpublished identity. -/
def has : Bool := (OrderedMap.get? s.entries id).isSome

variable (entry : Nat)

/-- The session of an entry, when the table holds that entry. -/
def current : Option SessionId :=
  (s.heap[entry]?.map (·.id)).filter fun id => OrderedMap.get? s.entries id = some entry

def phase? : Option PreparationPhase := s.heap[entry]?.map (·.phase)

/-- Assign to fields of an entry. -/
def update (f : PreparationEntry SessionId Source → PreparationEntry SessionId Source) :
    SessionPreparations SessionId Source CommitState :=
  { s with heap := s.heap.modify entry f }

/-- Delete the waiter of an entry, and resolve it. -/
def settle : SessionPreparations SessionId Source CommitState :=
  let promise := s.heap[entry]?.bind (·.reservationSettled)
  { s.update entry ({ · with reservationSettled := none }) with
    settled := s.settled ++ promise.toList }

def isReady : Bool := s.phase? entry = some .ready

def readyCount : Nat := (s.entries.filter fun e => s.isReady e.2).length

def touch (entry : Nat) : SessionPreparations SessionId Source CommitState :=
  let s := { s with entries := OrderedMap.set (OrderedMap.delete s.entries id) id entry }
  if s.readyCount ≤ s.capacity then s
  else
    match s.entries.find? fun e => s.isReady e.2 with
    | some (id, _) => { s with entries := OrderedMap.delete s.entries id }
    | none => s

def makeReady : SessionPreparations SessionId Source CommitState :=
  match s.current entry with
  | some id => ((s.update entry ({ · with phase := .ready })).settle entry).touch id entry
  | none => s

def remove : SessionPreparations SessionId Source CommitState :=
  match s.current entry with
  | some id => { s with entries := OrderedMap.delete s.entries id }.settle entry
  | none => s

/-- The entry of a session, which is made when there is none, and whether its read has been
started. `loadThrows` says that `load` throws before it returns a promise. -/
def entryFor (loadThrows : Bool) :
    (Nat × Bool) × SessionPreparations SessionId Source CommitState :=
  match OrderedMap.get? s.entries id with
  | some entry => ((entry, false), s)
  | none =>
    let entry := s.heap.length
    let s := { s with entries := OrderedMap.set s.entries id entry, heap := s.heap ++ [.start id] }
    if loadThrows then
      ((entry, false), (s.remove entry).update entry ({ · with result := some none }))
    else ((entry, true), s)

/-- The reactions on the promise of `load`. -/
def loaded : Option Source → SessionPreparations SessionId Source CommitState
  | some source =>
    let s := if (s.current entry).isSome then
        (s.update entry ({ · with source := some source })).makeReady entry
      else s
    s.update entry ({ · with result := some (some source) })
  | none => (s.remove entry).update entry ({ · with result := some none })

/-- `inspect` once the shared read has given `loaded`. -/
def inspected (loaded : Source) : Source × SessionPreparations SessionId Source CommitState :=
  let source := (s.heap[entry]?.bind (·.source)).getD loaded
  match s.current entry with
  | some id => if s.isReady entry then (source, s.touch id entry) else (source, s)
  | none => (source, s)

/-- `reserve` from the check of its loop to its next `await`. -/
def tryReserve : ReserveOutcome × SessionPreparations SessionId Source CommitState :=
  if (s.current entry).isSome then
    if s.isReady entry then
      (.committing,
        { s.update entry ({ · with
            phase := .committing, reservationSettled := some s.nextPromise }) with
          nextPromise := s.nextPromise + 1 })
    else
      match s.heap[entry]?.bind (·.reservationSettled) with
      | some promise => (.waiting promise, s)
      | none => (.thrown, s)
  else (.undefined, s)

/-- `reserve` after its commit, which throws or gives what it committed, if anything;
`aborted` says that its signal is. -/
def committed (aborted : Bool) : Option (Option (Source × CommitState)) →
    ReserveOutcome × SessionPreparations SessionId Source CommitState
  | none => (.thrown, s.remove entry)
  | some none => (.undefined, s.remove entry)
  | some (some (source, state)) =>
    let s := s.update entry ({ · with source := some source })
    if aborted then (.thrown, s.makeReady entry)
    else if (s.current entry).isSome then
      let index := s.reservations.length
      (.reservation index,
        { s.update entry ({ · with phase := .reserved, reservation := some index }) with
          reservations := s.reservations ++ [{ entry, source, state }] })
    else (.undefined, s)

def entryOf (index : Nat) : Option Nat := s.reservations[index]?.map (·.entry)

/-- The entry of a reservation, when the table holds it and it holds the reservation. -/
def held (index : Nat) : Option Nat :=
  (s.entryOf index).filter fun entry =>
    (s.current entry).isSome && (s.heap[entry]?.bind (·.reservation)) == some index

/-- Consume a reservation after its exact session has attached. -/
def attach (index : Nat) : Except String (SessionPreparations SessionId Source CommitState) :=
  match s.held index with
  | some entry => .ok (s.remove entry)
  | none => .error "preparation is no longer reserved"

/-- Consume a reservation whose caller only needs the committed inspection. -/
def discard (index : Nat) : SessionPreparations SessionId Source CommitState :=
  match s.held index with
  | some entry => s.remove entry
  | none => s

/-- Return a reusable unpublished reservation to the ready LRU. -/
def release (index : Nat) (reusable : Bool) : SessionPreparations SessionId Source CommitState :=
  match s.held index with
  | some entry =>
    if s.phase? entry = some .reserved then
      if reusable then (s.update entry ({ · with reservation := none })).makeReady entry
      else s.remove entry
    else s
  | none => s

/-- Discard a prepared view after the durable log changes. -/
def invalidate : SessionPreparations SessionId Source CommitState :=
  match OrderedMap.get? s.entries id with
  | some entry => s.remove entry
  | none => s

/-- Discard an exact stale ready source without disturbing an exclusive owner. -/
def discardReady [DecidableEq Source] (expected : Source) :
    DiscardReady × SessionPreparations SessionId Source CommitState :=
  match OrderedMap.get? s.entries id with
  | some entry =>
    if s.heap[entry]?.bind (·.source) ≠ some expected then (.missing, s)
    else if s.isReady entry then (.discarded, s.remove entry)
    else (.retained, s)
  | none => (.missing, s)

/-- Reject writes while an unpublished session exclusively reserves the id. -/
def assertWritable : Except String Unit :=
  match (OrderedMap.get? s.entries id).bind s.phase? with
  | some .committing | some .reserved =>
    .error "cannot append session while its persisted preparation is reserved"
  | _ => .ok ()

/-- Remove a completed entry for an already-serialized append adoption. -/
def takeReady : Option Source × SessionPreparations SessionId Source CommitState :=
  match OrderedMap.get? s.entries id with
  | some entry =>
    match s.isReady entry, s.heap[entry]?.bind (·.source) with
    | true, some source => (some source, s.remove entry)
    | _, _ => (none, s)
  | none => (none, s)

end SessionPreparations

/-! ## Interleavings -/

namespace SessionPreparations

/-- Where a call is suspended. -/
inductive Await where
  /-- `inspect` awaits the shared read. -/
  | inspecting
  /-- `reserve` awaits the shared read. -/
  | loading
  /-- `reserve` awaits the settlement of another reservation. -/
  | settlement (promise : Nat)
  /-- `reserve` awaits its commit; whether its session was invalidated since. -/
  | commit (invalidated : Bool)
  deriving DecidableEq

/-- A suspended call of `inspect` or `reserve`. -/
structure Call (SessionId : Type) where
  id : SessionId
  entry : Nat
  /-- Whether a cancellation signal was given. -/
  signal : Bool
  aborted : Bool
  await : Await

end SessionPreparations

open SessionPreparations

/-- A table among its callers. -/
structure PreparationsWorld (SessionId Source CommitState : Type) where
  table : SessionPreparations SessionId Source CommitState
  /-- The entries whose read has not settled. -/
  loads : List Nat
  calls : List (Call SessionId)
  /-- The reservations that callers got, each with its session, and that were neither
  attached, discarded, released nor invalidated since. -/
  live : List (Nat × SessionId)

namespace PreparationsWorld

variable {SessionId Source CommitState : Type} [DecidableEq SessionId]

/-- What happens to a table. -/
inductive Act (SessionId Source CommitState : Type) where
  | inspect (id : SessionId) (signal loadThrows : Bool)
  | reserve (id : SessionId) (signal loadThrows : Bool)
  /-- A read settles. -/
  | loaded (entry : Nat) (result : Option Source)
  /-- A suspended call goes on after what it awaited was resolved or rejected. -/
  | resume (call : Nat)
  /-- The commit of a suspended call settles. -/
  | committed (call : Nat) (result : Option (Option (Source × CommitState)))
  /-- The signal of a suspended call is aborted. -/
  | abort (call : Nat)
  | attach (reservation : Nat)
  | discard (reservation : Nat)
  | release (reservation : Nat) (reusable : Bool)
  | invalidate (id : SessionId)
  | discardReady (id : SessionId) (expected : Source)
  | takeReady (id : SessionId)

variable (w : PreparationsWorld SessionId Source CommitState)

def create (capacity : Nat) : PreparationsWorld SessionId Source CommitState where
  table := .create capacity
  loads := []
  calls := []
  live := []

/-- `inspect` or `reserve` up to its first `await`. -/
def start (id : SessionId) (signal loadThrows : Bool) (await : Await) :
    PreparationsWorld SessionId Source CommitState :=
  let ((entry, started), table) := w.table.entryFor id loadThrows
  { w with
    table
    loads := if started then w.loads ++ [entry] else w.loads
    calls := w.calls ++ [{ id, entry, signal, aborted := false, await }] }

/-- The end of a call of `reserve`, or its next `await`. -/
def proceed (call : Call SessionId) :
    ReserveOutcome × SessionPreparations SessionId Source CommitState →
      PreparationsWorld SessionId Source CommitState
  | (.committing, table) =>
    { w with table, calls := w.calls ++ [{ call with await := .commit false }] }
  | (.waiting promise, table) =>
    { w with table, calls := w.calls ++ [{ call with await := .settlement promise }] }
  | (.reservation index, table) => { w with table, live := w.live ++ [(index, call.id)] }
  | (.undefined, table) | (.thrown, table) => { w with table }

/-- A suspended call goes on, when what it awaits has settled. -/
def resumeCall (call : Call SessionId) : Option (PreparationsWorld SessionId Source CommitState) :=
  match call.await with
  | .inspecting =>
    (w.table.heap[call.entry]?.bind (·.result)).map fun
      | some source => { w with table := (w.table.inspected call.entry source).2 }
      | none => w
  | .loading =>
    (w.table.heap[call.entry]?.bind (·.result)).map fun
      | some _ => w.proceed call (w.table.tryReserve call.entry)
      | none => w
  | .settlement promise =>
    if promise ∈ w.table.settled then some (w.proceed call (w.table.tryReserve call.entry)) else none
  | .commit _ => none

/-- `observeQueuedAbort` rejects at once; during a commit the abort is only noted. -/
def abortCall (call : Call SessionId) : PreparationsWorld SessionId Source CommitState :=
  match call.await with
  | .commit _ => { w with calls := w.calls ++ [{ call with aborted := true }] }
  | _ => w

/-- A caller gives a reservation up. -/
def forget (reservation : Nat) : PreparationsWorld SessionId Source CommitState :=
  { w with live := w.live.filter (·.1 != reservation) }

/-- The reservations and commits of a session lose their entry. -/
def invalidated (id : SessionId) : PreparationsWorld SessionId Source CommitState :=
  { w with
    live := w.live.filter (·.2 ≠ id)
    calls := w.calls.map fun call =>
      match call.await with
      | .commit _ => if call.id = id then { call with await := .commit true } else call
      | _ => call }

def step [DecidableEq Source] : Act SessionId Source CommitState →
    Option (PreparationsWorld SessionId Source CommitState)
  | .inspect id signal loadThrows => some (w.start id signal loadThrows .inspecting)
  | .reserve id signal loadThrows => some (w.start id signal loadThrows .loading)
  | .loaded entry result =>
    if entry ∈ w.loads then
      some { w with table := w.table.loaded entry result, loads := w.loads.erase entry }
    else none
  | .resume index => w.calls[index]?.bind fun call =>
      { w with calls := w.calls.eraseIdx index }.resumeCall call
  | .committed index result => w.calls[index]?.bind fun call =>
      match call.await with
      | .commit _ => some ({ w with calls := w.calls.eraseIdx index }.proceed call
          (w.table.committed call.entry call.aborted result))
      | _ => none
  | .abort index => w.calls[index]?.bind fun call =>
      if call.signal then some ({ w with calls := w.calls.eraseIdx index }.abortCall call) else none
  | .attach index =>
    match w.table.attach index with
    | .ok table => some ({ w with table }.forget index)
    | .error _ => some w
  | .discard index => some ({ w with table := w.table.discard index }.forget index)
  | .release index reusable =>
    some ({ w with table := w.table.release index reusable }.forget index)
  | .invalidate id => some ({ w with table := w.table.invalidate id }.invalidated id)
  | .discardReady id expected => some { w with table := (w.table.discardReady id expected).2 }
  | .takeReady id => some { w with table := (w.table.takeReady id).2 }

end PreparationsWorld
end Harness
