-- SUMMARY: The persisted projection cache of `session-projection-cache/src/index.ts` as a state machine, with the session, its stored log and the crashes around it.
import Harness.Projections.Restore

/-!
# The projection cache

One session id: the log of its live session, the part of it that persistence has stored,
and the cache record. A checkpoint write takes its cut, waits for the session's flush, and
puts the record; each of these ends some time later, or the process crashes first and
everything that is not stored is lost. At detach the session has left the store, and the
write puts its record without the flush.
-/

namespace Harness.SessionProjections

/-! ## State -/

/-- The header fields a record is bound to. -/
structure CheckpointIdentity where
  createdAt : Nat
  cwd : Option String
  deriving DecidableEq

/-- Whether a stored record's bound identity names the caller's lifecycle. -/
def identityMatches (stored expected : CheckpointIdentity) : Bool :=
  stored.createdAt == expected.createdAt && stored.cwd == expected.cwd

/-- One session's stored record. -/
structure CheckpointRecord (S : Type) where
  identity : CheckpointIdentity
  rows : ProjectionCheckpoint S

/-- The interval trigger of a dirty session. -/
inductive Timer where
  | unset
  | armed
  | fired
  deriving DecidableEq

/-- Per-session write-behind bookkeeping. -/
structure DirtyState where
  /-- Committed events since the last durable write. -/
  pending : Nat
  timer : Timer

/-- Where a checkpoint write waits. -/
inductive WriteStage where
  /-- For the session's flush. -/
  | flushing
  /-- For the record to be put. -/
  | putting
  deriving DecidableEq

/-- A checkpoint write that has taken its cut. -/
structure PendingWrite (S : Type) where
  identity : CheckpointIdentity
  rows : ProjectionCheckpoint S
  /-- The log that the rows were folded from. -/
  events : List SessionEvent
  stage : WriteStage
  /-- The write of a session that has left the store, which flushes nothing. -/
  detached : Bool

structure ColdRead (S : Type) where
  cached : Option (CheckpointRecord S)
  floor : Option Nat
  /-- The tail was of no use: the header it came with. The whole log is read now. -/
  whole : Option CheckpointIdentity

/-- The session of the id in this process. -/
inductive Lifecycle where
  | cold
  | live (events : List SessionEvent) (dirty : DirtyState)
  /-- Detached, while persistence drains what it has not stored. -/
  | retiring (events : List SessionEvent)

structure Cache (S V : Type) where
  writeEveryEvents : Nat
  /-- The header of the stored log. -/
  identity : CheckpointIdentity
  /-- The headers of the logs the id has had before. -/
  past : List CheckpointIdentity
  stored : List SessionEvent
  session : Lifecycle
  units : List (ProjectionDefinition S V)
  writes : List (PendingWrite S)
  reads : List (ColdRead S)
  record : Option (CheckpointRecord S)

variable {S V : Type}

namespace Cache

variable (c : Cache S V)

/-- The log as far as anyone has it: the session's, or what is stored. -/
def log : List SessionEvent :=
  match c.session with
  | .cold => c.stored
  | .live events _ => events
  | .retiring events => events

/-! ## Reads -/

/-- The stored record, when its identity is the caller's. -/
def recordFor (expected : CheckpointIdentity) : Option (CheckpointRecord S) :=
  c.record.filter fun record => identityMatches record.identity expected

/-- The zero-I/O listing read. Nothing where a view throws; no snapshot where no row is of
use. -/
def cachedSnapshot (expected : CheckpointIdentity) : Option (Option (ProjectionSnapshot V)) :=
  match c.recordFor expected with
  | none => some none
  | some record =>
    (viewCheckpoint c.units record.rows).map fun values =>
      -- the lowest served watermark
      let watermarks := values.filterMap fun (key, _) => (record.rows.lookup key).map (·.seq)
      watermarks.min?.map fun asOfSeq => { asOfSeq, values }

/-- What a cold read comes to when persistence answers: the snapshot, and the rows to write
back. Nothing where the restore throws. -/
def coldSettle (read : ColdRead S) :
    Option (ProjectionSnapshot V × Option (ProjectionCheckpoint S)) :=
  match read.floor with
  | none => some ({ asOfSeq := endSeq c.stored 0, values := [] }, none)
  | some floor =>
    match read.whole with
    | some _ => (restore c.units [] c.stored 0).map fun (snapshot, rows) => (snapshot, some rows)
    | none =>
      if read.cached.all fun record => identityMatches record.identity c.identity then
        let rows := (read.cached.map (·.rows)).getD []
        (restore c.units rows (c.stored.drop floor) floor).map fun (snapshot, rows) =>
          (snapshot, some rows)
      else none

/-! ## Writes -/

/-- Reset the session's dirty bookkeeping. -/
def markClean (session : Lifecycle) : Lifecycle :=
  match session with
  | .live events _ => .live events { pending := 0, timer := .unset }
  | other => other

/-- `flushSoft` up to its first wait: take the cut and mark clean. Where the checkpoint
throws, nothing is written. -/
def flushSoft (detached : Bool) : Cache S V :=
  match cut c.units c.log with
  | none => c
  | some rows =>
    { c with
      session := markClean c.session
      writes := c.writes ++
        [{ identity := c.identity, rows, events := c.log
           stage := if detached then .putting else .flushing, detached }] }

/-- The `session/event` listener. -/
def onEvent (events : List SessionEvent) (dirty : DirtyState) (event : SessionEvent) : Cache S V :=
  if event.type == "turn/end" then { c with session := .live events dirty }.flushSoft false
  else
    let pending := dirty.pending + 1
    if c.writeEveryEvents ≤ pending then
      { c with session := .live events { dirty with pending } }.flushSoft false
    else
      let timer := if dirty.timer = .unset then .armed else dirty.timer
      { c with session := .live events { pending, timer } }

/-! ## Steps -/

inductive Action where
  /-- The registered units change, to those of the given keys and versions. -/
  | register (keys : List (String × Int))
  | append (event : SessionEvent)
  | interval
  /-- An explicit write of the live session. -/
  | write
  | detach
  /-- Persistence has stored the first `n` events. -/
  | persist (n : Nat)
  | flushed (i : Nat)
  | flushFailed (i : Nat)
  | landed (i : Nat)
  | putFailed (i : Nat)
  /-- The retired session is drained. -/
  | retired
  /-- The process dies; what is stored stays. -/
  | crash
  /-- The stored log becomes a live session, closed by the repair of its open turn. -/
  | resume (closers : List SessionEvent)
  /-- A new session under the id, with a header of its own. -/
  | create (identity : CheckpointIdentity) (seed : List SessionEvent)
  | coldSnapshot
  | coldRead (i : Nat)
  | coldFailed (i : Nat)

/-- The units of the given keys and versions. -/
def unitsOf (catalogue : Catalogue S V) (keys : List (String × Int)) :
    List (ProjectionDefinition S V) :=
  keys.filterMap fun (key, version) => catalogue.unit key version

/-- One step of the write at `i`, where it is at the given stage. -/
def writeStep (i : Nat) (stage : WriteStage)
    (next : PendingWrite S → Option (Cache S V)) : Option (Cache S V) :=
  c.writes[i]?.bind fun write => if write.stage = stage then next write else none

def step (catalogue : Catalogue S V) (c : Cache S V) : Action → Option (Cache S V)
  | .register keys =>
    if (keys.map (·.1)).Nodup then some { c with units := unitsOf catalogue keys } else none
  | .append event =>
    match c.session with
    | .live events dirty =>
      if event.seq = events.length then some (c.onEvent (events ++ [event]) dirty event) else none
    | _ => none
  | .interval =>
    match c.session with
    | .live events dirty =>
      if dirty.timer = .armed then
        some ({ c with session := .live events { dirty with timer := .fired } }.flushSoft false)
      else none
    | _ => none
  | .write =>
    match c.session with
    | .live _ _ => some (c.flushSoft false)
    | _ => none
  | .detach =>
    match c.session with
    | .live events _ => some ({ c with session := .retiring events }.flushSoft true)
    | _ => none
  | .persist n =>
    if c.stored.length ≤ n ∧ n ≤ c.log.length then some { c with stored := c.log.take n } else none
  | .flushed i => c.writeStep i .flushing fun write =>
    -- a flush resolves when persistence has stored the log it was called on
    if write.identity = c.identity ∧ c.stored.length < write.events.length then none
    else some { c with writes := c.writes.set i { write with stage := .putting } }
  | .flushFailed i => c.writeStep i .flushing fun _ => some { c with writes := c.writes.eraseIdx i }
  | .landed i => c.writeStep i .putting fun write =>
    some { c with
      record := some { identity := write.identity, rows := write.rows }
      writes := c.writes.eraseIdx i }
  | .putFailed i => c.writeStep i .putting fun _ => some { c with writes := c.writes.eraseIdx i }
  | .retired =>
    match c.session with
    | .retiring events =>
      if c.stored.length = events.length then some { c with session := .cold } else none
    | _ => none
  | .crash => some { c with session := .cold, writes := [], reads := [] }
  | .resume closers =>
    match c.session with
    | .cold =>
      if numberedFrom c.stored.length closers then
        some { c with
          stored := c.stored ++ closers
          session := .live (c.stored ++ closers) { pending := 0, timer := .unset } }
      else none
    | _ => none
  | .create identity seed =>
    match c.session with
    | .cold =>
      if identity ∉ c.identity :: c.past ∧ numberedFrom 0 seed then
        some { c with
          identity, past := c.identity :: c.past, stored := []
          session := .live seed { pending := 0, timer := .unset } }
      else none
    | _ => none
  | .coldSnapshot =>
    let floor := restoreFloor c.units ((c.record.map (·.rows)).getD [])
    some { c with reads := c.reads ++ [{ cached := c.record, floor, whole := none }] }
  | .coldRead i =>
    c.reads[i]?.map fun read =>
      match c.coldSettle read with
      | some (_, rows) =>
        { c with
          reads := c.reads.eraseIdx i
          writes := c.writes ++ rows.toList.map fun rows =>
            { identity := read.whole.getD c.identity, rows, events := c.stored
              stage := .putting, detached := false } }
      | none =>
        match read.whole with
        | none => { c with reads := c.reads.set i { read with whole := some c.identity } }
        | some _ => { c with reads := c.reads.eraseIdx i }
  | .coldFailed i =>
    if i < c.reads.length then some { c with reads := c.reads.eraseIdx i } else none

/-- A stored log that no process has open, and no record of it. -/
def start (writeEveryEvents : Nat) (identity : CheckpointIdentity) (stored : List SessionEvent) :
    Cache S V :=
  { writeEveryEvents, identity, past := [], stored, session := .cold, units := [], writes := []
    reads := [], record := none }

end Cache

end Harness.SessionProjections
