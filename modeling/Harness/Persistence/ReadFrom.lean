-- SUMMARY: Reading a stored session from a seq on, by seeking and by reading the whole log, after `session-persistence/src/coordinator.ts`.
import Harness.Persistence.MigrationContract

/-!
# Suffix reads

A backend that can seek reads the rows from `fromSeq` on and scans them by themselves. One
that cannot reads the whole log and skips forward. A suffix with a legacy event that needs
what lies before it is read the second way too.
-/

namespace Harness

open StoredEvents

/-- A stored session. The primary key keeps one row per seq, and reads order them by it. -/
structure StoredSession where
  header : SessionHeader
  rows : List EventRow
  ascending : rows.Pairwise fun row row' => row.seq < row'.seq

namespace StoredSession

/-- The header of a `sessions` row. -/
def rowToMeta (stored : StoredSession) : Except String SessionHeader :=
  if isCount (some (.num stored.header.createdAt)) then .ok stored.header
  else .error "stored session createdAt must be a non-negative safe integer"

/-- Read the whole stored prefix. -/
def loadStored (stored : StoredSession) : Except String (SessionHeader × List StoredFields) := do
  let scanned ← scanRows stored.rows 0
  let header ← stored.rowToMeta
  return (header, scanned.preserved)

/-- Read the rows from `fromSeq` on, and nothing else. -/
def loadStoredFrom (stored : StoredSession) (fromSeq : Nat) :
    Except String (SessionHeader × List StoredFields) := do
  let header ← stored.rowToMeta
  let scanned ← scanRows (stored.rows.filter fun row => (fromSeq : Int) ≤ row.seq) fromSeq
  return (header, scanned.preserved)

end StoredSession

/-! ## Checks of a stored log -/

/-- Every event type this build knows. -/
def KNOWN_SESSION_EVENT_TYPES : List JsString :=
  ["agent-preset/selected", "agent/inbox/spliced", "approval/asked", "approval/decided",
    "approval/policy", "assistant/chunk", "assistant/message", "autobio/memory",
    "autobio/memory-progress", "command/done", "command/run", "compaction/end", "compaction/prune",
    "compaction/start", "compaction/summary", "feedback/record", "goal/change", "hook/invoked",
    "hook/result", "llm/retry", "llm/retry-started", "permission/preset", "plan/mode",
    "request/context", "request/header", "sandbox/mode", "schedule/change", "session/end-seed",
    "session/title", "session/title-llm-request", "step/end", "step/start", "subagent/descriptor",
    "todo/write", "tool-workflow/agent-end", "tool-workflow/agent-start", "tool-workflow/run-end",
    "tool-workflow/run-start", "tool/call", "tool/code-dispatch", "tool/code-dispatch-start",
    "tool/result", "turn/end", "turn/start", "user/message", "web/deepseek-search-llm-request"]

/-- Reject metadata that is not bound to the requested session. -/
def assertStoredId (id : JsString) (header : SessionHeader) : Except String Unit :=
  if header.id = id then .ok ()
  else .error s!"stored session identity mismatch: requested \"{id}\", header contains \"{header.id}\""

def assertVersion (header : SessionHeader) : Except String Unit :=
  if header.version = SESSION_FORMAT_VERSION then .ok ()
  else .error (sessionFormatVersionRefusal header.id.toString header.version)

/-- Whether an event is known, or may be skipped by who does not know it. -/
def isSupportedType (event : StoredFields) : Bool :=
  (match Json.get? "type" event with
    | some (.str type) => KNOWN_SESSION_EVENT_TYPES.contains type
    | _ => false) ||
  match Json.get? "ignorable" event with
  | some (.bool ignorable) => ignorable
  | _ => false

/-- Refuse a log with an event of an unknown type that is not marked ignorable. -/
def assertEventsSupported (header : SessionHeader) (events : List StoredFields) : Except String Unit :=
  match events.find? fun event => !isSupportedType event with
  | some event =>
    let type := templateText (Json.get? "type" event)
    .error (s!"session \"{header.id}\" contains event type \"{type}\" (seq {seqText event}) unknown to this harness and not marked ignorable; " ++
      "refusing to interpret the log — it was likely written by a newer harness")
  | none => .ok ()

/-! ## Reads -/

/-- Read one physical prefix without logical recovery. -/
def readStoredPrefix (stored : Option StoredSession) (id : JsString) :
    Except String (SessionHeader × List StoredFields) :=
  match stored with
  | none => .error s!"session \"{id}\" not found"
  | some stored => do
    let (header, storedEvents) ← stored.loadStored
    assertStoredId id header
    assertVersion header
    let events ← snapshotStoredEvents storedEvents id
    assertEventsSupported header events
    return (header, events)

/-- `event.seq >= fromSeq`; the seqs of rows are integers. -/
def seqFrom (fromSeq : Nat) (event : StoredFields) : Bool :=
  match Json.get? "seq" event with
  | some (.num (.int seq)) => decide ((fromSeq : Int) ≤ seq)
  | _ => false

/-- Read the stored events from `fromSeq` on. `seeks` says that the backend has
`loadStoredFrom`. -/
def readFromCore (seeks : Bool) (stored : Option StoredSession) (id : JsString) (fromSeq : Nat) :
    Except String (SessionHeader × List StoredFields) :=
  if seeks then
    match stored with
    | none => .error s!"session \"{id}\" not found"
    | some session => do
      let (header, suffix) ← session.loadStoredFrom fromSeq
      assertStoredId id header
      assertVersion header
      if suffix.any needsLegacyPrefix then
        let (header, events) ← readStoredPrefix stored id
        return (header, events.filter (seqFrom fromSeq))
      else
        let events ← snapshotStoredEvents suffix id
        assertEventsSupported header events
        return (header, events)
  else do
    let (header, events) ← readStoredPrefix stored id
    return (header, events.drop fromSeq)

end Harness
