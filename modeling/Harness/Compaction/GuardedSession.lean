-- SUMMARY: The tool-pairing balance of surface cuts (`compaction/src/tool-pairing.ts`), and a session whose appends pass both trace validators.
import Harness.Compaction.CompactionTrace
import Harness.Compaction.FoldsApply
import Harness.Session.Trace

namespace Harness

namespace ToolPairing

/-- How one surface event changes the in-progress tool-call count. -/
def eventDelta (event : SessionEvent) : Int :=
  match event.data with
  | .assistantMessage _ _ message _ => message.content.countP (·.toolCall?.isSome)
  | .toolResult _ => -1
  | _ => 0

/-- The event a surface sequence names. -/
def eventForSeq (events : List SessionEvent) (seq : Nat) : Except String SessionEvent :=
  match events[seq]? with
  | some event =>
    if event.seq ≠ seq then
      .error s!"tool-pairing balance: surface seq {seq} has no matching session event (corrupt surface)"
    else .ok event
  | none =>
    .error s!"tool-pairing balance: surface seq {seq} has no matching session event (corrupt surface)"

/-- The cuts after each of the surface sequences, from a count of calls in progress. -/
def cutsAfter (events : List SessionEvent) (inProgressToolCalls : Int) :
    List Nat → Except String (List Bool)
  | [] => .ok []
  | seq :: seqs => do
    let event ← eventForSeq events seq
    let count := inProgressToolCalls + eventDelta event
    if count < 0 then
      .error s!"tool-pairing balance: tool/result at surface seq {seq} has no matching tool-call (corrupt surface)"
    else
      let cuts ← cutsAfter events count seqs
      .ok ((count == 0) :: cuts)

/-- The balance of every cut of a surface. The cache that extends it is a matter of cost. -/
def cutBalanced (events : List SessionEvent) (nodes : List Nat) : Except String (List Bool) :=
  (cutsAfter events 0 nodes).map (true :: ·)

/-- Balance of the cut at a sequence's position plus `offset`. -/
def cutBalance (events : List SessionEvent) (nodes : List Nat) (seq offset : Nat) :
    Except String Bool := do
  let cuts ← cutBalanced events nodes
  match (nodes.idxOf? seq).bind fun index => cuts[index + offset]? with
  | some balanced => .ok balanced
  | none => .error s!"tool-pairing balance: surface seq {seq} not found"

end ToolPairing

/-- Whether the cut immediately before a current surface sequence is tool-pairing balanced. -/
def toolPairingBalancedBefore (events : List SessionEvent) (nodes : List Nat) (seq : Nat) :
    Except String Bool :=
  ToolPairing.cutBalance events nodes seq 0

/-- Whether the cut immediately after a current surface sequence is tool-pairing balanced. -/
def toolPairingBalancedAfter (events : List SessionEvent) (nodes : List Nat) (seq : Nat) :
    Except String Bool :=
  ToolPairing.cutBalance events nodes seq 1

end Harness

/-!
# Guarded sessions

The validators listen to the dispatch of a session event and throw before the log grows.
The session itself is its cacheless counterpart.
-/

namespace Harness

structure GuardedSession where
  session : SessionSpec
  trace : SessionTrace
  compaction : CompactionSessionTrace

/-- How one append ends: in the session's own checks, in a validator, or in the log. -/
inductive AppendOutcome where
  | refused (error : String)
  | vetoed (event : SessionEvent) (error : String)
  | logged (event : SessionEvent)

namespace GuardedSession

abbrev events (s : GuardedSession) : List SessionEvent := s.session.events

/-- `session.seq`. -/
def seq (s : GuardedSession) : Nat := s.events.length

/-- The first validator that rejects an event, or the traces after it. -/
def validate (s : GuardedSession) (event : SessionEvent) :
    Except String (SessionTrace × CompactionSessionTrace) := do
  let trace ← s.trace.step event
  let compaction ← s.compaction.advance event
  .ok (trace, compaction)

def append (s : GuardedSession) (request : AppendRequest) : AppendOutcome × GuardedSession :=
  match s.session.planAppend request with
  | .error e => (.refused e, s)
  | .ok event =>
    match s.validate event with
    | .error e => (.vetoed event e, s)
    | .ok (trace, compaction) =>
      (.logged event, { session := s.session.push event, trace, compaction })

/-- The appends other parties make while a pass awaits something. -/
def appendEach (s : GuardedSession) : List AppendRequest → GuardedSession
  | [] => s
  | request :: requests => (s.append request).2.appendEach requests

end GuardedSession

/-! ## Passes -/

/-- A pass under way: the session, and how its own appends so far ended. -/
structure PassRun where
  session : GuardedSession
  outcomes : List AppendOutcome := []

namespace PassRun

/-- `session.append`, which throws unless the event is logged. -/
def append (p : PassRun) (request : AppendRequest) : Except String SessionEvent × PassRun :=
  let (outcome, session) := p.session.append request
  let p : PassRun := { session, outcomes := p.outcomes ++ [outcome] }
  match outcome with
  | .refused e => (.error e, p)
  | .vetoed _ e => (.error e, p)
  | .logged event => (.ok event, p)

/-- Appends in a row, up to the first that throws. -/
def appendAll (p : PassRun) : List (Nat → AppendRequest) → Except String Unit × PassRun
  | [] => (.ok (), p)
  | request :: requests =>
    match p.append (request p.session.seq) with
    | (.error e, p) => (.error e, p)
    | (.ok _, p) => p.appendAll requests

end PassRun

end Harness
