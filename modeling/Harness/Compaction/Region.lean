-- SUMMARY: The region transaction of `compaction-basic/src/region.ts`: entry checks, summary, commit, and the close it always attempts.
import Harness.Compaction.GuardedSession
import Harness.TokenMeter.Meter

/-!
# Region compaction

The transaction awaits once, for its summary. What other parties append meanwhile, and how
the summarizer answers, is given with the call.
-/

namespace Harness

open Json (field ofNat)

/-- An identity that is not empty, as a random UUID or a minted command id is. -/
abbrev NonEmptyId := { id : JsString // id.units.length ≠ 0 }

/-! ## Entry state -/

/-- The newest event that `read` has an answer for. -/
def latest {α : Type} (read : SessionEvent → Option α) (events : List SessionEvent) : Option α :=
  events.reverse.findSome? read

def turnBoundary (event : SessionEvent) : Option (Option Nat) :=
  match event.data with
  | .turnStart turn => some (some turn)
  | .turnEnd _ _ => some none
  | _ => none

/-- What a bracket marker says about the unmatched start. -/
def bracketMarker (event : SessionEvent) : Option (Option Nat) :=
  match event.data with
  | .other type _ _ =>
    if type == "compaction/start" then some (some event.seq)
    else if type == "compaction/end" then some none
    else none
  | _ => none

def endSeedMarker (event : SessionEvent) : Option Nat :=
  match event.data with
  | .sessionEndSeed => some event.seq
  | _ => none

structure CompactionEntryState where
  openTurn : Option Nat
  unmatchedCompactionStart : Option Nat
  latestEndSeedSeq : Option Nat

/-- Inspect open-turn, unmatched-compaction, and latest seed-boundary state independently. -/
def inspectCompactionEntryState (events : List SessionEvent) : CompactionEntryState where
  openTurn := (latest turnBoundary events).join
  unmatchedCompactionStart := (latest bracketMarker events).join
  latestEndSeedSeq := latest endSeedMarker events

/-! ## Errors -/

inductive ManualCompactionErrorCode where
  | busy
  | cancelled
  | changed
  | summary
  | commit
  | persistence
  deriving DecidableEq

structure CompactionError where
  /-- The code of a `ManualCompactionError`; inside a bracket, what kind of failure it is. -/
  code : Option ManualCompactionErrorCode := none
  message : String

/-- Reject an unmatched marker unless a later constructor-seed boundary outdates it. -/
def assertCompactionInactive (state : CompactionEntryState) (stage : String) :
    Except CompactionError Unit :=
  match state.unmatchedCompactionStart with
  | none => .ok ()
  | some start =>
    if state.latestEndSeedSeq.any (decide <| start < ·) then .ok ()
    else
      .error
        { code := some .busy
          message := s!"{stage}: compaction already in progress; the session compaction lock is already active" }

/-! ## Selection -/

structure SurfaceSelection where
  start : Nat
  end_ : Nat
  startIdx : Nat
  endIdx : Nat
  shadowedSeqs : List Nat

/-- Validate one requested surface-position span. -/
def validateSurfaceRegion (s : GuardedSession) (start end_ : Nat) :
    Except String SurfaceSelection := do
  let nodes ← s.session.nodes
  match nodes.idxOf? start, nodes.idxOf? end_ with
  | none, _ => .error s!"compactRegion: start seq {start} not found in surface"
  | _, none => .error s!"compactRegion: end seq {end_} not found in surface"
  | some startIdx, some endIdx =>
    if startIdx > endIdx then
      .error s!"compactRegion: start seq {start} (position {startIdx}) is after end seq {end_} (position {endIdx}) on the surface"
    else
      let before ← toolPairingBalancedBefore s.events nodes start
      if !before then
        .error s!"compactRegion: start seq {start} is not a balanced boundary (would split a step's tool-call/result pair)"
      else
        let after ← toolPairingBalancedAfter s.events nodes end_
        if !after then
          .error s!"compactRegion: end seq {end_} is not a balanced boundary (would split a step, or the step is still open)"
        else
          .ok { start, end_, startIdx, endIdx
                shadowedSeqs := nodes.slice startIdx (endIdx + 1 - startIdx) }

/-! ## The transaction -/

inductive RegionOwner where
  | currentTurn
  | standalone
  deriving DecidableEq

inductive StabilityRule where
  | wholeSurface
  | selectedSpan
  deriving DecidableEq

/-- The optional fields that are logged with a summary. -/
structure SummaryProvenance where
  rawOutput : Option Json
  llmStreamCall : Bool
  maxTokens : Option Num
  usage : Option Json

/-- What a summarizer answers; `provenance` is none where it has no lossless JSON. -/
structure SummaryResult where
  summary : List ContentBlock
  provider : JsString
  model : JsString
  provenance : Option SummaryProvenance

/-- One call, with what it meets: whether its signal is aborted at the three points it
looks, and what happens while it awaits its summary. -/
structure RegionCall where
  start : Nat
  end_ : Nat
  owner : RegionOwner
  stability : StabilityRule
  sourceCommandId : Option NonEmptyId
  compactionId : NonEmptyId
  abortedAtEntry : Option String
  abortedAfterSummary : Option String
  abortedAtExit : Option String
  others : List AppendRequest
  summary : Except String SummaryResult
  flushError : Option String
  clock : Nat → Int
  messageId : MessageId

/-- `signal?.throwIfAborted()`, which only a manual call makes. -/
def RegionCall.throwIfAborted (call : RegionCall) (aborted : Option String) :
    Except CompactionError Unit :=
  match call.owner, aborted with
  | .standalone, some reason => .error { message := reason }
  | _, _ => .ok ()

/-- A selection with its priced snapshot. -/
structure PreparedCompaction extends SurfaceSelection where
  measurement : TokenMeasurement
  selectedNodes : List TokenSurfaceNode

def PreparedCompaction.shadowedTokenCount (prepared : PreparedCompaction) : Nat :=
  totalTokens prepared.selectedNodes

/-- Snapshot pricing for a validated surface range. -/
def prepareCompaction (s : GuardedSession) (selection : SurfaceSelection) :
    Except CompactionError PreparedCompaction :=
  match measure s.events with
  | .error e => .error { message := e }
  | .ok measurement =>
    let selectedNodes :=
      measurement.nodes.slice selection.startIdx (selection.endIdx + 1 - selection.startIdx)
    if selectedNodes.map (·.seq) ≠ selection.shadowedSeqs then
      .error
        { code := some .changed
          message := "compaction: selected surface changed before summarization began" }
    else .ok { selection with measurement, selectedNodes }

def CHECKPOINT_PREAMBLE : String :=
  "This is an automatically generated checkpoint condensing an earlier span of the conversation to free up context. Treat the captured context as established background and build on it without restating it. Continue the task directly from the messages that follow, without acknowledging this checkpoint."

def SUMMARY_OPEN_TAG : String := "<compacted-summary>"

def SUMMARY_CLOSE_TAG : String := "</compacted-summary>"

def frameSummary (summary : List ContentBlock) : List ContentBlock :=
  .text (s!"{CHECKPOINT_PREAMBLE}\n\n{SUMMARY_OPEN_TAG}" : String) :: summary
    ++ [.text SUMMARY_CLOSE_TAG]

namespace RegionCall

variable (call : RegionCall)

def commandField : List (JsString × Json) :=
  (call.sourceCommandId.map fun id => field "sourceCommandId" (.str id.val)).toList

/-- Checkpoint provenance correlated with the transaction. -/
def compactCheckpointSource : MessageSource :=
  .other (.obj <|
    [field "kind" (.str "plugin"), field "plugin" (.str "compact"),
      field "compactionId" (.str call.compactionId.val)] ++ call.commandField)

def checkpointMessage (result : SummaryResult) : UserMessage where
  id := call.messageId
  content := frameSummary result.summary
  source := call.compactCheckpointSource

/-- Run the summarizer and check that its checkpoint is smaller than what it replaces. -/
def summarizeCompaction (prepared : PreparedCompaction) : Except CompactionError SummaryResult :=
  match call.summary with
  | .error e => .error { message := e }
  | .ok result =>
    let framed := estimateMessage (.user (call.checkpointMessage result))
    if framed ≥ prepared.shadowedTokenCount then
      .error { message :=
        s!"summary is not smaller than the shadowed content ({framed} estimated framed tokens >= {prepared.shadowedTokenCount})" }
    else .ok result

/-- Whether the summary may still replace the span it was built from. -/
def assertStable (s : GuardedSession) (prepared : PreparedCompaction) :
    Except CompactionError Unit :=
  let changed (message : String) : CompactionError := { code := some .changed, message }
  match call.stability with
  | .wholeSurface =>
    match measure s.events with
    | .error e => .error { message := e }
    | .ok current =>
      if current.nodes ≠ prepared.measurement.nodes then
        .error (changed "compaction: session surface changed during summarization")
      else .ok ()
  | .selectedSpan =>
    match validateSurfaceRegion s prepared.start prepared.end_ with
    | .error e =>
      .error (changed s!"compaction: the selected span is no longer a valid replacement target: {e}")
    | .ok current =>
      if current.shadowedSeqs ≠ prepared.shadowedSeqs then
        .error (changed "compaction: the selected span changed during summarization")
      else
        match measure s.events with
        | .error e => .error { message := e }
        | .ok measured =>
          if measured.nodes.slice current.startIdx (current.endIdx + 1 - current.startIdx)
              ≠ prepared.selectedNodes then
            .error (changed "compaction: the selected span was rewritten during summarization")
          else .ok ()

/-! ## What it appends -/

def ownerJson : Option Nat → Json
  | none => .null
  | some turn => ofNat turn

/-- The fields shared by the start and the end of a bracket. -/
def lifecycle (turn : Option Nat) : List (JsString × Json) :=
  field "compactionId" (.str call.compactionId.val) :: call.commandField
    ++ [field "turn" (ownerJson turn)]

def startRequest (turn : Option Nat) (seq : Nat) : AppendRequest where
  payload := .lossless (.other "compaction/start" (.obj (call.lifecycle turn)) start_merged)
  time := call.clock seq

def errorField (error : Option String) : List (JsString × Json) :=
  (error.map fun e => field "error" (.str e)).toList

/-- The end of a bracket, with the error of a failed transaction. -/
def endRequest (turn : Option Nat) (error : Option String) (seq : Nat) : AppendRequest where
  payload := .lossless (.other "compaction/end"
    (.obj (call.lifecycle turn ++ errorField error)) end_merged)
  time := call.clock seq

def summaryData (prepared : PreparedCompaction) (result : SummaryResult)
    (provenance : SummaryProvenance) : Json :=
  .obj <|
    field "compactionId" (.str call.compactionId.val) :: call.commandField
      ++ [field "summary" (.arr (blocksJson result.summary))]
      ++ (provenance.rawOutput.map (field "rawOutput")).toList
      ++ (if provenance.llmStreamCall then [field "llmStreamCall" (.bool true)] else [])
      ++ [field "shadowedRange"
          (.obj [("start", ofNat prepared.start), ("end", ofNat prepared.end_)]),
        field "shadowedSeqs" (.arr (prepared.shadowedSeqs.map ofNat)),
        field "shadowedTokenCount" (ofNat prepared.shadowedTokenCount),
        field "provider" (.str result.provider), field "model" (.str result.model)]
      ++ (provenance.maxTokens.map fun n => field "maxTokens" (.num n)).toList
      ++ (provenance.usage.map (field "usage")).toList

def summaryRequest (prepared : PreparedCompaction) (result : SummaryResult) (seq : Nat) :
    AppendRequest where
  payload :=
    match result.provenance with
    | some provenance =>
      .lossless (.other "compaction/summary" (call.summaryData prepared result provenance)
        summary_merged)
    | none => .lossy "compaction/summary"
  time := call.clock seq

def checkpointRequest (prepared : PreparedCompaction) (result : SummaryResult)
    (startSeq summarySeq seq : Nat) : AppendRequest where
  payload := .lossless (.userMessage (call.checkpointMessage result))
  surfaceOp := .object true false
    [("op", .str "replace"), ("start", FoldTransaction.numberOf prepared.start),
      ("end", FoldTransaction.numberOf prepared.end_)]
  sourceEventSeqs := .array true 0
    ((startSeq :: summarySeq :: prepared.shadowedSeqs).map fun seq =>
      some (FoldTransaction.numberOf seq))
  time := call.clock seq

/-- Append the summary record and the replacement without yielding. -/
def commitCompactionBody (p : PassRun) (startSeq : Nat) (prepared : PreparedCompaction)
    (result : SummaryResult) : Except String Unit × PassRun :=
  match p.append (call.summaryRequest prepared result p.session.seq) with
  | (.error e, p) => (.error e, p)
  | (.ok summaryEvent, p) =>
    match p.append (call.checkpointRequest prepared result startSeq summaryEvent.seq p.session.seq) with
    | (.error e, p) => (.error e, p)
    | (.ok _, p) => (.ok (), p)

/-! ## The whole call -/

/-- Everything between the start of the bracket and its commit. The summary awaits, so the
session it ends in holds what others have appended. -/
def summaryStage (s : GuardedSession) (selection : SurfaceSelection) :
    Except CompactionError (PreparedCompaction × SummaryResult) × GuardedSession :=
  match prepareCompaction s selection with
  | .error e => (.error e, s)
  | .ok prepared =>
    let s := s.appendEach call.others
    match call.summarizeCompaction prepared with
    | .error e => (.error e, s)
    | .ok result =>
      match call.throwIfAborted call.abortedAfterSummary with
      | .error e => (.error e, s)
      | .ok () =>
        match call.assertStable s prepared with
        | .error e => (.error e, s)
        | .ok () => (.ok (prepared, result), s)

/-- Close a bracket that failed, if that can be done. -/
def closeFailed (p : PassRun) (turn : Option Nat) (failure : CompactionError) :
    CompactionError × Bool × PassRun :=
  match p.append (call.endRequest turn (some failure.message) p.session.seq) with
  | (.ok _, p) => (failure, true, p)
  | (.error e, p) => ({ code := some .commit, message := e }, false, p)

/-- The body of a bracket: its failure, if any, and whether it was closed. -/
def bracketBody (p : PassRun) (startSeq : Nat) (turn : Option Nat)
    (selection : SurfaceSelection) : Option CompactionError × Bool × PassRun :=
  let (staged, session) := call.summaryStage p.session selection
  let p := { p with session }
  match staged with
  | .error failure =>
    let (failure, closed, p) := call.closeFailed p turn failure
    (some failure, closed, p)
  | .ok (prepared, result) =>
    match call.commitCompactionBody p startSeq prepared result with
    | (.error e, p) =>
      let (failure, closed, p) := call.closeFailed p turn { code := some .commit, message := e }
      (some failure, closed, p)
    | (.ok (), p) =>
      -- one attempt only: a failed close leaves the unmatched start detectable
      match p.append (call.endRequest turn none p.session.seq) with
      | (.error e, p) => (some { code := some .commit, message := e }, false, p)
      | (.ok _, p) => (none, true, p)

/-- Classify one closed manual attempt. -/
def manualFailure (failure : CompactionError) : CompactionError :=
  match failure.code with
  | some .commit => { code := some .commit, message := "manual compaction did not commit cleanly" }
  | some .changed =>
    { code := some .changed, message := "the compacted history changed during manual compaction" }
  | _ =>
    { code := some .summary, message := "manual compaction could not produce a smaller summary" }

/-- How the call ends, once its bracket is done. -/
def settle (failure : Option CompactionError) (closed : Bool) : Except CompactionError Unit :=
  match call.throwIfAborted call.abortedAtExit with
  | .error e => .error e
  | .ok () =>
    match failure with
    | some failure =>
      .error (if call.owner = .standalone then manualFailure failure else { message := failure.message })
    | none =>
      match call.flushError with
      | some _ =>
        if closed then
          .error { code := some .persistence
                   message := "manual compaction durability checkpoint failed" }
        else .ok ()
      | none => .ok ()

/-- The turn a bracket is opened for. -/
def ownerTurn (entryState : CompactionEntryState) : Except CompactionError (Option Nat) :=
  match call.owner, entryState.openTurn with
  | .standalone, some _ =>
    .error { code := some .busy
             message := "manual compaction: the session already has an open turn" }
  | .standalone, none => .ok none
  | .currentTurn, none =>
    .error { message :=
      "compactRegion: no open turn — automatic compaction events must be enclosed in a turn" }
  | .currentTurn, some turn => .ok (some turn)

/-- Everything a call checks before it appends its first event. -/
def enter (s : GuardedSession) : Except CompactionError (SurfaceSelection × Option Nat) :=
  match call.throwIfAborted call.abortedAtEntry with
  | .error e => .error e
  | .ok () =>
    match validateSurfaceRegion s call.start call.end_ with
    | .error e => .error { message := e }
    | .ok selection =>
      let entryState := inspectCompactionEntryState s.events
      match assertCompactionInactive entryState "compaction" with
      | .error e => .error e
      | .ok () =>
        match call.ownerTurn entryState with
        | .error e => .error e
        | .ok turn => .ok (selection, turn)

/-- Run the compaction transaction over one selected positional span. -/
def compactSurfaceRegion (s : GuardedSession) : Except CompactionError Unit × PassRun :=
  match call.enter s with
  | .error e => (.error e, { session := s })
  | .ok (selection, turn) =>
    let p : PassRun := { session := s }
    match p.append (call.startRequest turn s.seq) with
    | (.error e, p) => (.error { message := e }, p)
    | (.ok startEvent, p) =>
      let (failure, closed, p) := call.bracketBody p startEvent.seq turn selection
      (call.settle failure closed, p)

end RegionCall

end Harness
