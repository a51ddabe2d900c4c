-- SUMMARY: The tool-call scheduler of `core/agent-loop/src/tool-calls.ts`.
import Harness.AgentLoop.World

/-!
# The tool-call scheduler

Exclusive calls form barriers; parallel calls use a bounded rolling pool and are
reclassified before start. Results commit in model order. What a group shares with the
dispatches it has started is its `ToolPool`, a part of the world; its other variables are
its own and are passed along.
-/

namespace Harness

/-- Canonical error code for cancellation before a tool body was invoked. -/
def TOOL_ABORTED_BEFORE_DISPATCH : JsString := "ABORTED_BEFORE_DISPATCH"

/-- The position and turn of the step whose calls are scheduled. -/
structure StepPosition where
  turn : Nat
  step : Nat
  deriving DecidableEq

namespace ToolCalls

open LoopCode

/-- Parse model arguments, preserving invalid JSON as text and mapping empty input to an
empty object. -/
def parseArguments (raw : JsString) : Json :=
  if raw.units.length = 0 then .obj []
  else
    match Json.parse raw.units with
    | some value => value
    | none => .str raw

def planned (toolCalls : List ToolCallBlock) : List PlannedCall :=
  toolCalls.map fun block => { block, arguments := parseArguments block.arguments }

/-! ## Events -/

variable (at_ : StepPosition)

variable (block : ToolCallBlock)

def toolCallData : EventData :=
  .toolCall at_.turn at_.step block.id block.name block.arguments

/-- The data of a result, under a fresh message identity. -/
def toolResultData (id : MessageId) (result : ToolExecutionResult) : ToolResultData where
  turn := at_.turn
  step := at_.step
  message :=
    { id
      callId := block.id
      block := { toolCallId := block.id, content := result.content, isError := some result.isError } }
  error := result.error.bind (·.info)
  presentation := result.presentation

/-- The payload of a result, which is stored when it has a lossless snapshot. -/
def toolResultPayload (id : MessageId) (result : ToolExecutionResult) : Payload :=
  if result.lossless then .lossless (.toolResult (toolResultData at_ block id result))
  else .lossy "tool/result"

/-- Append a started call and return the event seq that its result must cite. -/
def appendToolCall : LoopCode Int := do
  let event ← append (.lossless (toolCallData at_ block)) none
  pure event.seq

/-- Append a model-ordered result linked to its call event. -/
def appendToolResult (result : ToolExecutionResult) (callSeq : Int) : LoopCode Unit := do
  let id ← ask .messageId
  let _ ← append (toolResultPayload at_ block id result) (some { sourceEventSeqs := some [callSeq] })
  pure ()

def skippedResult : ToolExecutionResult where
  isError := true
  content := [.text "Error: tool call aborted before dispatch"]
  error := some
    { message := "tool call aborted before dispatch"
      info := some { name := "AbortError", code := TOOL_ABORTED_BEFORE_DISPATCH } }

/-- Append the durable call/result pair for a model call skipped after cancellation. -/
def appendSkippedToolCall : LoopCode Unit := do
  let callSeq ← appendToolCall at_ block
  appendToolResult at_ block skippedResult callSeq

def appendSkippedToolCalls (at_ : StepPosition) : List PlannedCall → LoopCode Unit
  | [] => pure ()
  | call :: rest => do
    appendSkippedToolCall at_ call.block
    appendSkippedToolCalls at_ rest

/-! ## One group -/

/-- The local variables of `runGroup`. -/
structure GroupState where
  /-- Started calls retain their `tool/call` seq so the result can cite it. -/
  callSeqs : Nat → Int
  nextToStart : Nat
  committed : Nat
  started : Nat
  aborted : Bool
  concluded : Bool

def GroupState.init (aborted : Bool) : GroupState where
  callSeqs := fun _ => -1
  nextToStart := 0
  committed := 0
  started := 0
  aborted
  concluded := false

/-- One scheduler group outcome, including a drained cancellation. -/
structure GroupOutcome where
  consumed : Nat
  aborted : Bool
  /-- Whether any committed result carried `concludesTurn`. -/
  concluded : Bool

def throwSchedulerFailure : LoopCode Unit := do
  match ← read .schedulerFailure with
  | some error => throw error
  | none => pure ()

def acceptContexts : List Draft → LoopCode Unit
  | [] => pure ()
  | context :: rest => do
    let _ ← perform (.acceptContext context) >>= orThrowText
    acceptContexts rest

/-- The model-ordered finalization of one settled slot. -/
def finalized (slot : Slot) : LoopCode ToolExecutionResult :=
  if slot.needsPost then ask (.finalize slot) >>= orThrow else ask (.finish slot) >>= orThrow

/-- Commit the contiguous settled slots in model order; the calls are those from
`committed` on. -/
def commitReady (at_ : StepPosition) : List PlannedCall → GroupState → LoopCode GroupState
  | [], st => pure st
  | call :: rest, st => do
    match ← read (.slot st.committed) with
    | none => pure st
    | some slot =>
      let result ← finalized slot
      appendToolResult at_ call.block result (st.callSeqs st.committed)
      acceptContexts result.additionalContexts
      commitReady at_ rest
        { st with concluded := st.concluded || result.concludesTurn, committed := st.committed + 1 }

/-- Start the call at `index`, up to the settlement of its pre-execute gate. -/
def startCall (mode : ToolExecutionMode) (index : Nat) (call : PlannedCall)
    (st : GroupState) : LoopCode GroupState := do
  let callSeq ← appendToolCall at_ call.block
  let st := { st with
    callSeqs := Function.update st.callSeqs index callSeq, started := st.started + 1 }
  let preparation ← ask (.prepare call) >>= orThrow
  throwSchedulerFailure
  match preparation with
  | .dispatch => write (.dispatch index mode)
  | .postResult result => write (.setSlot index { result, needsPost := true })
  | .finalResult result => write (.setSlot index { result, needsPost := false })
  pure st

/-- Whether the next call has to wait for the pool to drain: it is no longer parallel. -/
def formsBarrier (mode : ToolExecutionMode) (call : PlannedCall) (st : GroupState) :
    LoopCode Bool :=
  if st.nextToStart > 0 && mode == .parallel then do
    let mode ← ask (.executionMode call)
    pure (mode != .parallel)
  else pure false

/-- Start calls while the pool has room; `rest` are the calls from `nextToStart` on. -/
def fillPool (at_ : StepPosition) (mode : ToolExecutionMode) (limit : Nat) (group : List PlannedCall) :
    List PlannedCall → GroupState → LoopCode GroupState
  | [], st => pure st
  | call :: rest, st => do
    if st.aborted then pure st
    else
      let size ← read .inFlightSize
      if size < limit then
        if ← formsBarrier mode call st then pure st
        else
          let st ← startCall at_ mode st.nextToStart call st
          let st := { st with nextToStart := st.nextToStart + 1 }
          throwSchedulerFailure
          let st ← commitReady at_ (group.drop st.committed) st
          throwSchedulerFailure
          let reason ← read .reason
          fillPool at_ mode limit group rest { st with aborted := st.aborted || reason.isSome }
      else pure st

/-- The loop over settling dispatches. -/
def drain (at_ : StepPosition) (mode : ToolExecutionMode) (limit : Nat) (group : List PlannedCall) :
    Nat → GroupState → LoopCode GroupState
  | 0, _ => outOfFuel
  | fuel + 1, st => do
    let size ← read .inFlightSize
    if size > 0 then
      let settledIndex ← ask .race
      write (.deleteInFlight settledIndex)
      throwSchedulerFailure
      let st ← commitReady at_ (group.drop st.committed) st
      throwSchedulerFailure
      let reason ← read .reason
      let st := { st with aborted := st.aborted || reason.isSome }
      let st ← fillPool at_ mode limit group (group.drop st.nextToStart) st
      drain at_ mode limit group fuel st
    else pure st

/-- The `catch` of `runGroup`: the first failure is thrown once every started dispatch has
settled. -/
def drainFailure (error : Thrown) : LoopCode GroupState := do
  write (.failScheduler error)
  ask .allSettled
  match ← read .schedulerFailure with
  | some error => throw error
  | none => missing

/-- Run one exclusive barrier or parallel pool. Every race settles one started call, so a
group has at most as many races as calls. -/
def runGroup (group : List PlannedCall) (mode : ToolExecutionMode) : LoopCode GroupOutcome := do
  let limit ← ask .maxParallelToolCalls
  write (.openPool limit)
  let reason ← read .reason
  let st ← Program.settle
    (do
      let st ← fillPool at_ mode limit group group (.init reason.isSome)
      drain at_ mode limit group (group.length + 1) st)
    fun
      | .ok st => pure st
      | .error error => drainFailure error
  if st.aborted then
    appendSkippedToolCalls at_ (group.drop st.started)
    pure { consumed := group.length, aborted := true, concluded := st.concluded }
  else if st.committed ≠ st.started then
    throw (.error "tool-call scheduler: uncommitted settled calls")
  else pure { consumed := st.started, aborted := false, concluded := st.concluded }

/-! ## All groups -/

/-- The loop over groups; `rest` are the calls from `next` on. Every group consumes a call. -/
def runGroups (at_ : StepPosition) : Nat → List PlannedCall → Bool → LoopCode Bool
  | _, [], concluded => pure concluded
  | 0, _ :: _, _ => outOfFuel
  | fuel + 1, first :: others, concluded => do
    let mode ← ask (.executionMode first)
    let group := if mode = .parallel then first :: others else [first]
    let outcome ← runGroup at_ group mode
    let rest := (first :: others).drop outcome.consumed
    let concluded := concluded || outcome.concluded
    if outcome.aborted then
      appendSkippedToolCalls at_ rest
      pure concluded
    else runGroups at_ fuel rest concluded

/-- `executeToolCalls`: schedule one assistant step's tool calls by their live concurrency
mode. The answer is `concluded`. -/
def executeToolCalls (toolCalls : List ToolCallBlock) : LoopCode Bool :=
  runGroups at_ toolCalls.length (planned toolCalls) false

end ToolCalls
end Harness
