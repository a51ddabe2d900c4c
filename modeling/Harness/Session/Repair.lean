-- SUMMARY: Crash-recovery repair of an interrupted log, `core/session/src/repair.ts`.
import Harness.Lib.OrderedMap
import Harness.Session.Trace

namespace Harness

open OrderedMap

/-- Recovery code for a recorded tool call whose outcome was not durably recorded. -/
def TOOL_OUTCOME_UNKNOWN : JsString := "TOOL_OUTCOME_UNKNOWN"

instance : Append JsString := ⟨fun s t => ⟨s.units ++ t.units⟩⟩

/-! ## The scan -/

def AssistantMessage.toolCallIds (message : AssistantMessage) : List CallId :=
  message.content.filterMap fun block => block.toolCall?.map ToolCallBlock.id

/-- A tool call that awaits its result, and the seq of its `tool/call` once recorded. -/
structure PendingCall where
  step : Nat
  callSeq : Option Nat
  deriving DecidableEq

/-- What the scan of a log has found open. -/
structure RepairScan where
  openTurn : Option Nat
  openStep : Option Nat
  pendingCalls : OrderedMap CallId PendingCall

namespace RepairScan

def start : RepairScan := { openTurn := none, openStep := none, pendingCalls := [] }

def registerCalls (step : Nat) (ids : List CallId) (m : OrderedMap CallId PendingCall) :
    OrderedMap CallId PendingCall :=
  ids.foldl (fun m id => set m id { step, callSeq := none }) m

/-- Cite the `tool/call` seq from the synthetic result. -/
def recordCall (callId : CallId) (seq : Nat) (m : OrderedMap CallId PendingCall) :
    OrderedMap CallId PendingCall :=
  modify m callId fun entry => { entry with callSeq := some seq }

def scanEvent (s : RepairScan) (event : SessionEvent) : RepairScan :=
  match event.data with
  | .turnStart turn => { openTurn := some turn, openStep := none, pendingCalls := [] }
  | .turnEnd _ _ => { openTurn := none, openStep := none, pendingCalls := [] }
  | .stepStart _ step => { s with openStep := some step }
  | .stepEnd _ _ => { s with openStep := none, pendingCalls := [] }
  | .assistantMessage _ step message _ =>
    { s with pendingCalls := registerCalls step message.toolCallIds s.pendingCalls }
  | .toolCall _ _ callId _ _ =>
    { s with pendingCalls := recordCall callId event.seq s.pendingCalls }
  | .toolResult data =>
    { s with pendingCalls := delete s.pendingCalls data.message.callId }
  | _ => s

def scan (events : List SessionEvent) : RepairScan := events.foldl scanEvent start

end RepairScan

/-! ## Closers -/

def outcomeUnknownText : JsString :=
  "The tool call was interrupted after it was recorded, but no result was durably recorded. Its outcome is unknown. Decide whether to retry from the tool semantics: retry only if the operation is read-only or idempotent; if it may have side effects, first verify external state or ask the user. Do not retry blindly."

def notStartedText : JsString :=
  "The tool call was interrupted before the Harness recorded it as started. Retry it if it is still needed."

def closeCall (turn : Nat) (time : Int) (seq : Nat) (callId : CallId) (pending : PendingCall) :
    SessionEvent where
  seq := seq
  time := time
  data := .toolResult
    { turn, step := pending.step
      message :=
        { id := ("interrupted-tool-result-" : JsString) ++ callId ++ "-" ++ ⟨natText seq⟩
          callId
          block :=
            { toolCallId := callId, isError := some true
              content := [.text (if pending.callSeq.isSome then outcomeUnknownText else notStartedText)] } }
      error := some
        (if pending.callSeq.isSome then
          { name := "ToolOutcomeUnknownError", code := TOOL_OUTCOME_UNKNOWN }
        else { name := "ToolNotStartedError", code := TOOL_NOT_STARTED }) }
  surfaceOp := some SurfaceOp.append.toJson
  sourceEventSeqs := pending.callSeq.map fun callSeq => .arr [Json.ofNat callSeq]

/-- Close the pending calls in insertion order, from `seq` on. -/
def closeCalls (turn : Nat) (time : Int) (seq : Nat) :
    OrderedMap CallId PendingCall → List SessionEvent
  | [] => []
  | (callId, pending) :: rest =>
    closeCall turn time seq callId pending :: closeCalls turn time (seq + 1) rest

def closeBoundaries (turn : Nat) (openStep : Option Nat) (time : Int) (seq : Nat) :
    List SessionEvent :=
  match openStep with
  | some step =>
    [{ seq, time, data := .stepEnd turn step },
      { seq := seq + 1, time, data := .turnEnd turn .interrupted }]
  | none => [{ seq, time, data := .turnEnd turn .interrupted }]

/-- The synthetic events that close an open tail turn. -/
def interruptedTurnClosers (events : List SessionEvent) : List SessionEvent :=
  let s := RepairScan.scan events
  match s.openTurn, events.getLast? with
  | some turn, some last =>
    let seq := last.seq + 1
    closeCalls turn last.time seq s.pendingCalls
      ++ closeBoundaries turn s.openStep last.time (seq + s.pendingCalls.length)
  | _, _ => []

end Harness
