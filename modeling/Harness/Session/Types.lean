-- SUMMARY: The session event vocabulary of `core/session/src/types.ts`: payloads, envelopes, surface markers, and the request header of `request-header.ts`.
import Harness.Json.Stringify
import Harness.Llm.Types

namespace Harness

/-! ## Payloads -/

/-- Why an active agent driver was cancelled. -/
inductive AgentCancelCause where
  | user
  | parent
  | hook (reason : JsString)
  | disposed
  deriving DecidableEq

inductive TurnEndReason where
  | completed
  | aborted (reason : AgentCancelCause)
  | blocked
  | error (error : LlmFailure)
  | maxTokens
  | interrupted
  deriving DecidableEq

/-- Logged request state outside derived history. -/
structure EpochHeader where
  config : LlmCallConfig
  adapterDefaults : Option LlmCallConfigAdapterDefaults := none
  system : Option JsString := none
  tools : Option (List ToolSchema) := none

/-- Why a `request/header` snapshot was appended. `fallback` is the removed legacy reason. -/
inductive RequestHeaderReason where
  | initial
  | resume
  | change
  | fallback
  deriving DecidableEq

/-- Registration-bound metadata for one resolved model route. -/
structure RequestContext where
  provider : JsString
  model : JsString
  contextWindow : Option Num
  deriving DecidableEq

/-- Failure identity of a tool result. -/
structure ErrorInfo where
  name : JsString
  code : JsString
  deriving DecidableEq

structure ToolResultData where
  turn : Nat
  step : Nat
  message : ToolResultMessage
  error : Option ErrorInfo := none
  presentation : Option Json := none

/-- One of the two ordered pending-message lists owned by an agent. -/
inductive InboxTarget where
  | nextTurn
  | nextStep
  deriving DecidableEq

/-- One normalized mutation of an agent's pending-message lists. `canceled` is
the presence of `outcome: 'canceled'`. -/
structure InboxSplice where
  target : InboxTarget
  start : JsNumber
  removedCount : Option JsNumber
  inserted : List UserMessage
  canceled : Bool

/-- The event types this package declares itself. -/
def coreEventTypes : List JsString :=
  ["turn/start", "turn/end", "step/start", "step/end", "user/message", "assistant/chunk",
    "assistant/message", "tool/call", "tool/result", "todo/write", "request/header",
    "request/context", "session/end-seed", "agent/inbox/spliced"]

/-- The payload of one event, tagged by the event's type. -/
inductive EventData where
  | turnStart (turn : Nat)
  | turnEnd (turn : Nat) (reason : TurnEndReason)
  | stepStart (turn step : Nat)
  | stepEnd (turn step : Nat)
  | userMessage (message : UserMessage)
  | assistantChunk (turn step : Nat) (chunk : StreamChunk)
  | assistantMessage (turn step : Nat) (message : AssistantMessage) (usage : Option Json)
  | toolCall (turn step : Nat) (callId : CallId) (name arguments : JsString)
  | toolResult (data : ToolResultData)
  | todoWrite (todos : Json)
  | requestHeader (header : EpochHeader) (reason : RequestHeaderReason)
  | requestContext (context : RequestContext)
  | sessionEndSeed
  | inboxSpliced (splice : InboxSplice)
  /-- A type merged in by a plugin, or one this version no longer writes. -/
  | other (type : JsString) (data : Json) (merged : type ∉ coreEventTypes)

def EventData.type : EventData → JsString
  | .turnStart .. => "turn/start"
  | .turnEnd .. => "turn/end"
  | .stepStart .. => "step/start"
  | .stepEnd .. => "step/end"
  | .userMessage .. => "user/message"
  | .assistantChunk .. => "assistant/chunk"
  | .assistantMessage .. => "assistant/message"
  | .toolCall .. => "tool/call"
  | .toolResult .. => "tool/result"
  | .todoWrite .. => "todo/write"
  | .requestHeader .. => "request/header"
  | .requestContext .. => "request/context"
  | .sessionEndSeed => "session/end-seed"
  | .inboxSpliced .. => "agent/inbox/spliced"
  | .other type _ _ => type

/-! ## Envelope -/

/-- One immutable entry in the session log. The two surface fields hold what the
event carries before validation; `none` is an absent field. -/
structure SessionEvent where
  seq : Nat
  time : Int
  data : EventData
  surfaceOp : Option Json := none
  sourceEventSeqs : Option Json := none

abbrev SessionEvent.type (event : SessionEvent) : JsString := event.data.type

/-- A validated surface placement. -/
inductive SurfaceOp where
  | append
  | replace (start end_ : Nat)
  deriving DecidableEq

/-- The JSON of `n`, as a sequence number or a turn number is stored. -/
def Json.ofNat (n : Nat) : Json := .num (.int n)

def Json.field (key : JsString) (value : Json) : JsString × Json := (key, value)

/-- The durable spelling of a surface placement. -/
def SurfaceOp.toJson : SurfaceOp → Json
  | .append => .str "append"
  | .replace start end_ =>
    .obj [("op", .str "replace"), ("start", Json.ofNat start), ("end", Json.ofNat end_)]

/-! ## Request headers -/

/-- Normalize a header: an empty system prompt, an empty tool list and markers
that mark nothing become absent fields. -/
def canonicalHeader (header : EpochHeader) : EpochHeader where
  config := header.config
  adapterDefaults := header.adapterDefaults.filter fun d => d.reasoningEffort || d.maxTokens
  system := header.system.filter fun s => s.units.length > 0
  tools := header.tools.filter fun ts => ts.length > 0

/-- Canonical JSON equality for tool schemas assembled through the same path. -/
def sameSchema (a b : ToolSchema) : Bool := a.stringify == b.stringify

/-- Field-wise equality over canonical headers. Tool schemas compare in order. -/
def headerEquals (a b : EpochHeader) : Bool :=
  if !callConfigEquals a.config b.config
    || (a.adapterDefaults.any (·.reasoningEffort)) != (b.adapterDefaults.any (·.reasoningEffort))
    || (a.adapterDefaults.any (·.maxTokens)) != (b.adapterDefaults.any (·.maxTokens))
    || a.system != b.system then false
  else
    let at_ := a.tools.getD []
    let bt := b.tools.getD []
    at_.length == bt.length && (at_.zip bt).all fun (tool, tool') => sameSchema tool tool'

def foldHeaderEvent (state : Option EpochHeader) (event : SessionEvent) : Option EpochHeader :=
  match event.data with
  | .requestHeader header _ => some (canonicalHeader header)
  | _ => state

/-- The header in force after the last snapshot, continuing from `from_`. -/
def foldRequestHeader (events : List SessionEvent) (from_ : Option EpochHeader) :
    Option EpochHeader :=
  events.foldl foldHeaderEvent from_

end Harness
