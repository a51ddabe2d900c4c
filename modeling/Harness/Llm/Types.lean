-- SUMMARY: The provider-neutral message, stream-chunk and call-configuration vocabulary of `llm/llm/src`.
import Harness.Json.Value

namespace Harness

abbrev CallId := JsString
abbrev MessageId := JsString

/-! ## Content and messages -/

/-- A tool invocation requested by the model. -/
structure ToolCallBlock where
  id : CallId
  name : JsString
  /-- Raw JSON text as the model produced it. -/
  arguments : JsString
  deriving DecidableEq

inductive ContentBlock where
  | text (text : JsString)
  | reasoning (text : JsString)
  | image (attachment : Json)
  | toolCall (block : ToolCallBlock)
  | toolResult (toolCallId : CallId) (content : List ContentBlock) (isError : Option Bool)
  /-- A block type merged in by a plugin. -/
  | other (block : Json)

def ContentBlock.toolCall? : ContentBlock → Option ToolCallBlock
  | .toolCall b => some b
  | _ => none

/-- The result of a tool invocation, sent back to the model. -/
structure ToolResultBlock where
  toolCallId : CallId
  content : List ContentBlock
  isError : Option Bool

/-- Who produced a user-role message. -/
inductive MessageSource where
  | user
  | plugin (plugin : JsString) (form : Option Json)
  | other (source : Json)

structure UserMessage where
  id : MessageId
  content : List ContentBlock
  source : MessageSource

/-- Provider and model identity of an assistant message. -/
structure ModelMessageSource where
  provider : JsString
  model : JsString
  replayState : Option Json

structure AssistantMessage where
  id : MessageId
  content : List ContentBlock
  source : ModelMessageSource

/-- A user-role message with exactly one tool-result block; `callId` is `source.callId`. -/
structure ToolResultMessage where
  id : MessageId
  callId : CallId
  block : ToolResultBlock

/-- One message of a model request. -/
inductive Message where
  | user (message : UserMessage)
  | assistant (message : AssistantMessage)
  | toolResult (message : ToolResultMessage)

/-! ## Streaming -/

/-- Serializable provider or transport failure facts. -/
structure LlmFailure where
  message : JsString
  code : JsString
  status : Option Num
  providerRetryAfterMs : Option Num
  requestId : Option JsString
  deriving DecidableEq

inductive FinishReason where
  | stop
  | toolCalls
  | maxTokens
  | aborted (failure : LlmFailure)
  | error (failure : LlmFailure)
  deriving DecidableEq

/-- Raw streaming protocol emitted by adapters. -/
inductive StreamChunk where
  | blockStart (index : Num) (blockType : JsString)
  | textDelta (index : Num) (text : JsString)
  | reasoningDelta (index : Num) (text : JsString)
  | toolCallDelta (index : Num) (id : CallId) (name : Option JsString) (argumentsDelta : JsString)
  | blockEnd (index : Num) (block : ContentBlock)
  | usage (usage : Json)
  | finish (reason : FinishReason) (replayState : Option Json)

/-! ## Call configuration -/

/-- A tool's JSON-schema description, as sent to the model. -/
abbrev ToolSchema := Json

structure LlmCallConfig where
  provider : JsString
  model : JsString
  reasoningEffort : Option JsString := none
  temperature : Option Num := none
  maxTokens : Option Num := none
  stop : Option (List JsString) := none
  deriving DecidableEq

/-- Which config fields exact-model adapter resolution supplied. -/
structure LlmCallConfigAdapterDefaults where
  reasoningEffort : Bool := false
  maxTokens : Bool := false
  deriving DecidableEq

/-- Field-wise equality over call configurations, the `stop` list element-wise. -/
def callConfigEquals (a b : LlmCallConfig) : Bool :=
  if a.provider != b.provider
    || a.model != b.model
    || a.reasoningEffort != b.reasoningEffort
    || a.temperature != b.temperature
    || a.maxTokens != b.maxTokens then false
  else
    match a.stop, b.stop with
    | some as, some bs =>
      as.length == bs.length && (as.zip bs).all fun (s, t) => s == t
    | none, none => true
    | _, _ => false

end Harness
