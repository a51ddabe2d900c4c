-- SUMMARY: The translation of pi-ai events into stream chunks (`llm-pi-ai/src/stream.ts`), and one completed response on its way into the history.
import Harness.PiAi.Context
import Harness.TokenMeter.Estimate

namespace Harness

namespace PiAi

/-! ## Terminal events -/

/-- What the mapping of a terminal event asks of pi-ai and of the texts of errors. -/
structure Classifiers where
  /-- pi-ai's own reading of a message's error text and usage. -/
  isContextOverflow : Assistant → Option Num → Bool
  isContextWindowExceededError : JsString → Bool
  classifyPiAiError : JsString → JsString

/-- A failure with nothing but a message and a code. -/
def plainFailure (message code : JsString) : LlmFailure where
  message := message
  code := code
  status := none
  providerRetryAfterMs := none
  requestId := none

/-- The thinking text of a block. -/
def Content.thinking? : Content → Option JsString
  | .thinking thought _ _ => some thought
  | _ => none

/-- The marker that the joined thinking text of a response with nothing else contains. -/
def leakedMarker (content : List Content) (markers : List JsString) : Option JsString :=
  if content.all fun block => block.thinking?.isSome then
    let reasoning := (content.filterMap Content.thinking?).flatMap JsString.units
    markers.find? fun marker => decide (marker.units <:+: reasoning)
  else none

/-- Map a terminal event to the harness finish reason. -/
def mapStopReason (asks : Classifiers) (message : Assistant) (contextWindow : Option Num)
    (channelLeakMarkers : List JsString) : FinishReason :=
  let harnessOverflow :=
    decide (message.stopReason = .error) && message.errorMessage.any asks.isContextWindowExceededError
  if asks.isContextOverflow message contextWindow || harnessOverflow then
    .error <| plainFailure
      (message.errorMessage.getD
        (JsString.ofString "pi-ai detected context overflow for model \"" ++ message.model
          ++ JsString.ofString "\""))
      "CONTEXT_WINDOW_EXCEEDED"
  else
    match message.stopReason with
    | .stop =>
      -- a terminal stop without blocks is a degenerate completion
      if message.content.length = 0 then
        .error <| plainFailure
          (JsString.ofString "model \"" ++ message.model
            ++ JsString.ofString "\" returned a completed response with no content")
          "EMPTY_RESPONSE"
      else
        match leakedMarker message.content channelLeakMarkers with
        | some leaked =>
          .error <| plainFailure
            (JsString.ofString "model \"" ++ message.model
              ++ JsString.ofString "\" reply collapsed into the reasoning channel (found \""
              ++ leaked ++ JsString.ofString "\")")
            "CHANNEL_LEAK"
        | none => .stop
    | .length => .maxTokens
    | .toolUse => .toolCalls
    | .aborted =>
      .aborted <| plainFailure (message.errorMessage.getD "pi-ai stream aborted") "ABORTED"
    | .error =>
      let text := message.errorMessage.getD "pi-ai stream error"
      .error <| plainFailure text (asks.classifyPiAiError text)

/-- `n > 0`. -/
def isPositiveCount (n : Num) : Bool := !n.isNegative && n != .int 0

/-- Map pi-ai usage; cache counts appear only when they are not zero. -/
def mapUsage (usage : PiUsage) : Json :=
  let cached (key : JsString) (count : Num) : StoredFields :=
    if isPositiveCount count then [(key, .num count)] else []
  let tokens : StoredFields :=
    [("inputTokens", .num usage.input), ("outputTokens", .num usage.output)]
  .obj (tokens ++ cached "cacheReadTokens" usage.cacheRead ++
    cached "cacheWriteTokens" usage.cacheWrite ++
    optionalField "costUsd" (usage.providerCost.map .num))

/-! ## Events -/

/-- One event of an assistant turn. A `toolcall_start` carries the blocks so far. -/
inductive AssistantMessageEvent where
  | start
  | textStart (contentIndex : Nat)
  | textDelta (contentIndex : Nat) (delta : JsString)
  | textEnd (contentIndex : Nat) (content : JsString)
  | thinkingStart (contentIndex : Nat)
  | thinkingDelta (contentIndex : Nat) (delta : JsString)
  | thinkingEnd (contentIndex : Nat) (content : JsString)
  | toolcallStart (contentIndex : Nat) (sofar : List Content)
  | toolcallDelta (contentIndex : Nat) (delta : JsString)
  | toolcallEnd (contentIndex : Nat) (toolCall : ToolCall)
  | done (message : Assistant)
  | error (error : Assistant)

/-- A call's id and name, as its start announced them. -/
structure ToolId where
  id : JsString
  name : JsString

/-- The call that starts at an index of the blocks so far. -/
def startedCall (sofar : List Content) (contentIndex : Nat) : ToolId :=
  match sofar[contentIndex]? with
  | some (.toolCall call) => { id := call.id, name := call.name }
  | _ => { id := ⟨[]⟩, name := ⟨[]⟩ }

/-- The harness block of a finished tool call, its arguments as raw JSON. -/
def endedCall (call : ToolCall) : ToolCallBlock where
  id := call.id
  name := call.name
  arguments := ⟨(Json.obj call.arguments).stringify⟩

abbrev ToolIds := OrderedMap Nat ToolId

/-- The ids after an event, and the one chunk it is translated to. Terminal events end the
translation instead. -/
def translate (toolIds : ToolIds) : AssistantMessageEvent → ToolIds × Option StreamChunk
  | .start => (toolIds, none)
  | .textStart i => (toolIds, some (.blockStart (.int i) "text"))
  | .textDelta i delta => (toolIds, some (.textDelta (.int i) delta))
  | .textEnd i content => (toolIds, some (.blockEnd (.int i) (.text content)))
  | .thinkingStart i => (toolIds, some (.blockStart (.int i) "reasoning"))
  | .thinkingDelta i delta => (toolIds, some (.reasoningDelta (.int i) delta))
  | .thinkingEnd i content => (toolIds, some (.blockEnd (.int i) (.reasoning content)))
  | .toolcallStart i sofar =>
    (OrderedMap.set toolIds i (startedCall sofar i), some (.blockStart (.int i) "tool-call"))
  | .toolcallDelta i delta =>
    let known := OrderedMap.get? toolIds i
    (toolIds, some (.toolCallDelta (.int i) ((known.map (·.id)).getD ⟨[]⟩)
      ((known.map (·.name)).filter fun name => name.units.length > 0) delta))
  | .toolcallEnd i call => (toolIds, some (.blockEnd (.int i) (.toolCall (endedCall call))))
  | .done _ | .error _ => (toolIds, none)

/-- Translate the event stream from here on: the chunks, and the error that ends a stream
without a terminal event. -/
def toStreamChunks (asks : Classifiers) (contextWindow : Option Num)
    (channelLeakMarkers : List JsString) (toolIds : ToolIds) :
    List AssistantMessageEvent → List StreamChunk × Option PiAiError
  | [] =>
    ([], some
      { message := "pi-ai event stream ended without done/error", code := "STREAM_CLOSED" })
  | .done message :: _ =>
    ([.usage (mapUsage message.usage),
      .finish (mapStopReason asks message contextWindow channelLeakMarkers)
        (some (toPiReplayState message).toJson)], none)
  | .error error :: _ =>
    ([.usage (mapUsage error.usage),
      .finish (mapStopReason asks error contextWindow channelLeakMarkers) none], none)
  | event :: events =>
    let (toolIds, chunk) := translate toolIds event
    let (chunks, failure) := toStreamChunks asks contextWindow channelLeakMarkers toolIds events
    (chunk.toList ++ chunks, failure)

end PiAi

end Harness

/-!
# From a response to the history

The events of a response pass through `toStreamChunks` and the block assembler, the agent's step
commits what comes out, and the log stores it as JSON. Content and replay state take separate
ways and meet again in `toPiAssistant`.
-/

namespace Harness

/-! ## The committed message -/

/-- A finish that commits a message. -/
def FinishReason.succeeded : FinishReason → Bool
  | .stop | .toolCalls | .maxTokens => true
  | .aborted _ | .error _ => false

/-- `createAssistantMessage` at the end of the agent's `step`. -/
def BlockAssembler.assistantMessage (a : BlockAssembler) (id : MessageId) (request : LlmCallConfig) :
    Except String AssistantMessage :=
  a.blocks.map fun content =>
    { id
      content
      source := { provider := request.provider, model := request.model, replayState := a.replayState } }

/-! ## The stored message -/

def AssistantMessage.toJson (message : AssistantMessage) : Json :=
  let source : StoredFields :=
    [("kind", .str "model"), ("provider", .str message.source.provider),
      ("model", .str message.source.model)]
  .obj
    [("id", .str message.id), ("role", .str "assistant"),
      ("content", .arr (message.content.map ContentBlock.toJson)),
      ("source", .obj (source ++ optionalField "replayState" message.source.replayState))]

mutual

def ContentBlock.ofJson : Json → Option ContentBlock
  | .obj fields =>
    match asText (Json.get? "type" fields) with
    | none => none
    | some type =>
      if type = "text" then (asText (Json.get? "text" fields)).map .text
      else if type = "reasoning" then (asText (Json.get? "text" fields)).map .reasoning
      else if type = "image" then (Json.get? "attachment" fields).map .image
      else if type = "tool-call" then do
        let id ← asText (Json.get? "id" fields)
        let name ← asText (Json.get? "name" fields)
        let arguments ← asText (Json.get? "arguments" fields)
        return .toolCall { id, name, arguments }
      else if type = "tool-result" then do
        let toolCallId ← asText (Json.get? "toolCallId" fields)
        let content ← contentField fields
        return .toolResult toolCallId content (PiAi.asBool (Json.get? "isError" fields))
      else some (.other (.obj fields))
  | _ => none

def contentField : List (JsString × Json) → Option (List ContentBlock)
  | [] => none
  | (key, value) :: rest => if key = "content" then contentItems value else contentField rest

def contentItems : Json → Option (List ContentBlock)
  | .arr items => contentBlocks items
  | _ => none

def contentBlocks : List Json → Option (List ContentBlock)
  | [] => some []
  | item :: items => do
    let block ← ContentBlock.ofJson item
    let blocks ← contentBlocks items
    return block :: blocks

end

def AssistantMessage.ofJson : Json → Option AssistantMessage
  | .obj fields => do
    let id ← asText (Json.get? "id" fields)
    let content ← (Json.get? "content" fields).bind contentItems
    match Json.get? "source" fields with
    | some (.obj source) =>
      let provider ← asText (Json.get? "provider" source)
      let model ← asText (Json.get? "model" source)
      return { id, content, source := { provider, model, replayState := Json.get? "replayState" source } }
    | _ => none
  | _ => none

/-- The message after a round trip through lossless JSON. -/
def AssistantMessage.reload (message : AssistantMessage) : Option AssistantMessage :=
  (Json.parse message.toJson.stringify).bind AssistantMessage.ofJson

namespace PiAi

/-! ## The events of a response -/

/-- One block as it streams: its deltas, and the blocks that its start event carries. -/
structure StreamedBlock where
  block : Content
  deltas : List JsString
  sofar : List Content

/-- The events of one block: a start, its deltas and an end. -/
def StreamedBlock.events (streamed : StreamedBlock) (i : Nat) : List AssistantMessageEvent :=
  match streamed.block with
  | .text text _ =>
    .textStart i :: (streamed.deltas.map (.textDelta i) ++ [.textEnd i text])
  | .thinking thinking _ _ =>
    .thinkingStart i :: (streamed.deltas.map (.thinkingDelta i) ++ [.thinkingEnd i thinking])
  | .toolCall call =>
    .toolcallStart i streamed.sofar ::
      (streamed.deltas.map (.toolcallDelta i) ++ [.toolcallEnd i call])

/-- The events of the blocks from index `i` on. -/
def blockEvents (i : Nat) : List StreamedBlock → List AssistantMessageEvent
  | [] => []
  | streamed :: rest => streamed.events i ++ blockEvents (i + 1) rest

def responseEvents (blocks : List StreamedBlock) (response : Assistant) : List AssistantMessageEvent :=
  .start :: (blockEvents 0 blocks ++ [.done response])

/-- The assembler after the chunks of a response. -/
def assembled (asks : Classifiers) (contextWindow : Option Num) (markers : List JsString)
    (events : List AssistantMessageEvent) : BlockAssembler :=
  (toStreamChunks asks contextWindow markers [] events).1.foldl BlockAssembler.push {}

/-! ## What a history owes to a response -/

/-- The harness block of a native one. -/
def Content.toBlock : Content → ContentBlock
  | .text body _ => .text body
  | .thinking thought _ _ => .reasoning thought
  | .toolCall call => .toolCall (endedCall call)

/-- The blocks of a response that its message keeps: a truncated one loses its tool calls. -/
def Assistant.kept (response : Assistant) : List Content :=
  if response.stopReason = .length then response.content.filter fun block => !block.isToolCall
  else response.content

/-- The arguments of the tool calls are plain JSON objects. -/
def Assistant.Plain (response : Assistant) : Prop :=
  ∀ call, .toolCall call ∈ response.content → (Json.obj call.arguments).Proper

/-- The stored message gives back the blocks that it kept, and stands in no request's way. -/
structure Replays (stored : AssistantMessage) (kept : List Content) : Prop where
  native : ∃ assistant, toPiAssistant stored.content (some stored.source) = .ok assistant ∧
    assistant.content = kept
  requests : ∀ (options : GenerateOptions) (attachments : Option AttachmentStore)
    (before after : List HistoryMessage),
    (toPiContext { options with messages := before ++ stored.history :: after } attachments).isOk
      = (toPiContext { options with messages := before ++ after } attachments).isOk

/-- When a response can be replayed: its catalog names are not empty, and it was not truncated
after a tool call. -/
structure Assistant.Replayable (response : Assistant) : Prop where
  api : response.api ≠ ⟨[]⟩
  provider : response.provider ≠ ⟨[]⟩
  model : response.model ≠ ⟨[]⟩
  truncated : response.stopReason = .length → ∀ block ∈ response.content, block.isToolCall = false

end PiAi

end Harness
