-- SUMMARY: The translation of DeepSeek wire chunks into stream chunks (`llm-deepseek/src/translate.ts`).
import Harness.Llm.Assembler
import Harness.Session.Repair

/-!
# DeepSeek streams

One block for the reasoning, one for the content and one for each tool call index; what they hold
is sent once more, in the order in which they were opened, when the stream is done.
-/

namespace Harness

open JsString (ofString)
namespace LlmDeepseek

/-! ## Wire chunks -/

/-- Token accounting; the prompt tokens include cache hits. -/
structure WireUsage where
  promptTokens : Num
  completionTokens : Num
  promptCacheHitTokens : Option Num := none
  cachedTokens : Option Num := none
  reasoningTokens : Option Num := none

structure WireToolCallDelta where
  index : Num
  id : Option JsString := none
  name : Option JsString := none
  arguments : Option JsString := none

structure WireDelta where
  content : Option JsString := none
  reasoningContent : Option JsString := none
  toolCalls : List WireToolCallDelta := []

structure WireChoice where
  delta : WireDelta := {}
  finishReason : Option JsString := none

structure WireChunk where
  choices : List WireChoice := []
  usage : Option WireUsage := none

/-- One payload: the sentinel `[DONE]`, a text that is no JSON, or a chunk. -/
inductive Payload where
  | done
  | malformed (text : JsString)
  | chunk (chunk : WireChunk)

/-! ## Vocabulary -/

/-- JavaScript's own subtraction and `toUpperCase`. -/
structure Primitives where
  subtract : Num → Num → Num
  toUpperCase : JsString → JsString

variable (js : Primitives)

def plainFailure (message code : JsString) : LlmFailure where
  message := message
  code := code
  status := none
  providerRetryAfterMs := none
  requestId := none

/-- Map the wire `finish_reason`; what is not recognized is an error. -/
def mapFinishReason (reason : JsString) : FinishReason :=
  if reason = ofString "stop" then .stop
  else if reason = ofString "tool_calls" then .toolCalls
  else if reason = ofString "length" then .maxTokens
  else .error (plainFailure (ofString "model stopped: " ++ reason) (js.toUpperCase reason))

/-- Map wire usage to disjoint counts. -/
def mapUsage (usage : WireUsage) : Json :=
  let cacheRead := usage.cachedTokens.or usage.promptCacheHitTokens
  .obj <|
    [ (ofString "inputTokens",
        .num (js.subtract usage.promptTokens (cacheRead.getD (.int 0)))),
      (ofString "outputTokens", .num usage.completionTokens) ]
    ++ (cacheRead.map fun count => (ofString "cacheReadTokens", Json.num count)).toList
    ++ (usage.reasoningTokens.map fun count =>
        (ofString "reasoningTokens", Json.num count)).toList

/-! ## Blocks -/

inductive BlockKind where
  | text
  | reasoning
  | toolCall
  deriving DecidableEq

def BlockKind.blockType : BlockKind → JsString
  | .text => ofString "text"
  | .reasoning => ofString "reasoning"
  | .toolCall => ofString "tool-call"

structure OpenBlock where
  index : Nat
  kind : BlockKind
  text : JsString := ⟨[]⟩
  callId : Option JsString := none
  name : Option JsString := none

def closeBlock (block : OpenBlock) : ContentBlock :=
  match block.kind with
  | .text => .text block.text
  | .reasoning => .reasoning block.text
  | .toolCall =>
    .toolCall
      { id := block.callId.getD ⟨[]⟩
        name := block.name.getD ⟨[]⟩
        arguments := block.text }

/-- What a fragment belongs to. -/
inductive Channel where
  | reasoning
  | text
  | tool (index : Num)
  deriving DecidableEq

def Channel.kind : Channel → BlockKind
  | .reasoning => .reasoning
  | .text => .text
  | .tool _ => .toolCall

/-- One piece of a choice that a block takes in. -/
structure Fragment where
  channel : Channel
  text : JsString
  id : Option JsString := none
  name : Option JsString := none

/-- `order` holds the blocks; the three maps name the block of a channel by its index. -/
structure State where
  nextIndex : Nat := 0
  textBlock : Option Nat := none
  reasoningBlock : Option Nat := none
  toolBlocks : OrderedMap Num Nat := []
  order : List OpenBlock := []
  pendingFinish : Option FinishReason := none
  pendingUsage : Option Json := none

def State.blockOf (s : State) : Channel → Option Nat
  | .reasoning => s.reasoningBlock
  | .text => s.textBlock
  | .tool index => OrderedMap.get? s.toolBlocks index

/-- `open`, and the variable or map that remembers the new block. -/
def State.opened (s : State) (channel : Channel) : State :=
  let s' :=
    { s with
      nextIndex := s.nextIndex + 1
      order := s.order ++ [({ index := s.nextIndex, kind := channel.kind } : OpenBlock)] }
  match channel with
  | .reasoning => { s' with reasoningBlock := some s.nextIndex }
  | .text => { s' with textBlock := some s.nextIndex }
  | .tool index => { s' with toolBlocks := OrderedMap.set s.toolBlocks index s.nextIndex }

/-- What a fragment leaves in its block. -/
def OpenBlock.take (block : OpenBlock) (fragment : Fragment) : OpenBlock :=
  { block with
    callId := fragment.id.or block.callId
    name := fragment.name.or block.name
    text := block.text ++ fragment.text }

/-- The delta that a fragment is passed on as. -/
def OpenBlock.delta (block : OpenBlock) (fragment : Fragment) : StreamChunk :=
  match block.kind with
  | .reasoning => .reasoningDelta (.int block.index) fragment.text
  | .text => .textDelta (.int block.index) fragment.text
  | .toolCall =>
    .toolCallDelta (.int block.index) (block.callId.getD ⟨[]⟩) block.name fragment.text

/-- One fragment: its block is opened on the first one, takes it in, and passes it on. -/
def State.feed (s : State) (fragment : Fragment) : State × List StreamChunk :=
  let (s, index, started) :=
    match s.blockOf fragment.channel with
    | some index => (s, index, [])
    | none =>
      (s.opened fragment.channel, s.nextIndex,
        [StreamChunk.blockStart (.int s.nextIndex) fragment.channel.kind.blockType])
  let order := s.order.map fun block => if block.index = index then block.take fragment else block
  ({ s with order },
    started ++ (order.filter (·.index = index)).map fun block => block.delta fragment)

def State.feedAll (s : State) : List Fragment → State × List StreamChunk
  | [] => (s, [])
  | fragment :: rest =>
    let (s, chunks) := s.feed fragment
    let (s, more) := s.feedAll rest
    (s, chunks ++ more)

/-! ## Chunks -/

/-- An empty text opens no block. -/
def fragmentOf (channel : Channel) (text : Option JsString) : List Fragment :=
  (text.filter fun text => text.units.length > 0).toList.map fun text =>
    ({ channel, text } : Fragment)

/-- The fragments of a choice: reasoning first, then content, then the tool calls. -/
def WireDelta.fragments (delta : WireDelta) : List Fragment :=
  fragmentOf .reasoning delta.reasoningContent ++ fragmentOf .text delta.content ++
    delta.toolCalls.map fun call =>
      { channel := .tool call.index
        text := call.arguments.getD ⟨[]⟩
        id := call.id
        name := call.name }

def State.choice (s : State) (choice : WireChoice) : State × List StreamChunk :=
  let (s, chunks) := s.feedAll choice.delta.fragments
  ({ s with pendingFinish := (choice.finishReason.map (mapFinishReason js)).or s.pendingFinish },
    chunks)

def State.choices (s : State) : List WireChoice → State × List StreamChunk
  | [] => (s, [])
  | choice :: rest =>
    let (s, chunks) := s.choice js choice
    let (s, more) := s.choices rest
    (s, chunks ++ more)

def State.chunk (s : State) (chunk : WireChunk) : State × List StreamChunk :=
  let (s, chunks) := s.choices js chunk.choices
  ({ s with pendingUsage := (chunk.usage.map (mapUsage js)).or s.pendingUsage }, chunks)

/-- A stop without blocks is a degenerate completion. -/
def State.finishReason (s : State) : FinishReason :=
  let reason := s.pendingFinish.getD .stop
  if reason = .stop ∧ s.order.length = 0 then
    .error <| plainFailure (ofString "model returned a completed response with no content")
      (ofString "EMPTY_RESPONSE")
  else reason

/-- What `[DONE]` flushes. -/
def State.closing (s : State) : List StreamChunk :=
  (s.order.map fun block => StreamChunk.blockEnd (.int block.index) (closeBlock block))
    ++ (s.pendingUsage.map StreamChunk.usage).toList ++ [.finish s.finishReason none]

/-! ## The stream -/

/-- The chunks that were yielded, and the error that was thrown then. -/
structure Output where
  chunks : List StreamChunk
  error : Option LlmFailure

def malformedPayload (text : JsString) : LlmFailure :=
  plainFailure (ofString "malformed SSE payload: " ++ ⟨text.units.take 120⟩)
    (ofString "MALFORMED_RESPONSE")

def streamClosed : LlmFailure :=
  plainFailure (ofString "SSE payload stream ended without [DONE]")
    (ofString "STREAM_CLOSED")

def translateFrom (s : State) : List Payload → Output
  | [] => ⟨[], some streamClosed⟩
  | .done :: _ => ⟨s.closing, none⟩
  | .malformed text :: _ => ⟨[], some (malformedPayload text)⟩
  | .chunk chunk :: rest =>
    let (s, chunks) := s.chunk js chunk
    let output := translateFrom s rest
    ⟨chunks ++ output.chunks, output.error⟩

/-- Translate the payloads of one stream. -/
def translate (payloads : List Payload) : Output := translateFrom js {} payloads

end LlmDeepseek

end Harness
