-- SUMMARY: Durable replay metadata and the reconstruction of assistant history: `llm-pi-ai/src/replay.ts`.
import Harness.Goal.Fold
import Harness.Llm.Assembler
import Harness.Persistence.Jsonl

/-!
# Adapter replay

Harness content is the durable source of texts and tool calls. The replay state holds only the
provider-native metadata that a later request needs to rebuild a pi-ai assistant message.
-/

namespace Harness

namespace PiAi

/-! ## Native messages -/

inductive StopReason where
  | stop
  | length
  | toolUse
  | error
  | aborted
  deriving DecidableEq

def StopReason.name : StopReason → String
  | .stop => "stop"
  | .length => "length"
  | .toolUse => "toolUse"
  | .error => "error"
  | .aborted => "aborted"

structure ToolCall where
  id : JsString
  name : JsString
  arguments : StoredFields
  thoughtSignature : Option JsString := none

/-- One block of a native assistant message. -/
inductive Content where
  | text (text : JsString) (textSignature : Option JsString)
  | thinking (thinking : JsString) (thinkingSignature : Option JsString) (redacted : Option Bool)
  | toolCall (call : ToolCall)

/-- Estimated cost, by kind of token. -/
structure UsageCost where
  input : Num
  output : Num
  cacheRead : Num
  cacheWrite : Num
  total : Num

structure PiUsage where
  input : Num
  output : Num
  cacheRead : Num
  cacheWrite : Num
  totalTokens : Num
  cost : UsageCost
  providerCost : Option Num := none

/-- A completed native assistant response. -/
structure Assistant where
  content : List Content
  api : JsString
  provider : JsString
  model : JsString
  responseModel : Option JsString := none
  responseId : Option JsString := none
  usage : PiUsage
  stopReason : StopReason
  errorMessage : Option JsString := none
  timestamp : Num

/-- What an `LlmError` of this package carries. -/
structure PiAiError where
  message : String
  code : String
  deriving DecidableEq

/-! ## Replay state -/

/-- The replay metadata of one block: its `type` and what else the adapter keeps of it. -/
abbrev PiAiReplayBlock := StoredFields

/-- Versioned adapter-private projection required to replay a response. -/
structure PiAiReplayState where
  api : JsString
  provider : JsString
  model : JsString
  responseModel : Option JsString
  responseId : Option JsString
  stopReason : StopReason
  blocks : List PiAiReplayBlock

/-- The `kind` of this adapter's states. -/
def replayKind : JsString := "pi-ai"

def PiAiReplayState.toJson (state : PiAiReplayState) : Json :=
  let identity : StoredFields :=
    [("kind", .str replayKind), ("version", .num (.int 1)), ("api", .str state.api),
      ("provider", .str state.provider), ("model", .str state.model)]
  let outcome : StoredFields :=
    [("stopReason", .str state.stopReason.name), ("blocks", .arr (state.blocks.map .obj))]
  .obj (identity ++ optionalField "responseModel" (state.responseModel.map .str) ++
    optionalField "responseId" (state.responseId.map .str) ++ outcome)

def replayBlock : Content → PiAiReplayBlock
  | .text _ textSignature =>
    ("type", .str "text") :: optionalField "textSignature" (textSignature.map .str)
  | .thinking _ thinkingSignature redacted =>
    ("type", .str "reasoning") ::
      (optionalField "thinkingSignature" (thinkingSignature.map .str)
        ++ optionalField "redacted" (redacted.map .bool))
  | .toolCall call =>
    ("type", .str "tool-call") ::
      optionalField "thoughtSignature" (call.thoughtSignature.map .str)

/-- Project a response into the minimal durable replay state. -/
def toPiReplayState (message : Assistant) : PiAiReplayState where
  api := message.api
  provider := message.provider
  model := message.model
  responseModel := message.responseModel
  responseId := message.responseId
  stopReason := message.stopReason
  blocks := message.content.map replayBlock

/-! ## Validation -/

def invalidReplay {α : Type} (message : String) : Except PiAiError α :=
  .error { message := s!"invalid pi-ai replay state: {message}", code := "INVALID_REPLAY_STATE" }

/-- A state's required non-empty string. -/
def requireText (state : StoredFields) (key : String) : Except PiAiError JsString :=
  match asText (Json.get? key state) with
  | none => invalidReplay s!"{key} must be a non-empty string"
  | some text =>
    if text.units.length = 0 then invalidReplay s!"{key} must be a non-empty string" else .ok text

/-- A property that is absent or a string. -/
def optionalText (fields : StoredFields) (key message : String) :
    Except PiAiError (Option JsString) :=
  match Json.get? key fields with
  | none => .ok none
  | some (.str text) => .ok (some text)
  | some _ => invalidReplay message

/-- The stop reason that a stored value prints as. -/
def readStopReason (value : Option Json) : Option StopReason :=
  [StopReason.stop, .length, .toolUse, .error, .aborted].find? fun reason =>
    templateText value == reason.name

/-- A signature of a block is a string where it has one. -/
def checkSignature (index : Nat) (block : PiAiReplayBlock) (signature : String) :
    Except PiAiError Unit :=
  (optionalText block signature s!"block {index} {signature} must be a string").map fun _ => ()

/-- Validate one block of a state. -/
def readBlock (index : Nat) : Json → Except PiAiError PiAiReplayBlock
  | .obj block =>
    if !(["text", "reasoning", "tool-call"].contains (templateText (Json.get? "type" block))) then
      invalidReplay s!"block {index} has an unknown type"
    else do
      checkSignature index block "textSignature"
      checkSignature index block "thinkingSignature"
      checkSignature index block "thoughtSignature"
      match Json.get? "redacted" block with
      | none | some (.bool _) => .ok block
      | some _ => invalidReplay s!"block {index} redacted must be boolean"
  | _ => invalidReplay s!"block {index} must be an object"

def readBlocks (index : Nat) : List Json → Except PiAiError (List PiAiReplayBlock)
  | [] => .ok []
  | value :: values => do
    let block ← readBlock index value
    let blocks ← readBlocks (index + 1) values
    return block :: blocks

/-- Validate the adapter-private state before it reaches pi-ai. The stop reason is kept by the
name it prints as. -/
def readReplayState : Json → Except PiAiError PiAiReplayState
  | .obj state =>
    if asText (Json.get? "kind" state) ≠ some replayKind then invalidReplay "unknown state kind"
    else if !isInteger (Json.get? "version" state) 1 then
      invalidReplay ("unsupported version " ++ templateText (Json.get? "version" state))
    else do
      let api ← requireText state "api"
      let provider ← requireText state "provider"
      let model ← requireText state "model"
      match readStopReason (Json.get? "stopReason" state) with
      | none => invalidReplay "unknown stopReason"
      | some stopReason =>
        let responseModel ← optionalText state "responseModel" "responseModel must be a string"
        let responseId ← optionalText state "responseId" "responseId must be a string"
        match Json.get? "blocks" state with
        | some (.arr values) =>
          let blocks ← readBlocks 0 values
          return { api, provider, model, responseModel, responseId, stopReason, blocks }
        | _ => invalidReplay "blocks must be an array"
  | _ => invalidReplay "expected an object"

/-! ## Reconstruction -/

/-- Parse tool-call argument JSON; tolerate model malformations with `{}`. -/
def parseArguments (raw : JsString) : StoredFields :=
  match Json.parse raw.units with
  | some (.obj fields) => fields
  | _ => []

/-- The zero usage value required by historical pi-ai messages. -/
def emptyPiUsage : PiUsage where
  input := .int 0
  output := .int 0
  cacheRead := .int 0
  cacheWrite := .int 0
  totalTokens := .int 0
  cost :=
    { input := .int 0, output := .int 0, cacheRead := .int 0, cacheWrite := .int 0, total := .int 0 }

/-- Harness blocks as native ones without any metadata. Types merged in by plugins have none. -/
def foreignContent : List ContentBlock → Except PiAiError (List Content)
  | [] => .ok []
  | .text text :: blocks => (foreignContent blocks).map (.text text none :: ·)
  | .reasoning text :: blocks => (foreignContent blocks).map (.thinking text none none :: ·)
  | .toolCall block :: blocks =>
    (foreignContent blocks).map
      (.toolCall
        { id := block.id, name := block.name, arguments := parseArguments block.arguments } :: ·)
  | .image _ :: _ =>
    .error
      { message := "pi-ai chat history cannot represent structured assistant image output"
        code := "UNSUPPORTED_CONTENT" }
  | .toolResult .. :: blocks | .other _ :: blocks => foreignContent blocks

def Content.isToolCall : Content → Bool
  | .toolCall _ => true
  | _ => false

/-- The provider and model name of a message that no adapter here produced. It never equals a
catalog API. -/
def foreignName : JsString := "dsh-foreign"

/-- Convert provider-neutral blocks without trusting them as same-model replay. -/
def foreignAssistant (content : List ContentBlock) (source : Option ModelMessageSource) :
    Except PiAiError Assistant := do
  let content ← foreignContent content
  return {
    content
    api := foreignName
    provider := (source.map (·.provider)).getD foreignName
    model := (source.map (·.model)).getD foreignName
    usage := emptyPiUsage
    stopReason := if content.any Content.isToolCall then .toolUse else .stop
    timestamp := .int 0 }

/-- A boolean property. -/
def asBool : Option Json → Option Bool
  | some (.bool b) => some b
  | _ => none

/-- Recombine one block with its metadata, which has the block's type. -/
def replayedBlock (index : Nat) (block : ContentBlock) (replay : PiAiReplayBlock) :
    Except PiAiError Content :=
  match block with
  | .text text => .ok (.text text (asText (Json.get? "textSignature" replay)))
  | .reasoning text =>
    .ok (.thinking text (asText (Json.get? "thinkingSignature" replay))
      (asBool (Json.get? "redacted" replay)))
  | .toolCall block =>
    .ok (.toolCall
      { id := block.id
        name := block.name
        arguments := parseArguments block.arguments
        thoughtSignature := asText (Json.get? "thoughtSignature" replay) })
  | _ => invalidReplay s!"block {index} has an unsupported Harness type"

/-- Recombine the blocks from `index` on with the metadata at their positions. -/
def replayedContent (blocks : List PiAiReplayBlock) (index : Nat) :
    List ContentBlock → Except PiAiError (List Content)
  | [] => .ok []
  | block :: rest => do
    let content ←
      match blocks[index]? with
      | none => invalidReplay s!"block {index} does not match assistant content"
      | some replay =>
        if asText (Json.get? "type" replay) ≠ some block.type then
          invalidReplay s!"block {index} does not match assistant content"
        else replayedBlock index block replay
    let contents ← replayedContent blocks (index + 1) rest
    return content :: contents

/-- Recombine durable Harness content with validated replay metadata. -/
def replayedAssistant (content : List ContentBlock) (source : ModelMessageSource) (rawState : Json) :
    Except PiAiError Assistant := do
  let state ← readReplayState rawState
  if state.provider ≠ source.provider then invalidReplay "provider does not match assistant source"
  else if state.model ≠ source.model then invalidReplay "model does not match assistant source"
  else if state.blocks.length ≠ content.length then
    invalidReplay "block count does not match assistant content"
  else
    let content ← replayedContent state.blocks 0 content
    return {
      content
      api := state.api
      provider := state.provider
      model := state.model
      responseModel := state.responseModel
      responseId := state.responseId
      usage := emptyPiUsage
      stopReason := state.stopReason
      timestamp := .int 0 }

/-- Convert one durable assistant message into pi-ai history. `source` is the message's source
where its kind is `model`. -/
def toPiAssistant (content : List ContentBlock) (source : Option ModelMessageSource) :
    Except PiAiError Assistant :=
  match source with
  | none => foreignAssistant content none
  | some source =>
    match source.replayState with
    | none => foreignAssistant content (some source)
    | some state => replayedAssistant content source state

end PiAi

end Harness
