-- SUMMARY: The chunk-to-message assembler of `llm/llm/src/assembler.ts`.
import Harness.Json.Stringify
import Harness.Lib.OrderedMap
import Harness.Llm.Types

namespace Harness

/-- One block that is still being streamed. -/
structure PartialBlock where
  blockType : JsString
  text : JsString := ⟨[]⟩
  toolCallId : Option CallId := none
  toolCallName : Option JsString := none
  toolCallArguments : JsString := ⟨[]⟩
  /-- Set by `block-end`; authoritative, and freezes the partial. -/
  block : Option ContentBlock := none

/-- `partials` keeps its indices in the order of their first chunk, which is `order`. -/
structure BlockAssembler where
  partials : OrderedMap Num PartialBlock := []
  usage : Option Json := none
  finish? : Option FinishReason := none
  replayState : Option Json := none

/-- `block.type`. -/
def ContentBlock.type : ContentBlock → JsString
  | .text _ => "text"
  | .reasoning _ => "reasoning"
  | .image _ => "image"
  | .toolCall _ => "tool-call"
  | .toolResult .. => "tool-result"
  | .other (.obj fields) =>
    match Json.get? "type" fields with
    | some (.str type) => type
    | _ => ⟨[]⟩
  | .other _ => ⟨[]⟩

/-- `partial.text += text`. -/
def JsString.append (s t : JsString) : JsString := ⟨s.units ++ t.units⟩

namespace BlockAssembler

/-- Create the partial of an index on its first chunk. -/
def ensure (a : BlockAssembler) (index : Num) (blockType : JsString) : BlockAssembler :=
  if index ∈ OrderedMap.keys a.partials then a
  else { a with partials := a.partials ++ [(index, { blockType })] }

/-- Change the partial of an index, unless `block-end` has closed it. -/
def extend (a : BlockAssembler) (index : Num) (f : PartialBlock → PartialBlock) : BlockAssembler :=
  { a with partials := OrderedMap.modify a.partials index fun p => if p.block.isSome then p else f p }

/-- Feed one chunk into the assembly state. -/
def push (a : BlockAssembler) : StreamChunk → BlockAssembler
  | .blockStart index blockType => a.ensure index blockType
  | .textDelta index text =>
    (a.ensure index "text").extend index fun p => { p with text := p.text.append text }
  | .reasoningDelta index text =>
    (a.ensure index "reasoning").extend index fun p => { p with text := p.text.append text }
  | .toolCallDelta index id name argumentsDelta =>
    (a.ensure index "tool-call").extend index fun p =>
      { p with
        toolCallId := some id
        toolCallName := (name.filter fun name => name.units.length > 0).or p.toolCallName
        toolCallArguments := p.toolCallArguments.append argumentsDelta }
  | .blockEnd index block =>
    (a.ensure index block.type).extend index fun p => { p with block := some block }
  | .usage usage => { a with usage := some usage }
  | .finish reason replayState => { a with finish? := some reason, replayState }

/-- Finish reason from the `finish` chunk; a plain stop when the stream ended without one. -/
def finish (a : BlockAssembler) : FinishReason := a.finish?.getD .stop

/-- The block of one partial; an open one assembles from its deltas. -/
def assemble (p : PartialBlock) (index : Num) : Except String ContentBlock :=
  match p.block with
  | some block => .ok block
  | none =>
    if p.blockType = "text" then .ok (.text p.text)
    else if p.blockType = "reasoning" then .ok (.reasoning p.text)
    else if p.blockType = "tool-call" then
      .ok (.toolCall
        { id := p.toolCallId.getD ⟨(JsString.ofString "call-").units ++ index.toText⟩
          name := p.toolCallName.getD ⟨[]⟩
          arguments := p.toolCallArguments })
    else .error s!"cannot assemble incomplete block of type \"{p.blockType}\""

/-- Assemble all blocks in stream order; truncation drops the tool calls. -/
def blocks (a : BlockAssembler) : Except String (List ContentBlock) :=
  match a.partials.mapM fun (index, p) => assemble p index with
  | .error e => .error e
  | .ok blocks =>
    match a.finish with
    | .maxTokens => .ok (blocks.filter (·.toolCall?.isNone))
    | _ => .ok blocks

end BlockAssembler

end Harness
