-- SUMMARY: The heuristic token prices of `llm/token-meter/src/estimate.ts`.
import Harness.Compaction.PlanFolds

namespace Harness

def ToolCallBlock.toJson (block : ToolCallBlock) : Json :=
  .obj [Json.field "type" (.str "tool-call"), Json.field "id" (.str block.id),
    Json.field "name" (.str block.name), Json.field "arguments" (.str block.arguments)]

mutual

def ContentBlock.toJson : ContentBlock → Json
  | .text text => .obj [Json.field "type" (.str "text"), Json.field "text" (.str text)]
  | .reasoning text => .obj [Json.field "type" (.str "reasoning"), Json.field "text" (.str text)]
  | .image attachment =>
    .obj [Json.field "type" (.str "image"), Json.field "attachment" attachment]
  | .toolCall block => block.toJson
  | .toolResult toolCallId content isError =>
    .obj <|
      [Json.field "type" (.str "tool-result"), Json.field "toolCallId" (.str toolCallId),
        Json.field "content" (.arr (blocksJson content))]
        ++ (isError.map fun b => Json.field "isError" (.bool b)).toList
  | .other block => block

def blocksJson : List ContentBlock → List Json
  | [] => []
  | block :: blocks => block.toJson :: blocksJson blocks

end

/-! ## Prices -/

/-- Fixed text-density estimate. -/
def CHARS_PER_TOKEN : Nat := 4

/-- Per-block structural overhead for JSON framing and type tags. -/
def BLOCK_OVERHEAD : Nat := 4

/-- Role-field framing overhead added to every priced message. -/
def ROLE_OVERHEAD : Nat := 4

/-- `Math.ceil(length / CHARS_PER_TOKEN)`. -/
def densityTokens (length : Nat) : Nat := (length + (CHARS_PER_TOKEN - 1)) / CHARS_PER_TOKEN

mutual

/-- Price content blocks recursively. -/
def estimateContent : List ContentBlock → Nat
  | [] => 0
  | block :: blocks => estimateBlock block + estimateContent blocks

def estimateBlock : ContentBlock → Nat
  | .text text | .reasoning text => densityTokens text.units.length + BLOCK_OVERHEAD
  | .toolCall block =>
    densityTokens block.name.units.length + densityTokens block.arguments.units.length
      + BLOCK_OVERHEAD
  | .toolResult _ content _ => estimateContent content + BLOCK_OVERHEAD
  -- unknown blocks are priced by their JSON
  | .image attachment =>
    BLOCK_OVERHEAD + densityTokens (ContentBlock.image attachment).toJson.stringify.length
  | .other block => BLOCK_OVERHEAD + densityTokens block.stringify.length

end

/-- Price one model-visible message. -/
def estimateMessage (message : Message) : Nat := estimateContent message.content + ROLE_OVERHEAD

/-- The price of what an event derives to. -/
def estimateEvent (event : SessionEvent) : Nat := ((deriveEventMessage event).map estimateMessage).getD 0

end Harness
