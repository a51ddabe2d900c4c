-- SUMMARY: The stream grammar of `llm/llm/src/invariant.ts`: what `validateStream` lets through, chunk by chunk.
import Harness.Llm.Assembler

namespace Harness

open OrderedMap

/-- `chunk.type`. -/
def StreamChunk.type : StreamChunk → String
  | .blockStart .. => "block-start"
  | .textDelta .. => "text-delta"
  | .reasoningDelta .. => "reasoning-delta"
  | .toolCallDelta .. => "tool-call-delta"
  | .blockEnd .. => "block-end"
  | .usage .. => "usage"
  | .finish .. => "finish"

namespace StreamGrammar

/-- What the validator knows of the stream so far. -/
structure State where
  openBlocks : OrderedMap Num JsString := []
  usageSeen : Bool := false
  finished : Bool := false

def indexText (index : Num) : String := JsString.toString ⟨index.toText⟩

/-- Require one chunk index to be a non-negative safe integer. -/
def validateIndex (index : Num) : Except String Unit :=
  if index.asSafeInteger.any (0 ≤ ·) then .ok ()
  else
    .error s!"LLM stream block index must be a non-negative safe integer, got {indexText index}"

def actualType (type : Option JsString) : String := (type.map JsString.toString).getD "undefined"

/-- Require a delta to address an open block of its matching type. -/
def validateDelta (s : State) (index : Num) (expected : String) : Except String Unit := do
  validateIndex index
  let actual := get? s.openBlocks index
  if actual = some (JsString.ofString expected) then .ok ()
  else
    .error s!"{expected} delta at index {indexText index} requires an open {expected} block, got {actualType actual}"

/-- One chunk of the stream. -/
def advance (s : State) (chunk : StreamChunk) : Except String State :=
  if s.finished then .error s!"LLM stream emitted {chunk.type} after terminal finish"
  else
    match chunk with
    | .blockStart index blockType => do
      validateIndex index
      if index ∈ keys s.openBlocks then
        .error s!"LLM stream repeated block-start index {indexText index}"
      else .ok { s with openBlocks := set s.openBlocks index blockType }
    | .textDelta index _ => do
      validateDelta s index "text"
      .ok s
    | .reasoningDelta index _ => do
      validateDelta s index "reasoning"
      .ok s
    | .toolCallDelta index .. => do
      validateDelta s index "tool-call"
      .ok s
    | .blockEnd index block => do
      validateIndex index
      match get? s.openBlocks index with
      | none => .error s!"LLM stream block-end index {indexText index} has no open block"
      | some blockType =>
        if block.type ≠ blockType then
          .error s!"LLM stream block-end index {indexText index} closes {block.type}, expected {blockType}"
        else .ok { s with openBlocks := delete s.openBlocks index }
    | .usage _ =>
      if s.usageSeen then .error "LLM stream emitted usage more than once"
      else .ok { s with usageSeen := true }
    | .finish reason _ =>
      let fails := match reason with
        | .error _ | .aborted _ => false
        | _ => true
      if s.openBlocks.length > 0 && fails then
        .error s!"LLM stream finished with {s.openBlocks.length} open block(s)"
      else .ok { s with finished := true }

/-- The chunks of a whole stream. -/
def validateStream (chunks : List StreamChunk) : Except String Unit := do
  let s ← chunks.foldlM advance {}
  if s.finished then .ok () else .error "LLM stream ended without a terminal finish chunk"

end StreamGrammar

end Harness
