-- SUMMARY: The tool-result pruner of `compaction-tool-result-pruner/src`: the rewrite of one result, and a pass over the surface.
import Harness.Compaction.GuardedSession
import Harness.TokenMeter.Estimate

namespace Harness

/-! ## Code points -/

/-- `Array.from(text)`: the code points of a text, lone surrogates one by one. -/
def codePoints : List UInt16 → List (List UInt16)
  | [] => []
  | [u] => [[u]]
  | u :: v :: rest =>
    if isLeadSurrogate u && isTrailSurrogate v then [u, v] :: codePoints rest
    else [u] :: codePoints (v :: rest)

/-- Count Unicode code points without splitting surrogate pairs. -/
def codePointLength (text : JsString) : Nat := (codePoints text.units).length

/-- Fixed marker substituted for every removed middle span. -/
def PRUNE_MARKER : JsString := JsString.ofString "\n\n[... tool result middle pruned ...]\n\n"

/-- Resolved and validated character budgets. -/
structure PruneConfig where
  thresholdChars : Nat
  headChars : Nat
  tailChars : Nat
  positive : 0 < thresholdChars
  fits : headChars + codePointLength PRUNE_MARKER + tailChars ≤ thresholdChars

namespace ToolResultPruner

variable (config : PruneConfig)

/-! ## One result -/

/-- Code points across text blocks; other blocks cost nothing. -/
def measureContent : List ContentBlock → Nat
  | [] => 0
  | .text text :: blocks => codePointLength text + measureContent blocks
  | _ :: blocks => measureContent blocks

/-- Where the loop over the blocks has come to. -/
structure PruneLoop where
  consumed : Nat := 0
  markerInserted : Bool := false
  pruned : List ContentBlock := []

def PruneLoop.text (l : PruneLoop) (removedStart removedEnd : Nat) (text : JsString) : PruneLoop :=
  let points := codePoints text.units
  let blockStart := l.consumed
  let blockEnd := blockStart + points.length
  let headEnd := min points.length (removedStart - blockStart)
  let tailStart := min points.length (removedEnd - blockStart)
  let intersectsRemoved := blockStart < removedEnd && removedStart < blockEnd
  let marker := if intersectsRemoved && !l.markerInserted then PRUNE_MARKER.units else []
  let text := (points.take headEnd).flatten ++ marker ++ (points.drop tailStart).flatten
  { consumed := blockEnd
    markerInserted := l.markerInserted || intersectsRemoved
    pruned := if text.length > 0 then l.pruned ++ [.text ⟨text⟩] else l.pruned }

def PruneLoop.block (removedStart removedEnd : Nat) (l : PruneLoop) : ContentBlock → PruneLoop
  | .text text => l.text removedStart removedEnd text
  | block => { l with pruned := l.pruned ++ [block] }

/-- Replace an over-budget text middle, or none when the text is within budget. -/
def pruneContent (blocks : List ContentBlock) : Except String (Option (List ContentBlock)) :=
  let totalChars := measureContent blocks
  if totalChars ≤ config.thresholdChars then .ok none
  else
    let l : PruneLoop :=
      blocks.foldl (PruneLoop.block config.headChars (totalChars - config.tailChars)) {}
    if !l.markerInserted then .error "tool-result prune: failed to locate the removed text span"
    else
      let charsAfter := measureContent l.pruned
      if charsAfter > config.thresholdChars || charsAfter ≥ totalChars then
        .error "tool-result prune: replacement must be smaller and within threshold"
      else .ok (some l.pruned)

/-! ## A pass -/

/-- The tool results on a surface, in its order. -/
def candidates (events : List SessionEvent) (nodes : List Nat) : List (Nat × ToolResultData) :=
  nodes.filterMap fun seq =>
    match (events[seq]?).map SessionEvent.data with
    | some (.toolResult data) => some (seq, data)
    | _ => none

/-- The result with other content. -/
def rewrite (data : ToolResultData) (content : List ContentBlock) : ToolResultData :=
  { data with message := { data.message with block := { data.message.block with content } } }

/-- The shadow price of the node that is rewritten. -/
def pruneData (target : Nat) (data : ToolResultData) : Json :=
  .obj
    [Json.field "shadowedRange" (.obj [("start", Json.ofNat target), ("end", Json.ofNat target)]),
      Json.field "shadowedSeqs" (.arr [Json.ofNat target]),
      Json.field "shadowedTokenCount" (Json.ofNat (estimateMessage (.toolResult data.message)))]

def pruneRequest (clock : Nat → Int) (target : Nat) (data : ToolResultData) (seq : Nat) :
    AppendRequest where
  payload := .lossless (.other "compaction/prune" (pruneData target data) (by decide))
  time := clock seq

def rewriteRequest (clock : Nat → Int) (target : Nat) (data : ToolResultData) (seq : Nat) :
    AppendRequest where
  payload := .lossless (.toolResult data)
  surfaceOp := .object true false
    [("op", .str "replace"), ("start", FoldTransaction.numberOf target),
      ("end", FoldTransaction.numberOf target)]
  sourceEventSeqs := .array true 0 [some (FoldTransaction.numberOf target)]
  time := clock seq

/-- Rewrite the candidates that are over budget, up to an append that throws. -/
def pruneEach (clock : Nat → Int) (p : PassRun) :
    List (Nat × ToolResultData) → Except String Unit × PassRun
  | [] => (.ok (), p)
  | (target, data) :: rest =>
    match pruneContent config data.message.block.content with
    | .error e => (.error e, p)
    | .ok none => pruneEach clock p rest
    | .ok (some content) =>
      -- the metering event and its replacement are appended synchronously adjacent
      match p.appendAll [pruneRequest clock target data,
          rewriteRequest clock target (rewrite data content)] with
      | (.error e, p) => (.error e, p)
      | (.ok (), p) => pruneEach clock p rest

/-- Prune every over-budget tool result of the current surface. -/
def pruneSession (clock : Nat → Int) (s : GuardedSession) : Except String Unit × PassRun :=
  match s.session.nodes with
  | .error e => (.error e, { session := s })
  | .ok nodes => pruneEach config clock { session := s } (candidates s.events nodes)

end ToolResultPruner

end Harness
