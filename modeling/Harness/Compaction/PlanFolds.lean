-- SUMMARY: The fold planner of `compaction-autobiographical/src/applicator.ts`, and the fold transaction of its `index.ts`: surface annotation, layout parsing, the walk, pre-flight and the appends of a plan.
import Harness.Json.Utf8
import Harness.Session.Session

/-!
# Fold planning

`planFolds` walks the layout a strategy selected and the annotated surface side by side
and returns the folds that bring the surface to the layout. The strategy and its archive
are given by what the planner asks them.
-/

namespace Harness

/-! ## The annotated surface -/

/-- One planned fold: shadow current surface nodes with one recollection node. -/
structure FoldOp where
  summaryId : JsString
  level : Num
  startSeq : Nat
  endSeq : Nat
  shadowedSeqs : List Nat
  /-- Estimated tokens the shadowed surface nodes occupy. -/
  shadowedTokens : Nat
  /-- Rendered recollection text, recall header included. -/
  text : JsString

/-- One surface node: an original append, or a fold node with its expanded coverage. -/
structure SurfaceAnno where
  seq : Nat
  foldId : Option JsString
  covers : List Nat
  /-- Tool-call ids this node's message declares. -/
  calls : List CallId
  /-- Tool-call ids this node's message answers. -/
  results : List CallId
  tokens : Nat

namespace SurfaceAnno

/-- A node of the session's own messages, no fold of this backend. -/
def isRaw (node : SurfaceAnno) : Bool := node.foldId.isNone

/-- `seq > Math.max(...covers)`. -/
def coversBefore (node : SurfaceAnno) (seq : Int) : Bool := node.covers.all fun c => decide ((c : Int) < seq)

/-- `seq <= Math.max(...covers)`. -/
def coversFrom (node : SurfaceAnno) (seq : Int) : Bool := node.covers.any fun c => decide (seq ≤ c)

/-- `seq >= Math.min(...covers)`. -/
def coversTo (node : SurfaceAnno) (seq : Int) : Bool := node.covers.any fun c => decide ((c : Int) ≤ seq)

end SurfaceAnno

/-- `/^\[Recall (\S+)\]/.exec(text)?.[1]`: the run of non-space units up to its last bracket. -/
def recallHeader (text : JsString) : Option JsString :=
  let opening := (JsString.ofString "[Recall ").units
  if opening.isPrefixOf text.units then
    let run := (text.units.drop opening.length).takeWhile (!JsString.isWhiteSpace ·)
    -- the reversed run loses what follows its last closing bracket, and that bracket
    match run.reverse.dropWhile (· ≠ 93) with
    | _ :: id => if id = [] then none else some ⟨id.reverse⟩
    | [] => none
  else none

/-- The summary of one of this backend's fold nodes: an assistant replacement whose text
opens with the recall header. -/
def foldNodeSummaryId (event : SessionEvent) : Option JsString :=
  match event.data with
  | .assistantMessage _ _ message _ =>
    if isReplacementSurfaceEvent event then
      match message.content.head? with
      | some (.text text) => recallHeader text
      | _ => none
    else none
  | _ => none

def Message.content : Message → List ContentBlock
  | .user message => message.content
  | .assistant message => message.content
  | .toolResult message =>
    [.toolResult message.block.toolCallId message.block.content message.block.isError]

/-- The cited source seqs of a logged event. -/
def citedSources (event : SessionEvent) : List Nat :=
  match event.sourceEventSeqs with
  | some (.arr raw) => (raw.mapM asEventSeq).getD []
  | _ => []

/-- The append events behind a node. Sources are earlier events, so that `fuel` above the
node's seq is enough. -/
def coverageOf (events : List SessionEvent) : (fuel seq : Nat) → List Nat
  | 0, seq => [seq]
  | fuel + 1, seq =>
    match events[seq]? with
    | some event =>
      if isReplacementSurfaceEvent event then
        match citedSources event with
        | [] => [seq]
        | sources => sources.flatMap (coverageOf events fuel)
      else [seq]
    | none => [seq]

def annotateNode (events : List SessionEvent) (seq : Nat) : SurfaceAnno :=
  let event := events[seq]?
  let blocks := ((event.bind deriveEventMessage).map Message.content).getD []
  let chars := (blocks.map fun
    | .text text => text.units.length
    | _ => 0).sum
  { seq
    foldId := event.bind foldNodeSummaryId
    covers := coverageOf events (seq + 1) seq
    calls := blocks.filterMap fun
      | .toolCall block => some block.id
      | _ => none
    results := blocks.filterMap fun
      | .toolResult toolCallId _ _ => some toolCallId
      | _ => none
    tokens := (chars + 3) / 4 }

def annotateSurface (events : List SessionEvent) (nodes : List Nat) : List SurfaceAnno :=
  nodes.map (annotateNode events)

/-! ## The selected layout -/

inductive SourceRelation where
  | copy
  | derived
  | other
  deriving DecidableEq

/-- An entry of the layout a strategy selected. -/
structure ContextEntry where
  sourceRelation : SourceRelation
  sourceMessageIds : Option (List JsString)
  sourceMessageId : Option JsString
  cacheLayoutKey : Option JsString
  texts : List JsString

structure FoldSummary where
  id : JsString
  level : Num
  first : JsString
  last : JsString

/-- What the planner asks of a session's archive. -/
structure SessionRuntime where
  messageSeq : JsString → Option Int
  getSummary : JsString → Option FoldSummary

structure FoldItem where
  summaryId : JsString
  level : Num
  firstSeq : Int
  lastSeq : Int
  text : JsString

/-- Desired surface item parsed from the selected entries. -/
inductive DesiredItem where
  | raw (seq : Int)
  | fold (item : FoldItem)

/-- `texts.join('\n')`. -/
def joinLines (texts : List JsString) : JsString := ⟨List.intercalate [10] (texts.map JsString.units)⟩

def recallItem (runtime : SessionRuntime) (answer : ContextEntry) : Option DesiredItem :=
  if answer.sourceRelation ≠ .derived then none
  else
    match answer.cacheLayoutKey.bind runtime.getSummary with
    | none => none
    | some summary =>
      match runtime.messageSeq summary.first, runtime.messageSeq summary.last with
      | some firstSeq, some lastSeq =>
        if lastSeq < firstSeq then none
        else
          some (.fold
            { summaryId := summary.id
              level := summary.level
              firstSeq
              lastSeq
              text := ⟨(JsString.ofString "[Recall ").units ++ summary.id.units ++
                (JsString.ofString "]\n\n").units ++ (joinLines answer.texts).units⟩ })
      | _, _ => none

/-- The raw items of a copied entry. -/
def copyItems (runtime : SessionRuntime) (entry : ContextEntry) : Option (List DesiredItem) :=
  match entry.sourceMessageIds.getD entry.sourceMessageId.toList with
  | [] => none
  | ids => ids.mapM fun id => (runtime.messageSeq id).map .raw

/-- Parse the selected entries; an entry that does not resolve aborts the pass. -/
def parseDesired (runtime : SessionRuntime) : List ContextEntry → Option (List DesiredItem)
  | [] => some []
  | entry :: rest =>
    match entry.sourceRelation with
    | .copy =>
      (copyItems runtime entry).bind fun items => (parseDesired runtime rest).map (items ++ ·)
    | .other => parseDesired runtime rest
    | .derived =>
      -- a recall question; the answer follows it
      match rest with
      | [] => none
      | answer :: rest =>
        (recallItem runtime answer).bind fun item => (parseDesired runtime rest).map (item :: ·)

/-! ## The walk -/

/-- Whether a node belongs into the span of a fold. -/
def FoldItem.includes (item : FoldItem) (node : SurfaceAnno) : Bool :=
  if node.isRaw then decide (item.firstSeq ≤ node.seq ∧ node.seq ≤ item.lastSeq)
  else 0 < node.covers.length && node.covers.all fun c => decide (item.firstSeq ≤ c ∧ c ≤ item.lastSeq)

/-- Whether a fold node keeps the head of a range that starts inside its coverage. -/
def FoldItem.startsInside (item : FoldItem) (node : SurfaceAnno) : Bool :=
  !node.isRaw && 0 < node.covers.length && node.coversTo item.firstSeq &&
    node.coversFrom item.firstSeq && node.coversBefore item.lastSeq

/-- How many leading nodes a fold goes around, and its span. -/
def collectSpan (item : FoldItem) : List SurfaceAnno → Nat × List SurfaceAnno
  | [] => (0, [])
  | node :: rest =>
    if item.includes node then (0, node :: rest.takeWhile item.includes)
    else if item.startsInside node then
      let (skipped, span) := collectSpan item rest
      (skipped + 1, span)
    else (0, [])

/-- Pull in the calls of the results that a span starting at `head` shadows: the head of
the widened span, or nothing when a call would stay visible. -/
def pullCalls (surface : List SurfaceAnno) : (head : Nat) → (needed : List CallId) → Option Nat
  | 0, _ => some 0
  | head + 1, needed =>
    if needed = [] then some (head + 1)
    else
      match surface[head]? with
      | none => some (head + 1)
      | some prev =>
        if !prev.isRaw then
          if (surface.take head).any fun earlier => earlier.isRaw && earlier.calls.any needed.contains
          then none else some (head + 1)
        else if !prev.calls.any needed.contains then none
        else pullCalls surface head (needed.filter (!prev.calls.contains ·) ++ prev.results)

/-- Absorb the results of calls that still await one, from the nodes after the span. -/
def absorbResults : List SurfaceAnno → (pending : List CallId) → Option (List SurfaceAnno)
  | [], _ => some []
  | next :: rest, pending =>
    if pending = [] then some []
    else if !next.isRaw then
      if rest.any fun later => later.isRaw && later.results.any pending.contains then none
      else some []
    else if !next.results.all pending.contains then none
    else
      (absorbResults rest (pending.filter (!next.results.contains ·) ++ next.calls)).map (next :: ·)

/-- The results of a span whose calls it does not hold. -/
def neededCalls (span : List SurfaceAnno) : List CallId :=
  (span.flatMap (·.results)).filter fun id => !(span.flatMap (·.calls)).contains id

/-- The calls of a span whose results it does not hold. -/
def pendingCalls (span : List SurfaceAnno) : List CallId :=
  (span.flatMap (·.calls)).filter fun id => !(span.flatMap (·.results)).contains id

structure FoldWalk where
  /-- The surface cursor. -/
  at_ : Nat
  /-- Seqs a span absorbed beyond its planned range. -/
  absorbed : List Nat
  ops : List FoldOp

def FoldItem.toOp (item : FoldItem) (span : List SurfaceAnno) (startSeq endSeq : Nat) : FoldOp where
  summaryId := item.summaryId
  level := item.level
  startSeq
  endSeq
  shadowedSeqs := span.map (·.seq)
  shadowedTokens := (span.map (·.tokens)).sum
  text := item.text

variable (surface : List SurfaceAnno)

/-- Widen the span `[start, cursor)` of a fold until it holds both sides of its tool pairs,
and plan it. -/
def planSpan (w : FoldWalk) (item : FoldItem) (start cursor : Nat) : Option FoldWalk :=
  match pullCalls surface start (neededCalls (surface.slice start (cursor - start))) with
  | none => none
  | some head =>
    let span := surface.slice head (cursor - head)
    match absorbResults (surface.drop cursor) (pendingCalls span) with
    | none => none
    | some more =>
      match span ++ more with
      | [] => none
      | first :: rest =>
        let last := (first :: rest).getLast (by simp)
        some
          { at_ := cursor + more.length
            absorbed := w.absorbed ++ more.map (·.seq)
            ops := w.ops ++ [item.toOp (first :: rest) first.seq last.seq] }

/-- Stale coarser leftovers at the cursor, which the layout has moved past. -/
def staleNodes (at_ : Nat) (firstSeq : Int) : Nat :=
  ((surface.drop at_).takeWhile fun node => !node.isRaw && node.coversBefore firstSeq).length

/-- Where a fold finds its span `[start, cursor)`: nothing when the layout does not fit, and
no span when the entry stands down or its fold is there already. -/
def locateSpan (w : FoldWalk) (item : FoldItem) : Option (FoldWalk × Option (Nat × Nat)) :=
  let w := { w with at_ := w.at_ + staleNodes surface w.at_ item.firstSeq }
  match surface[w.at_]? with
  | none => none
  | some current =>
    match collectSpan item (surface.drop w.at_) with
    | (_, []) =>
      -- a coarser fold node keeps what the layout wants finer
      if !current.isRaw &&
          ((current.coversTo item.firstSeq && current.coversFrom item.lastSeq) ||
            (current.coversFrom item.firstSeq && current.coversTo item.lastSeq)) then some (w, none)
      else none
    | (skipped, span) =>
      let start := w.at_ + skipped
      let cursor := start + span.length
      if span.length = 1 ∧ span.head?.bind (·.foldId) = some item.summaryId then
        some ({ w with at_ := cursor }, none)
      else some (w, some (start, cursor))

def planFold (w : FoldWalk) (item : FoldItem) : Option FoldWalk :=
  match locateSpan surface w item with
  | none => none
  | some (w, none) => some w
  | some (w, some (start, cursor)) => planSpan surface w item start cursor

def planRaw (w : FoldWalk) (seq : Int) : Option FoldWalk :=
  if w.absorbed.any fun absorbed => (absorbed : Int) = seq then some w
  else
    let w := { w with at_ := w.at_ + staleNodes surface w.at_ seq }
    match surface[w.at_]? with
    | none => none
    | some current =>
      if !current.isRaw then
        if current.covers.any fun c => (c : Int) = seq then some w else none
      else if (current.seq : Int) = seq then some { w with at_ := w.at_ + 1 }
      else none

def planItem (w : FoldWalk) : DesiredItem → Option FoldWalk
  | .raw seq => planRaw surface w seq
  | .fold item => planFold surface w item

def planItems (surface : List SurfaceAnno) : FoldWalk → List DesiredItem → Option FoldWalk
  | w, [] => some w
  | w, item :: items => (planItem surface w item).bind fun w => planItems surface w items

def FoldWalk.init : FoldWalk := { at_ := 0, absorbed := [], ops := [] }

/-- Plan the folds that reconcile the surface of a log with the selected entries. -/
def planFolds (events : List SessionEvent) (nodes : List Nat) (runtime : SessionRuntime)
    (entries : List ContextEntry) : Option (List FoldOp) :=
  (parseDesired runtime entries).bind fun desired =>
    (planItems (annotateSurface events nodes) .init desired).map (·.ops)

end Harness

namespace Harness

/-! ## Pre-flight -/

/-- The check of one op of `assertFoldOpsApply`. -/
def assertFoldOpApplies (surfaceSeqs : List Nat) (op : FoldOp) : Except String Unit :=
  let unresolved := s!"fold {op.summaryId} range {op.startSeq}..{op.endSeq} does not resolve on the live surface"
  match surfaceSeqs.idxOf? op.startSeq, surfaceSeqs.idxOf? op.endSeq with
  | some startIdx, some endIdx =>
    if endIdx < startIdx then .error unresolved
    else
      let missing := (surfaceSeqs.slice startIdx (endIdx + 1 - startIdx)).filter
        (!op.shadowedSeqs.contains ·)
      if 0 < missing.length then
        .error s!"fold {op.summaryId} would shadow seqs {missing} without citing them"
      else .ok ()
  | _, _ => .error unresolved

/-- Pre-flight every planned op against the live surface. -/
def assertFoldOpsApply (surfaceSeqs : List Nat) : List FoldOp → Except String Unit
  | [] => .ok ()
  | op :: ops =>
    match assertFoldOpApplies surfaceSeqs op with
    | .error e => .error e
    | .ok () => assertFoldOpsApply surfaceSeqs ops

/-! ## The transaction -/

theorem start_merged : ("compaction/start" : JsString) ∉ coreEventTypes := by decide

theorem end_merged : ("compaction/end" : JsString) ∉ coreEventTypes := by decide

theorem summary_merged : ("compaction/summary" : JsString) ∉ coreEventTypes := by decide

/-- What a transaction writes beside its ops. `clock` and `messageId` give the time and the
fresh message id of an append, by the length of the log. -/
structure FoldTransaction where
  compactionId : JsString
  turn : Option Nat
  step : Nat
  provider : JsString
  model : JsString
  maxTokens : Option Num
  clock : Nat → Int
  messageId : Nat → MessageId

namespace FoldTransaction

variable (x : FoldTransaction)

def turnJson : Json := (x.turn.map Json.ofNat).getD .null

def bracketData : Json :=
  .obj [Json.field "compactionId" (.str x.compactionId), Json.field "turn" x.turnJson]

def startRequest (seq : Nat) : AppendRequest where
  payload := .lossless (.other "compaction/start" x.bracketData start_merged)
  time := x.clock seq

def endRequest (seq : Nat) : AppendRequest where
  payload := .lossless (.other "compaction/end" x.bracketData end_merged)
  time := x.clock seq

def summaryData (op : FoldOp) : Json :=
  .obj <|
    [Json.field "compactionId" (.str x.compactionId),
      Json.field "summary" (.arr [.obj [("type", .str "text"), ("text", .str op.text)]]),
      Json.field "shadowedRange"
        (.obj [("start", Json.ofNat op.startSeq), ("end", Json.ofNat op.endSeq)]),
      Json.field "shadowedSeqs" (.arr (op.shadowedSeqs.map Json.ofNat)),
      Json.field "shadowedTokenCount" (Json.ofNat op.shadowedTokens),
      Json.field "provider" (.str x.provider), Json.field "model" (.str x.model)]
      ++ (x.maxTokens.map fun n => Json.field "maxTokens" (.num n)).toList

def summaryRequest (op : FoldOp) (seq : Nat) : AppendRequest where
  payload := .lossless (.other "compaction/summary" (x.summaryData op) summary_merged)
  time := x.clock seq

/-- A number as a caller hands it over. -/
def numberOf (n : Nat) : JsValue := .number (.finite (.int n))

/-- The recollection node that shadows the op's range. The message's source also carries the
compaction id, which no reader here looks at. -/
def foldRequest (op : FoldOp) (seq : Nat) : AppendRequest where
  payload := .lossless (.assistantMessage (x.turn.getD 0) x.step
    { id := x.messageId seq
      content := [.text op.text]
      source := { provider := x.provider, model := x.model, replayState := none } } none)
  surfaceOp := .object true false
    [("op", .str "replace"), ("start", numberOf op.startSeq), ("end", numberOf op.endSeq)]
  sourceEventSeqs := .array true 0 (op.shadowedSeqs.map fun seq => some (numberOf seq))
  time := x.clock seq

end FoldTransaction

namespace Session

/-- `session.append`, with listeners that neither veto nor call the session. -/
def append (s : Session) (request : AppendRequest) : Except String Unit × Session :=
  match s.step (.append request [] none []) with
  | (.append _ (.error e) _, s) => (.error e, s)
  | (_, s) => (.ok (), s)

/-- The appends of a transaction, up to the first that throws. -/
def appendAll (s : Session) : List (Nat → AppendRequest) → Except String Unit × Session
  | [] => (.ok (), s)
  | request :: requests =>
    match s.append (request s.seq) with
    | (.error e, s) => (.error e, s)
    | (.ok (), s) => appendAll s requests

/-- Land the planned folds as one bracketed transaction. -/
def executeFolds (s : Session) (x : FoldTransaction) (ops : List FoldOp) :
    Except String Unit × Session :=
  match s.nodes with
  | (.error e, s) => (.error e, s)
  | (.ok nodes, s) =>
    match assertFoldOpsApply nodes ops with
    | .error e => (.error e, s)
    | .ok () => s.appendAll (x.startRequest ::
        (ops.flatMap fun op => [x.summaryRequest op, x.foldRequest op]) ++ [x.endRequest])

end Session
end Harness
