-- SUMMARY: The surface fold of `core/session/src/surface.ts`: validation, planning, the full refold and the incremental manager.
import Harness.Json.RoundTrip
import Harness.Lib.Splice
import Harness.Session.Types

/-!
# Session surface

An ordered view of the events that produce model messages. `foldSurface` replays
a whole log; `SurfaceManager` maintains the same view incrementally.
-/

namespace Harness

/-! ## Event classification -/

/-- Whether an event type can join the model-visible surface. -/
def isSurfaceEligibleType (type : JsString) : Bool :=
  [("user/message" : JsString), "assistant/message", "tool/result"].contains type

variable (event : SessionEvent)

def isSurfaceEvent : Bool :=
  isSurfaceEligibleType event.type && event.surfaceOp.isSome

/-- `value === 'append'`. -/
def Json.isAppendMarker : Json → Bool
  | .str s => s == "append"
  | _ => false

/-- An event that entered the surface at its own log position. -/
def isAppendSurfaceEvent : Bool :=
  isSurfaceEligibleType event.type && event.surfaceOp.any Json.isAppendMarker

/-- A node that shadowed an existing surface range instead of appending. -/
def isReplacementSurfaceEvent : Bool :=
  isSurfaceEligibleType event.type && event.surfaceOp.any (!·.isAppendMarker)

def deriveEventMessage : Option Message :=
  match event.data with
  | .userMessage message => some (.user message)
  | .assistantMessage _ _ message _ =>
    -- an empty-content assistant message exists only to host usage
    if message.content.length == 0 then none else some (.assistant message)
  | .toolResult data => some (.toolResult data.message)
  | _ => none

/-! ## Fold state and plans -/

/-- One replacement operation observed while folding a session surface. -/
structure SurfaceFoldReplacement where
  seq : Nat
  start : Nat
  end_ : Nat
  /-- Surface entries removed by the operation, in surface order. -/
  shadowedSeqs : List Nat
  deriving DecidableEq

structure SurfaceFoldResult where
  nodes : List Nat
  replacements : List SurfaceFoldReplacement
  deriving DecidableEq

/-- Mutable state shared by complete and incremental folds. -/
structure SurfaceFoldState where
  nodes : List Nat
  replaceGeneration : Nat
  deriving DecidableEq

def createFoldState : SurfaceFoldState := { nodes := [], replaceGeneration := 0 }

/-- A validated replacement transition that has not mutated fold state yet. -/
structure SurfaceReplacePlan extends SurfaceFoldReplacement where
  startIdx : Nat
  endIdx : Nat
  deriving DecidableEq

inductive SurfacePlan where
  | append (seq : Nat)
  | replace (plan : SurfaceReplacePlan)
  deriving DecidableEq

/-! ## Validation -/

/-- The value of a non-negative safe event sequence. -/
def asEventSeq (value : Json) : Option Nat :=
  match value.asSafeInteger with
  | some z => if 0 ≤ z then some z.toNat else none
  | none => none

/-- Read the exact positional-replacement shape. -/
def asReplaceOp (op : List (JsString × Json)) : Option (Nat × Nat) :=
  if op.length != 3 then none
  else
    match Json.get? "op" op, Json.get? "start" op, Json.get? "end" op with
    | some (.str tag), some start, some end_ =>
      if tag == "replace" then
        match asEventSeq start, asEventSeq end_ with
        | some s, some e => some (s, e)
        | _, _ => none
      else none
    | _, _, _ => none

/-- Validate event-local surface eligibility and return its operation. -/
def surfaceOpOf : Except String (Option SurfaceOp) :=
  if !isSurfaceEligibleType event.type then
    if event.surfaceOp.isSome then
      .error s!"session event \"{event.type}\" is not surface-eligible and cannot carry surfaceOp"
    else if event.sourceEventSeqs.isSome then
      .error s!"session event \"{event.type}\" is not surface-eligible and cannot carry sourceEventSeqs"
    else .ok none
  else
    match event.surfaceOp with
    | none =>
      .error s!"session event \"{event.type}\" is surface-eligible and requires a surfaceOp marker"
    | some op =>
      if op.isAppendMarker then .ok (some .append)
      else
        match op with
        | .obj fields =>
          match asReplaceOp fields with
          | some (start, end_) => .ok (some (.replace start end_))
          | none => .error s!"session event \"{event.type}\" carries an invalid replace surfaceOp"
        | _ => .error s!"session event \"{event.type}\" carries an invalid surfaceOp"

/-- The cited source seqs of an event, once they pass the event-local checks. -/
def provenanceSources : Except String (List Nat) :=
  match event.sourceEventSeqs with
  | none => .ok []
  | some (.arr raw) =>
    if raw.length == 0 && event.type != "assistant/message" then
      .error "sourceEventSeqs must not be empty except on assistant/message"
    else
      match raw.mapM asEventSeq with
      | none =>
        .error s!"session event \"{event.type}\" sourceEventSeqs must densely contain non-negative safe integers"
      | some sources =>
        if !decide sources.Nodup then .error "sourceEventSeqs must not contain duplicates"
        else
          match sources.find? (event.seq ≤ ·) with
          | some source =>
            .error s!"sourceEventSeqs must reference earlier events: {source} >= current seq {event.seq}"
          | none => .ok sources
  | some _ => .error s!"sourceEventSeqs on event at seq {event.seq} must be an array when present"

/-- Validate cited source-event seqs against prior log entries and the replacement range. -/
def assertProvenance (shadowedSeqs : List Nat) : Except String Unit :=
  match provenanceSources event with
  | .error e => .error e
  | .ok sources =>
    let missing := shadowedSeqs.filter fun seq => !sources.contains seq
    if missing.length > 0 then
      .error s!"surface replace: sourceEventSeqs must include every shadowed surface node; missing {missing}"
    else .ok ()

/-- The part of a replacement plan that locates its range. -/
structure ReplacementRange where
  startIdx : Nat
  endIdx : Nat
  shadowedSeqs : List Nat

/-- Locate one replacement range without mutating the current fold state. -/
def replacementRange (state : SurfaceFoldState) (start end_ : Nat) :
    Except String ReplacementRange :=
  match state.nodes.idxOf? start with
  | none => .error s!"surface replace: start seq {start} not found in surface"
  | some startIdx =>
    match state.nodes.idxOf? end_ with
    | none => .error s!"surface replace: end seq {end_} not found in surface"
    | some endIdx =>
      if startIdx > endIdx then
        .error s!"surface replace: start seq {start} (index {startIdx}) is after end seq {end_} (index {endIdx})"
      else
        .ok { startIdx, endIdx, shadowedSeqs := state.nodes.slice startIdx (endIdx + 1 - startIdx) }

mutual

/-- Deep structural equality over JSON values; field order does not count. -/
def isDeepEqualJson : Json → Json → Bool
  | .null, .null => true
  | .bool a, .bool b => a == b
  | .num a, .num b => a == b
  | .str a, .str b => a == b
  | .arr as, .arr bs => as.length == bs.length && everyItemEqual as bs
  | .obj as, .obj bs => as.length == bs.length && everyFieldEqual as bs
  | _, _ => false

def everyItemEqual : List Json → List Json → Bool
  | [], _ => true
  | a :: as, b :: bs => isDeepEqualJson a b && everyItemEqual as bs
  | _ :: _, [] => false

def everyFieldEqual : List (JsString × Json) → List (JsString × Json) → Bool
  | [], _ => true
  | (key, a) :: as, bs =>
    (match Json.get? key bs with
      | some b => isDeepEqualJson a b
      | none => false) && everyFieldEqual as bs

end

mutual

theorem isDeepEqualJson_self (j : Json) (h : j.Proper) : isDeepEqualJson j j = true := by
  match j with
  | .null => rfl
  | .bool b => simp [isDeepEqualJson]
  | .num n => simp [isDeepEqualJson]
  | .str s => simp [isDeepEqualJson]
  | .arr items =>
    simp only [isDeepEqualJson, beq_self_eq_true, Bool.true_and]
    exact everyItemEqual_self items h
  | .obj fields =>
    simp only [isDeepEqualJson, beq_self_eq_true, Bool.true_and]
    exact everyFieldEqual_self fields fields h.2 fun field hfield => Json.get?_of_mem h.1 hfield

theorem everyItemEqual_self (items : List Json) (h : Json.ProperItems items) :
    everyItemEqual items items = true := by
  match items with
  | [] => rfl
  | item :: items =>
    simp only [everyItemEqual, Bool.and_eq_true]
    exact ⟨isDeepEqualJson_self item h.1, everyItemEqual_self items h.2⟩

theorem everyFieldEqual_self (fields whole : List (JsString × Json)) (h : Json.ProperFields fields)
    (hget : ∀ field ∈ fields, Json.get? field.1 whole = some field.2) :
    everyFieldEqual fields whole = true := by
  match fields with
  | [] => rfl
  | (key, value) :: fields =>
    simp only [everyFieldEqual, hget (key, value) List.mem_cons_self, Bool.and_eq_true]
    exact ⟨isDeepEqualJson_self value h.1, everyFieldEqual_self fields whole h.2
      fun field hfield => hget field (List.mem_cons_of_mem _ hfield)⟩

end

/-- A tool result's payload with the block's content nulled out. -/
def ToolResultData.rest (data : ToolResultData) : Json :=
  let block := data.message.block
  let content : Json := .obj <|
    [Json.field "type" (.str "tool-result"), Json.field "toolCallId" (.str block.toolCallId),
      Json.field "content" .null]
      ++ (block.isError.map fun b => Json.field "isError" (.bool b)).toList
  let message : Json := .obj
    [("id", .str data.message.id), ("role", .str "user"), ("content", .arr [content]),
      ("source", .obj [("kind", .str "tool"), ("callId", .str data.message.callId)])]
  .obj <|
    [Json.field "turn" (Json.ofNat data.turn), Json.field "step" (Json.ofNat data.step),
      Json.field "message" message]
      ++ (data.error.map fun e =>
        Json.field "error" (.obj [("name", .str e.name), ("code", .str e.code)])).toList
      ++ (data.presentation.map (Json.field "meta")).toList

/-- Restrict a tool-result replacement to one current result's content. -/
def assertToolResultRewrite (shadowedSeqs : List Nat)
    (events : List SessionEvent) (baseSeq : Nat) : Except String Unit :=
  match event.data with
  | .toolResult replacement =>
    match shadowedSeqs with
    | [originalSeq] =>
      match (events[originalSeq - baseSeq]?).map SessionEvent.data with
      | some (.toolResult original) =>
        if isDeepEqualJson original.rest replacement.rest then .ok ()
        else .error "tool/result surface replacement may change only content"
      | _ => .error "tool/result surface replacement must target a current tool/result"
    | _ => .error "tool/result surface replacement must rewrite exactly one current node"
  | _ => .ok ()

/-! ## Planning and folding -/

/-- Validate one event at its replay boundary and prepare its atomic fold transition. -/
def planSurfaceEvent (state : SurfaceFoldState) (event : SessionEvent) (expectedSeq : Nat)
    (events : List SessionEvent) (baseSeq : Nat) : Except String (Option SurfacePlan) :=
  if event.seq != expectedSeq then
    .error s!"session event seq {event.seq} is not contiguous; expected {expectedSeq}"
  else
    match surfaceOpOf event with
    | .error e => .error e
    | .ok none => .ok none
    | .ok (some .append) =>
      match assertProvenance event [] with
      | .error e => .error e
      | .ok () => .ok (some (.append event.seq))
    | .ok (some (.replace start end_)) =>
      match replacementRange state start end_ with
      | .error e => .error e
      | .ok range =>
        match assertProvenance event range.shadowedSeqs with
        | .error e => .error e
        | .ok () =>
          match assertToolResultRewrite event range.shadowedSeqs events baseSeq with
          | .error e => .error e
          | .ok () =>
            .ok (some (.replace
              { seq := event.seq, start, end_, shadowedSeqs := range.shadowedSeqs
                startIdx := range.startIdx, endIdx := range.endIdx }))

/-- Commit one previously validated surface transition. -/
def applySurfacePlan (state : SurfaceFoldState) :
    Option SurfacePlan → SurfaceFoldState × Option SurfaceFoldReplacement
  | none => (state, none)
  | some (.append seq) => ({ state with nodes := state.nodes ++ [seq] }, none)
  | some (.replace plan) =>
    ({ nodes := state.nodes.splice plan.startIdx (plan.endIdx - plan.startIdx + 1) [plan.seq]
       replaceGeneration := state.replaceGeneration + 1 },
      some plan.toSurfaceFoldReplacement)

/-- Apply one event and return replacement metadata only when one occurred. -/
def applySurfaceEvent (state : SurfaceFoldState) (event : SessionEvent) (expectedSeq : Nat)
    (events : List SessionEvent) (baseSeq : Nat) :
    Except String (SurfaceFoldState × Option SurfaceFoldReplacement) :=
  match planSurfaceEvent state event expectedSeq events baseSeq with
  | .error e => .error e
  | .ok plan => .ok (applySurfacePlan state plan)

/-- The loop of `foldSurface` from `index` on. -/
def foldSurfaceFrom (events : List SessionEvent) :
    List SessionEvent → Nat → SurfaceFoldState → List SurfaceFoldReplacement →
      Except String (SurfaceFoldState × List SurfaceFoldReplacement)
  | [], _, state, replacements => .ok (state, replacements)
  | event :: rest, index, state, replacements =>
    match applySurfaceEvent state event index events 0 with
    | .error e => .error e
    | .ok (state', replacement) =>
      foldSurfaceFrom events rest (index + 1) state' (replacements ++ replacement.toList)

/-- Replay a complete session log through the canonical surface fold. -/
def foldSurface (events : List SessionEvent) : Except String SurfaceFoldResult :=
  match foldSurfaceFrom events events 0 createFoldState [] with
  | .error e => .error e
  | .ok (state, replacements) => .ok { nodes := state.nodes, replacements }

/-! ## Incremental manager -/

/-- A log slot: the event and the identity of the object that holds it, which is
what `===` compares. -/
structure LogEntry where
  identity : Nat
  event : SessionEvent

/-- Candidate already validated by `validateNext`, pending exact log admission. -/
structure PendingPlan where
  event : LogEntry
  expectedSeq : Nat
  plan : Option SurfacePlan

structure SurfaceManager where
  state : SurfaceFoldState
  lastProcessedSeq : Int
  pendingPlan : Option PendingPlan
  baseSeq : Nat

namespace SurfaceManager

def create (baseSeq : Nat) : SurfaceManager :=
  { state := createFoldState, lastProcessedSeq := (baseSeq : Int) - 1, pendingPlan := none, baseSeq }

variable (m : SurfaceManager)

/-- Fold one entry: through its pending plan when it is the candidate that was
validated last, afresh otherwise. -/
def applyEntry (log : List LogEntry) (entry : LogEntry) (seq : Nat) :
    Except String SurfaceFoldState :=
  let fresh := (applySurfaceEvent m.state entry.event seq (log.map LogEntry.event) m.baseSeq).map
    Prod.fst
  match m.pendingPlan with
  | some pending =>
    if pending.event.identity = entry.identity ∧ pending.expectedSeq = seq then
      .ok (applySurfacePlan m.state pending.plan).1
    else fresh
  | none => fresh

/-- The loop of `processDelta` over the entries not folded yet. -/
def processEntries (log : List LogEntry) :
    List LogEntry → SurfaceManager → Except String Unit × SurfaceManager
  | [], m => (.ok (), m)
  | entry :: rest, m =>
    let seq := (m.lastProcessedSeq + 1).toNat
    match m.applyEntry log entry seq with
    | .error e => (.error e, m)
    | .ok state =>
      processEntries log rest
        { m with
          state
          pendingPlan := m.pendingPlan.filter fun pending => !decide (pending.expectedSeq ≤ seq)
          lastProcessedSeq := seq }

/-- Fold events appended since the previous access. -/
def processDelta (log : List LogEntry) : Except String Unit × SurfaceManager :=
  processEntries log (log.drop (m.lastProcessedSeq + 1 - m.baseSeq).toNat) m

/-- The lazy drain that guards every access. -/
def drain (log : List LogEntry) : Except String Unit × SurfaceManager :=
  if m.lastProcessedSeq < m.baseSeq + log.length - 1 then m.processDelta log else (.ok (), m)

/-- Validate the next candidate without mutating the committed surface. -/
def validateNext (log : List LogEntry) (candidate : LogEntry) :
    Except String Unit × SurfaceManager :=
  match m.drain log with
  | (.error e, m) => (.error e, m)
  | (.ok (), m) =>
    let expectedSeq := m.baseSeq + log.length
    match planSurfaceEvent m.state candidate.event expectedSeq (log.map LogEntry.event) m.baseSeq with
    | .error e => (.error e, m)
    | .ok plan =>
      (.ok (), { m with pendingPlan := some { event := candidate, expectedSeq, plan } })

/-- Monotonic count of folded positional replacements. -/
def replaceGeneration (log : List LogEntry) : Except String Nat × SurfaceManager :=
  let (drained, m) := m.drain log
  (drained.map fun _ => m.state.replaceGeneration, m)

/-- Surface event sequences in model-visible order. -/
def nodes (log : List LogEntry) : Except String (List Nat) × SurfaceManager :=
  let (drained, m) := m.drain log
  (drained.map fun _ => m.state.nodes, m)

end SurfaceManager

end Harness
