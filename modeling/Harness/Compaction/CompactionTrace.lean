-- SUMMARY: The compaction trace validator of `compaction/src/invariant.ts`: one bracket at a time, inside a turn or between turns, with at most one summary.
import Harness.Session.Surface

/-!
# The compaction trace

What the validator remembers of a log: the open turn, and the open bracket with its owner.
The payloads are read as the unknown values they are.
-/

namespace Harness

/-- `compaction` events and messages reach the validator as unknown values. -/
def Json.property (key : JsString) : Json → Option Json
  | .obj fields => Json.get? key fields
  | _ => none

/-- `a === b` on values read from two places: no two objects are one. -/
def Json.strictEqual : Json → Json → Bool
  | .null, .null => true
  | .bool a, .bool b => a == b
  | .num a, .num b => a == b
  | .str a, .str b => a == b
  | _, _ => false

/-- An open bracket. `turn` is the turn it is inside, or none for a standalone one. -/
structure CompactionTrace where
  compactionId : JsString
  sourceCommandId : Option JsString
  startSeq : Nat
  turn : Option Nat
  summarized : Bool
  deriving DecidableEq

structure CompactionSessionTrace where
  openTurn : Option Nat
  compaction : Option CompactionTrace
  deriving DecidableEq

inductive CompactionTransition where
  | start (opened : CompactionTrace)
  | summary (opened : CompactionTrace)
  | end_
  | endSeed

/-- The owner a payload names. -/
inductive CompactionOwner where
  | standalone
  | turn (turn : Nat)
  | unknown
  deriving DecidableEq

/-- The owner of a `turn` property. -/
def readOwner : Option Json → CompactionOwner
  | some .null => .standalone
  | some (.num (.int z)) => if 0 ≤ z then .turn z.toNat else .unknown
  | _ => .unknown

def CompactionOwner.ofTurn : Option Nat → CompactionOwner
  | none => .standalone
  | some n => .turn n

def CompactionOwner.show : CompactionOwner → String
  | .standalone => "null"
  | .turn n => toString n
  | .unknown => "undefined"

namespace CompactionSessionTrace

def fresh : CompactionSessionTrace := { openTurn := none, compaction := none }

/-! ## Checks of one field -/

/-- Require a durable opaque identity to be a non-empty string. -/
def validateId (value : Option Json) (label : String) : Except String JsString :=
  match value with
  | some (.str id) =>
    if id.units.length == 0 then .error s!"{label} must be a non-empty string" else .ok id
  | _ => .error s!"{label} must be a non-empty string"

def showId : Option JsString → String
  | none => "undefined"
  | some id => toString id

/-- A command identity, checked where there is one. -/
def readCommandId (value : Option Json) (label : String) : Except String (Option JsString) :=
  match value with
  | none => .ok none
  | some value => (validateId (some value) label).map some

/-- Keep the optional initiating command identity stable across one transaction. -/
def validateSourceCommandId (eventType : String) (value : Option Json)
    (expected : Option JsString) : Except String Unit :=
  match readCommandId value s!"{eventType} sourceCommandId" with
  | .error e => .error e
  | .ok id =>
    if id ≠ expected then
      .error s!"{eventType} sourceCommandId {showId id} does not match compaction/start sourceCommandId {showId expected}"
    else .ok ()

/-- Require a numbered bracket inside its exact turn, or a standalone one between turns. -/
def validateOwner (owner : CompactionOwner) (openTurn : Option Nat) (eventType : String) :
    Except String Unit :=
  match owner, openTurn with
  | .standalone, some open_ => .error s!"{eventType} is standalone but turn {open_} is open"
  | .standalone, none => .ok ()
  | owner, none => .error s!"{eventType} for turn {owner.show} appended outside any open turn"
  | owner, some open_ =>
    if owner ≠ .turn open_ then
      .error s!"{eventType} names turn {owner.show} but open turn is {open_}"
    else .ok ()

/-! ## Checks of one event -/

def showBracket (opened : CompactionTrace) (standalone turn : String) : String :=
  match opened.turn with
  | none => standalone
  | some n => s!"{turn}{n}"

variable (trace : CompactionSessionTrace)

/-- Keep every live compaction bracket on one side of each turn boundary. -/
def validateTurnBoundary (event : SessionEvent) : Except String Unit :=
  match event.data, trace.compaction with
  | .turnStart _, some opened | .turnEnd _ _, some opened =>
    let owner := showBracket opened "standalone compaction" "compaction for turn "
    .error s!"{event.type} cannot cross an open {owner}"
  | _, _ => .ok ()

/-- Test whether a message source identifies a compaction checkpoint. -/
def isCompactCheckpointSource : MessageSource → Bool
  | .plugin plugin _ => plugin == "compact"
  | .other source =>
    (source.property "kind").any (·.strictEqual (.str "plugin")) &&
      (source.property "plugin").any (·.strictEqual (.str "compact"))
  | .user => false

def sourceProperty (key : JsString) : MessageSource → Option Json
  | .other source => source.property key
  | _ => none

/-- Validate one replacement checkpoint against its open compaction transaction. -/
def validateCheckpoint (source : MessageSource) : Except String Unit := do
  let id ← validateId (sourceProperty "compactionId" source) "compaction checkpoint compactionId"
  let _ ← readCommandId (sourceProperty "sourceCommandId" source)
    "compaction checkpoint sourceCommandId"
  match trace.compaction with
  | none => .error "compaction checkpoint has no matching compaction/start"
  | some opened =>
    if id ≠ opened.compactionId then
      .error s!"compaction checkpoint id {id} does not match compaction/start id {opened.compactionId}"
    else
      validateSourceCommandId "compaction checkpoint" (sourceProperty "sourceCommandId" source)
        opened.sourceCommandId

def validateStart (seq : Nat) (data : Json) : Except String CompactionTransition := do
  let id ← validateId (data.property "compactionId") "compaction/start compactionId"
  let command ← readCommandId (data.property "sourceCommandId") "compaction/start sourceCommandId"
  match trace.compaction with
  | some opened =>
    let owner := showBracket opened "standalone compaction" "turn "
    .error s!"compaction/start while {owner} is still compacting"
  | none =>
    validateOwner (readOwner (data.property "turn")) trace.openTurn "compaction/start"
    .ok (.start
      { compactionId := id, sourceCommandId := command, startSeq := seq
        -- an owner that passes is none, or the open turn
        turn := if readOwner (data.property "turn") = .standalone then none else trace.openTurn
        summarized := false })

/-- The bracket a `compaction/summary` or `compaction/end` belongs to, once its identities
match. -/
def validateMember (eventType : String) (data : Json) : Except String CompactionTrace := do
  let id ← validateId (data.property "compactionId") s!"{eventType} compactionId"
  let _ ← readCommandId (data.property "sourceCommandId") s!"{eventType} sourceCommandId"
  match trace.compaction with
  | none => .error s!"{eventType} has no matching compaction/start"
  | some opened =>
    if id ≠ opened.compactionId then
      .error s!"{eventType} id {id} does not match compaction/start id {opened.compactionId}"
    else
      validateSourceCommandId eventType (data.property "sourceCommandId") opened.sourceCommandId
      .ok opened

/-- The shadowed seqs of a summary and the price it states for them. -/
def validateShadowed (data : Json) : Except String Unit :=
  match data.property "shadowedSeqs" with
  | some (.arr seqs) =>
    if seqs.length == 0 then .error "compaction/summary shadowedSeqs must be non-empty"
    else
      let range := data.property "shadowedRange"
      let matches_ (seq bound : Option Json) : Bool :=
        match seq, bound with
        | some seq, some bound => seq.strictEqual bound
        | _, _ => false
      if !matches_ seqs.head? (range.bind (·.property "start"))
          || !matches_ seqs.getLast? (range.bind (·.property "end")) then
        .error "compaction/summary shadowedRange must match the first and last shadowedSeqs"
      else
        match (data.property "shadowedTokenCount").bind Json.asSafeInteger with
        | some count =>
          if count < 0 then
            .error "compaction/summary shadowedTokenCount must be a non-negative safe integer"
          else .ok ()
        | none => .error "compaction/summary shadowedTokenCount must be a non-negative safe integer"
  | _ => .error "compaction/summary shadowedSeqs is not an array"

def validateSummary (data : Json) : Except String CompactionTransition := do
  let opened ← trace.validateMember "compaction/summary" data
  validateOwner (.ofTurn opened.turn) trace.openTurn "compaction/summary"
  if opened.summarized then .error "compaction/summary repeated within one compaction"
  else
    validateShadowed data
    .ok (.summary { opened with summarized := true })

def validateEnd (data : Json) : Except String CompactionTransition := do
  let opened ← trace.validateMember "compaction/end" data
  let owner := readOwner (data.property "turn")
  if owner ≠ .ofTurn opened.turn then
    let expected := CompactionOwner.ofTurn opened.turn
    .error s!"compaction/end owner {owner.show} does not match compaction/start owner {expected.show}"
  else
    validateOwner (.ofTurn opened.turn) trace.openTurn "compaction/end"
    if (data.property "error").isNone && !opened.summarized then
      .error "successful compaction/end requires one compaction/summary"
    else .ok .end_

/-- Validate one compaction event without advancing committed trace state. -/
def validateCompactionEvent (event : SessionEvent) : Except String (Option CompactionTransition) :=
  match event.data with
  | .sessionEndSeed => .ok (some .endSeed)
  | .userMessage message =>
    if isReplacementSurfaceEvent event && isCompactCheckpointSource message.source then
      (trace.validateCheckpoint message.source).map fun _ => none
    else .ok none
  | .other type data _ =>
    if type == "compaction/start" then (trace.validateStart event.seq data).map some
    else if type == "compaction/summary" then (trace.validateSummary data).map some
    else if type == "compaction/end" then (trace.validateEnd data).map some
    else .ok none
  | _ => .ok none

/-! ## Replay -/

def applyCompactionTransition : CompactionTransition → Option CompactionTrace
  | .start opened => some opened
  | .summary opened => some opened
  | .end_ => none
  | .endSeed => none

/-- Advance the committed turn cursor after its boundary has been accepted. -/
def applyTurnBoundary (event : SessionEvent) : CompactionSessionTrace :=
  match event.data with
  | .turnStart turn => { trace with openTurn := some turn }
  | .turnEnd _ _ => { trace with openTurn := none }
  | _ => trace

/-- Validate one event of a live session and commit it. -/
def advance (event : SessionEvent) : Except String CompactionSessionTrace := do
  trace.validateTurnBoundary event
  let transition ← trace.validateCompactionEvent event
  let trace := trace.applyTurnBoundary event
  match transition with
  | none => .ok trace
  | some transition => .ok { trace with compaction := applyCompactionTransition transition }

/-- Compaction starts still unmatched when a later seed boundary made them stale.
`openStartSeq` is the start that is open so far. -/
def inheritedOrphanStartSeqs (openStartSeq : Option Nat) : List SessionEvent → List Nat
  | [] => []
  | event :: rest =>
    match event.data with
    | .sessionEndSeed => openStartSeq.toList ++ inheritedOrphanStartSeqs none rest
    | .other type _ _ =>
      if type == "compaction/start" then inheritedOrphanStartSeqs (some event.seq) rest
      else if type == "compaction/end" then inheritedOrphanStartSeqs none rest
      else inheritedOrphanStartSeqs openStartSeq rest
    | _ => inheritedOrphanStartSeqs openStartSeq rest

/-- Replay one logged event. A turn may end inside a bracket that a crash left behind. -/
def seedStep (stale : List Nat) (trace : CompactionSessionTrace) (event : SessionEvent) :
    Except String CompactionSessionTrace := do
  if !trace.compaction.any (stale.contains ·.startSeq) then trace.validateTurnBoundary event
  let transition ← trace.validateCompactionEvent event
  let trace := match transition with
    | none => trace
    | some transition => { trace with compaction := applyCompactionTransition transition }
  .ok (trace.applyTurnBoundary event)

def seedFrom (stale : List Nat) : CompactionSessionTrace → List SessionEvent →
    Except String CompactionSessionTrace
  | trace, [] => .ok trace
  | trace, event :: rest =>
    match trace.seedStep stale event with
    | .error e => .error e
    | .ok trace => seedFrom stale trace rest

/-- The trace of a whole log. -/
def seed (events : List SessionEvent) : Except String CompactionSessionTrace :=
  seedFrom (inheritedOrphanStartSeqs none events) fresh events

end CompactionSessionTrace

end Harness
