-- SUMMARY: Lossless storage packing of chunk runs, after `core/session/src/chunk-rows.ts`.
import Harness.Session.Types

/-!
# Chunk rows

A run of consecutive deltas of one stream block is stored as one row. Encoder and
decoder work on plain values: events come from live appends and from parsed files
alike, so every shape is checked and none is trusted.
-/

namespace Harness

open Json (get?)

/-! ## Plain values -/

/-- `value[key]` of an object; other values have none of the keys read here. -/
def Json.member (key : JsString) : Json → Option Json
  | .obj fields => get? key fields
  | _ => none

/-- The named fields of a record. An array is a record whose keys are its indices. -/
def Json.record : Json → Option (List (JsString × Json))
  | .obj fields => some fields
  | .arr _ => some []
  | _ => none

/-- Exact-key check: the object has every key in `keys` and nothing else. -/
def hasExactKeys (fields : List (JsString × Json)) (keys : List JsString) : Bool :=
  fields.length == keys.length && keys.all (Json.hasOwn fields)

/-- Round an integer below `2 ^ 54` to the nearest double, ties to even. Sums and
differences of two safe integers stay below. -/
def roundDouble (z : Int) : Int :=
  if z.natAbs ≤ maxSafeInteger + 1 then z
  else if z % 2 = 0 then z
  else if (z - 1) % 4 = 0 then z - 1
  else z + 1

/-! ## Rows -/

/-- A delta kind, with the call identity that every member of a tool-call run shares. -/
inductive DeltaShape where
  | text
  | reasoning
  | toolCall (id : JsString) (name : Option JsString)
  deriving DecidableEq

/-- A run member: an `assistant/chunk` event whose exact shape the encoder whitelisted.
`fragment` is its text or its arguments delta. -/
structure DeltaEvent where
  seq : Int
  time : Int
  turn : Num
  step : Num
  index : Num
  shape : DeltaShape
  fragment : JsString

/-- A packed run of consecutive delta chunk events. -/
structure ChunkRow where
  seq0 : Int
  time0 : Int
  turn : Num
  step : Num
  index : Num
  dt : List Int
  shape : DeltaShape
  fragments : List JsString

/-- Minimum members before a run packs. -/
def MIN_RUN : Nat := 3

/-! ## Packing -/

/-- The shape and fragment of a whitelisted delta chunk. -/
def classifyChunk (chunk : List (JsString × Json)) : Option (DeltaShape × JsString) :=
  match get? "type" chunk with
  | some (.str type) =>
    if type = "text-delta" ∨ type = "reasoning-delta" then
      if hasExactKeys chunk ["type", "index", "text"] then
        match get? "text" chunk with
        | some (.str text) => some (if type = "text-delta" then .text else .reasoning, text)
        | _ => none
      else none
    else if type = "tool-call-delta" then
      match get? "id" chunk, get? "argumentsDelta" chunk with
      | some (.str id), some (.str argumentsDelta) =>
        if hasExactKeys chunk ["type", "index", "id", "argumentsDelta"] then
          some (.toolCall id none, argumentsDelta)
        else if hasExactKeys chunk ["type", "index", "id", "name", "argumentsDelta"] then
          match get? "name" chunk with
          | some (.str name) => some (.toolCall id (some name), argumentsDelta)
          | _ => none
        else none
      | _, _ => none
    else none
  | _ => none

/-- The `data` of a whitelisted event. -/
def classifyData (seq time : Int) (data : List (JsString × Json)) : Option DeltaEvent :=
  if hasExactKeys data ["turn", "step", "chunk"] then
    match get? "turn" data, get? "step" data, get? "chunk" data with
    | some (.num turn), some (.num step), some (.obj chunk) =>
      match get? "index" chunk, classifyChunk chunk with
      | some (.num index), some (shape, fragment) =>
        some { seq, time, turn, step, index, shape, fragment }
      | _, _ => none
    | _, _, _ => none
  else none

/-- Classify an event for packing: its delta when the entire shape is whitelisted. -/
def classify (event : Json) : Option DeltaEvent :=
  match event with
  | .obj fields =>
    match get? "type" fields with
    | some (.str type) =>
      if type = "assistant/chunk" && hasExactKeys fields ["type", "seq", "time", "data"] then
        match get? "seq" fields, get? "time" fields, get? "data" fields with
        | some seq, some time, some (.obj data) =>
          match seq.asSafeInteger, time.asSafeInteger with
          | some seq, some time => if seq < 0 then none else classifyData seq time data
          | _, _ => none
        | _, _, _ => none
      else none
    | _ => none
  | _ => none

/-- Whether `next` extends a run ending in `prev`. The shapes agree when the kinds do
and, for tool calls, the id and the presence and value of the name. -/
def continues (prev next : DeltaEvent) : Bool :=
  next.shape = prev.shape && next.seq = prev.seq + 1
    && isSafeInt (roundDouble (next.time - prev.time))
    && next.turn = prev.turn && next.step = prev.step && next.index = prev.index

/-- The gaps between consecutive members. -/
def gaps : List DeltaEvent → List Int
  | prev :: next :: rest => roundDouble (next.time - prev.time) :: gaps (next :: rest)
  | _ => []

def buildRow (first : DeltaEvent) (rest : List DeltaEvent) : ChunkRow where
  seq0 := first.seq
  time0 := first.time
  turn := first.turn
  step := first.step
  index := first.index
  dt := gaps (first :: rest)
  shape := first.shape
  fragments := (first :: rest).map (·.fragment)

def DeltaShape.rowTag : DeltaShape → JsString
  | .text => "text-chunks"
  | .reasoning => "reasoning-chunks"
  | .toolCall .. => "tool-call-chunks"

/-- An integer as a JSON number. -/
def Json.ofInt (z : Int) : Json := .num (.int z)

/-- The identity and payload fields of a row's `data`. -/
def ChunkRow.payloadJson (row : ChunkRow) : List (JsString × Json) :=
  match row.shape with
  | .text | .reasoning => [("texts", .arr (row.fragments.map .str))]
  | .toolCall id none => [("id", .str id), ("args", .arr (row.fragments.map .str))]
  | .toolCall id (some name) =>
    [("id", .str id), ("name", .str name), ("args", .arr (row.fragments.map .str))]

def ChunkRow.toJson (row : ChunkRow) : Json :=
  .obj [("type", .str row.shape.rowTag), ("seq0", .ofInt row.seq0), ("time0", .ofInt row.time0),
    ("data", .obj (("turn", .num row.turn) :: ("step", .num row.step) :: ("index", .num row.index) ::
      ("dt", .arr (row.dt.map .ofInt)) :: row.payloadJson))]

/-- The open run of the packer, in order, each member with the event it came from. The
kind of an open run is the kind of its members. -/
abbrev OpenRun := List (Json × DeltaEvent)

/-- What a closed run is stored as. -/
def flush (run : OpenRun) : List Json :=
  match run with
  | [] => []
  | (_, first) :: rest =>
    if run.length ≥ MIN_RUN then [(buildRow first (rest.map Prod.snd)).toJson]
    else run.map Prod.fst

/-- One event of the packing loop. -/
def packStep (out : List Json) (run : OpenRun) (event : Json) : List Json × OpenRun :=
  match classify event with
  | none => (out ++ flush run ++ [event], [])
  | some delta =>
    match run.getLast? with
    | some (_, last) =>
      if continues last delta then (out, run ++ [(event, delta)])
      else (out ++ flush run, [(event, delta)])
    | none => (out ++ flush run, [(event, delta)])

/-- Pack an event batch for storage. -/
def packChunkRuns (events : List Json) : List Json :=
  let (out, run) := events.foldl (fun (out, run) event => packStep out run event) ([], [])
  out ++ flush run

/-! ## Decoding -/

/-- The three row types. -/
inductive RowTag where
  | textChunks
  | reasoningChunks
  | toolCallChunks
  deriving DecidableEq

def RowTag.name : RowTag → JsString
  | .textChunks => "text-chunks"
  | .reasoningChunks => "reasoning-chunks"
  | .toolCallChunks => "tool-call-chunks"

/-- The uniform malformed-row diagnostic. -/
def malformed {α : Type} (tag : RowTag) (why : String) : Except String α :=
  .error s!"malformed {tag.name} storage row: {why}"

def stringEntries : List Json → Option (List JsString)
  | [] => some []
  | .str s :: rest => (stringEntries rest).map (s :: ·)
  | _ :: _ => none

def safeIntegerEntries : List Json → Option (List Int)
  | [] => some []
  | entry :: rest =>
    match entry.asSafeInteger with
    | none => none
    | some z => (safeIntegerEntries rest).map (z :: ·)

/-- The shared run-data fields of a row. -/
structure RunData where
  turn : Num
  step : Num
  index : Num
  dt : List Int
  fragments : List JsString

/-- Validate the shared run-data fields and the payload/dt arity. -/
def validateRunData (tag : RowTag) (data : List (JsString × Json)) (payloadKey : JsString) :
    Except String RunData :=
  match get? "turn" data, get? "step" data, get? "index" data with
  | some (.num turn), some (.num step), some (.num index) =>
    match get? payloadKey data with
    | some (.arr payload) =>
      match stringEntries payload with
      | some (fragment :: fragments) =>
        match get? "dt" data with
        | some (.arr gaps) =>
          match safeIntegerEntries gaps with
          | some dt =>
            if dt.length ≠ fragments.length then
              malformed tag s!"dt length {dt.length} does not match {fragments.length + 1} members"
            else .ok { turn, step, index, dt, fragments := fragment :: fragments }
          | none => malformed tag "dt must be an array of safe integers"
        | _ => malformed tag "dt must be an array of safe integers"
      | _ => malformed tag s!"{payloadKey} must be a non-empty string array"
    | _ => malformed tag s!"{payloadKey} must be a non-empty string array"
  | _, _, _ => malformed tag "turn/step/index must be numbers"

/-- The shape and the run data of a row's `data`. -/
def validateShape (tag : RowTag) (data : List (JsString × Json)) :
    Except String (DeltaShape × RunData) :=
  match tag with
  | .toolCallChunks =>
    let withName := hasExactKeys data ["turn", "step", "index", "id", "name", "dt", "args"]
    if !withName && !hasExactKeys data ["turn", "step", "index", "id", "dt", "args"] then
      malformed tag "data must be exactly \x7bturn, step, index, id, name?, dt, args\x7d"
    else
      match get? "id" data, withName, get? "name" data with
      | some (.str id), true, some (.str name) =>
        (validateRunData tag data "args").map (.toolCall id (some name), ·)
      | some (.str id), false, _ => (validateRunData tag data "args").map (.toolCall id none, ·)
      | _, _, _ => malformed tag "id (and name when present) must be strings"
  | .textChunks | .reasoningChunks =>
    if !hasExactKeys data ["turn", "step", "index", "dt", "texts"] then
      malformed tag "data must be exactly \x7bturn, step, index, dt, texts\x7d"
    else
      (validateRunData tag data "texts").map
        (if tag = .textChunks then .text else .reasoning, ·)

def timesStaySafe (time : Int) : List Int → Bool
  | [] => true
  | gap :: rest =>
    let time := roundDouble (time + gap)
    isSafeInt time && timesStaySafe time rest

/-- Validate a row-tagged parsed value. -/
def validateRow (fields : List (JsString × Json)) (tag : RowTag) : Except String ChunkRow :=
  if !hasExactKeys fields ["type", "seq0", "time0", "data"] then
    malformed tag "envelope must be exactly \x7btype, seq0, time0, data\x7d"
  else
    match (get? "seq0" fields).bind Json.asSafeInteger with
    | none => malformed tag "seq0 must be a non-negative safe integer"
    | some seq0 =>
      if seq0 < 0 then malformed tag "seq0 must be a non-negative safe integer"
      else
        match (get? "time0" fields).bind Json.asSafeInteger with
        | none => malformed tag "time0 must be a safe integer"
        | some time0 =>
          match (get? "data" fields).bind Json.record with
          | none => malformed tag "data must be an object"
          | some data =>
            match validateShape tag data with
            | .error e => .error e
            | .ok (shape, run) =>
              if !isSafeInt (roundDouble (roundDouble (seq0 + run.fragments.length) - 1)) then
                malformed tag "member seqs must stay safe integers"
              else if !timesStaySafe time0 run.dt then
                malformed tag "member times must stay safe integers"
              else
                .ok { seq0, time0, turn := run.turn, step := run.step, index := run.index
                      dt := run.dt, shape, fragments := run.fragments }

/-- The chunk object of one member. -/
def chunkJson (shape : DeltaShape) (index : Num) (fragment : JsString) : Json :=
  match shape with
  | .text => .obj [("type", .str "text-delta"), ("index", .num index), ("text", .str fragment)]
  | .reasoning =>
    .obj [("type", .str "reasoning-delta"), ("index", .num index), ("text", .str fragment)]
  | .toolCall id none =>
    .obj [("type", .str "tool-call-delta"), ("index", .num index), ("id", .str id),
      ("argumentsDelta", .str fragment)]
  | .toolCall id (some name) =>
    .obj [("type", .str "tool-call-delta"), ("index", .num index), ("id", .str id),
      ("name", .str name), ("argumentsDelta", .str fragment)]

/-- The event object of one member. -/
def DeltaEvent.toJson (event : DeltaEvent) : Json :=
  .obj [("type", .str "assistant/chunk"), ("seq", .ofInt event.seq), ("time", .ofInt event.time),
    ("data", .obj [("turn", .num event.turn), ("step", .num event.step),
      ("chunk", chunkJson event.shape event.index event.fragment)])]

/-- The members from position `k` on; `time` is the time of member `k`. -/
def expandFrom (row : ChunkRow) (k : Nat) (time : Int) : List JsString → List Int → List Json
  | [], _ => []
  | fragment :: fragments, dt =>
    let member : DeltaEvent :=
      { seq := roundDouble (row.seq0 + k), time, turn := row.turn, step := row.step
        index := row.index, shape := row.shape, fragment }
    member.toJson ::
      match dt with
      | [] => expandFrom row (k + 1) time fragments []
      | gap :: dt => expandFrom row (k + 1) (roundDouble (time + gap)) fragments dt

/-- Expand a validated row back into its events, in order. -/
def expandRow (row : ChunkRow) : List Json := expandFrom row 0 row.time0 row.fragments row.dt

/-- The row type a parsed value is tagged with. -/
def rowTagOf (value : Json) : Option RowTag :=
  match value.member "type" with
  | some (.str tag) => [RowTag.textChunks, .reasoningChunks, .toolCallChunks].find? (·.name = tag)
  | _ => none

/-- Decode one parsed line value into the events it stores. -/
def decodeStorageRecord (value : Json) : Except String (List Json) :=
  match value, rowTagOf value with
  | .obj fields, some tag => (validateRow fields tag).map expandRow
  | value, _ => .ok [value]

end Harness
