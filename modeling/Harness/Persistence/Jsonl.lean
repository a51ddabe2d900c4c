-- SUMMARY: The JSONL log file: header line, event lines and the incremental scanner, after `session-persistence-jsonl/src/format.ts`.
import Harness.Json.Utf8
import Harness.Session.ChunkRowsRoundTrip
import Harness.Persistence.Sqlite

/-!
# JSONL logs

A file is a header line followed by one line per stored row. Newlines and offsets are
found on raw bytes; only complete lines are decoded.
-/

namespace Harness

/-! ## The header line -/

def SESSION_FORMAT_VERSION : Num := .int 0

/-- The immutable metadata of a session. The fields no reader checks are plain values. -/
structure SessionHeader where
  version : Num
  id : JsString
  createdAt : Num
  cwd : Option Json
  parentSession : Option Json
  seedLength : Option Json
  origin : Option Json
  delegationDepth : Option Num
  agentPreset : Option Json

/-- A property that is present only when it has a value. -/
def optionalField (key : JsString) (value : Option Json) : StoredFields :=
  value.toList.map fun v => (key, v)

/-- Build the header line object, absent optional fields omitted. -/
def toHeaderLine (header : SessionHeader) : Json :=
  let identity : StoredFields :=
    [("type", .str "session"), ("version", .num header.version), ("id", .str header.id),
      ("createdAt", .num header.createdAt)]
  let depth : StoredFields := [("delegationDepth", .num (header.delegationDepth.getD (.int 0)))]
  .obj (identity ++ optionalField "cwd" header.cwd ++
    optionalField "parentSession" header.parentSession ++
    optionalField "seedLength" header.seedLength ++ optionalField "origin" header.origin ++ depth ++
    optionalField "agentPreset" header.agentPreset)

/-- A non-negative safe integer. -/
def isCount (value : Option Json) : Bool :=
  match value.bind Json.asSafeInteger with
  | some z => decide (0 ≤ z)
  | none => false

/-- The origin is absent or the one there is. -/
def isOrigin : Option Json → Bool
  | none => true
  | some (.str origin) => origin = "subagent"
  | some _ => false

/-- The value is absent or a string. -/
def isOptionalText : Option Json → Bool
  | none | some (.str _) => true
  | some _ => false

/-- The parsed first line is a well-formed session header, and the header it is. The
retired policy fields are refused after the shape is. -/
def fromHeaderLine (line : StoredFields) : Except String SessionHeader :=
  match Json.get? "type" line, Json.get? "version" line, Json.get? "id" line,
    Json.get? "createdAt" line, Json.get? "delegationDepth" line with
  | some (.str type), some (.num version), some (.str id), some (.num createdAt),
      some (.num delegationDepth) =>
    if type = "session" && isCount (some (.num createdAt)) && isCount (some (.num delegationDepth)) &&
        isOrigin (Json.get? "origin" line) && isOptionalText (Json.get? "agentPreset" line) then
      if Json.hasOwn line "sandboxMode" || Json.hasOwn line "approvalPolicy" then
        .error "session header uses retired policy baseline fields"
      else
        .ok { version, id, createdAt, cwd := Json.get? "cwd" line
              parentSession := Json.get? "parentSession" line
              seedLength := Json.get? "seedLength" line, origin := Json.get? "origin" line
              delegationDepth := some delegationDepth, agentPreset := Json.get? "agentPreset" line }
    else .error "corrupt session log: first line is not a session header"
  | _, _, _, _, _ => .error "corrupt session log: first line is not a session header"

/-- The refusal of a format version this build does not read. -/
def sessionFormatVersionRefusal (id : String) (version : Num) : String :=
  let v := JsString.toString ⟨version.toText⟩
  let supported := JsString.toString ⟨SESSION_FORMAT_VERSION.toText⟩
  if version.isNegative then
    s!"session \"{id}\" uses log format v{v}, older than the supported v{supported}, and this build ships no upgrade path for it"
  else
    s!"session \"{id}\" uses log format v{v}, but this harness reads only v{supported}: the log was written by a newer harness — upgrade the harness to open it"

/-- Refuse a foreign format version before the current header shape is validated. -/
def refuseForeignFormatVersion (parsed : Json) : Except String Unit :=
  match parsed.member "version" with
  | some (.num version) =>
    if version = SESSION_FORMAT_VERSION then .ok ()
    else .error (sessionFormatVersionRefusal (templateText (parsed.member "id")) version)
  | _ => .ok ()

def parseHeaderRecord (record : List UInt8) : Except String SessionHeader :=
  if record.getLast? ≠ some 0x0A ∨ 0x0A ∈ record.dropLast then
    .error "empty or header-less session log"
  else
    match Json.parse (JsString.ofUtf8 record.dropLast).units with
    | none => .error "corrupt session log: header line is not valid JSON"
    | some parsed => do
      refuseForeignFormatVersion parsed
      match parsed with
      | .obj line => fromHeaderLine line
      | _ => .error "corrupt session log: first line is not a session header"

/-! ## Event lines -/

/-- What a batch is stored as. -/
def storageRecords (events : List Json) (packChunks : Bool) : List Json :=
  if packChunks then packChunkRuns events else events

def joinRows : List Text → Text
  | [] => []
  | [text] => text
  | text :: rest => text ++ 0x0A :: joinRows rest

/-- Serialize an event batch as JSONL lines, without the final newline. -/
def eventLines (events : List Json) (packChunks : Bool) : Text :=
  joinRows ((storageRecords events packChunks).map Json.stringify)

/-- The bytes of a text with its final newline. -/
def fileBytes (text : Text) : List UInt8 := JsString.utf8 ⟨text ++ [0x0A]⟩

/-- `encodeMaterialization` up to its body. -/
def headerBytes (header : SessionHeader) : List UInt8 := fileBytes (toHeaderLine header).stringify

/-- `encodeEventBatch`, in the plain encoding. -/
def encodeEventBatch (events : List Json) (packChunks : Bool) : List UInt8 :=
  fileBytes (eventLines events packChunks)

/-! ## The scanner -/

/-- `Buffer.concat(buffers, total)`. -/
def concatBuffers (buffers : List (List UInt8)) (total : Nat) : List UInt8 :=
  let all := buffers.flatten
  all.take total ++ List.replicate (total - all.length) 0

/-- The scanner between two chunks. -/
structure SessionLogScanner where
  header : SessionHeader
  events : List Json
  fragments : List (List UInt8)
  fragmentBytes : Nat
  inputBytes : Nat
  committedBytes : Nat
  eventLine : Nat
  issue : Option String

namespace SessionLogScanner

/-- Create an event scanner from one newline-terminated header record. -/
def new (headerRecord : List UInt8) : Except String SessionLogScanner :=
  (parseHeaderRecord headerRecord).map fun header =>
    { header, events := [], fragments := [], fragmentBytes := 0, inputBytes := headerRecord.length
      committedBytes := headerRecord.length, eventLine := 0, issue := none }

/-- `decodeStorageRecord(JSON.parse(line.toString('utf8')))`. -/
def decodeLine (line : List UInt8) : Except String (List Json) := readRow (JsString.ofUtf8 line).units

def nullProperty (property : String) : String :=
  s!"Cannot read properties of null (reading '{property}')"

/-- `decoded.some(event => event.type === 'turn/end')`. -/
def someTurnEnd : List Json → Except String Bool
  | [] => .ok false
  | .null :: _ => .error (nullProperty "type")
  | event :: rest =>
    match event.member "type" with
    | some (.str type) => if type = "turn/end" then .ok true else someTurnEnd rest
    | _ => someTurnEnd rest

/-- `event.seq === expected`. -/
def hasSeq (event : Json) (expected : Nat) : Bool :=
  match event.member "seq" with
  | some (.num n) => n = .int expected
  | _ => false

/-- What the events of a row do to the prefix: extend it, or leave a gap. -/
inductive RowOutcome where
  | accepted (events : List Json)
  | gap (expected : Nat) (got : Option Json)

def pushRow (events : List Json) : List Json → Except String RowOutcome
  | [] => .ok (.accepted events)
  | .null :: _ => .error (nullProperty "seq")
  | event :: rest =>
    if hasSeq event events.length then pushRow (events ++ [event]) rest
    else .ok (.gap events.length (event.member "seq"))

/-- Decode one complete event row and update the contiguous prefix. -/
def consumeEventLine (s : SessionLogScanner) (line : List UInt8) (endByte : Nat) :
    Except String SessionLogScanner :=
  let s := { s with eventLine := s.eventLine + 1 }
  match decodeLine line with
  | .error _ =>
    let unparsable := s!"corrupt session log: unparsable committed event at line {s.eventLine}"
    .ok { s with issue := some (s.issue.getD unparsable) }
  | .ok decoded =>
    match s.issue with
    | some issue => do if ← someTurnEnd decoded then .error issue else .ok s
    | none => do
      match ← pushRow s.events decoded with
      | .accepted events => .ok { s with events, committedBytes := endByte }
      | .gap expected got =>
        let issue := s!"corrupt session log: seq gap in committed region at line {s.eventLine} " ++
          s!"(expected {expected}, got {templateText got})"
        if ← someTurnEnd decoded then .error issue else .ok { s with issue := some issue }

/-- The rest of a chunk from `offset` on; `fragment` is what it holds since its last newline. -/
def writeFrom (s : SessionLogScanner) (fragment : List UInt8) (offset : Nat) :
    List UInt8 → Except String SessionLogScanner
  | [] =>
    .ok (if fragment = [] then s else
      { s with fragments := s.fragments ++ [fragment]
               fragmentBytes := s.fragmentBytes + fragment.length })
  | byte :: chunk =>
    if byte = 0x0A then do
      let line :=
        if s.fragments = [] then fragment
        else concatBuffers (if fragment = [] then s.fragments else s.fragments ++ [fragment])
          (s.fragmentBytes + fragment.length)
      let s ← consumeEventLine { s with fragments := [], fragmentBytes := 0 } line (offset + 1)
      writeFrom s [] (offset + 1) chunk
    else writeFrom s (fragment ++ [byte]) (offset + 1) chunk

/-- Consume the next raw chunk, retaining only an incomplete final record. -/
def write (s : SessionLogScanner) (chunk : List UInt8) : Except String SessionLogScanner :=
  writeFrom { s with inputBytes := s.inputBytes + chunk.length } [] s.inputBytes chunk

end SessionLogScanner

structure SessionLogScan where
  header : SessionHeader
  events : List Json
  committedBytes : Nat

/-- Finish scanning, ignoring a final record without a newline. -/
def SessionLogScanner.finish (s : SessionLogScanner) : SessionLogScan :=
  { header := s.header, events := s.events, committedBytes := s.committedBytes }

/-- Parse a complete or torn buffer into its preserved event prefix. -/
def scanLog (buffer : List UInt8) : Except String SessionLogScan :=
  match buffer.findIdx? (· = 0x0A) with
  | none => .error "empty or header-less session log"
  | some headerEnd => do
    let scanner ← SessionLogScanner.new (buffer.take (headerEnd + 1))
    let scanner ← scanner.write (buffer.drop (headerEnd + 1))
    return scanner.finish

/-- Where a file is to be truncated before it is appended to, if it has a torn tail. -/
def tornMarker (buffer : List UInt8) (scan : SessionLogScan) : Option Nat :=
  if scan.committedBytes < buffer.length then some scan.committedBytes else none

/-- The file after a repair: truncated at the marker, then the repaired events appended. -/
def commitRepair (file : List UInt8) (truncateTo : Option Nat) (repaired : List Json)
    (packChunks : Bool) : List UInt8 :=
  let file := match truncateTo with
    | some committed => file.take committed
    | none => file
  if repaired.length > 0 then file ++ encodeEventBatch repaired packChunks else file

end Harness
