-- SUMMARY: Durable schedule records, their decoding and replay, the fixed-rate occurrence, and what is due at one moment, from `schedule/src/domain.ts` and `runtime.ts`.
import Harness.Json.Utf8
import Harness.Lib.Doubles
import Harness.Lib.OrderedMap
import Harness.Schedule.LocalInstant
import Harness.Session.ChunkRows

/-!
# Schedules

A session logs every change of its reminders. An instant is held as the epoch that its
canonical text denotes, so a text that denotes none never reaches a record.
-/

namespace Harness

open OrderedMap
open Json (get?)

namespace Schedule

/-! ## Instants -/

/-- A four-digit-year UTC instant. -/
structure Instant where
  epoch : Int
  min : MIN_FOUR_DIGIT_YEAR_MS ≤ epoch
  max : epoch ≤ MAX_FOUR_DIGIT_YEAR_MS
  deriving DecidableEq

/-- The real dates of the four-digit years are the representable instants. -/
theorem epoch_range {p : CalendarParts} (hreal : Calendar.parts (Calendar.epoch p) = p)
    (hyear : 1 ≤ p.year ∧ p.year ≤ 9999) :
    MIN_FOUR_DIGIT_YEAR_MS ≤ Calendar.epoch p ∧ Calendar.epoch p ≤ MAX_FOUR_DIGIT_YEAR_MS := by
  generalize hvalue : Calendar.epoch p = value at hreal ⊢
  have hof : Calendar.yearFromDay (value / Calendar.msPerDay) = p.year := by rw [← hreal]; rfl
  obtain ⟨hstart, hend⟩ := Calendar.yearFromDay_spec (value / Calendar.msPerDay)
  rw [hof] at hstart hend
  have hfirst : Calendar.dayFromYear 1 ≤ Calendar.dayFromYear p.year := by
    simp only [Calendar.dayFromYear]
    omega
  have hlast : Calendar.dayFromYear (p.year + 1) ≤ Calendar.dayFromYear 10000 :=
    Calendar.dayFromYear_le (by omega)
  have hone : Calendar.dayFromYear 1 = -719162 := by decide
  have hten : Calendar.dayFromYear 10000 = 2932897 := by decide
  rw [MIN_FOUR_DIGIT_YEAR_MS_eq, MAX_FOUR_DIGIT_YEAR_MS_eq]
  simp only [Calendar.msPerDay] at hstart hend
  omega

/-- The value of an ASCII digit. -/
def digit (unit : UInt16) : Option Nat :=
  if 48 ≤ unit.toNat ∧ unit.toNat ≤ 57 then some (unit.toNat - 48) else none

/-- The number that `count` digits from `start` on write. -/
def digitsAt (units : List UInt16) (start count : Nat) : Option Int :=
  (((units.drop start).take count).mapM digit).map fun digits =>
    digits.foldl (fun n d => n * 10 + (d : Int)) 0

/-- The fields of a text that `UTC_INSTANT` matches. -/
def utcInstantParts (text : JsString) : Option CalendarParts := do
  let units := text.units
  let separators := [4, 7, 10, 13, 16, 19, 23].map fun i => units[i]?
  guard (units.length = 24 ∧ separators = ("--T::.Z" : JsString).units.map some)
  let year ← digitsAt units 0 4
  let month ← digitsAt units 5 2
  let day ← digitsAt units 8 2
  let hour ← digitsAt units 11 2
  let minute ← digitsAt units 14 2
  let second ← digitsAt units 17 2
  let millisecond ← digitsAt units 20 3
  guard (year ≠ 0 ∧ 1 ≤ month ∧ month ≤ 12 ∧ 1 ≤ day ∧ day ≤ 31 ∧ hour ≤ 23 ∧ minute ≤ 59
    ∧ second ≤ 59)
  return { year, month, day, hour, minute, second, millisecond }

/-- Validate one canonical four-digit-year UTC instant. Its text is the one that its epoch
prints exactly when its fields are those of a real date. -/
def decodeInstant (value : Option Json) : Except String Instant :=
  match value with
  | some (.str text) =>
    match utcInstantParts text with
    | some parts =>
      if h : Calendar.parts (Calendar.epoch parts) = parts ∧ 1 ≤ parts.year ∧ parts.year ≤ 9999 then
        .ok ⟨Calendar.epoch parts, (epoch_range h.1 h.2).1, (epoch_range h.1 h.2).2⟩
      else .error "scheduledAt is not a real UTC calendar instant"
    | none => .error "scheduledAt must be a canonical four-digit-year RFC 3339 UTC instant"
  | _ => .error "scheduledAt must be a canonical four-digit-year RFC 3339 UTC instant"

/-! ## Records and changes -/

abbrev ScheduleId := JsString

def MIN_EVERY_INTERVAL_SECONDS : Int := 300

/-- A fixed-rate reminder. -/
structure EveryScheduleRecord where
  id : ScheduleId
  prompt : JsString
  everySeconds : Int
  /-- Earliest anchor-aligned occurrence not yet dispatched. -/
  scheduledAt : Instant
  rare : MIN_EVERY_INTERVAL_SECONDS ≤ everySeconds
  safe : isSafeInt (everySeconds * 1000) = true
  deriving DecidableEq

def EveryScheduleRecord.interval (record : EveryScheduleRecord) : Int := record.everySeconds * 1000

theorem EveryScheduleRecord.interval_pos (record : EveryScheduleRecord) : 0 < record.interval := by
  have hrare := record.rare
  rw [MIN_EVERY_INTERVAL_SECONDS] at hrare
  rw [interval]
  omega

inductive ScheduleRecord where
  | after (id : ScheduleId) (prompt : JsString) (afterSeconds : Int) (scheduledAt : Instant)
  | at (id : ScheduleId) (prompt : JsString) (scheduledAt : Instant)
  | every (record : EveryScheduleRecord)
  deriving DecidableEq

namespace ScheduleRecord

def id : ScheduleRecord → ScheduleId
  | .after id .. => id
  | .at id .. => id
  | .every record => record.id

def scheduledAt : ScheduleRecord → Instant
  | .after _ _ _ scheduledAt => scheduledAt
  | .at _ _ scheduledAt => scheduledAt
  | .every record => record.scheduledAt

end ScheduleRecord

/-- A version-1 mutation; a dispatch of a fixed-rate reminder carries its decision time. -/
inductive ScheduleChange where
  | create (schedule : ScheduleRecord)
  | delete (id : ScheduleId)
  | dispatch (id : ScheduleId) (acceptedAt : Option Instant)
  deriving DecidableEq

/-! ## Decoding -/

/-- A non-empty text without surrounding whitespace. -/
def isTrimmed (text : JsString) : Bool := !text.units.isEmpty && text.trim == text

/-- Validate one stable session-local id at the durable boundary. -/
def decodeId (value : Option Json) : Except String ScheduleId :=
  match value with
  | some (.str id) =>
    if isTrimmed id then .ok id
    else .error "schedule id must be a non-empty string without surrounding whitespace"
  | _ => .error "schedule id must be a non-empty string without surrounding whitespace"

/-- The prompt of a record of one kind. -/
def decodePrompt (kind : String) (value : Option Json) : Except String JsString :=
  match value with
  | some (.str prompt) =>
    if isTrimmed prompt then .ok prompt
    else .error s!"{kind} prompt must be non-empty and already trimmed"
  | _ => .error s!"{kind} prompt must be non-empty and already trimmed"

variable (fields : List (JsString × Json))

def decodeAfterRecord : Except String ScheduleRecord := do
  if !hasExactKeys fields ["id", "kind", "prompt", "afterSeconds", "scheduledAt"] then
    throw "after schedule must contain exactly id, kind, prompt, afterSeconds, and scheduledAt"
  let prompt ← decodePrompt "after" (get? "prompt" fields)
  match (get? "afterSeconds" fields).bind Json.asSafeInteger with
  | some afterSeconds =>
    if afterSeconds ≤ 0 then throw "afterSeconds must be a positive safe integer"
    let id ← decodeId (get? "id" fields)
    let scheduledAt ← decodeInstant (get? "scheduledAt" fields)
    return .after id prompt afterSeconds scheduledAt
  | none => throw "afterSeconds must be a positive safe integer"

def decodeAtRecord : Except String ScheduleRecord := do
  if !hasExactKeys fields ["id", "kind", "prompt", "scheduledAt"] then
    throw "at schedule must contain exactly id, kind, prompt, and scheduledAt"
  let prompt ← decodePrompt "at" (get? "prompt" fields)
  let id ← decodeId (get? "id" fields)
  let scheduledAt ← decodeInstant (get? "scheduledAt" fields)
  return .at id prompt scheduledAt

def decodeEveryRecord : Except String ScheduleRecord := do
  if !hasExactKeys fields ["id", "kind", "prompt", "everySeconds", "scheduledAt"] then
    throw "every schedule must contain exactly id, kind, prompt, everySeconds, and scheduledAt"
  let prompt ← decodePrompt "every" (get? "prompt" fields)
  match (get? "everySeconds" fields).bind Json.asSafeInteger with
  | some everySeconds =>
    if h : MIN_EVERY_INTERVAL_SECONDS ≤ everySeconds ∧ isSafeInt (everySeconds * 1000) = true then
      let id ← decodeId (get? "id" fields)
      let scheduledAt ← decodeInstant (get? "scheduledAt" fields)
      return .every { id, prompt, everySeconds, scheduledAt, rare := h.1, safe := h.2 }
    else throw s!"everySeconds must be a safe integer of at least {MIN_EVERY_INTERVAL_SECONDS}"
  | none => throw s!"everySeconds must be a safe integer of at least {MIN_EVERY_INTERVAL_SECONDS}"

/-- Decode one record variant by its exact discriminator. -/
def decodeScheduleRecord (value : Option Json) : Except String ScheduleRecord :=
  match value with
  | some (.obj fields) =>
    match get? "kind" fields with
    | some (.str kind) =>
      if kind = "after" then decodeAfterRecord fields
      else if kind = "at" then decodeAtRecord fields
      else if kind = "every" then decodeEveryRecord fields
      else .error "v1 schedule kind must be \"after\", \"at\", or \"every\""
    | _ => .error "v1 schedule kind must be \"after\", \"at\", or \"every\""
  | _ => .error "schedule record must be an object"

def decodeCreate : Except String ScheduleChange :=
  if !hasExactKeys fields ["version", "operation", "schedule"] then
    .error "schedule create must contain exactly version, operation, and schedule"
  else (decodeScheduleRecord (get? "schedule" fields)).map .create

def decodeDelete : Except String ScheduleChange :=
  if !hasExactKeys fields ["version", "operation", "id"] then
    .error "schedule delete must contain exactly version, operation, and id"
  else (decodeId (get? "id" fields)).map .delete

def decodeDispatch : Except String ScheduleChange :=
  if hasExactKeys fields ["version", "operation", "id"] then
    (decodeId (get? "id" fields)).map (.dispatch · none)
  else if hasExactKeys fields ["version", "operation", "id", "acceptedAt"] then do
    let id ← decodeId (get? "id" fields)
    let acceptedAt ← decodeInstant (get? "acceptedAt" fields)
    return .dispatch id (some acceptedAt)
  else .error "schedule dispatch must contain id and optional acceptedAt only"

/-- Decode one strict version-1 `schedule/change` payload. -/
def decodeScheduleChange (value : Json) : Except String ScheduleChange :=
  match value with
  | .obj fields =>
    match get? "version" fields with
    | some (.num (.int 1)) =>
      match get? "operation" fields with
      | some (.str operation) =>
        if operation = "create" then decodeCreate fields
        else if operation = "delete" then decodeDelete fields
        else if operation = "dispatch" then decodeDispatch fields
        else .error "schedule/change operation must be create, delete, or dispatch"
      | _ => .error "schedule/change operation must be create, delete, or dispatch"
    | _ => .error "schedule/change version must be 1"
  | _ => .error "schedule/change payload must be an object"

/-! ## The fixed rate -/

/-- One latest-only fixed-rate decision derived without enumerating a backlog. -/
structure EveryOccurrence where
  occurrenceAt : Instant
  nextScheduledAt : Option Instant
  deriving DecidableEq

/-- `Math.floor(elapsed / interval)`: the one operation here whose result is rounded. The
others stay within the safe integers or are refused where they leave them. -/
def everySteps (elapsed interval : Int) : Int := ⌊Doubles.round ((elapsed : ℚ) / interval)⌋

/-- An occurrence with the target after it, if that is representable. -/
def withNext (record : EveryScheduleRecord) (occurrenceAt : Instant) : EveryOccurrence :=
  let next := occurrenceAt.epoch + record.interval
  if hnext : isSafeInt next = false ∨ MAX_FOUR_DIGIT_YEAR_MS < next then
    { occurrenceAt, nextScheduledAt := none }
  else
    have hmin : MIN_FOUR_DIGIT_YEAR_MS ≤ next := by
      have hoccurrence := occurrenceAt.min
      have hinterval := record.interval_pos
      omega
    { occurrenceAt, nextScheduledAt := some ⟨next, hmin, by omega⟩ }

/-- Resolve one fixed-rate decision without enumerating missed occurrences. -/
def resolveEveryOccurrence (record : EveryScheduleRecord) (acceptedAt : Int) :
    Except String EveryOccurrence :=
  let target := record.scheduledAt.epoch
  let interval := record.interval
  if haccepted : isSafeInt acceptedAt = false ∨ acceptedAt < MIN_FOUR_DIGIT_YEAR_MS
      ∨ MAX_FOUR_DIGIT_YEAR_MS < acceptedAt then
    .error "every acceptedAt must be a representable four-digit-year instant"
  else if isSafeInt interval = false ∨ interval ≤ 0 then
    .error "every interval milliseconds must be a positive safe integer"
  else if acceptedAt < target then
    .error "every dispatch cannot precede the active scheduledAt"
  else
    let steps := everySteps (acceptedAt - target) interval
    let occurrence := target + steps * interval
    if hoccurrence : isSafeInt occurrence = false ∨ occurrence < target ∨ acceptedAt < occurrence then
      .error "every occurrence arithmetic must stay within the accepted interval"
    else
      have hmin : MIN_FOUR_DIGIT_YEAR_MS ≤ occurrence := by
        have hscheduled := record.scheduledAt.min
        omega
      .ok (withNext record ⟨occurrence, hmin, by omega⟩)

/-! ## Replay -/

/-- Apply one decoded dispatch to its exact active record. -/
def dispatchedRecord (record : ScheduleRecord) (acceptedAt : Option Instant) :
    Except String (Option ScheduleRecord) :=
  match record, acceptedAt with
  | .every record, some acceptedAt =>
    (resolveEveryOccurrence record acceptedAt.epoch).map fun occurrence =>
      occurrence.nextScheduledAt.map fun next => .every { record with scheduledAt := next }
  | .every _, none => .error "every dispatch must contain acceptedAt"
  | _, some _ => .error "one-shot dispatch must not contain acceptedAt"
  | _, none => .ok none

/-- Active records in their original create order, and every id ever created. -/
structure FoldedSchedules where
  active : OrderedMap ScheduleId ScheduleRecord
  seenIds : List ScheduleId
  deriving DecidableEq

/-- `JSON.stringify(id)`. -/
def quoted (id : ScheduleId) : JsString := ⟨quote id⟩

namespace FoldedSchedules

def empty : FoldedSchedules := { active := [], seenIds := [] }

/-- The active records, in their original create order. -/
def records (folded : FoldedSchedules) : List ScheduleRecord := folded.active.map (·.2)

def applyChange (folded : FoldedSchedules) : ScheduleChange → Except String FoldedSchedules
  | .create schedule =>
    if schedule.id ∈ folded.seenIds then
      .error s!"schedule id {quoted schedule.id} was reused"
    else
      .ok { active := set folded.active schedule.id schedule
            seenIds := folded.seenIds ++ [schedule.id] }
  | .delete id =>
    if (get? folded.active id).isNone then
      .error s!"schedule delete targets inactive id {quoted id}"
    else .ok { folded with active := delete folded.active id }
  | .dispatch id acceptedAt =>
    match get? folded.active id with
    | none => .error s!"schedule dispatch targets inactive id {quoted id}"
    | some record =>
      match dispatchedRecord record acceptedAt with
      | .error e => .error e
      | .ok none => .ok { folded with active := delete folded.active id }
      | .ok (some next) => .ok { folded with active := set folded.active id next }

def applyChanges (folded : FoldedSchedules) :
    List ScheduleChange → Except String FoldedSchedules
  | [] => .ok folded
  | change :: changes =>
    match folded.applyChange change with
    | .error e => .error e
    | .ok folded => folded.applyChanges changes

end FoldedSchedules

/-- The payload of a `schedule/change` event. -/
def changePayload (event : SessionEvent) : Option Json :=
  match event.data with
  | .other type data _ => if type = "schedule/change" then some data else none
  | _ => none

/-- The loop over the events of the package-owned stream. -/
def foldEvents (folded : FoldedSchedules) : List SessionEvent → Except String FoldedSchedules
  | [] => .ok folded
  | event :: events =>
    match changePayload event with
    | none => foldEvents folded events
    | some data =>
      match decodeScheduleChange data with
      | .error e => .error e
      | .ok change =>
        match folded.applyChange change with
        | .error e => .error e
        | .ok folded => foldEvents folded events

/-- Fold the package-owned stream after the durable fork seed boundary. -/
def foldScheduleEvents (events : List SessionEvent) (seedLength : Nat) :
    Except String FoldedSchedules :=
  if seedLength > events.length then
    .error "schedule seedLength must be within the supplied event log"
  else foldEvents .empty (events.drop seedLength)

end Schedule

end Harness

namespace Harness

namespace Schedule

structure EveryDue where
  record : EveryScheduleRecord
  occurrenceAt : Instant
  deriving DecidableEq

inductive DueDecision where
  | oneShot (record : ScheduleRecord)
  | every (reminders : List EveryDue) (acceptedAt : Instant)
  | wait (target : Option Int)
  deriving DecidableEq

/-- `left` stands no later than `right`: by target, then by creation. -/
def byTargetThenCreate (left right : ScheduleRecord × Nat) : Bool :=
  left.1.scheduledAt.epoch < right.1.scheduledAt.epoch
    || (left.1.scheduledAt.epoch == right.1.scheduledAt.epoch && left.2 ≤ right.2)

def ScheduleRecord.isEvery : ScheduleRecord → Bool
  | .every _ => true
  | _ => false

/-- The due records of one kind, by target and then by creation. -/
def dueEntries (folded : FoldedSchedules) (now : Int) (isEvery : Bool) : List ScheduleRecord :=
  let due := folded.records.zipIdx.filter fun entry =>
    entry.1.isEvery == isEvery && entry.1.scheduledAt.epoch ≤ now
  (due.mergeSort byTargetThenCreate).map (·.1)

/-- The occurrences of the due fixed-rate records. -/
def everyReminders (now : Int) : List ScheduleRecord → Except String (List EveryDue)
  | [] => .ok []
  | .every record :: records =>
    match resolveEveryOccurrence record now with
    | .error e => .error e
    | .ok occurrence =>
      (everyReminders now records).map ({ record, occurrenceAt := occurrence.occurrenceAt } :: ·)
  | _ :: records => everyReminders now records

/-- The earliest target that is still ahead. -/
def nextTarget (folded : FoldedSchedules) (now : Int) : Option Int :=
  folded.records.foldl (fun selected record =>
    let candidate := record.scheduledAt.epoch
    if candidate > now ∧ selected.all (candidate < ·) then some candidate else selected) none

/-- Select one due one-shot, one complete fixed-rate batch, or the next wake. -/
def dueDecision (folded : FoldedSchedules) (now : Int) : Except String DueDecision :=
  match dueEntries folded now false with
  | record :: _ => .ok (.oneShot record)
  | [] =>
    match dueEntries folded now true with
    | [] => .ok (.wait (nextTarget folded now))
    | every =>
      match everyReminders now every with
      | .error e => .error e
      | .ok reminders =>
        if h : MIN_FOUR_DIGIT_YEAR_MS ≤ now ∧ now ≤ MAX_FOUR_DIGIT_YEAR_MS then
          .ok (.every reminders ⟨now, h.1, h.2⟩)
        -- the resolution has refused such a moment already
        else .error "every acceptedAt must be a representable four-digit-year instant"

end Schedule

end Harness
