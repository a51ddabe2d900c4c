-- SUMMARY: Reading events of older logs as current ones, after `session-persistence/src/coordinator.ts`.
import Harness.Persistence.Jsonl

/-!
# Legacy events

Stored events are upgraded one by one, in log order, before they are checked. The only
state carried along the log is the identity of the messages seen so far.
-/

namespace Harness

open OrderedMap
open Json (hasOwn get?)
namespace StoredEvents

/-! ## Plain records -/

/-- An object record; arrays are none. -/
def asRecord : Option Json → Option StoredFields
  | some (.obj fields) => some fields
  | _ => none

/-- `typeof value === 'string' && value === text`. -/
def isText (value : Option Json) (text : JsString) : Bool :=
  match value with
  | some (.str s) => s = text
  | _ => false

/-- `typeof value === 'string'`. -/
def isString : Option Json → Bool
  | some (.str _) => true
  | _ => false

/-- `typeof value === 'number'`. -/
def isNumber : Option Json → Bool
  | some (.num _) => true
  | _ => false

/-- `typeof value === 'string' && value.length > 0`. -/
def isNonEmptyString : Option Json → Bool
  | some (.str s) => s ≠ ""
  | _ => false

/-- `Number.isSafeInteger(value) && value >= least`. -/
def isSafeFrom (least : Int) (value : Option Json) : Bool :=
  match value.bind Json.asSafeInteger with
  | some z => decide (least ≤ z)
  | none => false

/-- Whether a record has every required key and no key outside the optional ones. -/
def hasOnlyKeys (record : StoredFields) (required optionalKeys : List JsString) : Bool :=
  record.all (fun field => (required ++ optionalKeys).contains field.1) &&
    required.all (hasOwn record)

/-- `{ ...record, [key]: value }`. -/
def withField (record : StoredFields) (key : JsString) (value : Json) : StoredFields :=
  set record key value

/-- A rest pattern: the record without the named keys. -/
def withoutFields (record : StoredFields) (keys : List JsString) : StoredFields :=
  record.filter fun field => !keys.contains field.1

variable (event : StoredFields)

/-- `event.type === type`. -/
def hasType (type : JsString) : Bool := isText (get? "type" event) type

/-! ## Unsupported vocabulary -/

/-- The first `request/header` whose reason is the retired one. Reading a property of
`null` or of nothing throws. -/
def findFallback : List StoredFields → Except String (Option StoredFields)
  | [] => .ok none
  | event :: rest =>
    if hasType event "request/header" then
      match get? "data" event with
      | none => .error "Cannot read properties of undefined (reading 'reason')"
      | some .null => .error (SessionLogScanner.nullProperty "reason")
      | some data => if isText (data.member "reason") "fallback" then .ok (some event) else findFallback rest
    else findFallback rest

def seqText : String := templateText (get? "seq" event)

/-- Reject events from an obsolete vocabulary that cannot be replayed. -/
def assertSupportedEvents (events : List StoredFields) (id : JsString) : Except String Unit :=
  match events.find? (hasType · "request/header-delta") with
  | some legacy =>
    .error s!"session \"{id}\" contains unsupported legacy request/header-delta event at seq {seqText legacy}"
  | none =>
    match events.find? (hasType · "mode/set") with
    | some legacy =>
      .error s!"session \"{id}\" contains unsupported legacy mode/set event at seq {seqText legacy}"
    | none => do
      match ← findFallback events with
      | some fallback =>
        .error s!"session \"{id}\" contains unsupported legacy request/header reason \"fallback\" at seq {seqText fallback}"
      | none => .ok ()

/-! ## Message identities -/

/-- The identities of the messages seen so far, by seq. A seq that is no number is never
asked for. -/
abbrev MessageIds := OrderedMap Num JsString

variable (id : JsString)

/-- Mint the stable import identity of a message persisted before identities existed. -/
def legacyMessageId (event : StoredFields) : JsString :=
  ⟨(JsString.ofString "legacy-message:").units ++ id.units ++
    (JsString.ofString (":" ++ seqText event)).units⟩

def replacementStart : Option Num :=
  match asRecord (get? "surfaceOp" event) with
  | some op =>
    match isText (get? "op" op) "replace", get? "start" op with
    | true, some (.num start) => some start
    | _, _ => none
  | none => none

/-- Whether an event needs facts available only from the stored events before it. -/
def needsLegacyPrefix : Bool :=
  hasType event "steering/message" ||
    match asRecord (get? "data" event) with
    | none => false
    | some data =>
      if hasType event "user/message" then !hasOwn data "id" && hasOwn data "content"
      else if hasType event "assistant/message" then
        !hasOwn data "message" && hasOwn data "content"
      else if hasType event "tool/result" then
        !hasOwn data "message" && hasOwn data "callId"
      else false

/-! ## Upgrades -/

/-- The refusal of a malformed event of an older build. -/
def malformedLegacy (type : String) (event : StoredFields) : Except String StoredFields :=
  .error s!"session \"{id}\" contains malformed pre-react-loop {type} at seq {seqText event}"

/-- Upgrade the removed steering event into the user message it stands for. -/
def migrateLegacySteeringEvent : Except String StoredFields :=
  if !hasType event "steering/message" then .ok event
  else
    match asRecord (get? "data" event) with
    | none => malformedLegacy id "steering/message" event
    | some data =>
      let turnOk := ((get? "turn" data).bind Json.asSafeInteger).isSome
      match asRecord (get? "message" data), turnOk && hasOnlyKeys data ["turn", "message"] [] with
      | some wrapped, true =>
        .ok (withField (withField event "type" (.str "user/message")) "data" (.obj wrapped))
      | _, _ =>
        if !turnOk || !hasOnlyKeys data ["turn", "content", "source"] [] then
          malformedLegacy id "steering/message" event
        else
          let message := withField (withField (withoutFields data ["turn"]) "id"
            (.str (legacyMessageId id event))) "role" (.str "user")
          .ok (withField (withField event "type" (.str "user/message")) "data" (.obj message))

/-- Remove the obsolete trigger after verifying the complete old turn start. -/
def migrateLegacyTurnStartEvent : Except String StoredFields :=
  if !hasType event "turn/start" then .ok event
  else
    match asRecord (get? "data" event) with
    | none => .ok event
    | some data =>
      if !hasOwn data "trigger" then .ok event
      else
        match get? "turn" data, asRecord (get? "trigger" data) with
        | some turn, some trigger =>
          if !isSafeFrom 1 (some turn) || !hasOnlyKeys data ["turn", "trigger"] [] ||
              !isNonEmptyString (get? "kind" trigger) then
            malformedLegacy id "turn/start" event
          else .ok (withField event "data" (.obj [("turn", turn)]))
        | _, _ => malformedLegacy id "turn/start" event

/-- The shape of a structured failure of an older build. -/
def isLegacyFailure (failure : StoredFields) : Bool :=
  hasOnlyKeys failure ["message", "code"] ["status", "providerRetryAfterMs", "requestId"] &&
    isString (get? "message" failure) && isString (get? "code" failure) &&
    (!hasOwn failure "status" || isNumber (get? "status" failure)) &&
    (!hasOwn failure "providerRetryAfterMs" ||
      isNumber (get? "providerRetryAfterMs" failure)) &&
    (!hasOwn failure "requestId" || isString (get? "requestId" failure))

/-- What a turn ending is read as: itself, another reason, or a malformed one. -/
inductive EndingUpgrade where
  | current
  | replaced (reason : StoredFields)
  | malformed

/-- A failed turn. -/
def upgradeErrorReason (reason : StoredFields) : EndingUpgrade :=
  if hasOwn reason "error" then .current
  else if !isSafeFrom 0 (get? "step" reason) then .malformed
  else
    let failure := asRecord (get? "failure" reason)
    match failure, hasOnlyKeys reason ["kind", "step", "failure"] [] && failure.any isLegacyFailure with
    | some failure, true => .replaced [("kind", .str "error"), ("error", .obj failure)]
    | _, _ =>
      let messageKeys : List JsString :=
        if hasOwn reason "code" then ["kind", "step", "message", "code"]
        else ["kind", "step", "message"]
      match get? "message" reason, get? "code" reason with
      | some (.str message), none =>
        if hasOnlyKeys reason messageKeys [] then
          .replaced [("kind", .str "error"),
            ("error", .obj [("message", .str message), ("code", .str "UNKNOWN")])]
        else .malformed
      | some (.str message), some (.str code) =>
        if hasOnlyKeys reason messageKeys [] then
          .replaced [("kind", .str "error"),
            ("error", .obj [("message", .str message), ("code", .str code)])]
        else .malformed
      | _, _ => .malformed

def upgradeReason (kind : JsString) (reason : StoredFields) : EndingUpgrade :=
  let onlyKind := hasOnlyKeys reason ["kind"] []
  let abortedBy (cause : JsString) : StoredFields :=
    [("kind", .str "aborted"), ("reason", .obj [("kind", .str cause)])]
  if kind = "completed" ∨ kind = "blocked" ∨ kind = "max-tokens" ∨ kind = "interrupted" then
    if onlyKind then .current else .malformed
  else if kind = "aborted" then
    if hasOwn reason "reason" then .current
    else if onlyKind then .replaced (abortedBy "legacy")
    else .malformed
  else if kind = "disposed" then
    if onlyKind then .replaced (abortedBy "disposed") else .malformed
  else if kind = "error" then upgradeErrorReason reason
  else .current

def migrateLegacyTurnEndEvent : Except String StoredFields :=
  if !hasType event "turn/end" then .ok event
  else
    match asRecord (get? "data" event) with
    | none => .ok event
    | some data =>
      match asRecord (get? "reason" data) with
      | none => malformedLegacy id "turn/end" event
      | some reason =>
        if !isSafeFrom 1 (get? "turn" data) || !hasOnlyKeys data ["turn", "reason"] [] then
          malformedLegacy id "turn/end" event
        else
          match get? "kind" reason with
          | some (.str kind) =>
            match upgradeReason kind reason with
            | .current => .ok event
            | .malformed => malformedLegacy id "turn/end" event
            | .replaced currentReason =>
              .ok (withField event "data" (.obj (withField data "reason" (.obj currentReason))))
          | _ => malformedLegacy id "turn/end" event

/-- The message of an assistant event of an older build. -/
def legacyAssistantMessage (event : StoredFields) (content provenance : Json) : Json :=
  .obj [("id", .str (legacyMessageId id event)), ("role", .str "assistant"), ("content", content),
    ("source", .obj (withField ((asRecord (some provenance)).getD []) "kind" (.str "model")))]

/-- The message of a tool result of an older build. A replacement inherits the identity of
its target; with none known the message has no `id`. -/
def legacyToolMessage (messageIds : MessageIds) (event : StoredFields)
    (callId content isError : Json) : Json :=
  let messageId : Option JsString := match replacementStart event with
    | none => some (legacyMessageId id event)
    | some start => get? messageIds start
  let block : StoredFields := [("type", .str "tool-result"), ("toolCallId", callId), ("content", content),
    ("isError", isError)]
  let source : StoredFields := [("kind", .str "tool"), ("callId", callId)]
  let rest : StoredFields :=
    [("role", .str "user"), ("content", .arr [.obj block]), ("source", .obj source)]
  .obj (optionalField "id" (messageId.map .str) ++ rest)

/-- Upgrade one pre-identity message event. Current-looking malformed events stay as they
are, for the check after it to reject. -/
def migrateLegacyMessageEvent (messageIds : MessageIds) : StoredFields :=
  match asRecord (get? "data" event) with
  | none => event
  | some data =>
    if hasType event "user/message" then
      if hasOwn data "id" || hasOwn data "role" || hasOwn data "message" ||
          !hasOwn data "content" || !hasOwn data "source" then event
      else
        let message := withField (withField data "id" (.str (legacyMessageId id event))) "role"
          (.str "user")
        withField event "data" (.obj message)
    else if hasType event "assistant/message" then
      match hasOwn data "message", get? "content" data, get? "provenance" data with
      | false, some content, some provenance =>
        withField event "data" (.obj (withField (withoutFields data ["content", "provenance"]) "message"
          (legacyAssistantMessage id event content provenance)))
      | _, _, _ => event
    else if hasType event "tool/result" then
      match hasOwn data "message", get? "callId" data, get? "content" data,
        get? "isError" data with
      | false, some callId, some content, some isError =>
        withField event "data" (.obj (withField (withoutFields data ["callId", "content", "isError"])
          "message" (legacyToolMessage id messageIds event callId content isError)))
      | _, _, _, _ => event
    else event

/-! ## Checks -/

/-- Whether a value carries the current provider and model pair. -/
def hasProviderModel (value : Json) : Bool :=
  isNonEmptyString (value.member "provider") && isNonEmptyString (value.member "model")

def toolResultFault (message source : Json) : Option String :=
  if !isText (source.member "kind") "tool" || !isNonEmptyString (source.member "callId") then
    some "message must have tool source"
  else
    match message.member "content" with
    | some (.arr [block]) =>
      match block.member "content" with
      | some (.arr _) =>
        if !isText (block.member "type") "tool-result" then
          some "message must contain one tool-result block"
        else
          match block.member "toolCallId", source.member "callId" with
          | some (.str toolCallId), some (.str callId) =>
            if toolCallId = callId then none else some "message has mismatched tool call ids"
          | _, _ => some "message has mismatched tool call ids"
      | _ => some "message must contain one tool-result block"
    | _ => some "message must contain one tool-result block"

/-- What is wrong with an identified message. -/
def messageFault (type : JsString) (message : Option Json) : Option String :=
  match message with
  | none => some "lacks an identified message"
  | some message =>
    let expectedRole : JsString := if type = "assistant/message" then "assistant" else "user"
    if !isNonEmptyString (message.member "id") then some "lacks an identified message"
    else if !isText (message.member "role") expectedRole then
      some s!"message must have role \"{expectedRole}\""
    else
      match message.member "source" with
      | none => some "message has invalid source"
      | some source =>
        if !isNonEmptyString (source.member "kind") then some "message has invalid source"
        else
          match message.member "content" with
          | some (.arr _) =>
            if type = "assistant/message" then
              if !isText (source.member "kind") "model" || !hasProviderModel source then
                some "message must have model source"
              else none
            else if type = "tool/result" then toolResultFault message source
            else none
          | _ => some "message has invalid content"

def messageTypes : List JsString := ["user/message", "assistant/message", "tool/result"]

/-- Validate only what is needed to replay a message safely. -/
def assertMessageEventShape (subject : String) : Except String Unit :=
  match get? "type" event with
  | some (.str type) =>
    if type ∈ messageTypes then
      let data := get? "data" event
      let message := if type = "user/message" then data else data.bind (Json.member "message")
      match messageFault type message with
      | some fault => .error s!"{subject} {fault}"
      | none => .ok ()
    else .ok ()
  | _ => .ok ()

/-- Validate an exclusively owned event. Freezing it changes no value. -/
def adoptSessionEvent : Except String StoredFields := do
  assertMessageEventShape event s!"session event at seq {seqText event}"
  return event

/-- `structuredClone(value)`: a detached copy is the same value. -/
def structuredClone : StoredFields := event

def snapshotSessionEvent : Except String StoredFields :=
  adoptSessionEvent (structuredClone event)

/-- The identified message carried by one validated current event. -/
def eventMessageId : Option JsString :=
  let data := asRecord (get? "data" event)
  let message := if hasType event "user/message" then data
    else asRecord (data.bind (get? "message"))
  match message.bind (get? "id") with
  | some (.str id) => some id
  | _ => none

/-- Remember the message an event carries. -/
def noteMessageId (messageIds : MessageIds) (event : StoredFields) : MessageIds :=
  match eventMessageId event, get? "seq" event with
  | some messageId, some (.num seq) => set messageIds seq messageId
  | _, _ => messageIds

/-! ## Logs -/

/-- The upgrades of one event, in order, before it is checked. -/
def migrateEvent (messageIds : MessageIds) (event : StoredFields) : Except String StoredFields := do
  let migratedStart ← migrateLegacyTurnStartEvent event id
  let migratedTurn ← migrateLegacyTurnEndEvent migratedStart id
  let migratedSteering ← migrateLegacySteeringEvent migratedTurn id
  return migrateLegacyMessageEvent migratedSteering id messageIds

/-- The mapping of `snapshotStoredEvents`. -/
def snapshotFrom (id : JsString) (messageIds : MessageIds) :
    List StoredFields → Except String (List StoredFields)
  | [] => .ok []
  | event :: rest => do
    let migrated ← migrateEvent id messageIds event
    let snapshot ← snapshotSessionEvent migrated
    let later ← snapshotFrom id (noteMessageId messageIds snapshot) rest
    return snapshot :: later

def snapshotStoredEvents (events : List StoredFields) (id : JsString) :
    Except String (List StoredFields) := do
  assertSupportedEvents events id
  snapshotFrom id [] events

/-- The loop of `adoptStoredEvents` from `index` on: `fuel` entries are left. -/
def adoptFrom (id : JsString) (messageIds : MessageIds) (events : List StoredFields) (index : Nat) :
    Nat → Except String (List StoredFields)
  | 0 => .ok events
  | fuel + 1 =>
    match events[index]? with
    | none => .ok events
    | some event => do
      let migrated ← migrateEvent id messageIds event
      let adopted ← adoptSessionEvent migrated
      adoptFrom id (noteMessageId messageIds adopted) (events.set index adopted) (index + 1) fuel

/-- Upgrade and validate an exclusively owned array in place. -/
def adoptStoredEvents (events : List StoredFields) (id : JsString) : Except String (List StoredFields) := do
  assertSupportedEvents events id
  adoptFrom id [] events 0 events.length

end StoredEvents
end Harness
