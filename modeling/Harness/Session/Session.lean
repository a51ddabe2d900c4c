-- SUMMARY: The event-sourced session of `core/session/src/index.ts`: its log, caches, publication boundary and store attachment.
import Harness.Session.Surface

/-!
# Session

An append-only event log with four lazily maintained views over it: the events
snapshot, the surface, the request-header and request-context folds, and the
derived messages. An attached session publishes every append: listeners run
before the log grows, where one of them may veto, and after it has grown.

Listeners are given by what they do to the session, so one operation is a tree:
an append carries the operations its listeners issue while it is published.
-/

namespace Harness

/-! ## State -/

/-- The mutable lifecycle state of one exact store entry. -/
structure SessionEntry where
  announced : Bool
  announcing : Bool
  appending : Bool
  detachRequested : Bool
  /-- The detach capability has not been used yet. -/
  entered : Bool
  deriving DecidableEq

/-! ## Store attachment -/

/-- What `attachments.get(session)` holds. -/
abbrev Attachment := Option SessionEntry

namespace Attachment

/-- Whether an append is being published. -/
def appending (entry : Attachment) : Bool := entry.any (·.appending)

/-- `enter`: install the publication hooks. -/
def enter : Attachment → Except String Unit × Attachment
  | some entry => (.error "session is already attached to a store", some entry)
  | none =>
    (.ok (), some { announced := false, announcing := false, appending := false
                    detachRequested := false, entered := true })

/-- The detach capability: single-shot, and deferred while a publication is open. -/
def detach : Attachment → Attachment
  | none => none
  | some entry =>
    if !entry.entered then some entry
    else if entry.announcing || entry.appending then
      some { entry with entered := false, detachRequested := true }
    else none

/-- Close the append guard of an attached session. -/
def beginAppend (entry : Attachment) : Attachment :=
  entry.map fun entry => { entry with appending := true }

/-- The `finally` of an append: reopen the guard and run a deferred detach. -/
def finishAppend : Attachment → Attachment
  | none => none
  | some entry =>
    if entry.detachRequested && !entry.announcing then none
    else some { entry with appending := false }

/-- The start of an announcement, which a session gets once. -/
def beginAnnounce : Attachment → Except String Attachment
  | none => .error "session is not live in this store"
  | some entry =>
    if entry.announced || entry.announcing then .error "session was already announced"
    else .ok (some { entry with announced := true, announcing := true })

/-- The `finally` of an announcement. -/
def finishAnnounce : Attachment → Attachment
  | none => none
  | some entry =>
    if entry.detachRequested && !entry.appending then none
    else some { entry with announcing := false }

end Attachment

/-! ## The session object -/

structure Session where
  log : List LogEntry
  surfaceManager : SurfaceManager
  /-- Cached immutable public snapshot of the log. -/
  eventsSnapshot : Option (List SessionEvent)
  headerFold : Option EpochHeader
  headerFoldSeq : Nat
  contextFold : Option RequestContext
  contextFoldSeq : Nat
  /-- The derived-message cache, extended per unseen node. -/
  derived : List Message
  /-- Surface position the cache has reached. -/
  derivedNodes : Nat
  /-- The replace generation the cache was built under. -/
  derivedGeneration : Nat
  entry : Attachment
  /-- The identity the next event object gets. -/
  nextIdentity : Nat

/-! ## Requests -/

/-- The `data` argument of an append: it has a lossless snapshot or it has none. -/
inductive Payload where
  | lossless (data : EventData)
  | lossy (type : JsString)

/-- The arguments of one append call, and what `Date.now()` answers in it. -/
structure AppendRequest where
  payload : Payload
  surfaceOp : JsValue := .undefined
  sourceEventSeqs : JsValue := .undefined
  time : Int

def spreadField (key : JsString) : JsValue → List (JsString × JsValue)
  | .undefined => []
  | value => [(key, value)]

def AppendRequest.surfaceMetadata (request : AppendRequest) : JsValue :=
  .object true false
    (spreadField "sourceEventSeqs" request.sourceEventSeqs
      ++ spreadField "surfaceOp" request.surfaceOp)

/-- Reject request-header vocabulary removed with the legacy delta codec. -/
def assertSupportedRequestHeader (data : EventData) (location : String) : Except String Unit :=
  if data.type == "request/header-delta" then
    .error s!"{location} uses unsupported legacy request/header-delta format"
  else
    match data with
    | .requestHeader _ .fallback =>
      .error s!"{location} uses unsupported legacy request/header reason \"fallback\""
    | _ => .ok ()

/-- Everything an append checks before it builds the event; `seq` is the log's
length and `appending` the guard of the attachment. -/
def AppendRequest.prepare (request : AppendRequest) (seq : Nat) (appending : Bool) :
    Except String SessionEvent :=
  match request.payload with
  | .lossy type => .error s!"session event \"{type}\" carries non-JSON-serializable data"
  | .lossless data =>
    match assertSupportedRequestHeader data s!"session event \"{data.type}\"" with
    | .error e => .error e
    | .ok () =>
      match snapshotJsonValue request.surfaceMetadata with
      | some (.obj metadata) =>
        if appending then
          .error "session append cannot reenter while another append is being published"
        else
          .ok { seq, time := request.time, data
                surfaceOp := Json.get? "surfaceOp" metadata
                sourceEventSeqs := Json.get? "sourceEventSeqs" metadata }
      | _ => .error s!"session event \"{data.type}\" carries non-JSON-serializable surface metadata"

/-! ## Seed validation -/

def hasProviderModel (provider model : JsString) : Bool :=
  provider.units.length > 0 && model.units.length > 0

/-- Validate adapter-default markers imported from a durable request header. -/
def assertAdapterDefaults (defaults : Option LlmCallConfigAdapterDefaults) (config : LlmCallConfig)
    (index : Nat) : Except String Unit :=
  match defaults with
  | none => .ok ()
  | some d =>
    if (d.reasoningEffort && config.reasoningEffort.isNone)
      || (d.maxTokens && config.maxTokens.isNone) then
      .error s!"seed request/header at index {index} has invalid adapterDefaults"
    else .ok ()

/-- Validate only the event-specific invariants needed to safely replay a message. -/
def assertMessageEventShape (data : EventData) (subject : String) : Except String Unit :=
  match data with
  | .userMessage message =>
    if message.id.units.length == 0 then .error s!"{subject} lacks an identified message" else .ok ()
  | .assistantMessage _ _ message _ =>
    if message.id.units.length == 0 then .error s!"{subject} lacks an identified message"
    else if !hasProviderModel message.source.provider message.source.model then
      .error s!"{subject} message must have model source"
    else .ok ()
  | .toolResult result =>
    let message := result.message
    if message.id.units.length == 0 then .error s!"{subject} lacks an identified message"
    else if message.callId.units.length == 0 then .error s!"{subject} message must have tool source"
    else if message.block.toolCallId != message.callId then
      .error s!"{subject} message has mismatched tool call ids"
    else .ok ()
  | _ => .ok ()

/-- Reject obsolete request headers and malformed messages at the seed/load boundary. -/
def assertCurrentLlmShape (data : EventData) (index : Nat) : Except String Unit :=
  match data with
  | .requestHeader header _ =>
    if !hasProviderModel header.config.provider header.config.model then
      .error s!"seed request/header at index {index} lacks provider/model"
    else if header.config.reasoningEffort.any (·.units.length == 0) then
      .error s!"seed request/header at index {index} has an invalid reasoningEffort"
    else assertAdapterDefaults header.adapterDefaults header.config index
  | data => assertMessageEventShape data s!"seed {data.type} at index {index}"

/-- Validate the fixed event envelope after one-pass JSON materialization. -/
def assertSessionEventEnvelope (event : SessionEvent) (index : Nat) : Except String Unit :=
  if event.type == "request/header-delta" then
    .error s!"seed event at index {index} uses unsupported legacy request/header-delta format"
  else if !(isSafeInt event.seq && isSafeInt event.time) then
    .error s!"seed event at index {index} has an invalid event envelope"
  else assertCurrentLlmShape event.data index

/-- The checks of one seed event before the surface sees it. -/
def assertSeedEvent (event : SessionEvent) (index : Nat) : Except String Unit :=
  match assertSessionEventEnvelope event index with
  | .error e => .error e
  | .ok () =>
    match assertSupportedRequestHeader event.data s!"seed event at index {index}" with
    | .error e => .error e
    | .ok () =>
      if event.seq != index then
        .error s!"seed event at index {index} has seq {event.seq} (expected {index}); seed must be contiguous from 0"
      else .ok ()

namespace Session

/-! ## Reads -/

variable (s : Session)

/-- `session.events`. -/
def events : List SessionEvent × Session :=
  match s.eventsSnapshot with
  | some snapshot => (snapshot, s)
  | none =>
    let snapshot := s.log.map LogEntry.event
    (snapshot, { s with eventsSnapshot := some snapshot })

/-- `session.seq`: the next event's sequence number. -/
def seq : Nat := s.log.length

/-- `session.surface.nodes`. -/
def nodes (s : Session) : Except String (List Nat) × Session :=
  let (nodes, m) := s.surfaceManager.nodes s.log
  (nodes, { s with surfaceManager := m })

/-- `session.surface.replaceGeneration`. -/
def replaceGeneration : Except String Nat × Session :=
  let (generation, m) := s.surfaceManager.replaceGeneration s.log
  (generation, { s with surfaceManager := m })

/-- Forget the derived messages when a replacement has rewritten the surface. -/
def refreshDerived (generation : Nat) : Session :=
  if generation ≠ s.derivedGeneration then
    { s with derived := [], derivedNodes := 0, derivedGeneration := generation }
  else s

def projectNode (log : List LogEntry) (seq : Nat) : Option Message :=
  log[seq]?.bind fun entry => deriveEventMessage entry.event

/-- Derive the message history from the surface, each node once. -/
def deriveMessages : Except String (List Message) × Session :=
  match s.nodes with
  | (.error e, s) => (.error e, s)
  | (.ok nodes, s) =>
    match s.replaceGeneration with
    | (.error e, s) => (.error e, s)
    | (.ok generation, s) =>
      let s := s.refreshDerived generation
      let derived := s.derived ++ (nodes.drop s.derivedNodes).filterMap (projectNode s.log)
      (.ok derived, { s with derived, derivedNodes := nodes.length })

/-- The live, incrementally maintained form of `foldRequestHeader`. -/
def requestHeader : Option EpochHeader × Session :=
  if s.headerFoldSeq < s.log.length then
    let fold := foldRequestHeader ((s.log.drop s.headerFoldSeq).map LogEntry.event) s.headerFold
    (fold, { s with headerFold := fold, headerFoldSeq := s.log.length })
  else (s.headerFold, s)

def foldContextEvent (state : Option RequestContext) (event : SessionEvent) :
    Option RequestContext :=
  match event.data with
  | .requestContext context => some context
  | _ => state

/-- The latest resolved route metadata. -/
def requestContext : Option RequestContext × Session :=
  if s.contextFoldSeq < s.log.length then
    let fold := ((s.log.drop s.contextFoldSeq).map LogEntry.event).foldl foldContextEvent s.contextFold
    (fold, { s with contextFold := fold, contextFoldSeq := s.log.length })
  else (s.contextFold, s)

/-! ## Append -/

/-- `log.push`, which outdates the events snapshot. -/
def push (entry : LogEntry) : Session :=
  { s with log := s.log ++ [entry], eventsSnapshot := none }

/-- The part of an append before its publication: build the event object and plan it. -/
def planAppend (request : AppendRequest) : Except String LogEntry × Session :=
  match request.prepare s.log.length s.entry.appending with
  | .error e => (.error e, s)
  | .ok event =>
    let candidate : LogEntry := { identity := s.nextIdentity, event }
    let s := { s with nextIdentity := s.nextIdentity + 1 }
    match s.surfaceManager.validateNext s.log candidate with
    | (.error e, m) => (.error e, { s with surfaceManager := m })
    | (.ok (), m) => (.ok candidate, { s with surfaceManager := m })

end Session

/-! ## Operations -/

/-- One call on a session. The nested operations are what the call's listeners
do to the session while it runs; a `veto` is what a listener throws. What the
listeners of a disposal do follows it as operations of its own. -/
inductive SessionOp where
  | events
  | seq
  | nodes
  | replaceGeneration
  | deriveMessages
  | requestHeader
  | requestContext
  | append (request : AppendRequest) (dispatch : List SessionOp) (veto : Option String)
      (observers : List SessionOp)
  | enter
  | announce (listeners : List SessionOp) (veto : Option String)
  | detach

/-- What a call answers, with the answers its listeners got. -/
inductive SessionReply where
  | events (events : List SessionEvent)
  | seq (seq : Nat)
  | nodes (nodes : Except String (List Nat))
  | replaceGeneration (generation : Except String Nat)
  | deriveMessages (messages : Except String (List Message))
  | requestHeader (header : Option EpochHeader)
  | requestContext (context : Option RequestContext)
  | append (dispatched : List SessionReply) (result : Except String SessionEvent)
      (observed : List SessionReply)
  | enter (result : Except String Unit)
  | announce (listened : List SessionReply) (result : Except String Unit)
  | detach

namespace Session

mutual

/-- Run one call to its end. -/
def step (s : Session) : SessionOp → SessionReply × Session
  | .events => let (events, s) := s.events; (.events events, s)
  | .seq => (.seq s.seq, s)
  | .nodes => let (nodes, s) := s.nodes; (.nodes nodes, s)
  | .replaceGeneration =>
    let (generation, s) := s.replaceGeneration
    (.replaceGeneration generation, s)
  | .deriveMessages => let (messages, s) := s.deriveMessages; (.deriveMessages messages, s)
  | .requestHeader => let (header, s) := s.requestHeader; (.requestHeader header, s)
  | .requestContext => let (context, s) := s.requestContext; (.requestContext context, s)
  | .append request dispatch veto observers =>
    match s.planAppend request with
    | (.error e, s) => (.append [] (.error e) [], s)
    | (.ok candidate, s) =>
      if s.entry.isNone then (.append [] (.ok candidate.event) [], s.push candidate)
      else
        let (dispatched, s) := runOps { s with entry := s.entry.beginAppend } dispatch
        match veto with
        | some e => (.append dispatched (.error e) [], { s with entry := s.entry.finishAppend })
        | none =>
          let (observed, s) := runOps (s.push candidate) observers
          (.append dispatched (.ok candidate.event) observed,
            { s with entry := s.entry.finishAppend })
  | .enter =>
    let (result, entry) := s.entry.enter
    (.enter result, { s with entry })
  | .announce listeners veto =>
    match s.entry.beginAnnounce with
    | .error e => (.announce [] (.error e), s)
    | .ok entry =>
      let (listened, s) := runOps { s with entry } listeners
      (.announce listened (veto.elim (.ok ()) .error), { s with entry := s.entry.finishAnnounce })
  | .detach => (.detach, { s with entry := s.entry.detach })

def runOps (s : Session) : List SessionOp → List SessionReply × Session
  | [] => ([], s)
  | op :: ops =>
    let (reply, s) := step s op
    let (replies, s) := runOps s ops
    (reply :: replies, s)

end

/-! ## Construction -/

/-- A session before its constructor has read the seed. -/
def empty : Session where
  log := []
  surfaceManager := .create 0
  eventsSnapshot := none
  headerFold := none
  headerFoldSeq := 0
  contextFold := none
  contextFoldSeq := 0
  derived := []
  derivedNodes := 0
  derivedGeneration := 0
  entry := none
  nextIdentity := 0

/-- The constructor's loop over the seed. -/
def acceptSeed (s : Session) : List SessionEvent → Except String Session
  | [] => .ok s
  | event :: rest =>
    match assertSeedEvent event s.log.length with
    | .error e => .error e
    | .ok () =>
      let candidate : LogEntry := { identity := s.nextIdentity, event }
      match s.surfaceManager.validateNext s.log candidate with
      | (.error e, _) => .error s!"invalid seed event at index {s.log.length}: {e}"
      | (.ok (), m) =>
        acceptSeed ({ s with surfaceManager := m, nextIdentity := s.nextIdentity + 1 }.push candidate)
          rest

def endSeedRequest (now : Int) : AppendRequest := { payload := .lossless .sessionEndSeed, time := now }

/-- `Session.create`: replay a seed, if there is one, and mark its end. -/
def create (seed : Option (List SessionEvent)) (now : Int) : Except String Session :=
  match seed with
  | none => .ok empty
  | some seed =>
    match empty.acceptSeed seed with
    | .error e => .error e
    | .ok s =>
      if seed.getLast?.any (·.type == ("session/end-seed" : JsString)) then .ok s
      else
        match s.step (.append (endSeedRequest now) [] none []) with
        | (.append _ (.error e) _, _) => .error e
        | (_, s) => .ok s

end Session

end Harness
