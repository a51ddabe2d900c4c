-- SUMMARY: Pending interactions of the client (`client/runtime`, `sessions/session.ts`, `pending.ts`, `manager.ts`): resident sessions, the session manager and its connection to a host.
import Harness.Json.Value
import Harness.Lib.OrderedMap
import Harness.Lib.Transitions

/-!
# Client sessions

What a client session does with the answerable requests of the host, and the part of its history
window that decides when they are dropped.
-/

namespace Harness

open OrderedMap

namespace ClientSessions

abbrev SessionId := JsString
abbrev RpcId := JsString

/-! ## Frames -/

/-- How a question wants to be presented. -/
structure QuestionIntent where
  kind : JsString
  approve : JsString

structure Question where
  intent : Option QuestionIntent := none
  detail : Option JsString := none
  multiSelect : Option Bool := none
  options : Option (List JsString) := none

/-- The domain fields of an answerable request. -/
inductive RequestBody where
  | approval (approvalId : JsString) (payload : Json)
  | question (questions : List Question)

/-- The keys `a:…` and `q:…` under which interactions are kept. -/
inductive InteractionKey where
  | a (id : JsString)
  | q (id : RpcId)
  deriving DecidableEq

/-- A frame of the mux stream that concerns pending interactions, the queue or the baseline. A
`resolved` frame names the approval id, or the rpc id of the question. -/
inductive MuxFrame where
  | requested (body : RequestBody)
  | resolved (settled : InteractionKey)
  | queue (items : Json)
  | subscribed (lastSeq : Num)

/-- An answerable request of the host, and the client's wait for it: a wait carries what the frame
brought. -/
structure PendingWait where
  sessionId : SessionId
  rpcId : RpcId
  body : RequestBody

/-- The session's key of a wait, by its rpc id. -/
def PendingWait.key (wait : PendingWait) : InteractionKey :=
  match wait.body with
  | .approval .. => .a wait.rpcId
  | .question _ => .q wait.rpcId

/-- Whether a `resolved` frame settles a wait. -/
def PendingWait.isSettledBy (wait : PendingWait) (settled : InteractionKey) : Bool :=
  match settled, wait.body with
  | .a approvalId, .approval approvalId' _ => approvalId' == approvalId
  | .q rpcId, .question _ => wait.rpcId == rpcId
  | _, _ => false

/-! ## The session -/

inductive OpenState where
  | cold
  | loading
  | ready
  | error
  deriving DecidableEq

inductive SubagentMode where
  | oneShot
  | continuable
  deriving DecidableEq

/-- Durable parent/child address that selects subagent transport. -/
structure SubagentAddress where
  parentSessionId : SessionId
  childSessionId : SessionId
  mode : SubagentMode
  deriving DecidableEq

structure Session where
  sessionId : SessionId
  pending : OrderedMap InteractionKey PendingWait := []
  openState : OpenState := .cold
  /-- The generation of the open whose promise is kept. -/
  openPromise : Option Nat := none
  openGeneration : Nat := 0
  address : Option SubagentAddress := none
  parentAvailable : Bool := false
  /-- The latest queue snapshot. -/
  queue : Option Json := none
  subscribedLastSeq : Option Num := none

namespace Session

variable (session : Session)

/-- Requested-frame arrival: the wait enters the pending map under its own key. -/
def mint (wait : PendingWait) : Session :=
  { session with pending := set session.pending wait.key wait }

/-- Authoritative settlement: the waits that the frame names leave the pending map. -/
def settle (settled : InteractionKey) : Session :=
  match settled with
  | .a _ => { session with pending := session.pending.filter fun e => !e.2.isSettledBy settled }
  | .q _ => { session with pending := delete session.pending settled }

/-- Mux frame arrival. -/
def handleMuxEnvelope (rpcId : RpcId) : MuxFrame → Session
  | .requested body => session.mint { sessionId := session.sessionId, rpcId, body }
  | .resolved settled => session.settle settled
  | .queue items => { session with queue := some items }
  | .subscribed lastSeq => { session with subscribedLastSeq := some lastSeq, queue := none }

/-- First open: idempotent while it is in flight or done. -/
def open_ : Session :=
  if session.openState = .ready ∨ session.openPromise.isSome then session
  else { session with openState := .loading, openPromise := some session.openGeneration }

/-- The history of an open arrives, or fails; a superseded open drops its writes. -/
def finishOpen (generation : Nat) (ok : Bool) : Session :=
  if session.openState = .loading ∧ session.openGeneration = generation then
    { session with openState := if ok then .ready else .error }
  else session

/-- A settled open lets go of its promise, when it is still the one that is kept. -/
def releaseOpen (generation : Nat) : Session :=
  if session.openPromise = some generation then { session with openPromise := none } else session

/-- Reconnect rebuild: drop the window and the waits, and open again. -/
def resync : Session :=
  if session.openState = .cold then session
  else
    { session with
      openGeneration := session.openGeneration + 1
      openPromise := none
      openState := .cold
      pending := []
      subscribedLastSeq := none }.open_

/-- Install or clear the transport address; a changed one rebuilds an opened window. -/
def configureSubagent (address : Option SubagentAddress) (parentAvailable : Bool) : Session :=
  let configured := { session with address, parentAvailable }
  if session.address = address then configured else configured.resync

def handleSubagentParentAvailable (available : Bool) : Session :=
  { session with parentAvailable := available }

end Session

/-! ## The manager -/

/-- What an interaction waits for, as the session list shows it. -/
inductive PendingInteractionStatus where
  | approval
  | planReview
  | question
  deriving DecidableEq

/-- A binary plan review is one question that can be approved by one of its options. -/
def questionInteractionStatus (questions : List Question) : PendingInteractionStatus :=
  match questions with
  | [question] =>
    match question.intent with
    | none => .question
    | some intent =>
      if intent.kind ≠ "plan-review" ∨ question.detail.isNone then .question
      else if question.multiSelect = some true then .question
      else
        let options := question.options.getD []
        if options.length > 2 then .question
        else if options.any (· == intent.approve) then .planReview else .question
  | _ => .question

def requestKey (rpcId : RpcId) : RequestBody → InteractionKey
  | .approval approvalId _ => .a approvalId
  | .question _ => .q rpcId

def RequestBody.status : RequestBody → PendingInteractionStatus
  | .approval .. => .approval
  | .question questions => questionInteractionStatus questions

/-- A buffered frame with its wire rpc id. -/
structure RpcRequest where
  rpcId : RpcId
  payload : MuxFrame

/-- Stable identity of a buffered frame; `none` is the queue's. -/
def bufferedRequestKey (envelope : RpcRequest) : Option InteractionKey :=
  match envelope.payload with
  | .requested body => some (requestKey envelope.rpcId body)
  | _ => none

/-- A child of a catalog. A diagnostic entry has no mode. -/
structure CatalogEntry where
  id : SessionId
  mode : Option SubagentMode

structure SubagentCatalog where
  entries : List CatalogEntry
  parentAvailable : Bool

structure SessionManager where
  sessions : OrderedMap SessionId Session := []
  pendingBuffers : OrderedMap SessionId (List RpcRequest) := []
  pendingInteractions : OrderedMap SessionId (OrderedMap InteractionKey PendingInteractionStatus) := []
  addresses : OrderedMap SessionId SubagentAddress := []
  catalogs : OrderedMap SessionId SubagentCatalog := []
  /-- The listed sessions. -/
  summaries : List SessionId := []
  selected : Option SessionId := none

namespace SessionManager

variable (m : SessionManager)

variable (sessionId : SessionId)

/-- What is listed as pending for a session. -/
def interactions : OrderedMap InteractionKey PendingInteractionStatus :=
  (get? m.pendingInteractions sessionId).getD []

def buffer : List RpcRequest :=
  (get? m.pendingBuffers sessionId).getD []

def setBuffer (buffer : List RpcRequest) : SessionManager :=
  { m with
    pendingBuffers :=
      if buffer.isEmpty then delete m.pendingBuffers sessionId
      else set m.pendingBuffers sessionId buffer }

def setSession (session : Session) : SessionManager :=
  { m with sessions := set m.sessions session.sessionId session }

/-- Add or refresh one pending-interaction identity. -/
def trackPending (key : InteractionKey) (status : PendingInteractionStatus) : SessionManager :=
  { m with
    pendingInteractions := set m.pendingInteractions sessionId
      (set (m.interactions sessionId) key status) }

/-- Settle one pending-interaction identity without disturbing its siblings. -/
def resolvePending (key : InteractionKey) : SessionManager :=
  match get? m.pendingInteractions sessionId with
  | none => m
  | some interactions =>
    let rest := delete interactions key
    { m with
      pendingInteractions :=
        if rest.isEmpty then delete m.pendingInteractions sessionId
        else set m.pendingInteractions sessionId rest }

/-- Put a frame in a buffer in place of the one with its identity. -/
def bufferFrame (buffer : List RpcRequest) (envelope : RpcRequest) : List RpcRequest :=
  match buffer.findIdx? fun item => bufferedRequestKey item == bufferedRequestKey envelope with
  | none => buffer ++ [envelope]
  | some prior => buffer.set prior envelope

def isQueue (envelope : RpcRequest) : Bool :=
  match envelope.payload with
  | .queue _ => true
  | _ => false

def isRequested (envelope : RpcRequest) : Bool :=
  match envelope.payload with
  | .requested _ => true
  | _ => false

/-- The list's own bookkeeping of a frame, for sessions instantiated or not. -/
def track (rpcId : RpcId) : MuxFrame → SessionManager
  | .requested body => m.trackPending sessionId (requestKey rpcId body) body.status
  | .resolved settled => m.resolvePending sessionId settled
  -- a new generation's baseline discards the previous queue snapshot
  | .subscribed _ =>
    m.setBuffer sessionId ((m.buffer sessionId).filter fun item => !isQueue item)
  | .queue _ => m

/-- Mux frame entry. -/
def handleMuxEnvelope (sessionId : SessionId) (envelope : RpcRequest) : SessionManager :=
  let m := m.track sessionId envelope.rpcId envelope.payload
  match get? m.sessions sessionId with
  | some session => m.setSession (session.handleMuxEnvelope envelope.rpcId envelope.payload)
  | none =>
    match envelope.payload with
    | .requested _ | .queue _ => m.setBuffer sessionId (bufferFrame (m.buffer sessionId) envelope)
    | .resolved settled =>
      m.setBuffer sessionId
        ((m.buffer sessionId).eraseP fun item => bufferedRequestKey item == some settled)
    | .subscribed _ => m

/-- A retained or catalog-derived direct-parent address. -/
def navigationAddress : Option SubagentAddress :=
  match get? m.addresses sessionId with
  | some retained => some retained
  | none =>
    m.catalogs.findSome? fun (parentSessionId, catalog) =>
      catalog.entries.findSome? fun entry =>
        if entry.id = sessionId then
          entry.mode.map fun mode => { parentSessionId, childSessionId := sessionId, mode }
        else none

def parentAvailable (parentSessionId : SessionId) : Bool :=
  ((get? m.catalogs parentSessionId).map (·.parentAvailable)).getD false

/-- Lazy build: the existing instance, or a new one that has consumed its buffer. -/
def get (sessionId : SessionId) : SessionManager :=
  match get? m.sessions sessionId with
  | some _ => m
  | none =>
    let address := get? m.addresses sessionId
    let built : Session :=
      { sessionId
        address
        parentAvailable := address.any fun address => m.parentAvailable address.parentSessionId }
    let session := (m.buffer sessionId).foldl
      (fun session item => session.handleMuxEnvelope item.rpcId item.payload) built
    { m with pendingBuffers := delete m.pendingBuffers sessionId }.setSession session

/-- Install an address on the resident instance, and select it. -/
def navigate (address : Option SubagentAddress) : SessionManager :=
  let m := { m with
    addresses := (address.map (set m.addresses sessionId)).getD m.addresses
    selected := some sessionId }
  match get? m.sessions sessionId with
  | none => m
  | some session =>
    m.setSession (session.configureSubagent address
      (address.any fun address => m.parentAvailable address.parentSessionId))

/-- Select a listed session or a catalog-addressed child; `none` is a throw. -/
def select : Option SessionManager :=
  let address := m.navigationAddress sessionId
  if sessionId ∉ m.summaries ∧ address = none then none else some (m.navigate sessionId address)

/-- Select a healthy child through its catalog; `none` is a throw. -/
def selectSubagent (address : SubagentAddress) : Option SessionManager :=
  match (get? m.catalogs address.parentSessionId).bind fun catalog =>
      catalog.entries.find? fun entry => entry.id = address.childSessionId with
  | none => none
  | some entry =>
    if entry.mode = some address.mode then some (m.navigate address.childSessionId (some address))
    else none

/-- The moment a connection generation dies: drop the interactions it delivered. -/
def handleDisconnected : SessionManager :=
  { m with
    pendingInteractions := []
    pendingBuffers :=
      (mapValues (fun buffer => buffer.filter fun item => !isRequested item)
        m.pendingBuffers).filter fun e => !e.2.isEmpty }

/-- After each connection generation's handshake: rebuild the opened windows. -/
def handleConnected : SessionManager :=
  { m with sessions := mapValues Session.resync m.sessions }

def catalogArrives (parentSessionId : SessionId) (catalog : SubagentCatalog) : SessionManager :=
  { m with
    catalogs := set m.catalogs parentSessionId catalog
    sessions := m.sessions.map fun (sessionId, session) =>
      if (get? m.addresses sessionId).any fun address =>
          address.parentSessionId = parentSessionId then
        (sessionId, session.handleSubagentParentAvailable catalog.parentAvailable)
      else (sessionId, session) }

/-- Change one resident instance. -/
def onSession (f : Session → Session) : SessionManager :=
  match get? m.sessions sessionId with
  | none => m
  | some session => m.setSession (f session)

end SessionManager

end ClientSessions

end Harness
