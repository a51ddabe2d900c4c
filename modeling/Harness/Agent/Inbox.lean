-- SUMMARY: The durable agent inbox of `core/agent/src/inbox.ts`: two pending lists that incrementally project recorded splices.
import Harness.Session.Session

/-!
# Inbox

Pending input stands in two ordered lists. Every mutation is normalized to one
splice, recorded in the session log first and applied to the live list after, so
replaying the recorded splices rebuilds the lists.

The class reaches outside itself in two ways: it appends to the session and it
publishes notifications. Both are a `Host`, so the operations are plain functions
of one; the operation tree below supplies it.
-/

namespace Harness

/-- `InboxState`: the pending lists of an agent. -/
structure Inbox where
  /-- Prompts awaiting individual turns. -/
  nextTurn : List UserMessage
  /-- Input awaiting the next step boundary. -/
  nextStep : List UserMessage

def EventData.splice? : EventData → Option InboxSplice
  | .inboxSpliced splice => some splice
  | _ => none

/-- A number that indexes an array, negative zero included. -/
def JsNumber.asIndex : JsNumber → Option Nat
  | .negZero => some 0
  | .finite n =>
    match n.asSafeInteger with
    | some z => if 0 ≤ z then some z.toNat else none
    | none => none
  | .nan | .infinity _ => none

/-- `Math.trunc`: a fraction between minus one and zero truncates to negative zero. -/
def JsNumber.trunc : JsNumber → JsNumber
  | .finite n =>
    if n.isNegative && n.trunc == 0 then .negZero else .finite (.int n.trunc)
  | n => n

namespace Inbox

def empty : Inbox := { nextTurn := [], nextStep := [] }

variable (inbox : Inbox)

/-- `state[target]`. -/
def get : InboxTarget → List UserMessage
  | .nextTurn => inbox.nextTurn
  | .nextStep => inbox.nextStep

/-- Replace what `state[target]` holds. -/
def set (target : InboxTarget) (messages : List UserMessage) : Inbox :=
  match target with
  | .nextTurn => { inbox with nextTurn := messages }
  | .nextStep => { inbox with nextStep := messages }

/-- Both lists, prompts first. -/
def pending : List UserMessage := inbox.nextTurn ++ inbox.nextStep

/-- Locate one pending identity across both owned lists. -/
def locate (messageId : MessageId) : Option (InboxTarget × Nat) :=
  match inbox.nextTurn.findIdx? (·.id == messageId) with
  | some index => some (.nextTurn, index)
  | none => (inbox.nextStep.findIdx? (·.id == messageId)).map fun index => (.nextStep, index)

/-! ## Replay -/

/-- The first identity that stands twice, or that is among `ids`. -/
def firstDuplicate (ids : List MessageId) : List UserMessage → Option MessageId
  | [] => none
  | message :: rest =>
    if message.id ∈ ids then some message.id else firstDuplicate (message.id :: ids) rest

/-- Validate one normalized splice against the current projection. The answer is the
range it removes. -/
def validate (splice : InboxSplice) : Except String (Nat × Nat) :=
  match splice.start.asIndex, (splice.removedCount.getD (.finite (.int 0))).asIndex with
  | some start, some removedCount =>
    if start + removedCount ≤ (inbox.get splice.target).length then
      let candidate := (inbox.get splice.target).splice start removedCount splice.inserted
      match firstDuplicate [] (inbox.set splice.target candidate).pending with
      | some id => .error s!"message \"{id}\" is already pending"
      | none => .ok (start, removedCount)
    else .error "invalid inbox splice"
  | _, _ => .error "invalid inbox splice"

/-- Apply one normalized durable splice to the projection. -/
def apply (splice : InboxSplice) : Except String (List UserMessage × Inbox) :=
  match inbox.validate splice with
  | .error e => .error e
  | .ok (start, removedCount) =>
    let messages := inbox.get splice.target
    .ok (messages.slice start removedCount,
      inbox.set splice.target (messages.splice start removedCount splice.inserted))

/-- The constructor's loop over the durable log. -/
def replay (inbox : Inbox) : List SessionEvent → Except String Inbox
  | [] => .ok inbox
  | event :: rest =>
    match event.data.splice? with
    | none => inbox.replay rest
    | some splice =>
      match inbox.apply splice with
      | .error _ => .error s!"invalid persisted inbox splice at session seq {event.seq}"
      | .ok (_, inbox) => inbox.replay rest

/-- The constructor; `seedLength` is the header field, zero when it is absent. -/
def create (events : List SessionEvent) (seedLength : Nat) : Except String Inbox :=
  empty.replay (events.drop seedLength)

end Inbox

/-! ## Live operations -/

/-- A message a caller hands over, and whether it has a lossless snapshot. -/
structure Draft where
  message : UserMessage
  lossless : Bool

/-- Live notifications committed by inbox mutations. -/
inductive InboxNotification where
  | inserted (message : UserMessage)
  | discarded (message : UserMessage)
  | claimed (message : UserMessage) (turn : Nat)

/-- An inbox and the session that records it. -/
structure InboxWorld where
  session : Session
  inbox : Inbox

namespace InboxWorld

/-- What an inbox is constructed with. `append` runs the session's append to its end
and `notify` the observers of the notifications. -/
structure Host where
  append : InboxWorld → Payload → Except String SessionEvent × InboxWorld
  notify : InboxWorld → List InboxNotification → InboxWorld

/-- Resolve a splice position. -/
def actualStart (length : Nat) (start : JsNumber) : Nat :=
  match start.trunc with
  | .nan | .negZero | .infinity true => 0
  | .infinity false => length
  | .finite n => if n.trunc < 0 then (length + n.trunc).toNat else min n.trunc.toNat length

/-- Resolve a deletion count; `available` messages stand after the splice position. -/
def actualDeleteCount (available : Nat) (deleteCount : JsNumber) : Nat :=
  match deleteCount.trunc with
  | .nan | .negZero | .infinity true => 0
  | .infinity false => available
  | .finite n => min n.trunc.toNat available

/-- The JavaScript number of a list position. -/
def indexNumber (index : Nat) : JsNumber := .finite (.int index)

/-- The payload of a normalized splice. A start in `(-1, 0]` that is not zero itself
stays negative zero, which has no JSON. -/
def splicePayload (splice : InboxSplice) (inserted : List Draft) : Payload :=
  if splice.start = .negZero || !inserted.all (·.lossless) then .lossy "agent/inbox/spliced"
  else .lossless (.inboxSpliced splice)

/-- Commit one normalized mutation and publish its live notifications. -/
def mutate (host : Host) (w : InboxWorld) (target : InboxTarget) (start deleteCount : JsNumber)
    (inserted : List Draft) (discardRemoved : Bool) : Except String (List UserMessage) × InboxWorld :=
  let length := (w.inbox.get target).length
  let index := actualStart length start
  let count := actualDeleteCount (length - index) deleteCount
  if count == 0 && inserted.isEmpty then (.ok [], w)
  else
    let splice : InboxSplice :=
      { target
        start := if start.trunc = .negZero then .negZero else indexNumber index
        removedCount := if count = 0 then none else some (indexNumber count)
        inserted := inserted.map (·.message)
        canceled := discardRemoved && count != 0 }
    match w.inbox.validate splice with
    | .error e => (.error e, w)
    | .ok _ =>
      match host.append w (splicePayload splice inserted) with
      | (.error e, w) => (.error e, w)
      | (.ok event, w) =>
        let recorded := (event.data.splice?.map (·.inserted)).getD []
        let messages := w.inbox.get target
        let removed := messages.slice index count
        let w := { w with inbox := w.inbox.set target (messages.splice index count recorded) }
        let discards := if discardRemoved then removed.map .discarded else []
        (.ok removed, host.notify w (discards ++ recorded.map .inserted))

/-- `splice`: standard splice semantics, whose removed messages are discarded. -/
def splice (host : Host) (w : InboxWorld) (target : InboxTarget) (start deleteCount : JsNumber)
    (inserted : List Draft) : Except String (List UserMessage) × InboxWorld :=
  mutate host w target start deleteCount inserted true

/-- Cancel all pending input, clearing next-step before next-turn. -/
def clear (first second : Host) (w : InboxWorld) : Except String (List UserMessage) × InboxWorld :=
  match splice first w .nextStep (indexNumber 0) (indexNumber w.inbox.nextStep.length) [] with
  | (.error e, w) => (.error e, w)
  | (.ok _, w) =>
    match splice second w .nextTurn (indexNumber 0) (indexNumber w.inbox.nextTurn.length) [] with
    | (.error e, w) => (.error e, w)
    | (.ok _, w) => (.ok [], w)

/-- Remove and return the batch proposed for one step: next-step input, then the
queued turn when it is requested. -/
def claim (first second : Host) (w : InboxWorld) (target : InboxTarget) (turn : Nat) :
    Except String (List UserMessage) × InboxWorld :=
  match mutate first w .nextStep (indexNumber 0) (indexNumber w.inbox.nextStep.length) [] false with
  | (.error e, w) => (.error e, w)
  | (.ok steps, w) =>
    match target with
    | .nextStep => (.ok steps, second.notify w (steps.map (.claimed · turn)))
    | .nextTurn =>
      match mutate second w .nextTurn (indexNumber 0) (indexNumber 1) [] false with
      | (.error e, w) => (.error e, w)
      | (.ok queued, w) =>
        (.ok (steps ++ queued), second.notify w ((steps ++ queued).map (.claimed · turn)))

/-- Append one message to a pending list. -/
def append (host : Host) (w : InboxWorld) (target : InboxTarget) (message : Draft) :
    Except String (List UserMessage) × InboxWorld :=
  splice host w target (indexNumber (w.inbox.get target).length) (indexNumber 0) [message]

/-- Prepend one message to a pending list. -/
def prepend (host : Host) (w : InboxWorld) (target : InboxTarget) (message : Draft) :
    Except String (List UserMessage) × InboxWorld :=
  splice host w target (indexNumber 0) (indexNumber 0) [message]

/-- Splice over one pending message; the answer is whether it was still pending. -/
def spliceLocated (host : Host) (w : InboxWorld) (messageId : MessageId) (inserted : List Draft) :
    Except String Bool × InboxWorld :=
  match w.inbox.locate messageId with
  | none => (.ok false, w)
  | some (target, index) =>
    match splice host w target (indexNumber index) (indexNumber 1) inserted with
    | (.error e, w) => (.error e, w)
    | (.ok _, w) => (.ok true, w)

/-- Replace one pending message in place, possibly changing its identity. -/
def replace (host : Host) (w : InboxWorld) (messageId : MessageId) (newMessage : Draft) :
    Except String Bool × InboxWorld :=
  spliceLocated host w messageId [newMessage]

/-- Remove one pending message. -/
def remove (host : Host) (w : InboxWorld) (messageId : MessageId) : Except String Bool × InboxWorld :=
  spliceLocated host w messageId []

end InboxWorld

/-! ## Operations -/

/-- What happens around one session append: the clock, the listeners of its dispatch,
what one of them throws, the observers of the event, and those of the notifications. -/
structure Publication (Op : Type) where
  time : Int
  dispatch : List Op
  veto : Option String
  observers : List Op
  notified : List Op

/-- One call on an inbox or on its session, with what its listeners call while it runs. -/
inductive InboxOp where
  | splice (target : InboxTarget) (start deleteCount : JsNumber) (inserted : List Draft)
      (publication : Publication InboxOp)
  | clear (first second : Publication InboxOp)
  | claim (target : InboxTarget) (turn : Nat) (first second : Publication InboxOp)
  | append (target : InboxTarget) (message : Draft) (publication : Publication InboxOp)
  | prepend (target : InboxTarget) (message : Draft) (publication : Publication InboxOp)
  | replace (messageId : MessageId) (newMessage : Draft) (publication : Publication InboxOp)
  | remove (messageId : MessageId) (publication : Publication InboxOp)
  /-- An append of another event to the session. -/
  | record (payload : Payload) (publication : Publication InboxOp)
  /-- Any other call on the session. -/
  | session (op : SessionOp)

/-- What a call answers. -/
inductive InboxReply where
  | messages (result : Except String (List UserMessage))
  | found (result : Except String Bool)
  | event (result : Except String SessionEvent)
  | session (reply : SessionReply)

/-- The call threw. -/
def InboxReply.error? : InboxReply → Option String
  | .messages (.error e) | .found (.error e) | .event (.error e) => some e
  | _ => none

namespace InboxWorld

mutual

/-- `session.append`, whose listeners may call the inbox. -/
def appendEvent (w : InboxWorld) (payload : Payload) :
    Publication InboxOp → Except String SessionEvent × InboxWorld
  | ⟨time, dispatch, veto, observers, _⟩ =>
    match w.session.planAppend { payload, time } with
    | (.error e, session) => (.error e, { w with session })
    | (.ok candidate, session) =>
      if session.entry.isNone then
        (.ok candidate.event, { w with session := session.push candidate })
      else
        let w := (runOps { w with
          session := { session with entry := session.entry.beginAppend } } dispatch).2
        match veto with
        | some e =>
          (.error e, { w with
            session := { w.session with entry := w.session.entry.finishAppend } })
        | none =>
          let w := (runOps { w with session := w.session.push candidate } observers).2
          (.ok candidate.event, { w with
            session := { w.session with entry := w.session.entry.finishAppend } })

/-- The observers of the notifications run when there are notifications. -/
def notified (w : InboxWorld) (notifications : List InboxNotification) :
    Publication InboxOp → InboxWorld
  | ⟨_, _, _, _, observers⟩ => if notifications.isEmpty then w else (runOps w observers).2

/-- Run one call to its end. -/
def step (w : InboxWorld) : InboxOp → InboxReply × InboxWorld
  | .splice target start deleteCount inserted publication =>
    let (result, w) := splice ⟨(appendEvent · · publication), (notified · · publication)⟩
      w target start deleteCount inserted
    (.messages result, w)
  | .clear first second =>
    let (result, w) := clear ⟨(appendEvent · · first), (notified · · first)⟩
      ⟨(appendEvent · · second), (notified · · second)⟩ w
    (.messages result, w)
  | .claim target turn first second =>
    let (result, w) := claim ⟨(appendEvent · · first), (notified · · first)⟩
      ⟨(appendEvent · · second), (notified · · second)⟩ w target turn
    (.messages result, w)
  | .append target message publication =>
    let (result, w) := append ⟨(appendEvent · · publication), (notified · · publication)⟩
      w target message
    (.messages result, w)
  | .prepend target message publication =>
    let (result, w) := prepend ⟨(appendEvent · · publication), (notified · · publication)⟩
      w target message
    (.messages result, w)
  | .replace messageId newMessage publication =>
    let (result, w) := replace ⟨(appendEvent · · publication), (notified · · publication)⟩
      w messageId newMessage
    (.found result, w)
  | .remove messageId publication =>
    let (result, w) := remove ⟨(appendEvent · · publication), (notified · · publication)⟩
      w messageId
    (.found result, w)
  | .record payload publication =>
    let (result, w) := appendEvent w payload publication
    (.event result, w)
  | .session op =>
    let (reply, session) := w.session.step op
    (.session reply, { w with session })

def runOps (w : InboxWorld) : List InboxOp → List InboxReply × InboxWorld
  | [] => ([], w)
  | op :: ops =>
    let (reply, w) := step w op
    let (replies, w) := runOps w ops
    (reply :: replies, w)

end

/-- The collaborators of one call. -/
def host (publication : Publication InboxOp) : Host :=
  ⟨(appendEvent · · publication), (notified · · publication)⟩

/-! ## Listeners that only call the session -/

end InboxWorld

end Harness
