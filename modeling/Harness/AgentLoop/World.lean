-- SUMMARY: The world an agent driver runs in, the operations its code is made of, and what happens to the world in between.
import Harness.Agent.Inbox
import Harness.Json.RoundTrip
import Harness.Lib.Program
import Harness.Llm.Assembler

/-!
# The world of an agent driver

The driver of `core/agent-loop/src` is a program of asynchronous code over its session,
its inbox and its own phase. It reaches outside itself for prompts, model calls, tools
and interception, and whatever those answer is a choice of the surroundings. Between two
of its operations anything else may happen: messages are sent, the activity is cancelled,
plugins append to the session, dispatched tools settle.

An append of the driver is published to observers that only look. What an observer does
is a move of the surroundings after it; that no call inside a publication reaches the log
is `Session.step_of_appending`.
-/

namespace Harness

/-! ## Failures -/

/-- A thrown value, by what the driver tells apart. -/
inductive Thrown where
  /-- An `LlmError`, by its facts. -/
  | llm (failure : LlmFailure)
  /-- The reason of an aborted signal. -/
  | cause (cause : AgentCancelCause)
  /-- Any other value, by its `errorChain` text. -/
  | error (chain : JsString)
  deriving DecidableEq

/-- `new LlmError(message, code, failure)`, whose constructor checks its arguments. -/
def LlmFailure.thrown (failure : LlmFailure) : Thrown :=
  let positive : Num → Bool := fun n => !n.isNegative && n != .int 0
  let isStatus : Num → Bool
    | .int z => decide (100 ≤ z ∧ z ≤ 599)
    | .frac .. => false
  if failure.message.units.length = 0 then .error "LlmError message must be a non-empty string"
  else if failure.code.units.length = 0 then .error "LlmError code must be a non-empty string"
  else if !failure.status.all isStatus then
    .error "LlmError status must be an integer from 100 through 599"
  else if !failure.providerRetryAfterMs.all positive then
    .error "LlmError providerRetryAfterMs must be a positive finite number"
  else if failure.requestId.any (·.units.length = 0) then
    .error "LlmError requestId must be a non-empty string"
  else .llm failure

/-! ## Tool calls -/

/-- Scheduling mode for one pending call. -/
inductive ToolExecutionMode where
  | parallel
  | exclusive
  deriving DecidableEq

/-- One tool call after argument parsing, ready to schedule. -/
structure PlannedCall where
  block : ToolCallBlock
  arguments : Json

structure ToolFailure where
  message : JsString
  info : Option ErrorInfo

/-- The outcome of one tool call; `presentation` is its `meta`. -/
structure ToolExecutionResult where
  isError : Bool
  content : List ContentBlock
  error : Option ToolFailure := none
  presentation : Option Json := none
  additionalContexts : List Draft := []
  concludesTurn : Bool := false
  /-- What the result message stores of it has a lossless snapshot. -/
  lossless : Bool := true

/-- Settled dispatch awaiting model-order finalization. -/
structure Slot where
  result : ToolExecutionResult
  needsPost : Bool

/-- What stage follows the ordered pre-execute gate of a call. -/
inductive ToolPreparation where
  | dispatch
  | postResult (result : ToolExecutionResult)
  | finalResult (result : ToolExecutionResult)

/-- What the code of one running group shares with the dispatches it has started. -/
structure ToolPool where
  /-- `maxParallelToolCalls` when the group was opened. -/
  limit : Nat
  slots : Nat → Option Slot
  /-- The keys of `inFlight`, in insertion order. -/
  inFlight : List Nat
  schedulerFailure : Option Thrown

def ToolPool.empty : ToolPool where
  limit := 0
  slots := fun _ => none
  inFlight := []
  schedulerFailure := none

/-! ## Requests -/

/-- What the driver reads of a prompt assembly: its rendered text and its tool schemas,
which are objects and so in enumeration order. -/
structure PromptAssembly where
  system : JsString
  tools : List ToolSchema
  proper : ∀ tool ∈ tools, tool.Proper

inductive PreStepDecision where
  | reject
  | enter (messages : List Draft)

/-- What the driver reads of a call that is bound to its adapter registration. -/
structure PreparedLlmCall where
  config : LlmCallConfig
  adapterDefaults : LlmCallConfigAdapterDefaults
  contextWindow : Option Num

/-- What a request tells the model; its session id and its signal are not modelled. -/
structure GenerateOptions where
  config : LlmCallConfig
  messages : List Message
  system : Option JsString
  tools : Option (List ToolSchema)

/-- A chunk of a stream, and whether it has a lossless snapshot. -/
structure ChunkDraft where
  chunk : StreamChunk
  lossless : Bool

/-- A request that was sent: the call it was bound to and the log length at dispatch. -/
structure Dispatched where
  request : GenerateOptions
  preparedCall : Option PreparedLlmCall
  position : Nat

/-! ## State -/

/-- The activity of an agent. An abort controller is the reason its signal has, if any. -/
inductive Phase where
  | idle (lastTurn : Nat)
  | maintenance (abort : Option AgentCancelCause) (lastTurn : Nat) (wakeRequested : Bool)
  | running (abort : Option AgentCancelCause) (turn step : Nat) (wakeRequested : Bool)
  deriving DecidableEq

namespace Phase

/-- `phase.abort.signal.reason`. -/
def reason : Phase → Option AgentCancelCause
  | .idle _ => none
  | .maintenance abort .. | .running abort .. => abort

def isIdle : Phase → Bool
  | .idle _ => true
  | _ => false

/-- The turn and step of a running phase. -/
def position : Phase → Option (Nat × Nat)
  | .running _ turn step _ => some (turn, step)
  | _ => none

/-- `phase.wakeRequested = value`. -/
def setWakeRequested (value : Bool) : Phase → Phase
  | .idle lastTurn => .idle lastTurn
  | .maintenance abort lastTurn _ => .maintenance abort lastTurn value
  | .running abort turn step _ => .running abort turn step value

/-- `phase.abort.abort(cause)`: the first reason of a signal stays. -/
def cancel (cause : AgentCancelCause) : Phase → Phase
  | .idle lastTurn => .idle lastTurn
  | .maintenance abort lastTurn wakeRequested =>
    .maintenance (abort.or (some cause)) lastTurn wakeRequested
  | .running abort turn step wakeRequested =>
    .running (abort.or (some cause)) turn step wakeRequested

def setTurn (turn : Nat) : Phase → Phase
  | .running abort _ step wakeRequested => .running abort turn step wakeRequested
  | phase => phase

def setStep (step : Nat) : Phase → Phase
  | .running abort turn _ wakeRequested => .running abort turn step wakeRequested
  | phase => phase

/-- The turn boundary of a live driver: a fresh controller, no latch, no step. -/
def renew : Phase → Phase
  | .running _ turn _ _ => .running none turn 0 false
  | phase => phase

end Phase

/-- An agent, its session and inbox, and the record of what its driver did. -/
structure LoopWorld where
  io : InboxWorld
  phase : Phase
  /-- Whether this loop instance has appended its initial/resume request anchor. -/
  requestHeaderLogged : Bool
  pool : ToolPool
  /-- The dispatched calls whose bodies still run, each with the mode it was started in. -/
  running : List (Nat × ToolExecutionMode)
  /-- The events the driver itself appended. -/
  own : List SessionEvent
  requests : List Dispatched
  /-- The calls that were handed to `prepare`. -/
  prepared : List PlannedCall

/-! ## Session appends -/

namespace Session

/-- `session.append` with observers that only look. -/
def publish (s : Session) (request : AppendRequest) : Except String SessionEvent × Session :=
  match s.planAppend request with
  | (.error e, s) => (.error e, s)
  | (.ok candidate, s) =>
    if s.entry.isNone then (.ok candidate.event, s.push candidate)
    else
      let s := { s with entry := s.entry.beginAppend }.push candidate
      (.ok candidate.event, { s with entry := s.entry.finishAppend })

end Session

/-- The collaborators of an inbox call whose observers only look. -/
def InboxWorld.Host.quietHost (time : Int) : InboxWorld.Host where
  append w payload :=
    let (result, session) := w.session.publish { payload, time }
    (result, { w with session })
  notify w _ := w

/-- The surface arguments of a message append. -/
structure Surfaced where
  sourceEventSeqs : Option (List Int)

/-- The arguments of one append of the driver. -/
def appendRequest (payload : Payload) (surfaced : Option Surfaced) (time : Int) : AppendRequest where
  payload
  surfaceOp := surfaced.elim .undefined fun _ => .str "append"
  sourceEventSeqs := (surfaced.bind (·.sourceEventSeqs)).elim .undefined fun seqs =>
    .array true 0 (seqs.map fun seq => some (.number (.finite (.int seq))))
  time

/-! ## Operations -/

/-- Reads of the driver's own state. -/
inductive LoopRead where
  | position
  | reason
  | requestHeaderLogged
  | hasPending
  | nextStep
  | slot (index : Nat)
  | inFlightSize
  | schedulerFailure

abbrev LoopRead.Answer : LoopRead → Type
  | position => Option (Nat × Nat)
  | reason => Option AgentCancelCause
  | requestHeaderLogged | hasPending => Bool
  | nextStep => List UserMessage
  | slot _ => Option Slot
  | inFlightSize => Nat
  | schedulerFailure => Option Thrown

def LoopRead.answer (w : LoopWorld) : (read : LoopRead) → read.Answer
  | position => w.phase.position
  | reason => w.phase.reason
  | requestHeaderLogged => w.requestHeaderLogged
  | hasPending => !w.io.inbox.pending.isEmpty
  | nextStep => w.io.inbox.nextStep
  | slot index => w.pool.slots index
  | inFlightSize => w.pool.inFlight.length
  | schedulerFailure => w.pool.schedulerFailure

/-- Writes to the driver's own state. -/
inductive LoopWrite where
  | setTurn (turn : Nat)
  | setStep (step : Nat)
  | renewAbort
  | setRequestHeaderLogged
  /-- `agent/error`, which only its listeners hear. -/
  | reportError (error : Thrown)
  | openPool (limit : Nat)
  | setSlot (index : Nat) (slot : Slot)
  /-- Start the body of a call and keep its promise. -/
  | dispatch (index : Nat) (mode : ToolExecutionMode)
  | deleteInFlight (index : Nat)
  /-- `schedulerFailure ??= error`. -/
  | failScheduler (error : Thrown)

namespace ToolPool

def setSlot (pool : ToolPool) (index : Nat) (slot : Slot) : ToolPool :=
  { pool with slots := Function.update pool.slots index (some slot) }

def fail (pool : ToolPool) (error : Thrown) : ToolPool :=
  { pool with schedulerFailure := pool.schedulerFailure.or (some error) }

end ToolPool

def LoopWrite.apply (w : LoopWorld) : LoopWrite → LoopWorld
  | setTurn turn => { w with phase := w.phase.setTurn turn }
  | setStep step => { w with phase := w.phase.setStep step }
  | renewAbort => { w with phase := w.phase.renew }
  | setRequestHeaderLogged => { w with requestHeaderLogged := true }
  | reportError _ => w
  | openPool limit => { w with pool := { ToolPool.empty with limit } }
  | setSlot index slot => { w with pool := w.pool.setSlot index slot }
  | dispatch index mode =>
    { w with
      pool := { w.pool with inFlight := w.pool.inFlight ++ [index] }
      running := w.running ++ [(index, mode)] }
  | deleteInFlight index => { w with pool := { w.pool with inFlight := w.pool.inFlight.erase index } }
  | failScheduler error => { w with pool := w.pool.fail error }

inductive SessionRead where
  | deriveMessages
  | requestHeader
  | requestContext

abbrev SessionRead.Answer : SessionRead → Type
  | deriveMessages => Except String (List Message)
  | requestHeader => Option EpochHeader
  | requestContext => Option RequestContext

def SessionRead.answer (s : Session) : (read : SessionRead) → read.Answer × Session
  | deriveMessages => s.deriveMessages
  | requestHeader => s.requestHeader
  | requestContext => s.requestContext

/-- Questions that the surroundings answer. -/
inductive LoopQuery where
  | assemble
  /-- The uncommitted snapshot of the runtime context, when it changed. -/
  | project
  | preStep (messages : List UserMessage) (context : Option UserMessage) (turn step : Nat)
  | request (turn step : Nat) (seedConfig : LlmCallConfig)
  | prepareCall (config : LlmCallConfig)
  | stream (request : GenerateOptions) (preparedCall : Option PreparedLlmCall)
  | nextChunk
  | requestError (turn step : Nat) (provider : JsString) (failure : LlmFailure)
  | turnStopping (turn : Nat)
  /-- `crypto.randomUUID()`. -/
  | messageId
  | executionMode (call : PlannedCall)
  | maxParallelToolCalls
  | prepare (call : PlannedCall)
  | finalize (slot : Slot)
  | finish (slot : Slot)
  /-- `Promise.race(inFlight.values())`. -/
  | race
  /-- `Promise.allSettled(inFlight.values())`. -/
  | allSettled

abbrev LoopQuery.Answer : LoopQuery → Type
  | assemble => Except Thrown PromptAssembly
  | project => Option UserMessage
  | preStep .. => Except Thrown PreStepDecision
  | request .. => Except Thrown LlmCallConfig
  | prepareCall _ => Except Thrown PreparedLlmCall
  | stream .. | turnStopping _ => Except Thrown Unit
  | nextChunk => Except Thrown (Option ChunkDraft)
  | requestError .. => Except Thrown Bool
  | messageId => MessageId
  | executionMode _ => ToolExecutionMode
  | maxParallelToolCalls | race => Nat
  | prepare _ => Except Thrown ToolPreparation
  | finalize _ | finish _ => Except Thrown ToolExecutionResult
  | allSettled => Unit

/-- What the outside gives to an operation. -/
inductive LoopReply where
  | done
  | now (time : Int)
  | failed (error : Thrown)
  | assembly (assembly : PromptAssembly)
  | context (message : Option UserMessage)
  | decision (decision : PreStepDecision)
  | config (config : LlmCallConfig)
  | preparedCall (call : PreparedLlmCall)
  | chunk (chunk : Option ChunkDraft)
  | retry (retry : Bool)
  | messageId (id : MessageId)
  | mode (mode : ToolExecutionMode)
  | number (n : Nat)
  | preparation (preparation : ToolPreparation)
  | result (result : ToolExecutionResult)

/-- Whether the body of the call at `index` still runs. -/
def LoopWorld.isRunning (w : LoopWorld) (index : Nat) : Bool := w.running.any (·.1 == index)

/-- The answer a reply gives to a question, when it can be one. -/
def LoopQuery.decode (w : LoopWorld) : (query : LoopQuery) → LoopReply → Option query.Answer
  | assemble, .assembly a => some (.ok a)
  | preStep .., .decision d => some (.ok d)
  | request .., .config c => some (.ok c)
  | prepareCall _, .preparedCall c => some (.ok c)
  | stream .., .done | turnStopping _, .done => some (.ok ())
  | nextChunk, .chunk c => some (.ok c)
  | requestError .., .retry b => some (.ok b)
  | prepare _, .preparation p => some (.ok p)
  | finalize _, .result r | finish _, .result r => some (.ok r)
  | assemble, .failed e | preStep .., .failed e | request .., .failed e | prepareCall _, .failed e
  | stream .., .failed e | turnStopping _, .failed e | nextChunk, .failed e
  | requestError .., .failed e | prepare _, .failed e | finalize _, .failed e
  | finish _, .failed e => some (.error e)
  | project, .context m => some m
  | messageId, .messageId id => some id
  | executionMode _, .mode m => some m
  -- the configured maximum is a positive integer
  | maxParallelToolCalls, .number n => if 0 < n then some n else none
  | race, .number n => if n ∈ w.pool.inFlight ∧ !w.isRunning n then some n else none
  | allSettled, .done => if w.pool.inFlight.all (!w.isRunning ·) then some () else none
  | _, _ => none

/-- What asking puts on record. -/
def LoopQuery.record (w : LoopWorld) : LoopQuery → LoopWorld
  | .stream sent call =>
    { w with requests := w.requests ++
        [{ request := sent, preparedCall := call, position := w.io.session.log.length }] }
  | .prepare call => { w with prepared := w.prepared ++ [call] }
  | _ => w

/-- The operations of the driver's code. -/
inductive LoopOp where
  | read (read : LoopRead)
  | write (write : LoopWrite)
  | session (read : SessionRead)
  | ask (query : LoopQuery)
  | append (payload : Payload) (surfaced : Option Surfaced)
  | claim (target : InboxTarget) (turn : Nat)
  /-- `inbox.splice('next-step', inbox.nextStep.length, 0, [context])`. -/
  | acceptContext (context : Draft)
  /-- The bound given to a loop is used up. -/
  | outOfFuel
  /-- A non-null assertion on a value that is null. -/
  | missing

abbrev LoopOp.Answer : LoopOp → Type
  | read r => r.Answer
  | write _ => Unit
  | session r => r.Answer
  | ask q => q.Answer
  | append .. => Except String SessionEvent
  | claim .. => Except String (List UserMessage)
  | acceptContext _ => Except String (List UserMessage)
  | outOfFuel | missing => Empty

namespace LoopWorld

variable (w : LoopWorld)

/-- The driver's own append, put on record. -/
def append (request : AppendRequest) : Except String SessionEvent × LoopWorld :=
  match w.io.session.publish request with
  | (.error e, session) => (.error e, { w with io := { w.io with session } })
  | (.ok event, session) =>
    (.ok event, { w with io := { w.io with session }, own := w.own ++ [event] })

def perform : (op : LoopOp) → LoopReply → Option (op.Answer × LoopWorld)
  | .read r, .done => some (r.answer w, w)
  | .write u, .done => some ((), u.apply w)
  | .session r, .done =>
    let (answer, session) := r.answer w.io.session
    some (answer, { w with io := { w.io with session } })
  | .ask q, reply => (q.decode w reply).map fun answer => (answer, q.record w)
  | .append payload surfaced, .now time => some (w.append (appendRequest payload surfaced time))
  | .claim target turn, .now time =>
    let (messages, io) := InboxWorld.claim (.quietHost time) (.quietHost time) w.io target turn
    some (messages, { w with io })
  | .acceptContext context, .now time =>
    let (removed, io) := InboxWorld.append (.quietHost time) w.io .nextStep context
    some (removed, { w with io })
  | _, _ => none

/-! ## Surroundings -/

/-- Start one driver, or latch its wake behind maintenance or an aborted activity. The
answer is whether a driver was started. -/
def wakeDriver (wakeAfterAbort : Bool) : Bool × LoopWorld :=
  match w.phase with
  | .idle lastTurn => (true, { w with phase := .running none lastTurn 0 false })
  | .maintenance abort .. =>
    if abort = some .disposed then (false, w)
    else (false, { w with phase := w.phase.setWakeRequested true })
  | .running abort .. =>
    if abort ≠ some .disposed && wakeAfterAbort then
      (false, { w with phase := w.phase.setWakeRequested true })
    else (false, w)

/-- `agent.send`. -/
def send (message : Draft) (target : InboxTarget) (wakeup : Bool) (time : Int) : Bool × LoopWorld :=
  let wakingAfterAbort := wakeup && w.phase.reason.isSome
  let resolvedTarget := if wakingAfterAbort then .nextTurn else target
  match InboxWorld.splice (.quietHost time) w.io resolvedTarget (.infinity false)
    (InboxWorld.indexNumber 0) [message] with
  | (.error _, io) => (false, { w with io })
  | (.ok _, io) =>
    if wakeup then wakeDriver { w with io } wakingAfterAbort else (false, { w with io })

/-- `agent.cancel`. -/
def cancel (cause : AgentCancelCause) (keepInbox : Bool) (time : Int) : LoopWorld :=
  if keepInbox then { w with phase := w.phase.cancel cause }
  else
    match InboxWorld.clear (.quietHost time) (.quietHost time) w.io with
    | (.error _, io) => { w with io }
    | (.ok _, io) => { w with io, phase := (w.phase.setWakeRequested false).cancel cause }

/-- The start of `agent.runMaintenance`, which an active agent refuses. -/
def beginMaintenance : LoopWorld :=
  match w.phase with
  | .idle lastTurn => { w with phase := .maintenance none lastTurn false }
  | _ => w

/-- The `finally` of `agent.runMaintenance`. -/
def endMaintenance : Bool × LoopWorld :=
  match w.phase with
  | .maintenance _ lastTurn wakeRequested =>
    let w := { w with phase := .idle lastTurn }
    if wakeRequested && !w.io.inbox.pending.isEmpty then w.wakeDriver false else (false, w)
  | _ => (false, w)

/-- The settlement of a dispatched call, with the callbacks its promise carries. -/
def settle (index : Nat) (outcome : Except Thrown Slot) : LoopWorld :=
  if w.isRunning index then
    { w with
      pool := match outcome with
        | .ok slot => w.pool.setSlot index slot
        | .error error => w.pool.fail error
      running := w.running.filter (·.1 != index) }
  else w

end LoopWorld

/-- What others do between two operations of the driver. -/
inductive LoopAct where
  | send (message : Draft) (target : InboxTarget) (wakeup : Bool) (time : Int)
  | cancel (cause : AgentCancelCause) (keepInbox : Bool) (time : Int)
  | beginMaintenance
  | endMaintenance
  /-- Any mutation of the inbox by others; every inbox operation is a row of these. -/
  | mutate (target : InboxTarget) (start deleteCount : JsNumber) (inserted : List Draft)
      (discardRemoved : Bool) (time : Int)
  /-- Any call of others on the session. -/
  | session (op : SessionOp)
  | settle (index : Nat) (outcome : Except Thrown Slot)

namespace LoopWorld

/-- Run one act; the answer is whether it started a driver. -/
def react (w : LoopWorld) : LoopAct → Bool × LoopWorld
  | .send message target wakeup time => w.send message target wakeup time
  | .cancel cause keepInbox time => (false, w.cancel cause keepInbox time)
  | .beginMaintenance => (false, w.beginMaintenance)
  | .endMaintenance => w.endMaintenance
  | .mutate target start deleteCount inserted discardRemoved time =>
    (false, { w with io := (InboxWorld.mutate (.quietHost time) w.io target start deleteCount
      inserted discardRemoved).2 })
  | .session op => (false, { w with io := { w.io with session := (w.io.session.step op).2 } })
  | .settle index outcome => (false, w.settle index outcome)

end LoopWorld

/-- The driver's code runs on this. -/
def loopMachine : Machine LoopOp LoopOp.Answer LoopWorld LoopReply LoopAct where
  perform op reply w := w.perform op reply
  act act w := (w.react act).2

/-! ## Code -/

/-- Asynchronous code of the driver. -/
abbrev LoopCode (α : Type) := Program.Throwing LoopOp LoopOp.Answer Thrown α

namespace LoopCode

def orThrow {α : Type} : Except Thrown α → LoopCode α
  | .ok a => pure a
  | .error e => throw e

/-- An error thrown by the session or the inbox. -/
def orThrowText {α : Type} : Except String α → LoopCode α
  | .ok a => pure a
  | .error e => throw (.error e)

def perform (op : LoopOp) : LoopCode op.Answer := Program.ask op

def read (read : LoopRead) : LoopCode read.Answer := perform (.read read)

def write (write : LoopWrite) : LoopCode Unit := perform (.write write)

def session (read : SessionRead) : LoopCode read.Answer := perform (.session read)

def ask (query : LoopQuery) : LoopCode query.Answer := perform (.ask query)

/-- `session.append`. -/
def append (payload : Payload) (surfaced : Option Surfaced) : LoopCode SessionEvent :=
  perform (.append payload surfaced) >>= orThrowText

/-- `session.append` of a payload that is plain data and joins no surface. -/
def log (data : EventData) : LoopCode Unit := append (.lossless data) none >>= fun _ => pure ()

/-- `signal.throwIfAborted()`. -/
def throwIfAborted : LoopCode Unit := do
  match ← read .reason with
  | some cause => throw (.cause cause)
  | none => pure ()

/-- The bound given to a loop is used up. -/
def outOfFuel {α : Type} : LoopCode α := perform .outOfFuel >>= fun x => nomatch x

/-- A non-null assertion fails. -/
def missing {α : Type} : LoopCode α := perform .missing >>= fun x => nomatch x

end LoopCode

end Harness
