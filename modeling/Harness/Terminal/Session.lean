-- SUMMARY: A local PTY session (`terminal-bash/src/session.ts`): its text buffers, and the send protocol with its fields, the calls it waits on and the synchronous stretches between them.
import Harness.Lib.Unicode
import Harness.Session.Repair

namespace Harness

namespace Terminal

/-- `Array.from(text)`: the code points, each by its code units. -/
def codePoints : List UInt16 → List (List UInt16)
  | [] => []
  | [unit] => [[unit]]
  | first :: second :: rest =>
    if Unicode.IsHigh first ∧ Unicode.IsLow second then [first, second] :: codePoints rest
    else [first] :: codePoints (second :: rest)

/-- `Buffer.byteLength` of one code point; a lone surrogate is written as U+FFFD. -/
def byteLength : List UInt16 → Nat
  | [unit] => if unit < 0x80 then 1 else if unit < 0x800 then 2 else 3
  | _ => 4

/-- The code points, from the end, that still fit. -/
def fitting : Nat → List (List UInt16) → List (List UInt16)
  | _, [] => []
  | budget, char :: chars =>
    if budget < byteLength char then [] else char :: fitting (budget - byteLength char) chars

def utf8Tail (text : JsString) (maxBytes : Nat) : JsString × Bool :=
  let chars := codePoints text.units
  if (chars.map byteLength).sum ≤ maxBytes then (text, false)
  else (⟨(fitting maxBytes chars.reverse).reverse.flatten⟩, true)

/-- `text.split('\n')`. -/
def splitLines (text : JsString) : List (List UInt16) := text.units.splitOn 10

structure BoundedTextBuffer where
  maxBytes : Nat
  maxLines : Option Nat := none
  value : JsString := ⟨[]⟩
  dropped : Bool := false

namespace BoundedTextBuffer

/-- Keep the last lines. -/
def boundLines (buffer : BoundedTextBuffer) : BoundedTextBuffer :=
  match buffer.maxLines with
  | none => buffer
  | some maxLines =>
    let lines := splitLines buffer.value
    if lines.length ≤ maxLines then buffer
    else
      { buffer with
        value := ⟨[10].intercalate (lines.drop (lines.length - maxLines))⟩
        dropped := true }

def append (buffer : BoundedTextBuffer) (text : JsString) : BoundedTextBuffer :=
  if text.units.isEmpty then buffer
  else
    let bounded := { buffer with value := buffer.value ++ text }.boundLines
    let (tail, truncated) := utf8Tail bounded.value bounded.maxBytes
    { bounded with value := tail, dropped := bounded.dropped || truncated }

end BoundedTextBuffer

/-! ## The bound -/

/-!
## PTY sessions

Sends are numbered in the order in which they are accepted. What a suspended continuation waits for
is kept beside the fields of the class: how far the `beginSend` of a send has come, which readiness
poll is being inspected, the `interruptOnce` runs and the `closeOnce` run.
-/

/-! ## Sends -/

structure ResolvedConfig where
  maxReadBytes : Nat
  scrollbackMaxBytes : Nat
  scrollbackLines : Nat
  pollIntervalMs : Nat
  exactProbeAfterMs : Nat
  idleSilenceMs : Nat
  handoffGraceMs : Nat

structure SubprocessTerminalForeground where
  processGroupId : Int
  inputWaiting : Bool

inductive TerminalSessionStatus where
  | running
  | exited (exitCode : Option Int) (signal : Option JsString)
  deriving DecidableEq

inductive TerminalWaitReason where
  | stdinRead
  | inferredIdle
  | timeout
  | sessionExit
  deriving DecidableEq

structure TerminalSendResult where
  viewport : JsString
  waitReason : TerminalWaitReason
  sessionStatus : TerminalSessionStatus
  truncated : Bool
  deriving DecidableEq

inductive Failure where
  | error (message : JsString)
  /-- `PTY cleanup failed (reason)`, with its cause. -/
  | cleanup (reason : JsString) (cause : JsString)
  deriving DecidableEq

inductive SendOutcome where
  | resolved (result : TerminalSendResult)
  | rejected (error : Failure)
  deriving DecidableEq

structure TerminalSendRequest where
  text : JsString
  submit : Bool
  /-- The caller's abort signal, and whether it is aborted. -/
  signal : Option Bool := none
  deriving DecidableEq

def TerminalSendRequest.input (request : TerminalSendRequest) : JsString :=
  if request.submit then request.text ++ "\r" else request.text

/-- How far the `beginSend` of a send has come. -/
inductive BeginSend where
  /-- The foreground is being inspected before the write. -/
  | inspecting (request : TerminalSendRequest)
  | writing
  | over
  deriving DecidableEq

structure LocalSendOperation where
  output : BoundedTextBuffer
  startedAt : Nat
  outcome : Option SendOutcome := none
  cancellationRequested : Bool := false
  initialForegroundLeftWait : Bool := true
  initialForegroundPgid : Option Int := none
  stage : BeginSend

namespace LocalSendOperation

variable (operation : LocalSendOperation)

def finished : Bool := operation.outcome.isSome

def append (text : JsString) : LocalSendOperation :=
  if operation.finished then operation
  else { operation with output := operation.output.append text }

def setInitialForeground (foreground : Option SubprocessTerminalForeground) : LocalSendOperation :=
  { operation with
    initialForegroundPgid := foreground.map (·.processGroupId)
    initialForegroundLeftWait := !foreground.any (·.inputWaiting) }

/-- Observe a poll; the wait that the group showed before the write is not evidence until the group
has left it once. -/
def acceptsStdinWait (pgid : Int) (waiting : Bool) : Bool × LocalSendOperation :=
  if some pgid ≠ operation.initialForegroundPgid then (waiting, operation)
  else
    let operation :=
      if waiting then operation else { operation with initialForegroundLeftWait := true }
    (waiting && operation.initialForegroundLeftWait, operation)

/-- A poll asks for the wait once there is output and a foreground. -/
def observe (startupHasOutput : Bool)
    (foreground : Option SubprocessTerminalForeground) : Bool × LocalSendOperation :=
  match foreground with
  | some foreground =>
    if startupHasOutput then
      operation.acceptsStdinWait foreground.processGroupId foreground.inputWaiting
    else (false, operation)
  | none => (false, operation)

end LocalSendOperation

/-! ## The session -/

/-- How far a run of `interruptOnce` has come. -/
inductive InterruptPhase where
  /-- It waits for the provider's write. -/
  | draining (write : Nat)
  /-- The write has ended, and the continuation is queued. -/
  | drained (ok : Bool)
  /-- The foreground is being signalled. -/
  | signalling
  deriving DecidableEq

structure Interrupt where
  send : Nat
  phase : InterruptPhase
  deriving DecidableEq

/-- An interrupt that waits for the write learns how it ended. -/
def Interrupt.drain (write : Nat) (ok : Bool) (interrupt : Interrupt) : Interrupt :=
  if interrupt.phase = .draining write then { interrupt with phase := .drained ok } else interrupt

inductive ClosePhase where
  | terminating (reason : JsString)
  | completing
  | closed
  deriving DecidableEq

inductive Happening where
  | accepted (send : Nat) (request : TerminalSendRequest)
  | wrote (send : Nat) (input : JsString)
  | cancelled (send : Nat)
  | settled (send : Nat)
  | closed
  deriving DecidableEq

/-- A chunk of output after the sanitizer. -/
structure SanitizedChunk where
  text : JsString
  prompt : Bool
  promptTail : Option JsString

structure LocalPtySession where
  config : ResolvedConfig
  /-- `Date.now()`. -/
  now : Nat
  /-- Every send ever accepted. -/
  operations : List LocalSendOperation
  active : Option Nat
  activeTimer : Option Nat
  activeDeadlineTimer : Option Nat
  activeAbort : Option Nat
  interrupting : Option Nat
  activeWrite : Option Nat
  pollingReady : Option Nat
  /-- The send whose readiness is being polled. -/
  polling : Option Nat
  promptSeen : Bool
  promptTextSeen : Bool
  promptTail : JsString
  shellPgid : Option Int
  initializing : Bool
  /-- The send that `initialize` awaits. -/
  startup : Option Nat
  lastOutputAt : Nat
  scrollback : BoundedTextBuffer
  statusValue : TerminalSessionStatus
  closing : Bool
  closePromise : Option ClosePhase
  transportFailure : Option Failure
  interrupts : List Interrupt
  /-- The process has exited, and `onExit` waits for the end of its output. -/
  exited : Option (Option Int × Option JsString)
  outputEnded : Bool
  /-- `completion` has settled. -/
  completion : Bool
  /-- What has happened, newest first. -/
  log : List Happening

inductive StartError where
  | error (message : JsString)
  /-- A `TerminalError` with code `SEND_ACTIVE`. -/
  | sendActive (message : JsString)
  deriving DecidableEq

def controlledPrompt : JsString := "dsh> "

namespace LocalPtySession

variable (s : LocalPtySession)

def start (config : ResolvedConfig) (now : Nat) : LocalPtySession where
  config
  now
  operations := []
  active := none
  activeTimer := none
  activeDeadlineTimer := none
  activeAbort := none
  interrupting := none
  activeWrite := none
  pollingReady := none
  polling := none
  promptSeen := false
  promptTextSeen := false
  promptTail := ⟨[]⟩
  shellPgid := none
  initializing := false
  startup := none
  lastOutputAt := now
  scrollback := { maxBytes := config.scrollbackMaxBytes, maxLines := some config.scrollbackLines }
  statusValue := .running
  closing := false
  closePromise := none
  transportFailure := none
  interrupts := []
  exited := none
  outputEnded := false
  completion := false
  log := []

def happen (happening : Happening) : LocalPtySession := { s with log := happening :: s.log }

variable (i : Nat)

/-- Change one send in place. -/
def update (f : LocalSendOperation → LocalSendOperation) : LocalPtySession :=
  { s with operations := s.operations.modify i f }

def setStage (stage : BeginSend) : LocalPtySession :=
  s.update i fun operation => { operation with stage }

/-! ### Settlement -/

/-- `settle` and `fail` of a send: the first one wins. -/
def finish (outcome : LocalSendOperation → SendOutcome) : LocalPtySession :=
  match s.operations[i]? with
  | none => s
  | some operation =>
    if operation.finished then s
    else (s.update i fun operation => { operation with outcome := some (outcome operation) }).happen
      (.settled i)

def stopReadinessPolling : LocalPtySession := { s with activeTimer := none, pollingReady := none }

def stopPolling : LocalPtySession := { s.stopReadinessPolling with activeDeadlineTimer := none }

def clearActive : LocalPtySession :=
  { s.stopPolling with
    activeAbort := none
    interrupting := if s.interrupting = s.active then none else s.interrupting
    active := none }

def settleActive (waitReason : TerminalWaitReason) (retainOwnership : Bool) : LocalPtySession :=
  match s.active with
  | none => s
  | some i =>
    let released := if retainOwnership then { s.stopPolling with activeAbort := none }
      else s.clearActive
    released.finish i fun operation => .resolved {
      viewport := operation.output.value
      waitReason
      sessionStatus := s.statusValue
      truncated := operation.output.dropped || s.scrollback.dropped }

def failActive (error : Failure) : LocalPtySession :=
  match s.active with
  | none => s
  | some i => s.clearActive.finish i fun _ => .rejected error

/-- The first failure of the transport is kept, and the session counts as exited. -/
def onTransportFailure (error : Failure) : LocalPtySession :=
  { s with
    transportFailure := s.transportFailure.or (some error)
    statusValue := .exited none none }.failActive error

/-! ### Starting a send -/

def resetReadinessEvidence : LocalPtySession :=
  { s with
    lastOutputAt := s.now
    promptSeen := false
    promptTextSeen := false
    promptTail := ⟨[]⟩ }

def startSend (request : TerminalSendRequest) : Except StartError LocalPtySession :=
  if s.closing then .error (.error "PTY session is closing")
  else if s.statusValue ≠ .running then .error (.error "PTY session has exited")
  else if s.active.isSome then
    .error (.sendActive (
      if s.activeWrite.isSome then
        "PTY session already has an active send or draining provider write"
      else if s.interrupting.isSome then
        "PTY session already has an active send or draining foreground interrupt"
      else "PTY session already has an active send"))
  else if request.signal = some true then .error (.error "PTY send aborted before write")
  else
    let i := s.operations.length
    let operation : LocalSendOperation := {
      output := { maxBytes := s.config.maxReadBytes }
      startedAt := s.now
      stage := .inspecting request }
    let started := { s with
      operations := s.operations ++ [operation]
      active := some i
      activeAbort := if request.signal.isSome then some i else s.activeAbort
      activeDeadlineTimer := some i }
    .ok (started.resetReadinessEvidence.happen (.accepted i request))

/-! ### Readiness polls -/

def schedulePoll : LocalPtySession :=
  if s.active ≠ some i ∨ s.interrupting = some i ∨ s.polling.isSome then s
  else { s with activeTimer := some i }

/-- The end of a poll, however it went. -/
def finishPoll : LocalPtySession :=
  let idle := { s with polling := none }
  match s.active with
  | none => idle
  | some i => if s.pollingReady = some i then idle.schedulePoll i else idle

/-- The poll timer fires. -/
def pollReadiness : LocalPtySession :=
  if s.active ≠ some i ∨ s.polling.isSome then s
  else
    let polling := { s with polling := some i }
    if s.statusValue ≠ .running then (polling.settleActive .sessionExit false).finishPoll
    else polling

/-- The group that owns the foreground at the first prompt is the shell's. -/
def learnShell (foreground : Option SubprocessTerminalForeground) : LocalPtySession :=
  { s with
    shellPgid :=
      if s.promptSeen ∧ s.shellPgid = none then foreground.map (·.processGroupId)
      else s.shellPgid }

/-- Whether the prompt shows, the shell is quiet and it owns the foreground. -/
def promptReady (foreground : Option SubprocessTerminalForeground) : Bool :=
  s.promptSeen && s.promptTextSeen && decide (s.config.pollIntervalMs ≤ s.now - s.lastOutputAt) &&
    decide (foreground.map (·.processGroupId) = s.shellPgid)

def startupHasOutput : Bool := !s.initializing || !s.scrollback.value.units.isEmpty

/-- Whether the output has been silent for long enough; a prompt candidate is given more time. -/
def idle : Bool :=
  s.startupHasOutput &&
    decide (s.config.idleSilenceMs + (if s.promptSeen then s.config.handoffGraceMs else 0)
      ≤ s.now - s.lastOutputAt)

/-- What an inspected foreground says about the readiness of a send. -/
def judge (foreground : Option SubprocessTerminalForeground) : LocalPtySession :=
  if s.active ≠ some i ∨ s.closing ∨ s.interrupting = some i then s
  else
    let s := s.learnShell foreground
    if s.promptReady foreground then s.settleActive .stdinRead false
    else
      match s.operations[i]? with
      | none => s
      | some operation =>
        let observation := operation.observe s.startupHasOutput foreground
        let s := s.update i fun operation =>
          { operation with initialForegroundLeftWait := observation.2.initialForegroundLeftWait }
        if s.config.exactProbeAfterMs ≤ s.now - operation.startedAt ∧ observation.1 then
          s.settleActive .stdinRead false
        else if s.idle then s.settleActive .inferredIdle false
        else s

/-- The inspection of a poll ends. -/
def polled (result : Except Failure (Option SubprocessTerminalForeground)) : LocalPtySession :=
  match result with
  | .ok foreground => (s.judge i foreground).finishPoll
  | .error error =>
    if s.active = some i ∧ !s.closing ∧ s.interrupting ≠ some i then
      (s.failActive error).finishPoll
    else s.finishPoll

/-! ### The write -/

/-- The rest of `beginSend` once its write has ended, or where it writes nothing. -/
def afterWrite : LocalPtySession :=
  match s.operations[i]? with
  | none => s
  | some operation =>
    -- cancellation owns post-write signalling and the release of the slot
    if operation.cancellationRequested then s
    else if s.active = some i ∧ operation.finished then s.clearActive
    else if s.active = some i ∧ !s.closing then { s with pollingReady := some i }.schedulePoll i
    else s

/-- The inspection before the write ends. -/
def inspected (request : TerminalSendRequest)
    (result : Except Failure (Option SubprocessTerminalForeground)) : LocalPtySession :=
  match result with
  | .error error =>
    let ended := s.setStage i .over
    if s.active = some i ∧ !s.closing ∧ s.interrupting ≠ some i then ended.failActive error
    else ended
  | .ok foreground =>
    if s.active ≠ some i ∨ s.closing ∨ s.interrupting = some i then s.setStage i .over
    else
      let seen := s.update i fun operation => operation.setInitialForeground foreground
      let cancelled := s.operations[i]?.any (·.cancellationRequested)
      if !request.input.units.isEmpty ∧ !cancelled then
        ({ seen.resetReadinessEvidence with activeWrite := some i }.setStage i .writing).happen
          (.wrote i request.input)
      else (seen.setStage i .over).afterWrite i

/-- The provider's write ends. -/
def written (result : Except Failure Unit) : LocalPtySession :=
  let ended := { s with
    activeWrite := none
    interrupts := s.interrupts.map (Interrupt.drain i result.isOk) }.setStage i .over
  match result with
  | .ok () => ended.afterWrite i
  | .error error =>
    if s.active = some i ∧ !s.closing then
      if s.operations[i]?.any (·.finished) then ended.clearActive else ended.failActive error
    else ended

/-! ### Cancellation -/

/-- An interrupt waits for the write that is in flight before it signals. -/
def interruptPhase : InterruptPhase :=
  match s.activeWrite with
  | some write => .draining write
  | none => .signalling

def interrupt : LocalPtySession :=
  if s.active ≠ some i then s
  else
    { s.stopReadinessPolling with
      interrupting := some i
      interrupts := ⟨i, s.interruptPhase⟩ :: s.interrupts }

/-- `cancel()` of a send. -/
def cancel : LocalPtySession :=
  match s.operations[i]? with
  | none => s
  | some operation =>
    if operation.finished then s
    else
      ((s.update i fun operation =>
        { operation with cancellationRequested := true }).happen (.cancelled i)).interrupt i

/-- `finally` of an interrupt. -/
def leaveInterrupt : LocalPtySession :=
  { s with interrupting := if s.interrupting = some i then none else s.interrupting }

/-- An interrupt goes on after the write that it waited for. -/
def drained (ok : Bool) : LocalPtySession :=
  let rest := s.interrupts.erase ⟨i, .drained ok⟩
  if ok then { s with interrupts := ⟨i, .signalling⟩ :: rest }
  else { s with interrupts := rest }.leaveInterrupt i

/-- The signal to the foreground ends. -/
def signalled (result : Except Failure Unit) : LocalPtySession :=
  let rest := { s with interrupts := s.interrupts.erase ⟨i, .signalling⟩ }
  match result with
  | .error error =>
    if s.active = some i ∧ !s.closing then (rest.onTransportFailure error).leaveInterrupt i
    else rest.leaveInterrupt i
  | .ok () =>
    let left := rest.leaveInterrupt i
    if s.active = some i ∧ s.operations[i]?.any (·.finished) then left.clearActive
    else if s.active = some i ∧ !s.closing then { left with pollingReady := some i }.schedulePoll i
    else left

/-! ### Output and exit -/

def appendOutput (text : JsString) : LocalPtySession :=
  if text.units.isEmpty then s
  else
    let shown := { s with lastOutputAt := s.now, scrollback := s.scrollback.append text }
    match s.active with
    | none => shown
    | some i => shown.update i fun operation => operation.append text

def onData (chunk : SanitizedChunk) : LocalPtySession :=
  let s := s.appendOutput chunk.text
  let s := if chunk.prompt then { s with promptSeen := true, promptTail := ⟨[]⟩, lastOutputAt := s.now }
    else s
  match chunk.promptTail with
  | some promptTail =>
    if s.promptSeen then
      let remaining := controlledPrompt.units.length + 1 - s.promptTail.units.length
      let tail : JsString :=
        if remaining < promptTail.units.length then controlledPrompt ++ ⟨[0]⟩
        else s.promptTail ++ ⟨promptTail.units.take remaining⟩
      { s with promptTail := tail, promptTextSeen := tail = controlledPrompt }
    else s
  | none => s

def onExit (exitCode : Option Int) (signal : Option JsString) : LocalPtySession :=
  if s.transportFailure.isSome then s
  else { s with statusValue := .exited exitCode signal }.settleActive .sessionExit false

/-! ### Close -/

def close (reason : JsString) : LocalPtySession :=
  let closing := { s with closing := true }.happen .closed
  match s.closePromise with
  | some _ => closing
  | none => { closing.stopPolling with closePromise := some (.terminating reason) }

/-- The termination of the process ends. -/
def terminated (reason : JsString) (result : Except JsString Unit) : LocalPtySession :=
  match result with
  | .ok () => { s.settleActive .sessionExit false with closePromise := some .completing }
  | .error cause => { s with closePromise := none }.failActive (.cleanup reason cause)

/-- `closeOnce` goes on after `completion`. -/
def completed : LocalPtySession :=
  match s.transportFailure with
  | none => { s with closePromise := some .closed }
  | some error => { s with closePromise := none }.failActive error

end LocalPtySession

end Terminal

end Harness
