-- SUMMARY: Every interleaving of sends, cancels, timers, provider calls, output, exit and close of a PTY session, and what the send protocol promises of it.
import Harness.Terminal.Session
import Harness.Lib.Chronicle
import Harness.Lib.Transitions

namespace Harness

namespace Terminal

open Transitions

/-! ## Events -/

inductive Event where
  | tick (ms : Nat)
  | startSend (request : TerminalSendRequest)
  /-- `initialize` starts its send, and later goes on once that has settled. -/
  | initialize_ (signal : Option Bool)
  | initialized
  | cancel (send : Nat)
  /-- The caller's signal aborts. -/
  | abort (send : Nat)
  | deadline
  | pollTimer
  | inspected (send : Nat) (result : Except Failure (Option SubprocessTerminalForeground))
  | written (send : Nat) (result : Except Failure Unit)
  | drained (send : Nat) (ok : Bool)
  | signalled (send : Nat) (result : Except Failure Unit)
  | polled (result : Except Failure (Option SubprocessTerminalForeground))
  | data (chunk : SanitizedChunk)
  | outputEnd (chunk : SanitizedChunk) (flushed : JsString)
  | outputError (error : Failure)
  | exit (exitCode : Option Int) (signal : Option JsString)
  | exitObserved
  | doneRejected (error : Failure)
  | close (reason : JsString)
  | terminated (result : Except JsString Unit)
  | completed

namespace LocalPtySession

variable (s : LocalPtySession)

/-- The stage of a send's `beginSend`. -/
def stage (i : Nat) : Option BeginSend := s.operations[i]?.map (·.stage)

/-- One synchronous stretch; `none` where nothing is there to go on, or where a send is refused. -/
def step : Event → Option LocalPtySession
  | .tick ms => some { s with now := s.now + ms }
  | .startSend request => (s.startSend request).toOption
  | .initialize_ signal =>
    let initializing := { s with initializing := true }
    (initializing.startSend { text := ⟨[]⟩, submit := false, signal }).toOption.map
      fun started => { started with startup := started.active }
  | .initialized =>
    match s.startup with
    | none => none
    | some i =>
      if s.operations[i]?.any (·.finished) then
        some { s with initializing := false, startup := none }
      else none
  | .cancel i => if i < s.operations.length then some (s.cancel i) else none
  | .abort i => if s.activeAbort = some i then some (s.cancel i) else none
  | .deadline =>
    s.activeDeadlineTimer.map fun i =>
      let fired := { s with activeDeadlineTimer := none }
      if s.active = some i then
        fired.settleActive .timeout (s.activeWrite.isSome || s.interrupting = some i)
      else fired
  | .pollTimer => s.activeTimer.map fun i => { s with activeTimer := none }.pollReadiness i
  | .inspected i result =>
    match s.stage i with
    | some (.inspecting request) => some (s.inspected i request result)
    | _ => none
  | .written i result => if s.stage i = some .writing then some (s.written i result) else none
  | .drained i ok => if ⟨i, .drained ok⟩ ∈ s.interrupts then some (s.drained i ok) else none
  | .signalled i result => if ⟨i, .signalling⟩ ∈ s.interrupts then some (s.signalled i result) else none
  | .polled result => s.polling.map fun i => s.polled i result
  | .data chunk => some (s.onData chunk)
  | .outputEnd chunk flushed => some { (s.onData chunk).appendOutput flushed with outputEnded := true }
  | .outputError error => some { s.onTransportFailure error with outputEnded := true }
  | .exit exitCode signal => some { s with exited := some (exitCode, signal) }
  | .exitObserved =>
    match s.exited with
    | some (exitCode, signal) =>
      if s.outputEnded then some { s.onExit exitCode signal with exited := none, completion := true }
      else none
    | none => none
  | .doneRejected error => some { s.onTransportFailure error with completion := true }
  | .close reason => some (s.close reason)
  | .terminated result =>
    match s.closePromise with
    | some (.terminating reason) => some (s.terminated reason result)
    | _ => none
  | .completed =>
    if s.closePromise = some .completing ∧ s.completion then some s.completed else none

end LocalPtySession

/-! ## What is promised -/

/-- What an entry of the log promises of the entries before it: a send settles once; its input is
written once, neither cancelled nor closed before. -/
def Fits : Happening → List Happening → Prop
  | .accepted i _, before => ∀ request, .accepted i request ∉ before
  | .wrote i input, before =>
    (∃ request, .accepted i request ∈ before ∧ input = request.input) ∧
      (∀ input, .wrote i input ∉ before) ∧ .cancelled i ∉ before ∧ .settled i ∉ before ∧
      .closed ∉ before
  | .cancelled i, before => .settled i ∉ before
  | .settled i, before => (∃ request, .accepted i request ∈ before) ∧ .settled i ∉ before
  | .closed, _ => True

namespace LocalPtySession

/-- The session runs and is not closing: it may accept sends, now or later. -/
def IsOpen (s : LocalPtySession) : Prop := s.statusValue = .running ∧ s.closing = false

/-- What a session waits for. -/
inductive Due where
  | deadline
  | write (send : Nat)
  | drain (send : Nat) (ok : Bool)
  | signal (send : Nat)
  | termination

/-- The ways in which what a session waits for can come. -/
def Due.Ends : Due → Event → Prop
  | .deadline, .deadline => True
  | .write i, .written j _ => i = j
  | .drain i ok, .drained j ok' => i = j ∧ ok = ok'
  | .signal i, .signalled j _ => i = j
  | .termination, .terminated _ => True
  | _, _ => False

/-- What the protocol promises in every state. -/
structure Protocol (s : LocalPtySession) : Prop where
  /-- A send that has not settled holds the session. -/
  exclusive : ∀ i operation, s.operations[i]? = some operation → operation.finished = false →
    s.active = some i
  /-- The log tells of every send and of every settlement. -/
  accepted : ∀ i, i < s.operations.length ↔ ∃ request, .accepted i request ∈ s.log
  settled : ∀ i, .settled i ∈ s.log ↔ s.operations[i]?.any (·.finished) = true
  lawful : Chronicle.Lawful Fits s.log
  /-- The send that holds the session will be released. -/
  released : ∀ i, s.active = some i →
    Eventually LocalPtySession.step Due.Ends (fun s' => s'.active ≠ some i) s

/-- No signal and no write of a send is in flight when the session accepts another one. -/
def Undisturbed (s : LocalPtySession) : Prop :=
  ∀ request s', s.startSend request = .ok s' →
    (∀ i, s.stage i ≠ some .writing) ∧ ∀ interrupt ∈ s.interrupts, interrupt.phase = .drained false

/-- A send is not cancelled while an earlier cancellation of it is still being carried out. -/
def Calm (s : LocalPtySession) : Event → Prop
  | .cancel i | .abort i => s.interrupting ≠ some i
  | _ => True

end LocalPtySession

end Terminal

end Harness
