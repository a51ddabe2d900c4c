-- SUMMARY: The session trace validator of `core/session/src/invariant.ts`: the turn, step and tool-call relations of a log.
import Mathlib.Data.Finset.Erase
import Mathlib.Data.Finset.Insert
import Harness.Session.Surface

namespace Harness

/-- Recovery code for a tool request that never reached a recorded call start. -/
def TOOL_NOT_STARTED : JsString := "TOOL_NOT_STARTED"

/-- Per-session bookkeeping for relational log checks. -/
structure SessionTrace where
  lastSeq : Int
  openTurn : Option Nat
  openStep : Option Nat
  nextTurn : Nat
  nextStep : Nat
  pendingCalls : Finset CallId
  deriving DecidableEq

inductive PendingCallsChange where
  | none
  | add (callId : CallId)
  | delete (callId : CallId)
  | clear

/-- One accepted event's deferred mutation of a committed session trace. -/
structure SessionTraceTransition where
  lastSeq : Int
  openTurn : Option Nat
  openStep : Option Nat
  nextTurn : Nat
  nextStep : Nat
  pendingCalls : PendingCallsChange

namespace SessionTrace

def fresh : SessionTrace where
  lastSeq := -1
  openTurn := none
  openStep := none
  nextTurn := 1
  nextStep := 1
  pendingCalls := ∅

/-- `String(number | null)`. -/
def showOpen : Option Nat → String
  | none => "null"
  | some n => toString n

variable (trace : SessionTrace)

/-- Assert that a step-scoped event names the currently open turn and step. -/
def requireOpenStep (kind : String) (turn step : Nat) : Except String Unit :=
  if trace.openTurn ≠ some turn ∨ trace.openStep ≠ some step then
    .error s!"{kind} names turn {turn}/step {step} but open is turn {showOpen trace.openTurn}/step {showOpen trace.openStep}"
  else .ok ()

/-- The transition of an event that leaves the bookkeeping as it is. -/
def keep (event : SessionEvent) : SessionTraceTransition where
  lastSeq := event.seq
  openTurn := trace.openTurn
  openStep := trace.openStep
  nextTurn := trace.nextTurn
  nextStep := trace.nextStep
  pendingCalls := .none

/-- A result that repair synthesized for a call that never started. -/
def isSyntheticNotStarted (data : ToolResultData) : Bool :=
  data.message.block.isError == some true && data.error.any (·.code == TOOL_NOT_STARTED)

/-- The relational check of one event type, once its seq is in order. -/
def validateData (event : SessionEvent) : Except String SessionTraceTransition :=
  match event.data with
  | .turnStart turn =>
    if trace.openTurn.isSome then
      .error s!"turn/start {turn} while turn {showOpen trace.openTurn} is still open"
    else if turn ≠ trace.nextTurn then
      .error s!"turn/start expected turn {trace.nextTurn}, got {turn}"
    else .ok { trace.keep event with openTurn := some turn, nextStep := 1 }
  | .turnEnd turn _ =>
    if trace.openTurn ≠ some turn then
      .error s!"turn/end {turn} does not match open turn {showOpen trace.openTurn}"
    else if trace.openStep.isSome then
      .error s!"turn/end {turn} while step {showOpen trace.openStep} is still open"
    else .ok { trace.keep event with openTurn := none, nextTurn := trace.nextTurn + 1 }
  | .stepStart turn step =>
    if trace.openTurn ≠ some turn then
      .error s!"step/start in turn {turn} but open turn is {showOpen trace.openTurn}"
    else if trace.openStep.isSome then
      .error s!"step/start {step} while step {showOpen trace.openStep} is still open"
    else if step ≠ trace.nextStep then
      .error s!"step/start expected step {trace.nextStep} in turn {turn}, got {step}"
    else .ok { trace.keep event with openStep := some step }
  | .stepEnd turn step =>
    match trace.requireOpenStep "step/end" turn step with
    | .error e => .error e
    | .ok () =>
      .ok { trace.keep event with
        openStep := none, nextStep := trace.nextStep + 1, pendingCalls := .clear }
  | .assistantChunk turn step _ =>
    (trace.requireOpenStep "assistant/chunk" turn step).map fun _ => trace.keep event
  | .assistantMessage turn step _ _ =>
    (trace.requireOpenStep "assistant/message" turn step).map fun _ => trace.keep event
  | .toolCall turn step callId _ _ =>
    (trace.requireOpenStep "tool/call" turn step).map fun _ =>
      { trace.keep event with pendingCalls := .add callId }
  | .toolResult data =>
    if !event.surfaceOp.any Json.isAppendMarker then
      -- a content rewrite is durable turn work, not a second execution of its call
      if trace.openTurn.isNone then
        .error "tool/result surface replacement appended outside any open turn"
      else .ok (trace.keep event)
    else
      match trace.requireOpenStep "tool/result" data.turn data.step with
      | .error e => .error e
      | .ok () =>
        let callId := data.message.callId
        if callId ∉ trace.pendingCalls ∧ !isSyntheticNotStarted data then
          .error s!"tool/result for {callId} with no prior tool/call in this step"
        else .ok { trace.keep event with pendingCalls := .delete callId }
  | .todoWrite _ | .requestHeader .. | .requestContext _ =>
    if trace.openTurn.isNone then
      .error s!"{event.type} appended outside any open turn (core execution events must be turn-enclosed)"
    else .ok (trace.keep event)
  -- messages, the seed marker and plugin-owned events stand anywhere
  | .userMessage _ | .sessionEndSeed | .inboxSpliced _ | .other .. => .ok (trace.keep event)

/-- Validate one candidate event without mutating the committed trace. -/
def validateEvent (event : SessionEvent) : Except String SessionTraceTransition :=
  if (event.seq : Int) ≤ trace.lastSeq then
    .error s!"seq must strictly increase: saw {event.seq} after {trace.lastSeq}"
  else trace.validateData event

/-- Apply one already-validated transition after its event commits. -/
def applyTransition (transition : SessionTraceTransition) : SessionTrace where
  lastSeq := transition.lastSeq
  openTurn := transition.openTurn
  openStep := transition.openStep
  nextTurn := transition.nextTurn
  nextStep := transition.nextStep
  pendingCalls :=
    match transition.pendingCalls with
    | .none => trace.pendingCalls
    | .add callId => insert callId trace.pendingCalls
    | .delete callId => trace.pendingCalls.erase callId
    | .clear => ∅

/-- Validate one event and commit its transition. -/
def step (event : SessionEvent) : Except String SessionTrace :=
  (trace.validateEvent event).map trace.applyTransition

/-- `seedSession`: the trace of a whole log. -/
def seed : SessionTrace → List SessionEvent → Except String SessionTrace
  | trace, [] => .ok trace
  | trace, event :: rest =>
    match trace.step event with
    | .error e => .error e
    | .ok trace' => seed trace' rest

theorem seed_append (xs ys : List SessionEvent) :
    trace.seed (xs ++ ys) = match trace.seed xs with
      | .error e => .error e
      | .ok trace' => trace'.seed ys := by
  induction xs generalizing trace with
  | nil => rfl
  | cons x xs ih =>
    simp only [List.cons_append, seed]
    cases trace.step x with
    | error e => rfl
    | ok trace' => exact ih trace'

theorem seed_append_ok {trace trace' : SessionTrace} {xs ys : List SessionEvent} :
    trace.seed (xs ++ ys) = .ok trace' ↔
      ∃ middle, trace.seed xs = .ok middle ∧ middle.seed ys = .ok trace' := by
  rw [seed_append]
  cases trace.seed xs with
  | error e => simp
  | ok middle => simp

variable {event : SessionEvent}

theorem seed_snoc_ok {trace trace' : SessionTrace} {xs : List SessionEvent} :
    trace.seed (xs ++ [event]) = .ok trace' ↔
      ∃ middle, trace.seed xs = .ok middle ∧ middle.step event = .ok trace' := by
  rw [seed_append_ok]
  refine exists_congr fun middle => and_congr_right fun _ => ?_
  simp only [seed]
  cases middle.step event <;> simp

variable {kind : String} {turn step : Nat}

theorem requireOpenStep_ok {trace : SessionTrace} : trace.requireOpenStep kind turn step = .ok () ↔
      trace.openTurn = some turn ∧ trace.openStep = some step := by
  unfold requireOpenStep
  split
  · rename_i h
    simp only [reduceCtorEq, false_iff, not_and]
    intro hturn hstep
    rcases h with h | h
    · exact h hturn
    · exact h hstep
  · rename_i h
    simpa using h

/-! ## What one event does -/

/-- The trace after an event that is `event`'s only mark on it is its seq. -/
def advance (event : SessionEvent) : SessionTrace :=
  { trace with lastSeq := event.seq }

/-- The turn and step an event names are open. -/
def Open (turn step : Nat) : Prop :=
  trace.openTurn = some turn ∧ trace.openStep = some step

/-- Everything an accepted event requires of the trace and does to it. -/
def Accepts (t : SessionTrace) (event : SessionEvent) (t' : SessionTrace) : Prop :=
  match event.data with
  | .turnStart turn => t.openTurn = none ∧ turn = t.nextTurn ∧
      t' = { t.advance event with openTurn := some turn, nextStep := 1 }
  | .turnEnd turn _ => t.openTurn = some turn ∧ t.openStep = none ∧
      t' = { t.advance event with openTurn := none, nextTurn := t.nextTurn + 1 }
  | .stepStart turn step => t.openTurn = some turn ∧ t.openStep = none ∧ step = t.nextStep ∧
      t' = { t.advance event with openStep := some step }
  | .stepEnd turn step => t.Open turn step ∧
      t' = { t.advance event with
        openStep := none, nextStep := t.nextStep + 1, pendingCalls := ∅ }
  | .assistantChunk turn step _ => t.Open turn step ∧ t' = t.advance event
  | .assistantMessage turn step _ _ => t.Open turn step ∧ t' = t.advance event
  | .toolCall turn step callId _ _ => t.Open turn step ∧
      t' = { t.advance event with pendingCalls := insert callId t.pendingCalls }
  | .toolResult data =>
    if event.surfaceOp.any Json.isAppendMarker then
      t.Open data.turn data.step ∧
        (data.message.callId ∈ t.pendingCalls ∨ isSyntheticNotStarted data = true) ∧
        t' = { t.advance event with pendingCalls := t.pendingCalls.erase data.message.callId }
    else t.openTurn.isSome ∧ t' = t.advance event
  | .todoWrite _ | .requestHeader .. | .requestContext _ => t.openTurn.isSome ∧ t' = t.advance event
  | .userMessage _ | .sessionEndSeed | .inboxSpliced _ | .other .. => t' = t.advance event

variable {f : SessionTraceTransition} {t t' : SessionTrace}

theorem commit_ok :
    (Except.ok f : Except String _).map t.applyTransition = .ok t' ↔ t' = t.applyTransition f := by
  simp only [Except.map, Except.ok.injEq]
  exact eq_comm

/-- The events that need their step open, and no more. -/
theorem commit_open {k : Except String SessionTraceTransition} :
    (match t.requireOpenStep kind turn step with
      | .error e => .error e
      | .ok () => k : Except String SessionTraceTransition).map t.applyTransition = .ok t' ↔
      t.Open turn step ∧ k.map t.applyTransition = .ok t' := by
  cases hopen : t.requireOpenStep kind turn step with
  | error e =>
    have hnot : ¬ t.Open turn step := fun h => by
      rw [requireOpenStep_ok.mpr h] at hopen
      cases hopen
    simp [Except.map, hnot]
  | ok u =>
    have h : t.Open turn step := requireOpenStep_ok.mp hopen
    simp only [h, true_and]

theorem map_requireOpenStep {t : SessionTrace} :
    (t.requireOpenStep kind turn step).map (fun _ => f) =
      match t.requireOpenStep kind turn step with
      | .error e => .error e
      | .ok () => .ok f := by
  cases t.requireOpenStep kind turn step <;> rfl

/-- The events that need a turn around them, and no more. -/
theorem commit_enclosed {e : String} :
    (if t.openTurn.isNone then .error e else .ok f : Except String _).map t.applyTransition = .ok t' ↔
      t.openTurn.isSome = true ∧ t' = t.applyTransition f := by
  cases t.openTurn with
  | none => simp [Except.map]
  | some turn => simpa using commit_ok

theorem validateData_ok_iff :
    (t.validateData event).map t.applyTransition = .ok t' ↔ t.Accepts event t' := by
  unfold validateData Accepts
  cases hdata : event.data with
  | turnStart turn =>
    simp only
    cases hturn : t.openTurn with
    | some open_ => simp [Except.map]
    | none =>
      by_cases hnext : turn = t.nextTurn
      · simp only [hnext, Option.isSome_none, Bool.false_eq_true, if_false, ne_eq,
          not_true_eq_false, true_and]
        exact commit_ok
      · simp [hnext, Except.map]
  | turnEnd turn reason =>
    simp only
    by_cases hturn : t.openTurn = some turn
    · cases hstep : t.openStep with
      | some step => simp [hturn, Except.map]
      | none =>
        simp only [hturn, Option.isSome_none, Bool.false_eq_true, if_false, ne_eq,
          not_true_eq_false, true_and]
        exact commit_ok
    · simp [hturn, Except.map]
  | stepStart turn step =>
    simp only
    by_cases hturn : t.openTurn = some turn
    · cases hstep : t.openStep with
      | some open_ => simp [hturn, Except.map]
      | none =>
        by_cases hnext : step = t.nextStep
        · simp only [hturn, hnext, Option.isSome_none, Bool.false_eq_true, if_false, ne_eq,
            not_true_eq_false, true_and]
          exact commit_ok
        · simp [hturn, hnext, Except.map]
    · simp [hturn, Except.map]
  | stepEnd turn step => exact commit_open.trans (and_congr_right fun _ => commit_ok)
  | assistantChunk turn step chunk =>
    simp only [map_requireOpenStep]
    exact commit_open.trans (and_congr_right fun _ => commit_ok)
  | assistantMessage turn step message usage =>
    simp only [map_requireOpenStep]
    exact commit_open.trans (and_congr_right fun _ => commit_ok)
  | toolCall turn step callId name arguments =>
    simp only [map_requireOpenStep]
    exact commit_open.trans (and_congr_right fun _ => commit_ok)
  | toolResult data =>
    simp only
    cases hop : event.surfaceOp.any Json.isAppendMarker with
    | false => exact commit_enclosed
    | true =>
      simp only [Bool.not_true, Bool.false_eq_true, if_false, if_true]
      refine commit_open.trans (and_congr_right fun _ => ?_)
      by_cases hcall : data.message.callId ∈ t.pendingCalls ∨ isSyntheticNotStarted data = true
      · have hmiss : ¬ (data.message.callId ∉ t.pendingCalls ∧
            (!isSyntheticNotStarted data) = true) := by
          rintro ⟨habsent, hreal⟩
          rcases hcall with hcall | hcall
          · exact habsent hcall
          · simp [hcall] at hreal
        rw [if_neg hmiss]
        simp only [hcall, true_and]
        exact commit_ok
      · have hmiss : data.message.callId ∉ t.pendingCalls ∧
            (!isSyntheticNotStarted data) = true := by
          simpa [not_or] using hcall
        rw [if_pos hmiss]
        simp [Except.map, hcall]
  | todoWrite todos => exact commit_enclosed
  | requestHeader header reason => exact commit_enclosed
  | requestContext context => exact commit_enclosed
  | userMessage message => exact commit_ok
  | sessionEndSeed => exact commit_ok
  | inboxSpliced splice => exact commit_ok
  | other type data merged => exact commit_ok

theorem step_ok_iff : t.step event = .ok t' ↔ t.lastSeq < event.seq ∧ t.Accepts event t' := by
  unfold step validateEvent
  by_cases hseq : (event.seq : Int) ≤ t.lastSeq
  · rw [if_pos hseq]
    simp only [Except.map, reduceCtorEq, false_iff, not_and]
    omega
  · rw [if_neg hseq, validateData_ok_iff]
    simp only [Int.not_le.mp hseq, true_and]

end SessionTrace

end Harness
