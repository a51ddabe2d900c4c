-- SUMMARY: Plan mode of one session, from `plan/plan-mode/src/index.ts`: the folds of its log, the controller, and the steps of everything around it.
import Harness.Json.Utf8
import Harness.Lib.Transitions

/-!
# Plan mode

The mode in force is folded from the log. What the user has selected but no step has applied
yet is kept twice: the controller holds an intent in memory, and the `plan` projection folds
the logged commands.
-/

namespace Harness

/-- What the plan code reads of a logged event. -/
inductive PlanEvent where
  | planMode (active : Bool)
  | commandRun (name : JsString) (args : Option JsString)
  | turnStart
  | turnEnd
  | requestHeader
  | other
  deriving DecidableEq

/-! ## Folds of the log -/

def PlanEvent.applyMode (active : Bool) : PlanEvent → Bool
  | .planMode next => next
  | _ => active

variable (events : List PlanEvent)

/-- Whether plan mode is active after the given events; the last `plan/mode` wins. -/
def foldPlanMode : Bool :=
  events.foldl PlanEvent.applyMode false

def PlanEvent.applyTurn (opened : Bool) : PlanEvent → Bool
  | .turnStart => true
  | .turnEnd => false
  | _ => opened

/-- Whether the log holds an opened turn without its closing `turn/end`. -/
def hasOpenTurn : Bool :=
  events.foldl PlanEvent.applyTurn false

/-- The number of events up to the last request header, that header included. -/
def throughLastHeader : Option Nat :=
  (events.reverse.findIdx? (· = .requestHeader)).map fun later => events.length - later

/-- Plan state at the last logged request header, or `none` before the first header. -/
def planModeAtLastHeader : Option Bool :=
  (throughLastHeader events).map fun stop => foldPlanMode (events.take stop)

/-! ### The `plan` projection -/

/-- The logged mode, and the latest logged `/plan` selection that no commit has resolved. -/
structure PlanUnitState where
  active : Bool
  wanted : Option Bool
  deriving DecidableEq

structure PlanProjection where
  active : Bool
  pending : Bool
  deriving DecidableEq

namespace PlanUnitState

def init : PlanUnitState := { active := false, wanted := none }

/-- The mode that the raw input of a `/plan` command selects. -/
def wantedBy (rawInput : JsString) : Bool := rawInput.trim ≠ "off"

def apply (state : PlanUnitState) : PlanEvent → PlanUnitState
  | .commandRun name (some args) =>
    if name = "plan" then { state with wanted := some (wantedBy args) } else state
  | .planMode active => { active, wanted := none }
  | _ => state

def view (state : PlanUnitState) : PlanProjection where
  active := state.active
  pending := state.wanted.any (· ≠ state.active)

end PlanUnitState

def planUnit : PlanUnitState :=
  events.foldl PlanUnitState.apply .init

/-! ## State -/

/-- A selection that awaits the next accepted in-turn pre-step. `narrate` is false for the exit
tool, whose result already narrates the transition. -/
structure PlanIntent where
  active : Bool
  narrate : Bool
  deriving DecidableEq

/-- The guidance in the assembly of a proposed step. Ghost: whether anyone has made a selection
since. -/
structure PlanAssembly where
  guidance : Bool
  reselected : Bool

/-- An accepted step: the guidance sent with it, the mode folded right after its pre-step, whether
the append of that pre-step failed, and whether a selection was made since the assembly. -/
structure PlanStep where
  guidance : Bool
  mode : Bool
  failed : Bool
  reselected : Bool
  deriving DecidableEq

/-- What the agent is handed: a steering message of the user, a notice for its inbox, or a notice
among the messages of a step. -/
inductive PlanMessage where
  | steer (text : JsString)
  | inject (text : JsString)
  | enter (text : JsString)
  deriving DecidableEq

structure PlanWorld where
  events : List PlanEvent
  /-- `pendingIntents.get(session)`. -/
  intent : Option PlanIntent
  /-- The calls of `exit_plan_mode` whose review the user has not answered. -/
  reviews : Nat
  /-- The step that is assembled and whose pre-step has not been decided. -/
  assembly : Option PlanAssembly
  messages : List PlanMessage
  /-- Ghost: what the user has selected by `/plan` and no commit has settled. -/
  selection : Option Bool
  /-- Ghost: the accepted steps, newest first. -/
  steps : List PlanStep

/-- What a selection did. -/
inductive SetOutcome where
  | committed
  | queued
  | cancelled
  | noop
  deriving DecidableEq

/-- What `get` returns. -/
structure PlanStatus where
  active : Bool
  pending : Option Bool
  deriving DecidableEq

namespace PlanWorld

/-- A host that has loaded a session from its log. -/
def resumed (events : List PlanEvent) : PlanWorld where
  events := events
  intent := none
  reviews := 0
  assembly := none
  messages := []
  selection := (planUnit events).wanted
  steps := []

variable (s : PlanWorld)

/-! ## The controller -/

def get : PlanStatus where
  active := foldPlanMode s.events
  pending := s.intent.map (·.active)

/-- The mode that the section text and `set` go by: the selected one, else the logged one. -/
def target : Bool := (s.intent.map (·.active)).getD (foldPlanMode s.events)

def append (event : PlanEvent) : PlanWorld := { s with events := s.events ++ [event] }

/-- A user-switch notice, when the last logged header described the other mode. -/
def narration (target : Bool) : Option JsString :=
  match planModeAtLastHeader s.events with
  | none => none
  | some told =>
    if told = target then none
    else if target then some "The user switched this session to plan mode."
    else some "The user switched this session back to the default mode."

/-- `session.append('plan/mode', { active })`; ghost: the commit settles the user's selection. -/
def commit (active : Bool) : PlanWorld :=
  { s.append (.planMode active) with intent := none, selection := none }

def deliver (message : Option PlanMessage) : PlanWorld :=
  { s with messages := s.messages ++ message.toList }

/-- Select whether plan mode should be active. `none` where the append threw. -/
def set (active logged : Bool) : Option SetOutcome × PlanWorld :=
  if active = s.target then (some .noop, s)
  else if hasOpenTurn s.events then
    (some (if foldPlanMode s.events = active then .cancelled else .queued),
      { s with intent := some { active, narrate := true } })
  else if active = foldPlanMode s.events then (some .cancelled, { s with intent := none })
  else if logged then
    let committed := s.commit active
    (some .committed, committed.deliver ((committed.narration active).map .inject))
  else (none, s)

/-- The handler of `/plan`, and the text it succeeds with. -/
def handlePlan (rawInput : JsString) (logged : Bool) : Option JsString × PlanWorld :=
  let message := rawInput.trim
  if message = "off" then
    let (outcome, s') := s.set false logged
    (outcome.map fun
      | .committed => "Plan mode off."
      | .queued => "Leaving plan mode (applies from the next step)."
      | .cancelled => "Plan mode entry cancelled."
      | .noop =>
        if foldPlanMode s'.events then "Leaving plan mode (applies from the next step)."
        else "Plan mode is already inactive.", s')
  else
    match s.set true logged with
    | (none, s') => (none, s')
    | (some outcome, s') =>
      (some (if outcome = .committed then "Plan mode on. Use /plan off to leave."
        else "Entering plan mode (applies from the next step). Use /plan off to leave."),
        if message = "" then s' else s'.deliver (some (.steer message)))

/-- Ghost: someone has selected a mode. -/
def reselect : PlanWorld :=
  { s with assembly := s.assembly.map fun assembly => { assembly with reselected := true } }

/-- `commands.execute` of a `/plan` line: the run is logged, then the handler runs, then its end is
logged. A run that cannot be logged never reaches the handler. -/
def executePlan (rawInput : JsString) (runLogged modeLogged : Bool) : PlanWorld :=
  if runLogged then
    let ran := s.append (.commandRun "plan" (some rawInput))
    let chosen := { ran.reselect with selection := some (PlanUnitState.wantedBy rawInput) }
    (chosen.handlePlan rawInput modeLogged).2.append .other
  else s

/-- Append one pending selection before the next request assembly. `none` where the append
threw. -/
def onBoundary (logged : Bool) : Option PlanWorld :=
  match s.intent with
  | none => some s
  | some pending =>
    if pending.active = foldPlanMode s.events then some { s with intent := none }
    else if logged then some (s.commit pending.active)
    else none

/-- The `agent/pre-step` listener after an accepted decision, and whether its append failed. -/
def acceptStep (logged : Bool) : PlanWorld × Bool :=
  match s.intent with
  | none => (s, false)
  | some pending =>
    let narration := s.narration pending.active
    match s.onBoundary logged with
    | none => (s, true)
    | some s' =>
      (if pending.narrate then s'.deliver (narration.map .enter) else s', false)

/-! ## Steps -/

inductive Act where
  /-- The user runs `/plan`; whether its run can be logged, and a `plan/mode` of it. -/
  | plan (rawInput : JsString) (runLogged modeLogged : Bool)
  /-- Anything else is logged. -/
  | log (event : PlanEvent)
  | turnStart
  | turnEnd
  /-- A step of the open turn is assembled. -/
  | assemble
  /-- The assembled step is decided on; a `plan/mode` of an accepted one can be logged or not. -/
  | preStep (accepted aborted logged : Bool)
  /-- The model calls `exit_plan_mode`. -/
  | present
  | approve
  | refuse
  /-- The host ends, and another resumes the log. -/
  | restart
  deriving DecidableEq

/-- Whether an event is one of the log's others: no mode, no turn boundary, no `/plan`. -/
def foreign : PlanEvent → Bool
  | .commandRun name _ => name ≠ "plan"
  | .requestHeader | .other => true
  | .planMode _ | .turnStart | .turnEnd => false

def step (s : PlanWorld) : Act → Option PlanWorld
  | .plan rawInput runLogged modeLogged => some (s.executePlan rawInput runLogged modeLogged)
  | .log event => if foreign event then some (s.append event) else none
  | .turnStart => if hasOpenTurn s.events then none else some (s.append .turnStart)
  | .turnEnd =>
    -- A turn waits for the tool calls of its steps.
    if hasOpenTurn s.events && s.reviews = 0 then
      some { s.append .turnEnd with assembly := none }
    else none
  | .assemble =>
    if hasOpenTurn s.events && s.reviews = 0 then
      some { s with assembly := some { guidance := s.target, reselected := false } }
    else none
  | .preStep accepted aborted logged =>
    match s.assembly with
    | none => none
    | some assembly =>
      let decided := { s with assembly := none }
      if accepted && !aborted then
        let (s', failed) := decided.acceptStep logged
        some { s' with
          steps :=
            { guidance := assembly.guidance, mode := foldPlanMode s'.events, failed
              reselected := assembly.reselected } :: s.steps }
      else some decided
  | .present =>
    -- The tools of a step are called after its pre-step.
    if hasOpenTurn s.events && s.assembly.isNone then
      some (if foldPlanMode s.events then { s with reviews := s.reviews + 1 } else s)
    else none
  | .approve =>
    if s.reviews = 0 then none
    else some { s.reselect with
      reviews := s.reviews - 1, intent := some { active := false, narrate := false } }
  | .refuse => if s.reviews = 0 then none else some { s with reviews := s.reviews - 1 }
  | .restart =>
    some { s with intent := none, reviews := 0, assembly := none }

end PlanWorld

end Harness
