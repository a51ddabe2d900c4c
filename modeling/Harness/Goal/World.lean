-- SUMMARY: One session's goal service among its listeners: the steps of a call and of everything that runs between them, and the cache that is the fold of the log once it is synced.
import Harness.Goal.FoldContract
import Harness.Goal.Service

/-!
# The goal service at work

An append is under way from the session's dispatch hooks to its observers, and no other append
can start meanwhile. Whatever a listener does is a step of its own, taken between two steps of
the call it listens to.
-/

namespace Harness

/-! ## State -/

/-- A mutation under way. `appended` counts the events it has put into the log. -/
structure GoalCall where
  request : GoalRequest
  change : GoalChange
  appended : Nat

/-- An append under way: of the service itself, or of someone else. -/
structure GoalAppend where
  event : SessionEvent
  own : Option GoalCall
  pushed : Bool

/-- How a mutation ended, and how many events it appended. -/
structure GoalOutcome where
  request : GoalRequest
  appended : Nat
  result : Except GoalThrow GoalReply

structure GoalWorld where
  log : List SessionEvent
  cache : Option GoalCache
  publication : Option GoalAppend
  /-- The calls whose `goal/changed` listeners run, innermost first. -/
  listening : List GoalCall
  /-- Ghost: a create or resume of this process has taken effect, and neither a session start,
  a disarm, another mutation but an edit, nor a change by someone else has followed. -/
  authority : Bool
  /-- Ghost: the mutations that ended, newest first. -/
  settled : List GoalOutcome

/-- The registered agent that a caller holds: its id, and whether the registry has this very
instance. -/
structure GoalCaller where
  id : JsString
  live : Bool

namespace GoalWorld

def opened (log : List SessionEvent) : GoalWorld where
  log := log
  cache := none
  publication := none
  listening := []
  authority := false
  settled := []

/-! ## Reads -/

/-- Enforce exact live-agent identity rather than trusting a matching id. -/
def assertLive (caller : GoalCaller) : Except GoalThrow Unit :=
  if caller.live then .ok ()
  else .error (.goalError s!"agent \"{caller.id}\" is not live in this registry" .agentNotLive)

variable (w : GoalWorld)

/-- The per-session cache, built from the log when there is none. -/
def cached : Except String GoalCache :=
  match w.cache with
  | some cache => .ok cache
  | none => GoalCache.fresh w.log

/-- The cache after a sync, which also keeps what a failed sync got through. -/
def synced : Except GoalThrow GoalCache × GoalWorld :=
  match w.cached with
  | .error e => (.error (.error e), w)
  | .ok cache =>
    match cache.sync w.log with
    | (.error e, cache) => (.error (.error e), { w with cache := some cache })
    | (.ok (), cache) => (.ok cache, { w with cache := some cache })

/-- Read the current goal. -/
def get (caller : GoalCaller) : Except GoalThrow (Option GoalView) × GoalWorld :=
  match assertLive caller with
  | .error e => (.error e, w)
  | .ok () =>
    match w.synced with
    | (.error e, w) => (.error e, w)
    | (.ok cache, w) => (cache.view, w)

/-- Remove process-local continuation authority. -/
def disarm (caller : GoalCaller) : Except GoalThrow (Option GoalView) × GoalWorld :=
  match assertLive caller with
  | .error e => (.error e, w)
  | .ok () =>
    match w.synced with
    | (.error e, w) => (.error e, w)
    | (.ok cache, w) =>
      let cache := { cache with activation := .disarmed }
      (cache.view, { w with cache := some cache, authority := false })

/-- The listener of `agent/session-start`. -/
def sessionStart : GoalWorld :=
  match w.cached with
  | .error _ => w
  | .ok cache => { w with cache := some { cache with activation := .disarmed }, authority := false }

/-! ## A mutation -/

def settle (request : GoalRequest) (appended : Nat)
    (result : Except GoalThrow GoalReply) : GoalWorld :=
  { w with settled := ⟨request, appended, result⟩ :: w.settled }

/-- The start of `commit`: record the activation intent and enter the session's append. -/
def commit (request : GoalRequest) (cache : GoalCache) (intent : GoalIntent)
    (time : Int) : GoalWorld :=
  match w.publication with
  | some _ =>
    { w with cache := some { cache with pendingActivation := none } }.settle request 0
      (.error (.error "session append cannot reenter while another append is being published"))
  | none =>
    { w with
      cache := some { cache with
        pendingActivation := some { seq := w.log.length, activation := intent.activation } }
      publication := some {
        event := { seq := w.log.length, time, data := intent.change.eventData }
        own := some { request, change := intent.change, appended := 0 }
        pushed := false } }

/-- A mutation up to the session's append. -/
def request (w : GoalWorld) (config : GoalServiceConfig) (caller : GoalCaller)
    (request : GoalRequest) (time : Int) : GoalWorld :=
  match request.check config with
  | .error e => w.settle request 0 (.error e)
  | .ok () =>
    match assertLive caller with
    | .error e => w.settle request 0 (.error e)
    | .ok () =>
      match w.synced with
      | (.error e, w) => w.settle request 0 (.error e)
      | (.ok cache, w) =>
        match request.plan config cache with
        | .error e => w.settle request 0 (.error e)
        | .ok intent => w.commit request cache intent time

/-- Forget the activation intent. -/
def clearPending : GoalWorld :=
  { w with cache := w.cache.map fun cache => { cache with pendingActivation := none } }

/-- The append is refused before the log grows. -/
def veto (publication : GoalAppend) (message : String) : GoalWorld :=
  match publication.own with
  | none => { w with publication := none }
  | some call =>
    { w with publication := none }.clearPending.settle call.request call.appended
      (.error (.error message))

/-- What a change of the service makes of the authority to continue. -/
def authorityAfter (authority : Bool) : GoalOperation → Bool
  | .snapshot .create => true
  | .snapshot .resume => true
  | .snapshot .edit => authority
  | _ => false

/-- The log grows. -/
def push (publication : GoalAppend) : GoalWorld :=
  { w with
    log := w.log ++ [publication.event]
    publication := some { publication with
      own := publication.own.map fun call => { call with appended := call.appended + 1 }
      pushed := true }
    authority :=
      match publication.own with
      | some call => authorityAfter w.authority call.change.operation
      | none => w.authority && publication.event.type ≠ goalChangeType }

/-- The append returns; the service observes its own event and tells its listeners. -/
def finish (publication : GoalAppend) : GoalWorld :=
  match publication.own with
  | none => { w with publication := none }
  | some call =>
    match { w with publication := none }.synced with
    | (.error e, w) => w.clearPending.settle call.request call.appended (.error e)
    | (.ok cache, w) =>
      match cache.view with
      | .error e => w.clearPending.settle call.request call.appended (.error e)
      | .ok _ => { w.clearPending with listening := call :: w.listening }

/-- The listeners of `goal/changed` are done and the call returns. -/
def finishCall (call : GoalCall) (rest : List GoalCall) : GoalWorld :=
  let w := { w with listening := rest }
  match call.change with
  | .clear cleared _ => w.settle call.request call.appended (.ok (.ref cleared))
  | .snapshot _ =>
    match w.cached with
    | .error e => w.settle call.request call.appended (.error (.error e))
    | .ok cache =>
      match cache.view with
      | .error e => w.settle call.request call.appended (.error e)
      | .ok none =>
        w.settle call.request call.appended
          (.error (.error "snapshot commit cleared the goal unexpectedly"))
      | .ok (some view) => w.settle call.request call.appended (.ok (.view view))

end GoalWorld

/-! ## Steps -/

/-- What can happen next. -/
inductive GoalAction where
  | get (caller : GoalCaller)
  | disarm (caller : GoalCaller)
  | sessionStart
  | request (caller : GoalCaller) (request : GoalRequest) (time : Int)
  /-- Someone else starts to append an event. -/
  | foreign (data : EventData) (time : Int) (surfaceOp sourceEventSeqs : Option Json)
  | veto (message : String)
  | push
  | finish
  | finishCall

/-- How many elements an array can hold. -/
def maxArrayLength : Nat := 2 ^ 32 - 1

/-- One step. Events of others are ones that the fold of the log admits. -/
def GoalWorld.step (config : GoalServiceConfig) (w : GoalWorld) : GoalAction → Option GoalWorld
  | .get caller => some (w.get caller).2
  | .disarm caller => some (w.disarm caller).2
  | .sessionStart => some w.sessionStart
  | .request caller request time => some (w.request config caller request time)
  | .foreign data time surfaceOp sourceEventSeqs =>
    let event : SessionEvent := { seq := w.log.length, time, data, surfaceOp, sourceEventSeqs }
    match w.publication, foldGoalEvents (w.log ++ [event]) with
    | none, .ok _ => some { w with publication := some { event, own := none, pushed := false } }
    | _, _ => none
  | .veto message =>
    match w.publication with
    | some publication => if publication.pushed then none else some (w.veto publication message)
    | none => none
  | .push =>
    match w.publication with
    | some publication =>
      if publication.pushed || maxArrayLength ≤ w.log.length then none
      else some (w.push publication)
    | none => none
  | .finish =>
    match w.publication with
    | some publication => if publication.pushed then some (w.finish publication) else none
    | none => none
  | .finishCall =>
    -- the listeners' own appends have returned before
    match w.publication, w.listening with
    | none, call :: rest => some (w.finishCall call rest)
    | _, _ => none

end Harness

namespace Harness

open List

/-! ## Observing events -/

namespace GoalCache

variable {cache : GoalCache} {log events : List SessionEvent} {state : GoalFoldState}

/-- The activation once the events are observed. -/
def activationOver (cache : GoalCache) (events : List SessionEvent) : GoalActivation :=
  events.foldl (fun activation event => { cache with activation }.activationAfter event)
    cache.activation

@[simp] theorem activationOver_nil : cache.activationOver [] = cache.activation := rfl

theorem activationOver_snoc (event : SessionEvent) : cache.activationOver (events ++ [event])
    = { cache with activation := cache.activationOver events }.activationAfter event := by
  simp [activationOver]

/-- The fold of the events and the activation over them are what observing leaves. -/
theorem observe_ok (h : events.foldlM applyGoalEvent cache.state = .ok state) :
    cache.observe events = (.ok (), { cache with
      state, activation := cache.activationOver events
      observedSeq := cache.observedSeq + events.length }) := by
  induction events generalizing cache with
  | nil =>
    cases h
    rfl
  | cons event rest ih =>
    rw [foldlM_cons] at h
    obtain ⟨next, hnext, hrest⟩ := Except.bind_eq_ok.mp h
    have hobserve := @ih { cache with
      state := next, activation := cache.activationAfter event
      observedSeq := cache.observedSeq + 1 } hrest
    simp only [observe, hnext, hobserve, activationOver, foldl_cons, length_cons,
      Nat.add_assoc, Nat.add_comm 1]
    rfl

/-- The cache is the fold of what it has observed. -/
structure Tracks (cache : GoalCache) (log : List SessionEvent) : Prop where
  le : cache.observedSeq ≤ log.length
  folded : foldGoalEvents (log.take cache.observedSeq) = .ok cache.state

theorem Tracks.sync_ok (h : cache.Tracks log) (hlog : foldGoalEvents log = .ok state) :
    cache.sync log = (.ok (), { cache with
      state, activation := cache.activationOver (log.drop cache.observedSeq)
      observedSeq := log.length }) := by
  have hrest : (log.drop cache.observedSeq).foldlM applyGoalEvent cache.state = .ok state := by
    have hsplit : foldGoalEvents (log.take cache.observedSeq ++ log.drop cache.observedSeq)
        = .ok state := by rw [take_append_drop, hlog]
    rw [foldGoalEvents, foldlM_append] at hsplit
    obtain ⟨before, hbefore, hafter⟩ := Except.bind_eq_ok.mp hsplit
    cases h.folded.symm.trans hbefore
    exact hafter
  have hlen : cache.observedSeq + (log.length - cache.observedSeq) = log.length :=
    Nat.add_sub_cancel' h.le
  rw [sync, observe_ok hrest, length_drop, hlen]

/-- An intent for none of the events leaves no trace. -/
theorem activationOver_clear
    (h : ∀ pending, cache.pendingActivation = some pending →
      ∀ event ∈ events, event.seq ≠ pending.seq) :
    { cache with pendingActivation := none }.activationOver events = cache.activationOver events := by
  induction events using List.reverseRecOn with
  | nil => rfl
  | append_singleton events event ih =>
    have hbefore := ih fun pending hpending event hevent =>
      h pending hpending event (mem_append_left _ hevent)
    rw [activationOver_snoc, activationOver_snoc, hbefore]
    simp only [activationAfter]
    cases hpending : cache.pendingActivation with
    | none => rfl
    | some pending =>
      have hne : pending.seq ≠ event.seq := fun heq =>
        h pending hpending event (by simp) heq.symm
      simp [hne]

/-- Nothing arms a cache but an armed intent for one of the events. -/
theorem activationOver_disarmed (hactivation : cache.activation = .disarmed)
    (h : ∀ pending, cache.pendingActivation = some pending → pending.activation = .armed →
      ∀ event ∈ events, event.seq ≠ pending.seq) :
    cache.activationOver events = .disarmed := by
  induction events using List.reverseRecOn with
  | nil => exact hactivation
  | append_singleton events event ih =>
    have hbefore := ih fun pending hpending harmed event hevent =>
      h pending hpending harmed event (mem_append_left _ hevent)
    rw [activationOver_snoc, hbefore]
    simp only [activationAfter]
    split
    · split
      · rename_i pending hpending
        split
        · rename_i hseq
          cases harmed : pending.activation with
          | disarmed => rfl
          | armed => exact absurd hseq.symm (h pending hpending harmed event (by simp))
        · rfl
      · rfl
    · rfl

end GoalCache

/-! ## The cache of a session -/

namespace GoalWorld

variable {w : GoalWorld} {state : GoalFoldState}

/-- The activation that a sync leaves. -/
def activation (w : GoalWorld) : GoalActivation :=
  match w.cache with
  | none => .disarmed
  | some cache => cache.activationOver (w.log.drop cache.observedSeq)

/-- The fold state and the activation as the service sees them. -/
def observed (w : GoalWorld) : Except GoalThrow (GoalFoldState × GoalActivation) :=
  w.synced.1.map fun cache => (cache.state, cache.activation)

/-- The cache a sync leaves where the log is accepted. -/
def upToDate (w : GoalWorld) (state : GoalFoldState) : GoalCache where
  state := state
  activation := w.activation
  observedSeq := w.log.length
  pendingActivation := w.cache.bind (·.pendingActivation)

theorem synced_ok (htracks : ∀ cache, w.cache = some cache → cache.Tracks w.log)
    (hlog : foldGoalEvents w.log = .ok state) :
    w.synced = (.ok (w.upToDate state), { w with cache := some (w.upToDate state) }) := by
  cases hcache : w.cache with
  | none =>
    have hfresh : GoalCache.fresh w.log = .ok (w.upToDate state) := by
      simp [GoalCache.fresh, hlog, upToDate, activation, hcache, Except.map]
    have htracks' : (w.upToDate state).Tracks w.log :=
      ⟨le_rfl, by simpa [upToDate] using hlog⟩
    have hsync : (w.upToDate state).sync w.log = (.ok (), w.upToDate state) := by
      rw [htracks'.sync_ok hlog]
      simp [upToDate]
    simp only [synced, cached, hcache, hfresh, hsync]
  | some cache =>
    have hsync := (htracks cache hcache).sync_ok hlog
    simp only [synced, cached, hcache, hsync]
    simp [upToDate, activation, hcache]

theorem observed_ok (htracks : ∀ cache, w.cache = some cache → cache.Tracks w.log)
    (hlog : foldGoalEvents w.log = .ok state) : w.observed = .ok (state, w.activation) := by
  simp only [observed, synced_ok htracks hlog]
  rfl

theorem upToDate_tracks (hlog : foldGoalEvents w.log = .ok state) :
    (w.upToDate state).Tracks w.log :=
  ⟨le_rfl, by simpa [upToDate] using hlog⟩

/-- A synced cache has nothing left to observe. -/
theorem activation_of_observed {cache : GoalCache} (hcache : w.cache = some cache)
    (hobserved : cache.observedSeq = w.log.length) : w.activation = cache.activation := by
  simp [activation, hcache, hobserved]

end GoalWorld

end Harness
