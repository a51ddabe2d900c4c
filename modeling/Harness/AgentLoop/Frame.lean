-- SUMMARY: What operations and acts leave alone: the driver's record, the running phase, and the log, which only grows.
import Harness.Agent.InboxReplay
import Harness.AgentLoop.World

namespace Harness

open List Option

/-! ## Sessions between calls -/

namespace Session

theorem planAppend_prepare {s s' : Session} {request : AppendRequest} {candidate : LogEntry}
    (h : s.planAppend request = (.ok candidate, s')) :
    request.prepare s.log.length s.entry.appending = .ok candidate.event := by
  unfold Session.planAppend at h
  cases hprepare : request.prepare s.log.length s.entry.appending with
  | error e =>
    rw [hprepare] at h
    cases h
  | ok event =>
    rw [hprepare] at h
    simp only at h
    split at h
    · cases h
    · cases h
      rfl

theorem publish_eq_step (s : Session) (request : AppendRequest) :
    s.step (.append request [] none []) =
      (.append [] (s.publish request).1 [], (s.publish request).2) := by
  unfold Session.publish
  cases hplan : s.planAppend request with
  | mk result s₁ =>
  cases result with
  | error e => simp only [Session.step, hplan]
  | ok candidate =>
    cases hattached : s₁.entry.isNone with
    | true => simp only [Session.step, hplan, hattached, if_true]
    | false => simp only [Session.step, hplan, hattached, Bool.false_eq_true, if_false, runOps]

/-- A published event is the one that was prepared, and it ends the log. -/
theorem publish_ok {s s' : Session} {request : AppendRequest} {event : SessionEvent}
    (h : s.publish request = (.ok event, s')) :
    request.prepare s.log.length s.entry.appending = .ok event ∧
      LogEntry.events s'.log = LogEntry.events s.log ++ [event] := by
  unfold Session.publish at h
  obtain ⟨hlog, -⟩ := s.planAppend_frame request
  cases hplan : s.planAppend request with
  | mk result s₁ =>
  rw [hplan] at h hlog
  cases result with
  | error e => cases h
  | ok candidate =>
    have hlog : s₁.log = s.log := hlog
    have hevents : LogEntry.events (s₁.log ++ [candidate]) =
        LogEntry.events s.log ++ [candidate.event] := by simp [hlog]
    simp only at h
    split at h
    · cases h
      exact ⟨planAppend_prepare hplan, hevents⟩
    · cases h
      exact ⟨planAppend_prepare hplan, hevents⟩

theorem publish_error {s s' : Session} {request : AppendRequest} {e : String}
    (h : s.publish request = (.error e, s')) : s'.log = s.log := by
  unfold Session.publish at h
  obtain ⟨hlog, -⟩ := s.planAppend_frame request
  cases hplan : s.planAppend request with
  | mk result s₁ =>
  rw [hplan] at h hlog
  cases result with
  | error e =>
    cases h
    exact hlog
  | ok candidate =>
    simp only at h
    split at h <;> cases h

/-! ## Readiness -/

mutual

/-- Outside a publication every call ends outside one. -/
theorem step_listening {s : Session} (h : s.entry.appending = false) (op : SessionOp) :
    (s.step op).2.entry.appending = false := by
  match op with
  | .events => rw [show (s.step .events).2.entry = s.entry from s.events_frame.2, h]
  | .seq => exact h
  | .nodes => exact h
  | .replaceGeneration => exact h
  | .deriveMessages =>
    rw [show (s.step .deriveMessages).2.entry = s.entry from s.deriveMessages_frame.2, h]
  | .requestHeader =>
    rw [show (s.step .requestHeader).2.entry = s.entry from s.requestHeader_frame.2, h]
  | .requestContext =>
    rw [show (s.step .requestContext).2.entry = s.entry from s.requestContext_frame.2, h]
  | .append request dispatch veto observers =>
    obtain ⟨-, hentry⟩ := s.planAppend_frame request
    cases hplan : s.planAppend request with
    | mk result s₁ =>
    rw [hplan] at hentry
    have hlistening : s₁.entry.appending = false := (congrArg Attachment.appending hentry).trans h
    cases result with
    | error e =>
      simp only [Session.step, hplan]
      exact hlistening
    | ok candidate =>
      cases hattached : s₁.entry.isNone with
      | true =>
        simp only [Session.step, hplan, hattached, if_true]
        exact hlistening
      | false =>
        cases veto <;>
          simp only [Session.step, hplan, hattached, Bool.false_eq_true, if_false] <;>
          exact Attachment.finishAppend_appending _
  | .enter =>
    simp only [Session.step]
    cases hentry : s.entry with
    | none => rfl
    | some entry =>
      rw [hentry] at h
      exact h
  | .announce listeners veto =>
    cases hbegin : s.entry.beginAnnounce with
    | error e =>
      simp only [Session.step, hbegin]
      exact h
    | ok entry =>
      simp only [Session.step, hbegin]
      have hopen : Attachment.appending entry = false :=
        (Attachment.beginAnnounce_appending hbegin).trans h
      have hclosed := runOps_listening (s := { s with entry }) hopen listeners
      revert hclosed
      generalize (Session.runOps { s with entry } listeners).2.entry = after
      intro hclosed
      cases after with
      | none => rfl
      | some entry =>
        simp only [Attachment.finishAnnounce]
        split
        · rfl
        · exact hclosed
  | .detach =>
    simp only [Session.step]
    cases hentry : s.entry with
    | none => rfl
    | some entry =>
      rw [hentry] at h
      simp only [Attachment.detach]
      split
      · exact h
      split
      · exact h
      · rfl

theorem runOps_listening {s : Session} (h : s.entry.appending = false) (ops : List SessionOp) :
    (s.runOps ops).2.entry.appending = false := by
  match ops with
  | [] => exact h
  | op :: ops => exact runOps_listening (step_listening h op) ops

end

/-- Between calls: the caches agree with the log, and no append is being published. -/
structure Ready (s : Session) : Prop where
  refines : s.Refines s.toSpec
  listening : s.entry.appending = false

theorem Ready.step {s : Session} (h : s.Ready) (op : SessionOp) : (s.step op).2.Ready := by
  obtain ⟨-, hrefines⟩ := h.refines.step op
  exact ⟨hrefines.inv.refines hrefines.sound, step_listening h.listening op⟩

theorem Ready.publish {s : Session} (h : s.Ready) (request : AppendRequest) :
    (s.publish request).2.Ready := by
  have hstep := h.step (.append request [] none [])
  rwa [publish_eq_step] at hstep

end Session

/-! ## Inbox calls whose observers only look -/

namespace InboxWorld

/-- The session stays ready, and its log grows by inbox splices only. -/
structure SplicesOnly (w w' : InboxWorld) : Prop where
  ready : w.session.Ready → w'.session.Ready
  log : ∃ more, w'.events = w.events ++ more ∧ ∀ event ∈ more, event.data.splice?.isSome = true

theorem SplicesOnly.refl (w : InboxWorld) : SplicesOnly w w := ⟨id, [], by simp, by simp⟩

theorem SplicesOnly.trans {w w' w'' : InboxWorld} (h : SplicesOnly w w') (h' : SplicesOnly w' w'') :
    SplicesOnly w w'' := by
  obtain ⟨more, hmore, hsplices⟩ := h.log
  obtain ⟨more', hmore', hsplices'⟩ := h'.log
  refine ⟨h'.ready ∘ h.ready, more ++ more', by rw [hmore', hmore, append_assoc], ?_⟩
  intro event hevent
  rcases mem_append.mp hevent with hevent | hevent
  · exact hsplices event hevent
  · exact hsplices' event hevent

theorem SplicesOnly.events_prefix {w w' : InboxWorld} (h : SplicesOnly w w') : w.events <+: w'.events := by
  obtain ⟨more, hmore, -⟩ := h.log
  exact ⟨more, hmore.symm⟩

theorem splicePayload_splice {splice : InboxSplice} {inserted : List Draft} {data : EventData}
    (h : splicePayload splice inserted = .lossless data) : data.splice?.isSome = true := by
  rw [splicePayload_lossless h]
  rfl

/-- The recorded splice of a quiet host is the only event it logs. -/
theorem quietHost_append {w w' : InboxWorld} {time : Int} {splice : InboxSplice}
    {inserted : List Draft} {result : Except String SessionEvent}
    (h : (Host.append (.quietHost time) w (splicePayload splice inserted)) = (result, w')) :
    SplicesOnly w w' := by
  have hw' : w' = { w with
      session := (w.session.publish { payload := splicePayload splice inserted, time }).2 } :=
    (congrArg Prod.snd h).symm
  subst hw'
  refine ⟨fun hready => hready.publish _, ?_⟩
  cases hpublish : w.session.publish { payload := splicePayload splice inserted, time } with
  | mk published s =>
  cases published with
  | error e => exact ⟨[], by simp [InboxWorld.events, Session.publish_error hpublish], by simp⟩
  | ok event =>
    obtain ⟨hprepare, hevents⟩ := Session.publish_ok hpublish
    refine ⟨[event], hevents, ?_⟩
    simp only [mem_singleton, forall_eq]
    exact splicePayload_splice (AppendRequest.prepare_data _ hprepare)

theorem mutate_quiet (w : InboxWorld) (time : Int) (target : InboxTarget)
    (start deleteCount : JsNumber) (inserted : List Draft) (discardRemoved : Bool) :
    SplicesOnly w (mutate (.quietHost time) w target start deleteCount inserted discardRemoved).2 := by
  unfold InboxWorld.mutate
  simp only
  split
  · exact .refl w
  split
  · exact .refl w
  split
  · rename_i heq
    exact quietHost_append heq
  rename_i heq
  have hgrown := quietHost_append heq
  exact ⟨hgrown.ready, hgrown.log⟩

theorem keeps_splicesOnly (w : InboxWorld) (time : Int) :
    (Host.quietHost time).Keeps (SplicesOnly w) where
  mutate hw' target start deleteCount inserted discardRemoved :=
    hw'.trans (mutate_quiet _ time target start deleteCount inserted discardRemoved)
  notify hw' _ := hw'

end InboxWorld

/-! ## Acts of others -/

namespace LoopWorld

/-- The log of the session. -/
def events (w : LoopWorld) : List SessionEvent := w.io.events

/-- What no act of others touches. A live driver stays at its turn and step, and the
signal of an aborted one stays aborted. -/
structure Undisturbed (w w' : LoopWorld) : Prop where
  own : w'.own = w.own
  requests : w'.requests = w.requests
  prepared : w'.prepared = w.prepared
  requestHeaderLogged : w'.requestHeaderLogged = w.requestHeaderLogged
  limit : w'.pool.limit = w.pool.limit
  inFlight : w'.pool.inFlight = w.pool.inFlight
  ready : w.io.session.Ready → w'.io.session.Ready
  log : w.events <+: w'.events
  position : ∀ at_, w.phase.position = some at_ → w'.phase.position = some at_
  reason : w.phase.position.isSome → w.phase.reason.isSome → w'.phase.reason.isSome

theorem Undisturbed.refl (w : LoopWorld) : Undisturbed w w :=
  ⟨rfl, rfl, rfl, rfl, rfl, rfl, id, prefix_rfl, fun _ h => h, fun _ h => h⟩

theorem Undisturbed.trans {w w' w'' : LoopWorld} (h : Undisturbed w w') (h' : Undisturbed w' w'') :
    Undisturbed w w'' where
  own := h'.own.trans h.own
  requests := h'.requests.trans h.requests
  prepared := h'.prepared.trans h.prepared
  requestHeaderLogged := h'.requestHeaderLogged.trans h.requestHeaderLogged
  limit := h'.limit.trans h.limit
  inFlight := h'.inFlight.trans h.inFlight
  ready := h'.ready ∘ h.ready
  log := h.log.trans h'.log
  position at_ hat := h'.position at_ (h.position at_ hat)
  reason hposition hreason := by
    obtain ⟨at_, hat⟩ := isSome_iff_exists.mp hposition
    exact h'.reason (by rw [h.position at_ hat]; rfl) (h.reason hposition hreason)

theorem undisturbed_io (w : LoopWorld) {io : InboxWorld}
    (hready : w.io.session.Ready → io.session.Ready) (hlog : w.io.events <+: io.events) :
    Undisturbed w { w with io } :=
  ⟨rfl, rfl, rfl, rfl, rfl, rfl, hready, hlog, fun _ h => h, fun _ h => h⟩

theorem undisturbed_splices (w : LoopWorld) {io : InboxWorld} (h : w.io.SplicesOnly io) :
    Undisturbed w { w with io } :=
  w.undisturbed_io h.ready h.events_prefix

theorem undisturbed_phase (w : LoopWorld) {phase : Phase}
    (hposition : ∀ at_, w.phase.position = some at_ → phase.position = some at_)
    (hreason : w.phase.position.isSome → w.phase.reason.isSome → phase.reason.isSome) :
    Undisturbed w { w with phase } :=
  ⟨rfl, rfl, rfl, rfl, rfl, rfl, id, prefix_rfl, hposition, hreason⟩

theorem wakeDriver_undisturbed (w : LoopWorld) (wakeAfterAbort : Bool) :
    Undisturbed w (w.wakeDriver wakeAfterAbort).2 := by
  unfold wakeDriver
  cases hphase : w.phase with
  | idle lastTurn =>
    refine w.undisturbed_phase (fun at_ h => ?_) fun h => ?_ <;> simp [hphase, Phase.position] at h
  | maintenance abort lastTurn wakeRequested =>
    simp only
    split
    · exact .refl w
    · refine w.undisturbed_phase (fun at_ h => ?_) fun h => ?_ <;>
        simp [hphase, Phase.position] at h
  | running abort turn step wakeRequested =>
    simp only
    split
    · refine w.undisturbed_phase (fun at_ h => ?_) fun _ h => ?_
      · rw [← h, hphase]
        rfl
      · rw [hphase] at h
        exact h
    · exact .refl w

theorem send_undisturbed (w : LoopWorld) (message : Draft) (target : InboxTarget) (wakeup : Bool)
    (time : Int) : Undisturbed w (w.send message target wakeup time).2 := by
  unfold send
  simp only
  generalize (if (wakeup && w.phase.reason.isSome) = true then InboxTarget.nextTurn else target) =
    resolvedTarget
  have hsplice := InboxWorld.mutate_quiet w.io time resolvedTarget (.infinity false)
    (InboxWorld.indexNumber 0) [message] true
  revert hsplice
  rw [InboxWorld.splice]
  generalize InboxWorld.mutate (.quietHost time) w.io resolvedTarget (.infinity false)
    (InboxWorld.indexNumber 0) [message] true = spliced
  obtain ⟨result, io⟩ := spliced
  intro hsplice
  have hio := w.undisturbed_splices hsplice
  cases result with
  | error e => exact hio
  | ok removed =>
    cases wakeup with
    | false => exact hio
    | true => exact hio.trans (wakeDriver_undisturbed _ _)

theorem cancel_phase (phase : Phase) (cause : AgentCancelCause) :
    (phase.cancel cause).position = phase.position ∧
      (phase.position.isSome → (phase.cancel cause).reason.isSome) := by
  cases phase with
  | idle lastTurn => simp [Phase.cancel, Phase.position]
  | maintenance abort lastTurn wakeRequested => simp [Phase.cancel, Phase.position]
  | running abort turn step wakeRequested => simp [Phase.cancel, Phase.position, Phase.reason]

theorem setWakeRequested_phase (phase : Phase) (value : Bool) :
    (phase.setWakeRequested value).position = phase.position ∧
      (phase.setWakeRequested value).reason = phase.reason := by
  cases phase <;> exact ⟨rfl, rfl⟩

theorem cancel_undisturbed (w : LoopWorld) (cause : AgentCancelCause) (keepInbox : Bool)
    (time : Int) : Undisturbed w (w.cancel cause keepInbox time) := by
  unfold cancel
  obtain ⟨hposition, hreason⟩ := cancel_phase w.phase cause
  cases keepInbox with
  | true =>
    exact w.undisturbed_phase (fun at_ h => hposition.trans h) fun h _ => hreason h
  | false =>
    have hclear := (InboxWorld.keeps_splicesOnly w.io time).clear
      (InboxWorld.keeps_splicesOnly w.io time) (.refl w.io)
    revert hclear
    simp only [Bool.false_eq_true, if_false]
    generalize InboxWorld.clear (.quietHost time) (.quietHost time) w.io = cleared
    obtain ⟨result, io⟩ := cleared
    intro hclear
    have hio := w.undisturbed_splices hclear
    cases result with
    | error e => exact hio
    | ok removed =>
      obtain ⟨hlatch, -⟩ := setWakeRequested_phase w.phase false
      obtain ⟨hposition, hreason⟩ := cancel_phase (w.phase.setWakeRequested false) cause
      refine hio.trans (undisturbed_phase { w with io } (fun at_ h => ?_) fun h _ => ?_)
      · exact (hposition.trans hlatch).trans h
      · exact hreason (by rw [hlatch]; exact h)

/-- Nothing others do disturbs the driver. -/
theorem react_undisturbed (w : LoopWorld) (act : LoopAct) : Undisturbed w (w.react act).2 := by
  cases act with
  | send message target wakeup time => exact w.send_undisturbed message target wakeup time
  | cancel cause keepInbox time => exact w.cancel_undisturbed cause keepInbox time
  | beginMaintenance =>
    show Undisturbed w w.beginMaintenance
    unfold beginMaintenance
    cases hphase : w.phase with
    | idle lastTurn =>
      refine w.undisturbed_phase (fun at_ h => ?_) fun h => ?_ <;> simp [hphase, Phase.position] at h
    | maintenance abort lastTurn wakeRequested => exact .refl w
    | running abort turn step wakeRequested => exact .refl w
  | endMaintenance =>
    show Undisturbed w w.endMaintenance.2
    unfold endMaintenance
    cases hphase : w.phase with
    | idle lastTurn => exact .refl w
    | maintenance abort lastTurn wakeRequested =>
      have hidle : Undisturbed w { w with phase := .idle lastTurn } := by
        refine w.undisturbed_phase (fun at_ h => ?_) fun h => ?_ <;>
          simp [hphase, Phase.position] at h
      simp only
      split
      · exact hidle.trans (wakeDriver_undisturbed _ _)
      · exact hidle
    | running abort turn step wakeRequested => exact .refl w
  | mutate target start deleteCount inserted discardRemoved time =>
    exact w.undisturbed_splices
      (InboxWorld.mutate_quiet w.io time target start deleteCount inserted discardRemoved)
  | session op =>
    refine w.undisturbed_io (fun hready => hready.step op) ?_
    obtain ⟨more, hmore, -⟩ := Session.step_grows w.io.session op
    exact ⟨more, hmore.symm⟩
  | settle index outcome =>
    show Undisturbed w (w.settle index outcome)
    unfold settle
    split
    · cases outcome <;>
        exact ⟨rfl, rfl, rfl, rfl, rfl, rfl, id, prefix_rfl, fun _ h => h, fun _ h => h⟩
    · exact .refl w

/-- What neither touches the driver nor its pool. -/
structure Aside (w w' : LoopWorld) : Prop extends Undisturbed w w' where
  pool : w'.pool = w.pool
  running : w'.running = w.running

/-- Of all acts only a settlement reaches the pool. -/
theorem react_pool (w : LoopWorld) (act : LoopAct) :
    (∃ index outcome, (w.react act).2 = w.settle index outcome) ∨
      (w.react act).2.pool = w.pool ∧ (w.react act).2.running = w.running := by
  have hwake : ∀ (w : LoopWorld) wakeAfterAbort, (w.wakeDriver wakeAfterAbort).2.pool = w.pool ∧
      (w.wakeDriver wakeAfterAbort).2.running = w.running := by
    intro w wakeAfterAbort
    unfold wakeDriver
    cases w.phase with
    | idle lastTurn => exact ⟨rfl, rfl⟩
    | maintenance abort lastTurn wakeRequested =>
      simp only
      split <;> exact ⟨rfl, rfl⟩
    | running abort turn step wakeRequested =>
      simp only
      split <;> exact ⟨rfl, rfl⟩
  cases act with
  | settle index outcome => exact .inl ⟨index, outcome, rfl⟩
  | send message target wakeup time =>
    refine .inr ?_
    simp only [react, send]
    split
    · exact ⟨rfl, rfl⟩
    split
    · exact hwake _ _
    · exact ⟨rfl, rfl⟩
  | cancel cause keepInbox time =>
    refine .inr ?_
    simp only [react, cancel]
    split
    · exact ⟨rfl, rfl⟩
    · split <;> exact ⟨rfl, rfl⟩
  | beginMaintenance =>
    refine .inr ?_
    simp only [react, beginMaintenance]
    split <;> exact ⟨rfl, rfl⟩
  | endMaintenance =>
    refine .inr ?_
    simp only [react, endMaintenance]
    split
    · split
      · exact hwake _ _
      · exact ⟨rfl, rfl⟩
    · exact ⟨rfl, rfl⟩
  | mutate target start deleteCount inserted discardRemoved time => exact .inr ⟨rfl, rfl⟩
  | session op => exact .inr ⟨rfl, rfl⟩

theorem react_aside (w : LoopWorld) (act : LoopAct) :
    (∃ index outcome, (w.react act).2 = w.settle index outcome) ∨ Aside w (w.react act).2 := by
  rcases w.react_pool act with hsettle | ⟨hpool, hrunning⟩
  · exact .inl hsettle
  · exact .inr { w.react_undisturbed act with pool := hpool, running := hrunning }

/-! ## Operations -/

variable {w w' : LoopWorld} {reply : LoopReply}

theorem perform_read {r : LoopRead} {x : r.Answer}
    (h : w.perform (.read r) reply = some (x, w')) : x = r.answer w ∧ w' = w := by
  cases reply <;> cases h
  exact ⟨rfl, rfl⟩

theorem perform_write {u : LoopWrite} {x : Unit}
    (h : w.perform (.write u) reply = some (x, w')) : w' = u.apply w := by
  cases reply <;> cases h
  rfl

theorem perform_ask {q : LoopQuery} {x : q.Answer}
    (h : w.perform (.ask q) reply = some (x, w')) :
    q.decode w reply = some x ∧ w' = q.record w := by
  simp only [perform, map_eq_some_iff, Prod.mk.injEq] at h
  obtain ⟨y, hdecode, rfl, rfl⟩ := h
  exact ⟨hdecode, rfl⟩

theorem perform_append {payload : Payload} {surfaced : Option Surfaced}
    {x : Except String SessionEvent}
    (h : w.perform (.append payload surfaced) reply = some (x, w')) :
    ∃ time, w.append (appendRequest payload surfaced time) = (x, w') := by
  cases reply with
  | now time => exact ⟨time, some.inj h⟩
  | _ => cases h

theorem perform_session {r : SessionRead} {x : r.Answer}
    (h : w.perform (.session r) reply = some (x, w')) :
    x = (r.answer w.io.session).1 ∧
      w' = { w with io := { w.io with session := (r.answer w.io.session).2 } } := by
  cases reply <;> cases h
  exact ⟨rfl, rfl⟩

theorem sessionRead_frame (r : SessionRead) (s : Session) :
    (r.answer s).2.log = s.log ∧ (s.Ready → (r.answer s).2.Ready) := by
  cases r with
  | deriveMessages => exact ⟨s.deriveMessages_frame.1, fun h => h.step .deriveMessages⟩
  | requestHeader => exact ⟨s.requestHeader_frame.1, fun h => h.step .requestHeader⟩
  | requestContext => exact ⟨s.requestContext_frame.1, fun h => h.step .requestContext⟩

theorem perform_claim {target : InboxTarget} {turn : Nat} {x : Except String (List UserMessage)}
    (h : w.perform (.claim target turn) reply = some (x, w')) :
    ∃ io, w' = { w with io } ∧ w.io.SplicesOnly io := by
  cases reply with
  | now time =>
    exact ⟨_, (congrArg Prod.snd (some.inj h)).symm,
      (InboxWorld.keeps_splicesOnly w.io time).claim
        (InboxWorld.keeps_splicesOnly w.io time) (.refl w.io) target turn⟩
  | _ => cases h

theorem perform_acceptContext {context : Draft} {x : Except String (List UserMessage)}
    (h : w.perform (.acceptContext context) reply = some (x, w')) :
    ∃ io, w' = { w with io } ∧ w.io.SplicesOnly io := by
  cases reply with
  | now time =>
    exact ⟨_, (congrArg Prod.snd (some.inj h)).symm, w.io.mutate_quiet time .nextStep
      (InboxWorld.indexNumber (w.io.inbox.get .nextStep).length) (InboxWorld.indexNumber 0)
      [context] true⟩
  | _ => cases h

end LoopWorld

/-- An operation that leaves the driver's record, its phase and its pool alone. -/
def LoopOp.isQuiet : LoopOp → Bool
  | .read _ | .session _ | .claim .. | .acceptContext _ => true
  | .write (.reportError _) => true
  | .write _ => false
  | .ask (.stream ..) | .ask (.prepare _) => false
  | .ask _ => true
  | .append .. | .outOfFuel | .missing => false

namespace LoopWorld

variable {w w' : LoopWorld} {reply : LoopReply}

theorem aside_splices {io : InboxWorld} (h : w.io.SplicesOnly io) : Aside w { w with io } :=
  { w.undisturbed_splices h with pool := rfl, running := rfl }

theorem Aside.refl (w : LoopWorld) : Aside w w :=
  { Undisturbed.refl w with pool := rfl, running := rfl }

theorem perform_quiet {op : LoopOp} {x : op.Answer} (hquiet : op.isQuiet = true)
    (h : w.perform op reply = some (x, w')) : Aside w w' := by
  cases op with
  | read r =>
    rw [(perform_read h).2]
    exact .refl w
  | write u =>
    cases u <;> cases hquiet
    rw [perform_write h]
    exact .refl w
  | session r =>
    obtain ⟨hlog, hready⟩ := sessionRead_frame r w.io.session
    rw [(perform_session h).2]
    have hevents : w.io.events =
        InboxWorld.events { w.io with session := (r.answer w.io.session).2 } :=
      (congrArg LogEntry.events hlog).symm
    exact { w.undisturbed_io hready (hevents ▸ prefix_rfl) with pool := rfl, running := rfl }
  | ask q =>
    obtain ⟨-, rfl⟩ := perform_ask h
    cases q <;> first | exact .refl w | cases hquiet
  | append payload surfaced => cases hquiet
  | claim target turn =>
    obtain ⟨io, rfl, hsplices⟩ := perform_claim h
    exact aside_splices hsplices
  | acceptContext context =>
    obtain ⟨io, rfl, hsplices⟩ := perform_acceptContext h
    exact aside_splices hsplices
  | outOfFuel => cases hquiet
  | missing => cases hquiet

/-- What an append of the driver did: it put its event at the end of the log and on record,
or it failed and left both. -/
theorem append_ok {request : AppendRequest} {event : SessionEvent}
    (h : w.append request = (.ok event, w')) :
    request.prepare w.events.length w.io.session.entry.appending = .ok event ∧
      w'.events = w.events ++ [event] ∧ w'.own = w.own ++ [event] ∧
      w' = { w with io := w'.io, own := w'.own } := by
  unfold LoopWorld.append at h
  cases hpublish : w.io.session.publish request with
  | mk result session =>
  rw [hpublish] at h
  cases result with
  | error e => cases h
  | ok event' =>
    cases h
    obtain ⟨hprepare, hevents⟩ := Session.publish_ok hpublish
    refine ⟨?_, hevents, rfl, rfl⟩
    rw [show w.events.length = w.io.session.log.length by simp [events, InboxWorld.events]]
    exact hprepare

theorem append_error {request : AppendRequest} {e : String}
    (h : w.append request = (.error e, w')) : Aside w w' := by
  unfold LoopWorld.append at h
  have hready := fun hready : w.io.session.Ready => hready.publish request
  cases hpublish : w.io.session.publish request with
  | mk result session =>
  rw [hpublish] at h hready
  cases result with
  | error e =>
    cases h
    have hevents : w.io.events = InboxWorld.events { w.io with session } :=
      (congrArg LogEntry.events (Session.publish_error hpublish)).symm
    exact { w.undisturbed_io hready (hevents ▸ prefix_rfl) with pool := rfl, running := rfl }
  | ok event => cases h

end LoopWorld

/-! ## What an append stores -/

/-- The durable spelling of cited seqs. -/
def citation (seqs : List Int) : Json := .arr (seqs.map fun seq => .num (.int seq))

theorem snapshot_citation (seqs : List Int) :
    snapshotJsonValue (.array true 0 (seqs.map fun seq => some (.number (.finite (.int seq))))) =
      some (citation seqs) := by
  have hitems : snapshotItems (seqs.map fun seq => some (.number (.finite (.int seq)))) =
      some (seqs.map fun seq => .num (.int seq)) := by
    induction seqs with
    | nil => rfl
    | cons seq seqs ih => simp [snapshotItems, snapshotJsonValue, ih]
  have hcount : (seqs.map fun seq => some (JsValue.number (.finite (.int seq)))).countP
      Option.isSome = seqs.length := by
    rw [countP_eq_length.mpr (by simp), length_map]
  simp only [snapshotJsonValue, hcount, hitems, length_map, citation]
  simp

/-- The event of a log-only append carries no surface metadata. -/
theorem prepare_logOnly {payload : Payload} {time : Int} {seq : Nat} {appending : Bool}
    {event : SessionEvent}
    (h : (appendRequest payload none time).prepare seq appending = .ok event) :
    payload = .lossless event.data ∧ event.seq = seq ∧ event.surfaceOp = none ∧
      event.sourceEventSeqs = none := by
  obtain ⟨hdata, hseq, metadata, hmetadata, hop, hsources⟩ := AppendRequest.prepare_event _ h
  cases hmetadata
  exact ⟨hdata, hseq, hop, hsources⟩

/-- The event of a message append that cites `seqs`. -/
theorem prepare_citing {payload : Payload} {seqs : List Int} {time : Int} {seq : Nat}
    {appending : Bool} {event : SessionEvent}
    (h : (appendRequest payload (some { sourceEventSeqs := some seqs }) time).prepare seq appending =
      .ok event) :
    payload = .lossless event.data ∧ event.seq = seq ∧
      event.sourceEventSeqs = some (citation seqs) := by
  obtain ⟨hdata, hseq, metadata, hmetadata, -, hsources⟩ := AppendRequest.prepare_event _ h
  have hexpected : snapshotJsonValue (appendRequest payload (some { sourceEventSeqs := some seqs })
      time).surfaceMetadata =
        some (.obj [("sourceEventSeqs", citation seqs), ("surfaceOp", .str "append")]) := by
    have hfields : snapshotFields [(JsString.ofString "sourceEventSeqs", .array true 0 (seqs.map fun seq =>
        some (.number (.finite (.int seq))))), (JsString.ofString "surfaceOp", .str "append")] =
          some [(JsString.ofString "sourceEventSeqs", citation seqs),
            (JsString.ofString "surfaceOp", .str "append")] := by
      simp only [snapshotFields, snapshot_citation]
      rfl
    exact congrArg (Option.map Json.obj) hfields
  rw [hexpected] at hmetadata
  cases hmetadata
  refine ⟨hdata, hseq, hsources.trans ?_⟩
  simp [Json.get?]

/-! ## Code that only asks -/

namespace LoopCode

variable {R : Rules loopMachine} {α : Type} {A : LoopWorld → Prop} {E : Thrown → LoopWorld → Prop}

theorem holds_orThrow (hA : R.Stable A) (hE : ∀ e w, A w → E e w) (x : Except Thrown α) :
    R.Holds A (orThrow x) (fun _ => A) E := by
  cases x with
  | ok a => exact .pure hA fun _ hw => hw
  | error e => exact .throw hA (hE e)

theorem holds_append {payload : Payload} {surfaced : Option Surfaced}
    {C : SessionEvent → LoopWorld → Prop} (hA : R.Stable A) (hC : ∀ event, R.Stable (C event))
    (hE : ∀ e, R.Stable (E e)) (hguard : ∀ w, A w → R.guard (.append payload surfaced) w)
    (hok : ∀ w w' event time, A w →
      w.append (appendRequest payload surfaced time) = (.ok event, w') → C event w')
    (herror : ∀ w w', A w → w.Aside w' → ∀ e, E e w') :
    R.Holds A (append payload surfaced) C E := by
  have hask : R.Holds (ε := Thrown) A (perform (.append payload surfaced))
      (fun result w => match result with
        | .ok event => C event w
        | .error e => E (.error e) w) E := by
    refine .ask hA (fun result => ?_) fun w hw => ⟨hguard w hw, ?_⟩
    · cases result with
      | ok event => exact hC event
      | error e => exact hE _
    · intro reply x w' hperform
      obtain ⟨time, happend⟩ := LoopWorld.perform_append hperform
      cases x with
      | ok event => exact hok w w' event time hw happend
      | error e => exact herror w w' hw (LoopWorld.append_error happend) _
  refine .bind hE hask fun result => ?_
  cases result with
  | ok event => exact .pure (hC event) fun _ hw => hw
  | error e => exact .throw (hE _) fun _ hw => hw

end LoopCode

end Harness
