-- SUMMARY: What holds of an inbox after any calls: its splices replay to it, identities stay unique, no message is lost.
import Harness.Agent.InboxLedger
import Harness.Session.Growth

namespace Harness

namespace InboxWorld

/-- The `events` of an inbox's session. -/
def events (w : InboxWorld) : List SessionEvent := LogEntry.events w.session.log

/-! ## Hosts -/

/-- A host that keeps `Q` keeps it through every mutation and every notification. -/
structure Host.Keeps (host : Host) (Q : InboxWorld → Prop) : Prop where
  mutate : ∀ {w}, Q w → ∀ target start deleteCount inserted discardRemoved,
    Q (mutate host w target start deleteCount inserted discardRemoved).2
  notify : ∀ {w}, Q w → ∀ notifications, Q (host.notify w notifications)

section Keeps

variable {first second : Host} {Q : InboxWorld → Prop} {w : InboxWorld}

theorem Host.Keeps.clear (hfirst : first.Keeps Q) (hsecond : second.Keeps Q) (hw : Q w) :
    Q (clear first second w).2 := by
  have hsteps := hfirst.mutate hw .nextStep (indexNumber 0) (indexNumber w.inbox.nextStep.length) [] true
  unfold InboxWorld.clear InboxWorld.splice
  split
  · rename_i heq
    rw [heq] at hsteps
    exact hsteps
  rename_i w₁ heq
  rw [heq] at hsteps
  have hturns := hsecond.mutate hsteps .nextTurn (indexNumber 0)
    (indexNumber w₁.inbox.nextTurn.length) [] true
  split
  · rename_i heq
    rw [heq] at hturns
    exact hturns
  · rename_i heq
    rw [heq] at hturns
    exact hturns

theorem Host.Keeps.claim (hfirst : first.Keeps Q) (hsecond : second.Keeps Q) (hw : Q w)
    (target : InboxTarget) (turn : Nat) : Q (claim first second w target turn).2 := by
  have hsteps := hfirst.mutate hw .nextStep (indexNumber 0) (indexNumber w.inbox.nextStep.length) [] false
  unfold InboxWorld.claim
  split
  · rename_i heq
    rw [heq] at hsteps
    exact hsteps
  rename_i steps w₁ heq
  rw [heq] at hsteps
  cases target with
  | nextStep => exact hsecond.notify hsteps _
  | nextTurn =>
    have hqueued := hsecond.mutate hsteps .nextTurn (indexNumber 0) (indexNumber 1) [] false
    simp only
    split
    · rename_i heq
      rw [heq] at hqueued
      exact hqueued
    · rename_i heq
      rw [heq] at hqueued
      exact hsecond.notify hqueued _

theorem Host.Keeps.spliceLocated (hfirst : first.Keeps Q) (hw : Q w) (messageId : MessageId)
    (inserted : List Draft) : Q (spliceLocated first w messageId inserted).2 := by
  unfold InboxWorld.spliceLocated InboxWorld.splice
  split
  · exact hw
  rename_i target index _
  have hspliced := hfirst.mutate hw target (indexNumber index) (indexNumber 1) inserted true
  split
  · rename_i heq
    rw [heq] at hspliced
    exact hspliced
  · rename_i heq
    rw [heq] at hspliced
    exact hspliced

end Keeps

/-! ## Inside a publication -/

/-- `w'` has the log and the lists of `w`, and its append guard is closed. -/
structure Frozen (w w' : InboxWorld) : Prop where
  log : w'.session.log = w.session.log
  inbox : w'.inbox = w.inbox
  appending : w'.session.entry.appending = true

theorem Frozen.refl {w : InboxWorld} (h : w.session.entry.appending = true) : Frozen w w :=
  ⟨rfl, rfl, h⟩

/-- A mutation whose append is refused changes nothing. -/
theorem mutate_of_refused {host : Host} {w : InboxWorld}
    (h : ∀ payload, ∃ e, host.append w payload = (.error e, w)) (target : InboxTarget)
    (start deleteCount : JsNumber) (inserted : List Draft) (discardRemoved : Bool) :
    (mutate host w target start deleteCount inserted discardRemoved).2 = w := by
  unfold InboxWorld.mutate
  simp only
  split
  · rfl
  split
  · rfl
  rename_i hvalidate
  split
  · rename_i heq
    obtain ⟨e, he⟩ := h _
    rw [he] at heq
    cases heq
    rfl
  · rename_i heq
    obtain ⟨e, he⟩ := h _
    rw [he] at heq
    cases heq

theorem appendEvent_of_appending {w : InboxWorld} (h : w.session.entry.appending = true)
    (payload : Payload) (publication : Publication InboxOp) :
    ∃ e, appendEvent w payload publication = (.error e, w) := by
  obtain ⟨time, dispatch, veto, observers, notified⟩ := publication
  obtain ⟨e, he⟩ := Session.planAppend_of_appending h { payload, time }
  exact ⟨e, by simp only [appendEvent, he]⟩

theorem keeps_frozen {publication : Publication InboxOp} {w : InboxWorld}
    (hnotified : ∀ w', Frozen w w' → Frozen w (runOps w' publication.notified).2) :
    (host publication).Keeps (Frozen w) where
  mutate hw' target start deleteCount inserted discardRemoved := by
    rw [mutate_of_refused fun payload => appendEvent_of_appending hw'.appending payload publication]
    exact hw'
  notify {w'} hw' notifications := by
    obtain ⟨time, dispatch, veto, observers, observing⟩ := publication
    show Frozen w (InboxWorld.notified w' notifications _)
    rw [InboxWorld.notified]
    split
    · exact hw'
    · exact hnotified w' hw'

mutual

/-- While an append is published no call on the inbox has an effect. -/
theorem step_of_appending {w w' : InboxWorld} (h : Frozen w w') (op : InboxOp) :
    Frozen w (step w' op).2 := by
  match op with
  | .splice target start deleteCount inserted ⟨time, dispatch, veto, observers, notified⟩ =>
    exact (keeps_frozen fun _ h => runOps_of_appending h notified).mutate h ..
  | .clear ⟨time, dispatch, veto, observers, notified⟩ ⟨time', dispatch', veto', observers', notified'⟩ =>
    have hfirst : (host ⟨time, dispatch, veto, observers, notified⟩).Keeps (Frozen w) :=
      keeps_frozen fun _ h => runOps_of_appending h notified
    have hsecond : (host ⟨time', dispatch', veto', observers', notified'⟩).Keeps (Frozen w) :=
      keeps_frozen fun _ h => runOps_of_appending h notified'
    exact hfirst.clear hsecond h
  | .claim target turn ⟨time, dispatch, veto, observers, notified⟩
      ⟨time', dispatch', veto', observers', notified'⟩ =>
    have hfirst : (host ⟨time, dispatch, veto, observers, notified⟩).Keeps (Frozen w) :=
      keeps_frozen fun _ h => runOps_of_appending h notified
    have hsecond : (host ⟨time', dispatch', veto', observers', notified'⟩).Keeps (Frozen w) :=
      keeps_frozen fun _ h => runOps_of_appending h notified'
    exact hfirst.claim hsecond h ..
  | .append target message ⟨time, dispatch, veto, observers, notified⟩ =>
    have hhost : (host ⟨time, dispatch, veto, observers, notified⟩).Keeps (Frozen w) :=
      keeps_frozen fun _ h => runOps_of_appending h notified
    exact hhost.mutate h target (indexNumber (w'.inbox.get target).length) (indexNumber 0) [message] true
  | .prepend target message ⟨time, dispatch, veto, observers, notified⟩ =>
    have hhost : (host ⟨time, dispatch, veto, observers, notified⟩).Keeps (Frozen w) :=
      keeps_frozen fun _ h => runOps_of_appending h notified
    exact hhost.mutate h target (indexNumber 0) (indexNumber 0) [message] true
  | .replace messageId newMessage ⟨time, dispatch, veto, observers, notified⟩ =>
    exact (keeps_frozen fun _ h => runOps_of_appending h notified).spliceLocated h ..
  | .remove messageId ⟨time, dispatch, veto, observers, notified⟩ =>
    exact (keeps_frozen fun _ h => runOps_of_appending h notified).spliceLocated h ..
  | .record payload publication =>
    obtain ⟨e, he⟩ := appendEvent_of_appending h.appending payload publication
    simp only [step, he]
    exact h
  | .session op =>
    obtain ⟨hlog, happending⟩ := Session.step_of_appending h.appending op
    exact ⟨hlog.trans h.log, h.inbox, happending⟩

theorem runOps_of_appending {w w' : InboxWorld} (h : Frozen w w') (ops : List InboxOp) :
    Frozen w (runOps w' ops).2 := by
  match ops with
  | [] => exact h
  | op :: ops => exact runOps_of_appending (step_of_appending h op) ops

end

/-! ## What an append does -/

/-- An append either fails without a trace or records its payload; its listeners leave
the lists alone either way. -/
def Recorded (w : InboxWorld) (payload : Payload) : Except String SessionEvent × InboxWorld → Prop
  | (.error _, w') => w'.events = w.events ∧ w'.inbox = w.inbox
  | (.ok event, w') =>
    payload = .lossless event.data ∧ w'.events = w.events ++ [event] ∧ w'.inbox = w.inbox

theorem runOps_listening {w : InboxWorld} (h : w.session.entry.appending = true)
    (ops : List InboxOp) :
    (runOps w ops).2.events = w.events ∧ (runOps w ops).2.inbox = w.inbox ∧
      (runOps w ops).2.session.entry.appending = true := by
  obtain ⟨hlog, hinbox, happending⟩ := runOps_of_appending (.refl h) ops
  exact ⟨congrArg LogEntry.events hlog, hinbox, happending⟩

theorem appendEvent_recorded (w : InboxWorld) (payload : Payload)
    (publication : Publication InboxOp) : w.Recorded payload (appendEvent w payload publication) := by
  obtain ⟨time, dispatch, veto, observers, notified⟩ := publication
  obtain ⟨hlog, -⟩ := w.session.planAppend_frame { payload, time }
  cases hplan : w.session.planAppend { payload, time } with
  | mk result s =>
  rw [hplan] at hlog
  have hevents : LogEntry.events s.log = w.events := congrArg LogEntry.events hlog
  cases result with
  | error e =>
    simp only [appendEvent, hplan]
    exact ⟨hevents, rfl⟩
  | ok candidate =>
    have hdata : payload = .lossless candidate.event.data := Session.planAppend_data hplan
    have hpush : ∀ s' : Session, LogEntry.events s'.log = w.events →
        LogEntry.events (s'.push candidate).log = w.events ++ [candidate.event] := by
      intro s' hs'
      simp [Session.push, ← hs']
    cases hattached : s.entry.isNone with
    | true =>
      simp only [appendEvent, hplan, hattached]
      exact ⟨hdata, hpush s hevents, rfl⟩
    | false =>
      simp only [appendEvent, hplan, hattached, Bool.false_eq_true, if_false]
      have hopen := runOps_listening
        (w := { w with session := { s with entry := s.entry.beginAppend } })
        (Attachment.beginAppend_appending hattached) dispatch
      generalize runOps { w with session := { s with entry := s.entry.beginAppend } } dispatch =
        dispatched at hopen
      obtain ⟨hdispatched, hinbox, happending⟩ := hopen
      cases veto with
      | some e => exact ⟨hdispatched.trans hevents, hinbox⟩
      | none =>
        obtain ⟨hobserved, hinbox', -⟩ := runOps_listening
          (w := { dispatched.2 with session := dispatched.2.session.push candidate })
          happending observers
        exact ⟨hdata, hobserved.trans (hpush _ (hdispatched.trans hevents)), hinbox'.trans hinbox⟩

theorem host_lawful (publication : Publication InboxOp) (w : InboxWorld) (payload : Payload) :
    w.Recorded payload ((host publication).append w payload) :=
  appendEvent_recorded w payload publication

/-! ## What a mutation does -/

/-- The world after a splice was recorded and applied, before it is notified. -/
structure Spliced (w w' : InboxWorld) (discardRemoved : Bool) (removed : List UserMessage) : Prop where
  recorded : ∃ event splice, event.data.splice? = some splice ∧
    w'.events = w.events ++ [event] ∧ w.inbox.apply splice = .ok (removed, w'.inbox) ∧
    splice.canceled = (discardRemoved && !removed.isEmpty)

/-- A mutation fails without a trace, has nothing to do, or commits one splice. -/
inductive Mutated (host : Host) (w : InboxWorld) (discardRemoved : Bool) :
    Except String (List UserMessage) × InboxWorld → Prop where
  | failed {e w'} : w'.events = w.events → w'.inbox = w.inbox →
      Mutated host w discardRemoved (.error e, w')
  | unchanged : Mutated host w discardRemoved (.ok [], w)
  | spliced {w' removed} (notifications : List InboxNotification) :
      w.Spliced w' discardRemoved removed →
      Mutated host w discardRemoved (.ok removed, host.notify w' notifications)

theorem asIndex_indexNumber {n m : Nat} (h : (indexNumber n).asIndex = some m) : m = n := by
  simp only [indexNumber, JsNumber.asIndex, Num.asSafeInteger] at h
  split at h
  · rename_i z hz
    split at hz
    · cases hz
      simp only [Int.natCast_nonneg, if_true, Int.toNat_natCast, Option.some.injEq] at h
      exact h.symm
    · cases hz
  · cases h

/-- The recorded start is where the live list is spliced. -/
theorem asIndex_start {length n : Nat} {start : JsNumber}
    (h : (if start.trunc = .negZero then .negZero
      else indexNumber (actualStart length start) : JsNumber).asIndex = some n) :
    n = actualStart length start := by
  split at h
  · rename_i hneg
    cases h
    simp only [actualStart, hneg]
  · exact asIndex_indexNumber h

/-- The recorded count is how many messages the live list loses. -/
theorem asIndex_removedCount {count n : Nat}
    (h : ((if count = 0 then none else some (indexNumber count) : Option JsNumber).getD
      (.finite (.int 0))).asIndex = some n) : n = count := by
  split at h
  · rename_i hzero
    cases h
    exact hzero.symm
  · exact asIndex_indexNumber h

theorem splicePayload_lossless {splice : InboxSplice} {inserted : List Draft} {data : EventData}
    (h : splicePayload splice inserted = .lossless data) : data = .inboxSpliced splice := by
  unfold splicePayload at h
  split at h
  · cases h
  · cases h
    rfl

theorem mutate_outcome {host : Host} (hhost : ∀ w payload, Recorded w payload (host.append w payload))
    (w : InboxWorld) (target : InboxTarget) (start deleteCount : JsNumber) (inserted : List Draft)
    (discardRemoved : Bool) :
    Mutated host w discardRemoved (mutate host w target start deleteCount inserted discardRemoved) := by
  unfold InboxWorld.mutate
  simp only
  split
  · exact .unchanged
  generalize hindex : actualStart (w.inbox.get target).length start = index
  generalize actualDeleteCount ((w.inbox.get target).length - index) deleteCount = count
  generalize hplanned : InboxSplice.mk target _ _ _ _ = splice
  split
  · exact .failed rfl rfl
  rename_i range hvalidate
  obtain ⟨s, c⟩ := range
  have hvalid := Inbox.valid_of_validate hvalidate
  have hs : s = index := by
    have hstarts := hvalid.starts
    rw [← hplanned, ← hindex] at hstarts
    rw [← hindex]
    exact asIndex_start hstarts
  have hc : c = count := by
    have hcounts := hvalid.counts
    rw [← hplanned] at hcounts
    exact asIndex_removedCount hcounts
  subst s c
  split
  · rename_i e w' heq
    have hfailed := hhost w (splicePayload splice inserted)
    rw [heq] at hfailed
    exact .failed hfailed.1 hfailed.2
  rename_i event w' heq
  have hrecorded := hhost w (splicePayload splice inserted)
  rw [heq] at hrecorded
  obtain ⟨hpayload, hevents, hinbox⟩ := hrecorded
  have hsplice : event.data.splice? = some splice :=
    congrArg EventData.splice? (splicePayload_lossless hpayload)
  have htarget : splice.target = target := by rw [← hplanned]
  refine .spliced _ ⟨event, splice, hsplice, hevents, ?_, ?_⟩
  · simp only [hsplice, hinbox, Inbox.apply, hvalidate, htarget]
    rfl
  have hlength : ((w'.inbox.get target).slice index count).length = count := by
    have hbound := hvalid.bound
    rw [htarget] at hbound
    rw [hinbox, List.slice, List.length_take, List.length_drop]
    omega
  rw [← hplanned]
  cases hslice : (w'.inbox.get target).slice index count with
  | nil =>
    rw [hslice] at hlength
    subst hlength
    rfl
  | cons message rest =>
    rw [hslice] at hlength
    subst hlength
    rfl

/-! ## Run invariants -/

/-- What recorded splices and other events preserve, of the log and the lists together. -/
structure Preserved (P : List SessionEvent → Inbox → Prop) : Prop where
  spliced : ∀ {events inbox event splice removed inbox'}, P events inbox →
    event.data.splice? = some splice → inbox.apply splice = .ok (removed, inbox') →
    P (events ++ [event]) inbox'
  other : ∀ {events inbox event}, P events inbox → event.data.splice? = none →
    P (events ++ [event]) inbox

end InboxWorld

/-- The payload does not record an inbox splice. -/
def Payload.foreign : Payload → Prop
  | .lossless data => data.splice? = none
  | .lossy _ => True

mutual

/-- No inbox splice is recorded but by the inbox itself. What the listeners of an
append hand to `append` is refused and may be anything. -/
def InboxOp.foreign : InboxOp → Prop
  | .splice _ _ _ _ publication => publication.foreign
  | .clear first second => first.foreign ∧ second.foreign
  | .claim _ _ first second => first.foreign ∧ second.foreign
  | .append _ _ publication => publication.foreign
  | .prepend _ _ publication => publication.foreign
  | .replace _ _ publication => publication.foreign
  | .remove _ publication => publication.foreign
  | .record payload _ => payload.foreign
  | .session op => ∀ payload ∈ op.payloads, payload.foreign

def Publication.foreign : Publication InboxOp → Prop
  | ⟨_, _, _, _, notified⟩ => allForeign notified

def allForeign : List InboxOp → Prop
  | [] => True
  | op :: ops => op.foreign ∧ allForeign ops

end

namespace InboxWorld

variable {P : List SessionEvent → Inbox → Prop}

/-- `P` of the world's log and lists. -/
def Holds (P : List SessionEvent → Inbox → Prop) (w : InboxWorld) : Prop := P w.events w.inbox

theorem Preserved.others (hP : Preserved P) {events more : List SessionEvent} {inbox : Inbox}
    (h : P events inbox) (hmore : ∀ event ∈ more, event.data.splice? = none) :
    P (events ++ more) inbox := by
  induction more generalizing events with
  | nil => simpa using h
  | cons event rest ih =>
    have hnext := ih (hP.other h (hmore event List.mem_cons_self))
      fun e he => hmore e (List.mem_cons_of_mem _ he)
    simpa using hnext

theorem Preserved.of_spliced (hP : Preserved P) {w w' : InboxWorld} {discardRemoved : Bool}
    {removed : List UserMessage} (hw : w.Holds P) (h : w.Spliced w' discardRemoved removed) :
    w'.Holds P := by
  obtain ⟨event, splice, hsplice, hevents, happly, -⟩ := h.recorded
  unfold Holds
  rw [hevents]
  exact hP.spliced hw hsplice happly

theorem keeps_holds (hP : Preserved P) {publication : Publication InboxOp}
    (hnotified : ∀ w, w.Holds P → (runOps w publication.notified).2.Holds P) :
    (host publication).Keeps (Holds P) := by
  have hnotify : ∀ {w : InboxWorld}, w.Holds P → ∀ notifications,
      ((host publication).notify w notifications).Holds P := by
    intro w hw notifications
    obtain ⟨time, dispatch, veto, observers, observing⟩ := publication
    show (InboxWorld.notified w notifications _).Holds P
    rw [InboxWorld.notified]
    split
    · exact hw
    · exact hnotified w hw
  refine ⟨fun {w} hw target start deleteCount inserted discardRemoved => ?_, hnotify⟩
  have houtcome := mutate_outcome (host_lawful publication) w target start deleteCount inserted discardRemoved
  generalize mutate (host publication) w target start deleteCount inserted discardRemoved = outcome
    at houtcome
  cases houtcome with
  | failed hevents hinbox =>
    unfold Holds
    rw [hevents, hinbox]
    exact hw
  | unchanged => exact hw
  | spliced notifications hspliced => exact hnotify (hP.of_spliced hw hspliced) notifications

mutual

/-- A call preserves what splices and other events preserve. -/
theorem step_holds (hP : Preserved P) {w : InboxWorld} (hw : w.Holds P) (op : InboxOp)
    (hforeign : op.foreign) : (step w op).2.Holds P := by
  match op with
  | .splice target start deleteCount inserted ⟨time, dispatch, veto, observers, notified⟩ =>
    have hhost : (host ⟨time, dispatch, veto, observers, notified⟩).Keeps (Holds P) :=
      keeps_holds hP fun _ hw => runOps_holds hP hw notified hforeign
    exact hhost.mutate hw target start deleteCount inserted true
  | .clear ⟨time, dispatch, veto, observers, notified⟩ ⟨time', dispatch', veto', observers', notified'⟩ =>
    have hfirst : (host ⟨time, dispatch, veto, observers, notified⟩).Keeps (Holds P) :=
      keeps_holds hP fun _ hw => runOps_holds hP hw notified hforeign.1
    have hsecond : (host ⟨time', dispatch', veto', observers', notified'⟩).Keeps (Holds P) :=
      keeps_holds hP fun _ hw => runOps_holds hP hw notified' hforeign.2
    exact hfirst.clear hsecond hw
  | .claim target turn ⟨time, dispatch, veto, observers, notified⟩
      ⟨time', dispatch', veto', observers', notified'⟩ =>
    have hfirst : (host ⟨time, dispatch, veto, observers, notified⟩).Keeps (Holds P) :=
      keeps_holds hP fun _ hw => runOps_holds hP hw notified hforeign.1
    have hsecond : (host ⟨time', dispatch', veto', observers', notified'⟩).Keeps (Holds P) :=
      keeps_holds hP fun _ hw => runOps_holds hP hw notified' hforeign.2
    exact hfirst.claim hsecond hw target turn
  | .append target message ⟨time, dispatch, veto, observers, notified⟩ =>
    have hhost : (host ⟨time, dispatch, veto, observers, notified⟩).Keeps (Holds P) :=
      keeps_holds hP fun _ hw => runOps_holds hP hw notified hforeign
    exact hhost.mutate hw target (indexNumber (w.inbox.get target).length) (indexNumber 0) [message] true
  | .prepend target message ⟨time, dispatch, veto, observers, notified⟩ =>
    have hhost : (host ⟨time, dispatch, veto, observers, notified⟩).Keeps (Holds P) :=
      keeps_holds hP fun _ hw => runOps_holds hP hw notified hforeign
    exact hhost.mutate hw target (indexNumber 0) (indexNumber 0) [message] true
  | .replace messageId newMessage ⟨time, dispatch, veto, observers, notified⟩ =>
    have hhost : (host ⟨time, dispatch, veto, observers, notified⟩).Keeps (Holds P) :=
      keeps_holds hP fun _ hw => runOps_holds hP hw notified hforeign
    exact hhost.spliceLocated hw messageId [newMessage]
  | .remove messageId ⟨time, dispatch, veto, observers, notified⟩ =>
    have hhost : (host ⟨time, dispatch, veto, observers, notified⟩).Keeps (Holds P) :=
      keeps_holds hP fun _ hw => runOps_holds hP hw notified hforeign
    exact hhost.spliceLocated hw messageId []
  | .record payload publication =>
    have hrecorded := appendEvent_recorded w payload publication
    simp only [step]
    generalize appendEvent w payload publication = appended at hrecorded
    obtain ⟨result, w'⟩ := appended
    unfold Holds
    cases result with
    | error e =>
      rw [hrecorded.1, hrecorded.2]
      exact hw
    | ok event =>
      obtain ⟨hpayload, hevents, hinbox⟩ := hrecorded
      subst hpayload
      rw [hevents, hinbox]
      exact hP.other hw hforeign
  | .session op =>
    obtain ⟨more, hmore, hdata⟩ := Session.step_grows w.session op
    have hothers := hP.others hw fun event hevent => hforeign _ (hdata event hevent)
    unfold Holds InboxWorld.events at *
    simp only [step, hmore]
    exact hothers

theorem runOps_holds (hP : Preserved P) {w : InboxWorld} (hw : w.Holds P) (ops : List InboxOp)
    (hforeign : allForeign ops) : (runOps w ops).2.Holds P := by
  match ops with
  | [] => exact hw
  | op :: ops => exact runOps_holds hP (step_holds hP hw op hforeign.1) ops hforeign.2

end

end InboxWorld
end Harness
