-- SUMMARY: How calls grow the session log: by events of the payloads they append, and not at all inside a publication.
import Harness.Session.Refinement

namespace Harness

mutual

/-- The payloads a call and its listeners hand to `append`. -/
def SessionOp.payloads : SessionOp → List Payload
  | .append request dispatch _ observers =>
    request.payload :: (allPayloads dispatch ++ allPayloads observers)
  | .announce listeners _ => allPayloads listeners
  | _ => []

def allPayloads : List SessionOp → List Payload
  | [] => []
  | op :: ops => op.payloads ++ allPayloads ops

end

/-- What an append prepares is its payload at the end of the log, with its metadata. -/
theorem AppendRequest.prepare_event (request : AppendRequest) {seq : Nat} {appending : Bool}
    {event : SessionEvent} (h : request.prepare seq appending = .ok event) :
    request.payload = .lossless event.data ∧ event.seq = seq ∧
      ∃ metadata, snapshotJsonValue request.surfaceMetadata = some (.obj metadata) ∧
        event.surfaceOp = Json.get? "surfaceOp" metadata ∧
        event.sourceEventSeqs = Json.get? "sourceEventSeqs" metadata := by
  unfold AppendRequest.prepare at h
  cases hpayload : request.payload with
  | lossy type =>
    rw [hpayload] at h
    cases h
  | lossless data =>
    rw [hpayload] at h
    simp only at h
    split at h
    · cases h
    split at h
    · rename_i metadata hmetadata
      split at h
      · cases h
      · cases h
        exact ⟨rfl, rfl, metadata, hmetadata, rfl, rfl⟩
    · cases h

theorem AppendRequest.prepare_data (request : AppendRequest) {seq : Nat} {appending : Bool}
    {event : SessionEvent} (h : request.prepare seq appending = .ok event) :
    request.payload = .lossless event.data :=
  (request.prepare_event h).1

namespace Session

/-! ## Planning -/

theorem planAppend_frame (s : Session) (request : AppendRequest) :
    (s.planAppend request).2.log = s.log ∧ (s.planAppend request).2.entry = s.entry := by
  unfold Session.planAppend
  split
  · exact ⟨rfl, rfl⟩
  · simp only
    split <;> exact ⟨rfl, rfl⟩

theorem planAppend_data {s s' : Session} {request : AppendRequest} {candidate : LogEntry}
    (h : s.planAppend request = (.ok candidate, s')) :
    request.payload = .lossless candidate.event.data := by
  unfold Session.planAppend at h
  split at h
  · cases h
  rename_i event hprepare
  have hdata := request.prepare_data hprepare
  simp only at h
  split at h
  · cases h
  · cases h
    exact hdata

theorem planAppend_of_appending {s : Session} (h : s.entry.appending = true)
    (request : AppendRequest) : ∃ e, s.planAppend request = (.error e, s) := by
  obtain ⟨e, he⟩ := request.prepare_appending s.log.length
  refine ⟨e, ?_⟩
  rw [Session.planAppend, h, he]

theorem refreshDerived_log (s : Session) (generation : Nat) :
    (s.refreshDerived generation).log = s.log ∧ (s.refreshDerived generation).entry = s.entry := by
  unfold Session.refreshDerived
  split <;> exact ⟨rfl, rfl⟩

theorem deriveMessages_frame (s : Session) :
    s.deriveMessages.2.log = s.log ∧ s.deriveMessages.2.entry = s.entry := by
  have hnodes : s.nodes.2.log = s.log ∧ s.nodes.2.entry = s.entry := ⟨rfl, rfl⟩
  unfold Session.deriveMessages
  revert hnodes
  generalize s.nodes = read
  obtain ⟨nodes, s₁⟩ := read
  intro hnodes
  cases nodes with
  | error e => exact hnodes
  | ok nodes =>
    have hgeneration : s₁.replaceGeneration.2.log = s₁.log ∧
        s₁.replaceGeneration.2.entry = s₁.entry := ⟨rfl, rfl⟩
    revert hgeneration
    simp only
    generalize s₁.replaceGeneration = read
    obtain ⟨generation, s₂⟩ := read
    intro hgeneration
    have hframe : s₂.log = s.log ∧ s₂.entry = s.entry :=
      ⟨hgeneration.1.trans hnodes.1, hgeneration.2.trans hnodes.2⟩
    cases generation with
    | error e => exact hframe
    | ok generation =>
      obtain ⟨hlog, hentry⟩ := s₂.refreshDerived_log generation
      exact ⟨hlog.trans hframe.1, hentry.trans hframe.2⟩

theorem events_frame (s : Session) :
    s.events.2.log = s.log ∧ s.events.2.entry = s.entry := by
  unfold Session.events
  split <;> exact ⟨rfl, rfl⟩

theorem requestHeader_frame (s : Session) :
    s.requestHeader.2.log = s.log ∧ s.requestHeader.2.entry = s.entry := by
  unfold Session.requestHeader
  split <;> exact ⟨rfl, rfl⟩

theorem requestContext_frame (s : Session) :
    s.requestContext.2.log = s.log ∧ s.requestContext.2.entry = s.entry := by
  unfold Session.requestContext
  split <;> exact ⟨rfl, rfl⟩

/-! ## Inside a publication -/

mutual

/-- While an append is published no call grows the log or reopens the guard. -/
theorem step_of_appending {s : Session} (h : s.entry.appending = true) (op : SessionOp) :
    (s.step op).2.log = s.log ∧ (s.step op).2.entry.appending = true := by
  match op with
  | .events =>
    obtain ⟨hlog, hentry⟩ := s.events_frame
    exact ⟨hlog, hentry ▸ h⟩
  | .seq => exact ⟨rfl, h⟩
  | .nodes => exact ⟨rfl, h⟩
  | .replaceGeneration => exact ⟨rfl, h⟩
  | .deriveMessages =>
    obtain ⟨hlog, hentry⟩ := s.deriveMessages_frame
    exact ⟨hlog, hentry ▸ h⟩
  | .requestHeader =>
    obtain ⟨hlog, hentry⟩ := s.requestHeader_frame
    exact ⟨hlog, hentry ▸ h⟩
  | .requestContext =>
    obtain ⟨hlog, hentry⟩ := s.requestContext_frame
    exact ⟨hlog, hentry ▸ h⟩
  | .append request dispatch veto observers =>
    obtain ⟨e, he⟩ := planAppend_of_appending h request
    have hstep : (s.step (.append request dispatch veto observers)).2 = s := by
      simp only [Session.step, he]
    rw [hstep]
    exact ⟨rfl, h⟩
  | .enter =>
    refine ⟨rfl, ?_⟩
    simp only [Session.step, Attachment.enter_appending h]
    exact h
  | .announce listeners veto =>
    cases hbegin : s.entry.beginAnnounce with
    | error e =>
      have hstep : (s.step (.announce listeners veto)).2 = s := by simp only [Session.step, hbegin]
      rw [hstep]
      exact ⟨rfl, h⟩
    | ok entry =>
      simp only [Session.step, hbegin]
      have happending : entry.appending = true :=
        (Attachment.beginAnnounce_appending hbegin).trans h
      obtain ⟨hlog, happending'⟩ := runOps_of_appending (s := { s with entry }) happending listeners
      exact ⟨hlog, Attachment.finishAnnounce_appending happending'⟩
  | .detach => exact ⟨rfl, Attachment.detach_appending h⟩

theorem runOps_of_appending {s : Session} (h : s.entry.appending = true) (ops : List SessionOp) :
    (s.runOps ops).2.log = s.log ∧ (s.runOps ops).2.entry.appending = true := by
  match ops with
  | [] => exact ⟨rfl, h⟩
  | op :: ops =>
    obtain ⟨hlog, happending⟩ := step_of_appending h op
    obtain ⟨hlog', happending'⟩ := runOps_of_appending happending ops
    exact ⟨hlog'.trans hlog, happending'⟩

end

/-! ## Growth -/

/-- The log of `s'` is that of `s` and events of `payloads`. -/
def GrowsBy (payloads : List Payload) (s s' : Session) : Prop :=
  ∃ more, LogEntry.events s'.log = LogEntry.events s.log ++ more ∧
    ∀ event ∈ more, Payload.lossless event.data ∈ payloads

namespace GrowsBy

variable {payloads payloads' : List Payload} {s s' s'' : Session}

theorem of_log (h : s'.log = s.log) : GrowsBy payloads s s' :=
  ⟨[], by simp [h], by simp⟩

theorem mono (h : GrowsBy payloads s s') (hsub : payloads ⊆ payloads') : GrowsBy payloads' s s' := by
  obtain ⟨more, hmore, hdata⟩ := h
  exact ⟨more, hmore, fun event hevent => hsub (hdata event hevent)⟩

theorem trans (h : GrowsBy payloads s s') (h' : GrowsBy payloads s' s'') :
    GrowsBy payloads s s'' := by
  obtain ⟨more, hmore, hdata⟩ := h
  obtain ⟨more', hmore', hdata'⟩ := h'
  refine ⟨more ++ more', by rw [hmore', hmore, List.append_assoc], fun event hevent => ?_⟩
  rcases List.mem_append.mp hevent with hevent | hevent
  · exact hdata event hevent
  · exact hdata' event hevent

theorem push (h : s'.log = s.log) {candidate : LogEntry}
    (hmem : Payload.lossless candidate.event.data ∈ payloads) :
    GrowsBy payloads s (s'.push candidate) :=
  ⟨[candidate.event], by simp [Session.push, h], by simpa using hmem⟩

end GrowsBy

mutual

theorem step_grows (s : Session) (op : SessionOp) : GrowsBy op.payloads s (s.step op).2 := by
  match op with
  | .events => exact .of_log s.events_frame.1
  | .seq => exact .of_log rfl
  | .nodes => exact .of_log rfl
  | .replaceGeneration => exact .of_log rfl
  | .deriveMessages => exact .of_log s.deriveMessages_frame.1
  | .requestHeader => exact .of_log s.requestHeader_frame.1
  | .requestContext => exact .of_log s.requestContext_frame.1
  | .append request dispatch veto observers =>
    obtain ⟨hlog, -⟩ := s.planAppend_frame request
    cases hplan : s.planAppend request with
    | mk result s₁ =>
    rw [hplan] at hlog
    have hlog : s₁.log = s.log := hlog
    cases result with
    | error e =>
      simp only [Session.step, hplan]
      exact .of_log hlog
    | ok candidate =>
      have hmem : Payload.lossless candidate.event.data ∈
          (SessionOp.append request dispatch veto observers).payloads := by
        simp [SessionOp.payloads, planAppend_data hplan]
      cases hattached : s₁.entry.isNone with
      | true =>
        simp only [Session.step, hplan, hattached]
        exact .push hlog hmem
      | false =>
        simp only [Session.step, hplan, hattached, Bool.false_eq_true, if_false]
        have hdispatch : GrowsBy (SessionOp.append request dispatch veto observers).payloads
            { s₁ with entry := s₁.entry.beginAppend }
            (Session.runOps { s₁ with entry := s₁.entry.beginAppend } dispatch).2 :=
          (runOps_grows _ dispatch).mono (fun _ h => by simp [SessionOp.payloads, h])
        have hopen : GrowsBy (SessionOp.append request dispatch veto observers).payloads s
            { s₁ with entry := s₁.entry.beginAppend } := .of_log hlog
        have hdispatched := hopen.trans hdispatch
        cases veto with
        | some e => exact hdispatched
        | none =>
          have hpushed := hdispatched.trans (.push rfl hmem)
          exact hpushed.trans ((runOps_grows _ observers).mono
            (fun _ h => by simp [SessionOp.payloads, h]))
  | .enter => exact .of_log rfl
  | .announce listeners veto =>
    simp only [Session.step]
    split
    · exact .of_log rfl
    · rename_i entry hbegin
      exact (runOps_grows { s with entry } listeners).mono (by simp [SessionOp.payloads])
  | .detach => exact .of_log rfl

theorem runOps_grows (s : Session) (ops : List SessionOp) :
    GrowsBy (allPayloads ops) s (s.runOps ops).2 := by
  match ops with
  | [] => exact .of_log rfl
  | op :: ops =>
    have hop : GrowsBy (allPayloads (op :: ops)) s (s.step op).2 :=
      (step_grows s op).mono (fun _ h => by simp [allPayloads, h])
    exact hop.trans ((runOps_grows _ ops).mono (fun _ h => by simp [allPayloads, h]))

end

end Session
end Harness
