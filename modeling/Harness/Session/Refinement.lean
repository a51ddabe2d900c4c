-- SUMMARY: The session refines the cacheless session: every call answers alike, and a failed append leaves no trace.
import Harness.Session.SessionInvariant

namespace Harness

/-! ## The attachment during a publication -/

namespace Attachment

variable {entry : Attachment}

theorem enter_appending (h : entry.appending = true) : entry.enter.2 = entry := by
  cases entry with
  | none => cases h
  | some entry => rfl

theorem detach_appending (h : entry.appending = true) : (detach entry).appending = true := by
  cases entry with
  | none => cases h
  | some entry =>
    have happending : entry.appending = true := by simpa [appending] using h
    cases hentered : entry.entered <;> simp [detach, hentered, happending, appending]

theorem beginAppend_appending (h : entry.isNone = false) :
    (beginAppend entry).appending = true := by
  cases entry with
  | none => cases h
  | some entry => rfl

theorem beginAnnounce_appending {entry entry' : Attachment} (h : entry.beginAnnounce = .ok entry') :
    entry'.appending = entry.appending := by
  cases entry with
  | none => cases h
  | some entry =>
    simp only [beginAnnounce] at h
    split at h
    · cases h
    · cases h
      rfl

theorem finishAnnounce_appending (h : entry.appending = true) :
    (finishAnnounce entry).appending = true := by
  cases entry with
  | none => cases h
  | some entry =>
    have happending : entry.appending = true := by simpa [appending] using h
    simp [finishAnnounce, happending, appending]

theorem finishAppend_appending (entry : Attachment) : (finishAppend entry).appending = false := by
  cases entry with
  | none => rfl
  | some entry =>
    simp only [finishAppend]
    split <;> rfl

/-- A deferred detach waits for a publication or an announcement to end. -/
def Sound (entry : Attachment) : Prop :=
  ∀ e, entry = some e → e.detachRequested = true → e.announcing = true ∨ e.appending = true

theorem Sound.enter (h : entry.Sound) : (Attachment.enter entry).2.Sound := by
  cases entry with
  | none =>
    rintro e ⟨rfl⟩ hrequested
    cases hrequested
  | some entry => exact h

theorem Sound.detach (h : entry.Sound) : (Attachment.detach entry).Sound := by
  cases entry with
  | none => exact h
  | some entry =>
    intro e he hrequested
    simp only [Attachment.detach] at he
    split at he
    · exact h e he hrequested
    split at he
    · rename_i hopen
      cases he
      simpa using hopen
    · cases he

theorem sound_beginAppend (entry : Attachment) : (beginAppend entry).Sound := by
  intro e he _
  cases entry with
  | none => cases he
  | some entry =>
    cases he
    exact .inr rfl

theorem sound_beginAnnounce {entry entry' : Attachment} (h : entry.beginAnnounce = .ok entry') :
    entry'.Sound := by
  cases entry with
  | none => cases h
  | some entry =>
    simp only [beginAnnounce] at h
    split at h
    · cases h
    cases h
    rintro e ⟨rfl⟩ -
    exact .inl rfl

theorem sound_finishAppend (entry : Attachment) : (finishAppend entry).Sound := by
  cases entry with
  | none => rintro e ⟨⟩
  | some entry =>
    intro e he hrequested
    simp only [finishAppend] at he
    split at he
    · cases he
    · cases he
      simp_all

theorem sound_finishAnnounce (entry : Attachment) : (finishAnnounce entry).Sound := by
  cases entry with
  | none => rintro e ⟨⟩
  | some entry =>
    intro e he hrequested
    simp only [finishAnnounce] at he
    split at he
    · cases he
    · cases he
      simp_all

/-- A publication restores the attachment it found. -/
theorem Sound.finishAppend_beginAppend (h : entry.Sound)
    (happending : entry.appending = false) : (beginAppend entry).finishAppend = entry := by
  cases entry with
  | none => rfl
  | some entry =>
    have hsound := h entry rfl
    obtain ⟨announced, announcing, appending, detachRequested, entered⟩ := entry
    simp only [Attachment.appending, Option.any_some] at happending
    subst happending
    cases detachRequested with
    | false => simp [beginAppend, finishAppend]
    | true =>
      have hannouncing : announcing = true := by simpa using hsound
      simp [beginAppend, finishAppend, hannouncing]

end Attachment

theorem AppendRequest.prepare_appending (request : AppendRequest) (seq : Nat) :
    ∃ e, request.prepare seq true = .error e := by
  unfold AppendRequest.prepare
  split
  · exact ⟨_, rfl⟩
  split
  · exact ⟨_, rfl⟩
  split
  · exact ⟨_, rfl⟩
  · exact ⟨_, rfl⟩

theorem AppendRequest.prepare_ok {request : AppendRequest} {seq : Nat} {appending : Bool}
    {event : SessionEvent} (h : request.prepare seq appending = .ok event) : appending = false := by
  cases appending with
  | false => rfl
  | true =>
    obtain ⟨e, he⟩ := request.prepare_appending seq
    rw [he] at h
    cases h

namespace Session

/-! ## Inside a publication -/

/-- `s'` has the log of `s`, and its surface manager. -/
structure SameLog (s s' : Session) : Prop where
  log : s'.log = s.log
  surfaceManager : s'.surfaceManager = s.surfaceManager
  nextIdentity : s'.nextIdentity = s.nextIdentity

theorem SameLog.refl (s : Session) : SameLog s s := ⟨rfl, rfl, rfl⟩

theorem SameLog.trans {s s' s'' : Session} (h : SameLog s s') (h' : SameLog s' s'') :
    SameLog s s'' :=
  ⟨h'.log.trans h.log, h'.surfaceManager.trans h.surfaceManager,
    h'.nextIdentity.trans h.nextIdentity⟩

/-- The append guard is closed and the surface is up to date. -/
structure Publishing (s : Session) : Prop where
  appending : s.entry.appending = true
  caughtUp : s.surfaceManager.Tracks s.log s.log.length

theorem Publishing.of_sameLog {s s' : Session} (h : s.Publishing) (hlog : SameLog s s')
    (happending : s'.entry.appending = true) : s'.Publishing :=
  ⟨happending, by rw [hlog.log, hlog.surfaceManager]; exact h.caughtUp⟩

variable {s : Session}

theorem Publishing.planAppend (h : s.Publishing) (request : AppendRequest) :
    ∃ e, s.planAppend request = (.error e, s) := by
  obtain ⟨e, he⟩ := request.prepare_appending s.log.length
  refine ⟨e, ?_⟩
  rw [Session.planAppend, h.appending, he]

theorem Publishing.deriveMessages (h : s.Publishing) :
    SameLog s s.deriveMessages.2 ∧ s.deriveMessages.2.entry = s.entry := by
  unfold Session.deriveMessages Session.nodes Session.replaceGeneration SurfaceManager.nodes
    SurfaceManager.replaceGeneration
  simp only [h.caughtUp.drain_self, Except.map]
  rw [refreshDerived_frame]
  exact ⟨⟨rfl, rfl, rfl⟩, rfl⟩

mutual

/-- Nothing a listener does while an append is published reaches the log. -/
theorem Publishing.step {s : Session} (h : s.Publishing) (op : SessionOp) :
    SameLog s (s.step op).2 ∧ (s.step op).2.entry.appending = true := by
  match op with
  | .events =>
    refine ⟨?_, ?_⟩ <;> simp only [Session.step, Session.events] <;> split
    · exact .refl s
    · exact ⟨rfl, rfl, rfl⟩
    · exact h.appending
    · exact h.appending
  | .seq => exact ⟨.refl s, h.appending⟩
  | .nodes =>
    simp only [Session.step, Session.nodes, SurfaceManager.nodes, h.caughtUp.drain_self]
    exact ⟨⟨rfl, rfl, rfl⟩, h.appending⟩
  | .replaceGeneration =>
    simp only [Session.step, Session.replaceGeneration, SurfaceManager.replaceGeneration,
      h.caughtUp.drain_self]
    exact ⟨⟨rfl, rfl, rfl⟩, h.appending⟩
  | .deriveMessages =>
    obtain ⟨hlog, hentry⟩ := h.deriveMessages
    exact ⟨hlog, hentry ▸ h.appending⟩
  | .requestHeader =>
    refine ⟨?_, ?_⟩ <;> simp only [Session.step, Session.requestHeader] <;> split
    · exact ⟨rfl, rfl, rfl⟩
    · exact .refl s
    · exact h.appending
    · exact h.appending
  | .requestContext =>
    refine ⟨?_, ?_⟩ <;> simp only [Session.step, Session.requestContext] <;> split
    · exact ⟨rfl, rfl, rfl⟩
    · exact .refl s
    · exact h.appending
    · exact h.appending
  | .append request dispatch veto observers =>
    obtain ⟨e, he⟩ := h.planAppend request
    simp only [Session.step, he]
    exact ⟨.refl s, h.appending⟩
  | .enter =>
    refine ⟨⟨rfl, rfl, rfl⟩, ?_⟩
    simp only [Session.step, Attachment.enter_appending h.appending]
    exact h.appending
  | .announce listeners veto =>
    simp only [Session.step]
    split
    · exact ⟨.refl s, h.appending⟩
    rename_i entry hbegin
    have happending : entry.appending = true :=
      (Attachment.beginAnnounce_appending hbegin).trans h.appending
    have hopen : Publishing { s with entry } := ⟨happending, h.caughtUp⟩
    obtain ⟨hlog, happending'⟩ := hopen.runOps listeners
    exact ⟨⟨hlog.log, hlog.surfaceManager, hlog.nextIdentity⟩,
      Attachment.finishAnnounce_appending happending'⟩
  | .detach => exact ⟨⟨rfl, rfl, rfl⟩, Attachment.detach_appending h.appending⟩

theorem Publishing.runOps {s : Session} (h : s.Publishing) (ops : List SessionOp) :
    SameLog s (s.runOps ops).2 ∧ (s.runOps ops).2.entry.appending = true := by
  match ops with
  | [] => exact ⟨.refl s, h.appending⟩
  | op :: ops =>
    obtain ⟨hlog, happending⟩ := h.step op
    obtain ⟨hlog', happending'⟩ := (h.of_sameLog hlog happending).runOps ops
    exact ⟨hlog.trans hlog', happending'⟩

end

theorem Planned.withEntry {candidate : LogEntry} (h : s.Planned candidate)
    (entry : Attachment) : Planned { s with entry } candidate :=
  { h with }

theorem Planned.of_sameLog {s s' : Session} {candidate : LogEntry} (h : s.Planned candidate)
    (hlog : SameLog s s') : s'.Planned candidate where
  caughtUp := by rw [hlog.log, hlog.surfaceManager]; exact h.caughtUp
  accepted := by rw [hlog.log]; exact h.accepted
  pending := by rw [hlog.surfaceManager]; exact h.pending
  identity := by rw [hlog.nextIdentity]; exact h.identity

/-! ## Refinement -/

/-- `t` is what `s` is for. -/
structure Refines (s : Session) (t : SessionSpec) : Prop where
  inv : s.Inv
  events : LogEntry.events s.log = t.events
  entry : s.entry = t.entry
  sound : s.entry.Sound

/-- The abstract session of a session. -/
def toSpec (s : Session) : SessionSpec := { events := LogEntry.events s.log, entry := s.entry }

theorem Inv.refines (h : s.Inv) (hsound : s.entry.Sound) : s.Refines s.toSpec :=
  ⟨h, rfl, rfl, hsound⟩

theorem Refines.eq_toSpec {t : SessionSpec} (h : s.Refines t) : t = s.toSpec := by
  obtain ⟨events, entry⟩ := t
  simp [toSpec, h.events, h.entry]

namespace Refines

variable {s : Session} {t : SessionSpec}

theorem withEntry (h : s.Refines t) {entry : Attachment} (hsound : entry.Sound) :
    Refines { s with entry } { t with entry } :=
  ⟨h.inv.withEntry entry, h.events, rfl, hsound⟩

theorem nodes (h : s.Refines t) : s.nodes.1 = t.nodes ∧ s.nodes.2.Refines t := by
  obtain ⟨state, replacements, haccepts⟩ := h.inv.accepted
  obtain ⟨-, htracks, -⟩ := h.inv.surfaceRead haccepts
  rw [h.inv.nodes haccepts, SessionSpec.nodes, ← h.events, haccepts.foldSurface]
  exact ⟨rfl, h.inv.withManager htracks, h.events, h.entry, h.sound⟩

theorem replaceGeneration (h : s.Refines t) :
    s.replaceGeneration.1 = .ok t.replaceGeneration ∧ s.replaceGeneration.2.Refines t := by
  obtain ⟨state, replacements, haccepts⟩ := h.inv.accepted
  obtain ⟨-, htracks, -⟩ := h.inv.surfaceRead haccepts
  rw [h.inv.replaceGeneration haccepts, SessionSpec.replaceGeneration, ← h.events,
    haccepts.generation, haccepts.replacements_count]
  exact ⟨rfl, h.inv.withManager htracks, h.events, h.entry, h.sound⟩

theorem deriveMessages (h : s.Refines t) :
    s.deriveMessages.1 = t.deriveMessages ∧ s.deriveMessages.2.Refines t := by
  obtain ⟨state, replacements, haccepts⟩ := h.inv.accepted
  have hafter := h.inv.afterDerive haccepts
  rw [h.inv.deriveMessages haccepts] at hafter ⊢
  refine ⟨?_, hafter, h.events, h.entry, h.sound⟩
  have hproject : projectNode s.log = SessionSpec.projectEvent t.events := by
    funext seq
    rw [projectNode_eq, h.events]
  rw [SessionSpec.deriveMessages, ← hproject, ← h.events, haccepts.foldSurface]
  rfl

theorem push (h : s.Refines t) {candidate : LogEntry} (hplanned : s.Planned candidate) :
    (s.push candidate).Refines (t.push candidate.event) :=
  ⟨h.inv.push hplanned, by simp [Session.push, SessionSpec.push, ← h.events], h.entry, h.sound⟩

end Refines

mutual

/-- A call answers alike and leads to sessions that still correspond. -/
theorem Refines.step {s : Session} {t : SessionSpec} (h : s.Refines t) (op : SessionOp) :
    (s.step op).1 = (t.step op).1 ∧ (s.step op).2.Refines (t.step op).2 := by
  match op with
  | .events =>
    obtain ⟨hread, hinv, hlog, hentry⟩ := h.inv.events
    refine ⟨?_, hinv, (congrArg LogEntry.events hlog).trans h.events, hentry.trans h.entry,
      hentry ▸ h.sound⟩
    simp only [Session.step, SessionSpec.step, hread, h.events]
  | .seq =>
    refine ⟨?_, h⟩
    simp [Session.step, SessionSpec.step, Session.seq, ← h.events]
  | .nodes => exact ⟨congrArg SessionReply.nodes h.nodes.1, h.nodes.2⟩
  | .replaceGeneration =>
    exact ⟨congrArg SessionReply.replaceGeneration h.replaceGeneration.1, h.replaceGeneration.2⟩
  | .deriveMessages =>
    exact ⟨congrArg SessionReply.deriveMessages h.deriveMessages.1, h.deriveMessages.2⟩
  | .requestHeader =>
    obtain ⟨hread, hinv, hlog, hentry⟩ := h.inv.requestHeader
    refine ⟨?_, hinv, (congrArg LogEntry.events hlog).trans h.events, hentry.trans h.entry,
      hentry ▸ h.sound⟩
    simp only [Session.step, SessionSpec.step, SessionSpec.requestHeader, hread, h.events]
  | .requestContext =>
    obtain ⟨hread, hinv, hlog, hentry⟩ := h.inv.requestContext
    refine ⟨?_, hinv, (congrArg LogEntry.events hlog).trans h.events, hentry.trans h.entry,
      hentry ▸ h.sound⟩
    simp only [Session.step, SessionSpec.step, SessionSpec.requestContext, hread, h.events]
  | .append request dispatch veto observers =>
    obtain ⟨hinv, hlog, hentry, hplan, hplanned⟩ := h.inv.planAppend request
    have hspec : t.planAppend request = (s.planAppend request).1.map LogEntry.event := by
      rw [h.eq_toSpec, hplan, toSpec]
    have hafter : (s.planAppend request).2.Refines t :=
      ⟨hinv, (congrArg LogEntry.events hlog).trans h.events, hentry.trans h.entry,
        hentry ▸ h.sound⟩
    simp only [Session.step, SessionSpec.step, hspec]
    generalize s.planAppend request = planned at hafter hplanned
    obtain ⟨result, s₁⟩ := planned
    cases result with
    | error e => exact ⟨rfl, hafter⟩
    | ok candidate =>
      have hcandidate : s₁.Planned candidate := hplanned candidate rfl
      simp only [Except.map]
      rw [← hafter.entry]
      cases hattached : s₁.entry.isNone with
      | true => exact ⟨rfl, hafter.push hcandidate⟩
      | false =>
        have hopen := hafter.withEntry (Attachment.sound_beginAppend s₁.entry)
        obtain ⟨hdispatched, hdispatch⟩ := hopen.step_all dispatch
        have hpublishing : Publishing { s₁ with entry := s₁.entry.beginAppend } :=
          ⟨Attachment.beginAppend_appending hattached, hcandidate.caughtUp⟩
        obtain ⟨hsame, -⟩ := hpublishing.runOps dispatch
        have hpushable : Planned (Session.runOps
            { s₁ with entry := s₁.entry.beginAppend } dispatch).2 candidate :=
          (hcandidate.withEntry s₁.entry.beginAppend).of_sameLog hsame
        simp only [Bool.false_eq_true, if_false]
        cases veto with
        | some e =>
          refine ⟨by rw [hdispatched], ?_⟩
          rw [hdispatch.entry]
          exact hdispatch.withEntry (Attachment.sound_finishAppend _)
        | none =>
          obtain ⟨hobserved, hobserve⟩ := (hdispatch.push hpushable).step_all observers
          refine ⟨by rw [hdispatched, hobserved], ?_⟩
          rw [hobserve.entry]
          exact hobserve.withEntry (Attachment.sound_finishAppend _)
  | .enter =>
    refine ⟨by simp only [Session.step, SessionSpec.step, h.entry], ?_⟩
    simp only [Session.step, SessionSpec.step, h.entry]
    exact h.withEntry (h.entry ▸ h.sound).enter
  | .announce listeners veto =>
    simp only [Session.step, SessionSpec.step, h.entry]
    cases hbegin : t.entry.beginAnnounce with
    | error e => exact ⟨rfl, h⟩
    | ok entry =>
      obtain ⟨hlistened, hlisten⟩ := (h.withEntry (Attachment.sound_beginAnnounce hbegin)).step_all listeners
      simp only
      refine ⟨by rw [hlistened], ?_⟩
      rw [hlisten.entry]
      exact hlisten.withEntry (Attachment.sound_finishAnnounce _)
  | .detach =>
    refine ⟨rfl, ?_⟩
    simp only [Session.step, SessionSpec.step, h.entry]
    exact h.withEntry (h.entry ▸ h.sound).detach

theorem Refines.step_all {s : Session} {t : SessionSpec} (h : s.Refines t) (ops : List SessionOp) :
    (s.runOps ops).1 = (t.runOps ops).1 ∧ (s.runOps ops).2.Refines (t.runOps ops).2 := by
  match ops with
  | [] => exact ⟨rfl, h⟩
  | op :: ops =>
    obtain ⟨hreply, hnext⟩ := h.step op
    obtain ⟨hreplies, hlast⟩ := hnext.step_all ops
    refine ⟨?_, hlast⟩
    simp only [Session.runOps, SessionSpec.runOps, hreply, hreplies]

end

end Session

end Harness
