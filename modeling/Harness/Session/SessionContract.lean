-- SUMMARY: What holds of every session reached from a constructor: views agree with refolds, failed appends leave no trace.
import Harness.Session.Refinement

namespace Harness

/-- A listener call that does not announce or detach the session. -/
def SessionOp.keepsAttachment : SessionOp → Bool
  | .announce .. | .detach => false
  | _ => true

namespace Session

/-! ## Construction -/

theorem Inv.acceptSeed {s s' : Session} (h : s.Inv) {seed : List SessionEvent}
    (hseed : s.acceptSeed seed = .ok s') : s'.Inv ∧ s'.entry = s.entry := by
  induction seed generalizing s with
  | nil =>
    cases hseed
    exact ⟨h, rfl⟩
  | cons event rest ih =>
    simp only [Session.acceptSeed] at hseed
    split at hseed
    · cases hseed
    obtain ⟨state, replacements, haccepts⟩ := h.accepted
    obtain ⟨k, hk⟩ := h.manager
    have hfresh : ∀ entry ∈ s.log, entry.identity ≠
        ({ identity := s.nextIdentity, event } : LogEntry).identity :=
      fun entry hentry => Nat.ne_of_lt (h.identities entry hentry)
    obtain ⟨htracks, hresult⟩ := hk.validateNext haccepts hfresh
    split at hseed
    · cases hseed
    rename_i m hvalidate
    rw [hvalidate] at htracks hresult
    have htracks : m.Tracks s.log s.log.length := htracks
    cases hplan : planSurfaceEvent state event s.log.length (LogEntry.events s.log) 0 with
    | error e =>
      rw [hplan] at hresult
      cases hresult.1
    | ok plan =>
      rw [hplan] at hresult
      have hplan' : planSurfaceEvent state event (LogEntry.events s.log).length
          (LogEntry.events s.log) 0 = .ok plan := by rwa [List.length_map]
      have hplanned : Planned
          { s with surfaceManager := m, nextIdentity := s.nextIdentity + 1 }
          { identity := s.nextIdentity, event } :=
        { caughtUp := htracks
          accepted := ⟨_, _, by simpa using haccepts.snoc hplan'⟩
          pending := ⟨_, plan, hresult.2⟩
          identity := Nat.lt_succ_self _ }
      obtain ⟨hinv, hentry⟩ := ih ((h.withIdentity.withManager htracks).push hplanned) hseed
      exact ⟨hinv, hentry⟩

theorem refines_of_create {seed : Option (List SessionEvent)} {now : Int} {s : Session}
    (h : Session.create seed now = .ok s) : s.Refines s.toSpec := by
  have hempty : Session.empty.Refines Session.empty.toSpec := Inv.empty.refines (by rintro e ⟨⟩)
  cases seed with
  | none =>
    cases h
    exact hempty
  | some seed =>
    simp only [Session.create] at h
    split at h
    · cases h
    rename_i s₁ haccept
    obtain ⟨hinv, hentry⟩ := Inv.empty.acceptSeed haccept
    have hs₁ : s₁.Refines s₁.toSpec := hinv.refines (hentry ▸ hempty.sound)
    split at h
    · cases h
      exact hs₁
    split at h
    · cases h
    rename_i s₂ _ hstep
    cases h
    have hs₂ := (hs₁.step (.append (endSeedRequest now) [] none [])).2
    rw [hstep] at hs₂
    exact hs₂.inv.refines hs₂.sound

/-! ## Views and refolds -/

/-- Whatever was called before, and whatever was rejected, every answer a session
has given is the one a refold of the accepted events gives, and the views it
maintains are those of the full refold. -/
theorem views_agree_with_refold {seed : Option (List SessionEvent)} {now : Int} {s₀ : Session}
    (hcreate : Session.create seed now = .ok s₀) (ops : List SessionOp) :
    let s := (s₀.runOps ops).2
    let accepted := (s₀.toSpec.runOps ops).2.events
    (s₀.runOps ops).1 = (s₀.toSpec.runOps ops).1 ∧
    s.events.1 = accepted ∧
    ∃ surface, foldSurface accepted = .ok surface ∧
      s.nodes.1 = .ok surface.nodes ∧
      s.replaceGeneration.1 = .ok (accepted.countP isReplacementSurfaceEvent) ∧
      s.deriveMessages.1 = .ok (surface.nodes.filterMap fun seq =>
        accepted[seq]?.bind deriveEventMessage) := by
  intro s accepted
  obtain ⟨hreplies, hrefines⟩ := (refines_of_create hcreate).step_all ops
  have hevents : s.events.1 = accepted := hrefines.inv.events.1.trans hrefines.events
  obtain ⟨state, replacements, haccepts⟩ := hrefines.inv.accepted
  rw [hrefines.events] at haccepts
  have hfold : foldSurface accepted = .ok { nodes := state.nodes, replacements } :=
    haccepts.foldSurface
  refine ⟨hreplies, hevents, _, hfold, ?_, hrefines.replaceGeneration.1, ?_⟩
  · rw [hrefines.nodes.1, SessionSpec.nodes, hfold]
    rfl
  · rw [hrefines.deriveMessages.1, SessionSpec.deriveMessages, hfold]
    rfl

def appendMessage : AppendRequest where
  payload := .lossless (.userMessage { id := "m", content := [], source := .user })
  surfaceOp := .str "append"
  time := 0

/-- Two messages, a read, a vetoed third one, and a read again. -/
def readAroundVeto : List SessionOp :=
  [.enter, .append appendMessage [] none [], .append appendMessage [.nodes] none [.deriveMessages],
    .nodes, .append appendMessage [.nodes] (some "veto") [], .deriveMessages]

theorem readAroundVeto_agrees_with_refold :
    (empty.runOps readAroundVeto).2.events.1 = (empty.toSpec.runOps readAroundVeto).2.events :=
  have hcreate : Session.create none 0 = .ok empty := by rfl
  (views_agree_with_refold hcreate readAroundVeto).2.1

/-! ## Failed appends -/

/-- The sessions calls are made on: from outside, or by a listener of a call that is
still running. -/
inductive Reached : Session → Prop where
  | create {seed now s} : Session.create seed now = .ok s → Reached s
  | step {s} (op : SessionOp) : Reached s → Reached (s.step op).2
  | dispatching {s s' request candidate} : Reached s →
      s.planAppend request = (.ok candidate, s') → s'.entry.isNone = false →
      Reached { s' with entry := s'.entry.beginAppend }
  | observing {s s' request candidate} (dispatch : List SessionOp) : Reached s →
      s.planAppend request = (.ok candidate, s') → s'.entry.isNone = false →
      Reached ((runOps { s' with entry := s'.entry.beginAppend } dispatch).2.push candidate)
  | announcing {s entry} : Reached s → s.entry.beginAnnounce = .ok entry →
      Reached { s with entry }

/-- The state in which the listeners of an append's dispatch run. -/
theorem Refines.dispatching {s s' : Session} (h : s.Refines s.toSpec) {request : AppendRequest}
    {candidate : LogEntry} (hplan : s.planAppend request = (.ok candidate, s'))
    (hattached : s'.entry.isNone = false) :
    Refines { s' with entry := s'.entry.beginAppend }
        (toSpec { s' with entry := s'.entry.beginAppend }) ∧
      Publishing { s' with entry := s'.entry.beginAppend } ∧
      Planned { s' with entry := s'.entry.beginAppend } candidate := by
  obtain ⟨hinv, -, -, -, hplanned⟩ := h.inv.planAppend request
  rw [hplan] at hinv hplanned
  have hcandidate := hplanned candidate rfl
  refine ⟨(hinv.withEntry _).refines (Attachment.sound_beginAppend _), ?_, hcandidate.withEntry _⟩
  exact ⟨Attachment.beginAppend_appending hattached, hcandidate.caughtUp⟩

theorem Reached.refines {s : Session} (h : s.Reached) : s.Refines s.toSpec := by
  induction h with
  | create hcreate => exact refines_of_create hcreate
  | step op _ ih =>
    have hnext := (ih.step op).2
    exact hnext.inv.refines hnext.sound
  | dispatching _ hplan hattached ih => exact (ih.dispatching hplan hattached).1
  | observing dispatch _ hplan hattached ih =>
    obtain ⟨hrefines, hpublishing, hplanned⟩ := ih.dispatching hplan hattached
    have hpushed := (hrefines.step_all dispatch).2.push
      (hplanned.of_sameLog (hpublishing.runOps dispatch).1)
    exact hpushed.inv.refines hpushed.sound
  | announcing _ hbegin ih =>
    exact (ih.inv.withEntry _).refines (Attachment.sound_beginAnnounce hbegin)

/-- Every read of `s` answers as on `s'`, and the append guard stands alike. -/
structure Agree (s s' : Session) : Prop where
  events : s.events.1 = s'.events.1
  seq : s.seq = s'.seq
  nodes : s.nodes.1 = s'.nodes.1
  replaceGeneration : s.replaceGeneration.1 = s'.replaceGeneration.1
  requestHeader : s.requestHeader.1 = s'.requestHeader.1
  requestContext : s.requestContext.1 = s'.requestContext.1
  deriveMessages : s.deriveMessages.1 = s'.deriveMessages.1
  appending : s.entry.appending = s'.entry.appending

/-- No continuation tells `s` from `s'`: it gets the same answers on both and
leads to sessions that agree. -/
def Indistinguishable (s s' : Session) : Prop :=
  ∀ ops, (s.runOps ops).1 = (s'.runOps ops).1 ∧ (s.runOps ops).2.Agree (s'.runOps ops).2

theorem Refines.agree {s s' : Session} {t t' : SessionSpec} (h : s.Refines t) (h' : s'.Refines t')
    (hevents : t.events = t'.events) (happending : s.entry.appending = s'.entry.appending) :
    s.Agree s' where
  events := by rw [h.inv.events.1, h'.inv.events.1, h.events, h'.events, hevents]
  seq := by
    have hlen := congrArg List.length (h.events.trans (hevents.trans h'.events.symm))
    simpa [Session.seq] using hlen
  nodes := by rw [h.nodes.1, h'.nodes.1, SessionSpec.nodes, SessionSpec.nodes, hevents]
  replaceGeneration := by
    rw [h.replaceGeneration.1, h'.replaceGeneration.1, SessionSpec.replaceGeneration,
      SessionSpec.replaceGeneration, hevents]
  requestHeader := by
    rw [h.inv.requestHeader.1, h'.inv.requestHeader.1, h.events, h'.events, hevents]
  requestContext := by
    rw [h.inv.requestContext.1, h'.inv.requestContext.1, h.events, h'.events, hevents]
  deriveMessages := by
    rw [h.deriveMessages.1, h'.deriveMessages.1, SessionSpec.deriveMessages,
      SessionSpec.deriveMessages, hevents]
  appending := happending

/-- Two sessions for the same thing cannot be told apart. -/
theorem Refines.indistinguishable {s s' : Session} {t : SessionSpec} (h : s.Refines t)
    (h' : s'.Refines t) : s.Indistinguishable s' := by
  intro ops
  obtain ⟨hreplies, hrefines⟩ := h.step_all ops
  obtain ⟨hreplies', hrefines'⟩ := h'.step_all ops
  refine ⟨hreplies.trans hreplies'.symm, hrefines.agree hrefines' rfl ?_⟩
  rw [hrefines.entry, hrefines'.entry]

theorem Publishing.step_entry {s : Session} (h : s.Publishing) {op : SessionOp}
    (hkeeps : op.keepsAttachment = true) : (s.step op).2.entry = s.entry := by
  cases op with
  | events =>
    simp only [Session.step, Session.events]
    split <;> rfl
  | seq => rfl
  | nodes => rfl
  | replaceGeneration => rfl
  | deriveMessages => exact h.deriveMessages.2
  | requestHeader =>
    simp only [Session.step, Session.requestHeader]
    split <;> rfl
  | requestContext =>
    simp only [Session.step, Session.requestContext]
    split <;> rfl
  | append request dispatch veto observers =>
    obtain ⟨e, he⟩ := h.planAppend request
    simp only [Session.step, he]
  | enter => exact Attachment.enter_appending h.appending
  | announce => cases hkeeps
  | detach => cases hkeeps

theorem Publishing.runOps_entry {s : Session} (h : s.Publishing) {ops : List SessionOp}
    (hkeeps : ops.all SessionOp.keepsAttachment = true) : (s.runOps ops).2.entry = s.entry := by
  induction ops generalizing s with
  | nil => rfl
  | cons op ops ih =>
    simp only [List.all_cons, Bool.and_eq_true] at hkeeps
    obtain ⟨hlog, happending⟩ := h.step op
    exact (ih (h.of_sameLog hlog happending) hkeeps.2).trans (h.step_entry hkeeps.1)

/-- The log and the guard after a failed append, and the attachment when no
listener changed it. -/
theorem Refines.failedAppend {s s' : Session} (h : s.Refines s.toSpec) {request : AppendRequest}
    {dispatch observers : List SessionOp} {veto : Option String}
    {dispatched observed : List SessionReply} {e : String}
    (hfailed : s.step (.append request dispatch veto observers) =
      (.append dispatched (.error e) observed, s')) :
    s'.log = s.log ∧ s'.entry.appending = s.entry.appending ∧
      (dispatch.all SessionOp.keepsAttachment = true → s'.entry = s.entry) := by
  obtain ⟨-, hlog, hentry, -, -⟩ := h.inv.planAppend request
  have hguard : ∀ candidate, (s.planAppend request).1 = .ok candidate →
      s.entry.appending = false := by
    intro candidate hcandidate
    unfold Session.planAppend at hcandidate
    split at hcandidate
    · cases hcandidate
    · rename_i hprepare
      exact AppendRequest.prepare_ok hprepare
  cases hplan : s.planAppend request with
  | mk result s₁ =>
    rw [hplan] at hlog hentry hguard
    simp only at hlog hentry hguard
    simp only [Session.step, hplan] at hfailed
    cases result with
    | error e' =>
      cases hfailed
      exact ⟨hlog, by rw [hentry], fun _ => hentry⟩
    | ok candidate =>
      cases hattached : s₁.entry.isNone with
      | true =>
        simp only [hattached] at hfailed
        cases hfailed
      | false =>
        obtain ⟨-, hpublishing, -⟩ := h.dispatching hplan hattached
        obtain ⟨hsame, -⟩ := hpublishing.runOps dispatch
        simp only [hattached] at hfailed
        cases veto with
        | none => cases hfailed
        | some e' =>
          cases hfailed
          refine ⟨hsame.log.trans hlog, ?_, fun hkeeps => ?_⟩
          · rw [Attachment.finishAppend_appending, hguard candidate rfl]
          have hsound : s₁.entry.Sound := hentry ▸ h.sound
          have happending : s₁.entry.appending = false := by rw [hentry]; exact hguard candidate rfl
          have hrestored := hsound.finishAppend_beginAppend happending
          rw [hentry] at hrestored
          exact (congrArg Attachment.finishAppend (hpublishing.runOps_entry hkeeps)).trans
            (by rw [hentry]; exact hrestored)

/-- An append that throws, for whatever reason and wherever it was called from,
changes no view of the session, and no continuation can tell it was attempted:
apart from what its listeners did to the store attachment the session is the one
before the call. -/
theorem failed_append_leaves_no_trace {s s' : Session} (hreached : s.Reached)
    {request : AppendRequest} {dispatch observers : List SessionOp} {veto : Option String}
    {dispatched observed : List SessionReply} {e : String}
    (hfailed : s.step (.append request dispatch veto observers) =
      (.append dispatched (.error e) observed, s')) :
    s'.Agree s ∧
    s'.Indistinguishable { s with entry := s'.entry } ∧
    (dispatch.all SessionOp.keepsAttachment = true → s'.Indistinguishable s) := by
  have h := hreached.refines
  obtain ⟨hlog, happending, hkept⟩ := h.failedAppend hfailed
  have hafter : s'.Refines s'.toSpec := by
    have hnext := (h.step (.append request dispatch veto observers)).2
    rw [hfailed] at hnext
    exact hnext.inv.refines hnext.sound
  have hevents : s'.toSpec.events = s.toSpec.events := congrArg LogEntry.events hlog
  have hwith : s'.Indistinguishable { s with entry := s'.entry } := by
    apply hafter.indistinguishable
    have hs := h.withEntry hafter.sound
    rw [← hevents] at hs
    exact hs
  refine ⟨hafter.agree h hevents happending, hwith, fun hkeeps => ?_⟩
  rw [hkept hkeeps] at hwith
  exact hwith

theorem vetoed_append_leaves_no_trace :
    ((empty.step .enter).2.step (.append appendMessage [.nodes] (some "veto") [])).2.Agree
      (empty.step .enter).2 :=
  have hcreate : Session.create none 0 = .ok empty := by rfl
  have hreached : (empty.step .enter).2.Reached := .step .enter (.create hcreate)
  have hfailed : (empty.step .enter).2.step (.append appendMessage [.nodes] (some "veto") []) =
      (.append [.nodes (.ok [])] (.error "veto") [],
        ((empty.step .enter).2.step (.append appendMessage [.nodes] (some "veto") [])).2) := by rfl
  (failed_append_leaves_no_trace hreached hfailed).1

end Session

end Harness
