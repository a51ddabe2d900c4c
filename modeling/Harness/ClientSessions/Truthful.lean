-- SUMMARY: When the client lists, and lets its user answer, exactly the requests that wait for an answer.
import Harness.ClientSessions.PendingRuns

namespace Harness

open List Option OrderedMap

namespace ClientSessions

open Transitions

section

variable {issued : PendingWait → Prop} {w : World}

theorem Inv.truthful (hids : HostIds issued) (h : Inv issued w) : w.Truthful where
  listed := by
    intro s key status
    rw [h.listed s key status]
    constructor
    · rintro ⟨r, ⟨hmem, hopen⟩, hrest⟩
      exact ⟨r, hmem, hopen, hrest⟩
    · rintro ⟨r, hmem, hopen, hrest⟩
      exact ⟨r, ⟨hmem, hopen⟩, hrest⟩
  answerable := by
    intro r hmem hopen
    unfold SessionManager.Answerable
    cases hget : get? w.manager.sessions r.sessionId with
    | none => exact (h.buffered r.sessionId hget).complete r ⟨hmem, hopen⟩ rfl
    | some session => exact (h.waiting r.sessionId session hget).complete r ⟨hmem, hopen⟩ rfl
  settled := by
    intro r hresolved
    constructor
    · rw [eq_none_iff_forall_ne_some]
      intro status hstatus
      obtain ⟨r', hr', hs, hkey, -⟩ := (h.listed r.sessionId r.requestKey status).mp hstatus
      have hsame : r' = r :=
        hids.keys r' r (h.issued_of_live r' hr') (h.resolved r hresolved) hs hkey
      exact hr'.2 (hsame ▸ hresolved)
    unfold SessionManager.Answerable
    cases hget : get? w.manager.sessions r.sessionId with
    | none =>
      intro hmem
      obtain ⟨r', hr', -, henvelope⟩ := (h.buffered r.sessionId hget).sound r.envelope hmem rfl
      have hsame : r' = r :=
        hids.rpcIds r' r (h.issued_of_live r' hr') (h.resolved r hresolved)
          (congrArg RpcRequest.rpcId henvelope).symm
      exact hr'.2 (hsame ▸ hresolved)
    | some session =>
      intro hwait
      exact ((h.waiting r.sessionId session hget).own r.key r hwait).2.2.2 hresolved

/-- What is listed for a session can be answered, so its instance waits on something. -/
theorem pending_ne_nil_of_listed (h : Inv issued w) {w' : World} (htrue : w'.Truthful)
    (hdelivered : w'.delivered = w.delivered) (hresolved : w'.resolved = w.resolved)
    {s : SessionId} (session : Session)
    (hget : get? w'.manager.sessions s = some session)
    (hlisted : w.manager.interactions s ≠ []) : session.pending ≠ [] := by
  obtain ⟨key, status, hstatus⟩ :
      ∃ key status, get? (w.manager.interactions s) key = some status := by
    cases hinteractions : w.manager.interactions s with
    | nil => exact absurd hinteractions hlisted
    | cons e rest => exact ⟨e.1, e.2, by rw [get?_cons, if_pos rfl]⟩
  obtain ⟨r, ⟨hmem, hopen⟩, rfl, -⟩ := (h.listed s key status).mp hstatus
  have hanswerable := htrue.answerable r (hdelivered ▸ hmem) (hresolved ▸ hopen)
  unfold SessionManager.Answerable at hanswerable
  simp only [hget] at hanswerable
  intro hempty
  rw [hempty] at hanswerable
  cases hanswerable

/-- Navigation that leaves the truth told rebuilds no opened session with a listed request. -/
theorem rebuilds_of_navigate (h : Inv issued w) {s : SessionId} {address : Option SubagentAddress}
    (htrue : World.Truthful { w with manager := w.manager.navigate s address }) (session : Session)
    (hget : get? w.manager.sessions s = some session)
    (haddress : session.address ≠ address) : w.manager.Rebuilds session := by
  intro hopened
  rw [h.ids s session hget]
  by_contra hlisted
  have hid := h.ids s session hget
  refine pending_ne_nil_of_listed h htrue rfl rfl (s := s)
    (session.configureSubagent address
      (address.any fun address => w.manager.parentAvailable address.parentSessionId)) ?_ hlisted ?_
  · simp only [SessionManager.navigate, hget, SessionManager.setSession, get?_set,
      Session.configureSubagent_sessionId, hid, if_true]
    rfl
  · rw [Session.configureSubagent_pending, if_neg (not_or.mpr ⟨haddress, hopened⟩)]

/-- A step that leaves the truth told keeps the copies together. -/
theorem Inv.keeps_of_truthful (hids : HostIds issued) (h : Inv issued w) {e : Event}
    (hissued : e.Issued issued) {w' : World} (hstep : w.step e = some w') (htrue : w'.Truthful) :
    e.Keeps w := by
  cases e with
  | handleConnected =>
    simp only [World.step] at hstep
    split at hstep
    case isFalse => cases hstep
    case isTrue =>
      cases hstep
      intro s session hget hopened
      rw [h.ids s session hget]
      by_contra hlisted
      refine pending_ne_nil_of_listed h htrue rfl rfl (s := s) session.resync ?_
        hlisted ?_
      · simp only [SessionManager.handleConnected, get?_mapValues, hget, map_some]
      · rw [Session.resync_pending, if_neg hopened]
  | select s =>
    obtain ⟨m, hselect, rfl⟩ := map_eq_some_iff.mp hstep
    simp only [SessionManager.select] at hselect
    split at hselect
    · cases hselect
    · cases hselect
      exact rebuilds_of_navigate h htrue
  | selectSubagent address =>
    obtain ⟨m, hselect, rfl⟩ := map_eq_some_iff.mp hstep
    unfold SessionManager.selectSubagent at hselect
    split at hselect
    · cases hselect
    split at hselect
    · cases hselect
      exact rebuilds_of_navigate h htrue
    · cases hselect
  | resolvedUnseen r =>
    simp only [World.step] at hstep
    split at hstep
    case isTrue => cases hstep
    case isFalse =>
      cases hstep
      intro session hget
      rw [eq_none_iff_forall_ne_some]
      intro wait hwait
      obtain ⟨hkey, -, hunsettled⟩ := (h.waiting r.sessionId session hget).own r.key wait hwait
      have hsame : wait = r :=
        hids.rpcIds wait r hunsettled.1 hissued (PendingWait.rpcId_of_key hkey)
      have hanswerable := (htrue.settled r mem_cons_self).2
      rw [SessionManager.Answerable] at hanswerable
      simp only [hget] at hanswerable
      exact hanswerable (hsame ▸ hwait)
  | _ => trivial

end

/-- All along a run the client lists exactly what waits for an answer, and its user can answer just
that, if and only if each step of the run keeps the list, the buffers and the instances together. -/
theorem pending_truthful_iff {issued : PendingWait → Prop} (hids : HostIds issued)
    (selected : Option SessionId) (restored : Option SubagentAddress) (events : List Event)
    (hissued : ∀ e ∈ events, e.Issued issued) :
    (∀ pre w, pre <+: events → run World.step (World.start selected restored) pre = some w →
        w.Truthful) ↔
      ∀ pre e w w', pre ++ [e] <+: events →
        run World.step (World.start selected restored) pre = some w → w.step e = some w' →
        e.Keeps w := by
  refine along_iff_of_inv_on (I := Inv issued) (Q := Event.Issued issued) ?_ ?_
    (Inv.start selected restored) ((Inv.start selected restored).truthful hids) hissued
  · exact fun w e w' h hissued hkeeps hstep => h.step hids hissued hkeeps hstep
  intro w e w' h hissued hstep
  constructor
  · exact h.keeps_of_truthful hids hissued hstep
  · exact fun hkeeps => (h.step hids hissued hkeeps hstep).truthful hids

def waitingApproval : PendingWait where
  sessionId := "s-1"
  rpcId := "rpc-1"
  body := .approval "approval-1" .null

theorem waitingApproval_ids : HostIds (· = waitingApproval) where
  rpcIds := by
    rintro r r' rfl rfl -
    rfl
  keys := by
    rintro r r' rfl rfl - -
    rfl

/-- An opened session, and a reconnect whose handshake ends before the replay. -/
def replayAfterHandshake : List Event :=
  [.streamOpens, .handleConnected, .get "s-1", .open_ "s-1", .requested waitingApproval,
    .handleDisconnected, .streamOpens, .handleConnected, .requested waitingApproval]

theorem replayAfterHandshake_truthful :
    ∃ w, run World.step (World.start none none) replayAfterHandshake = some w ∧
      waitingApproval ∈ w.delivered ∧ w.Truthful := by
  have hrun : ∃ w, run World.step (World.start none none) replayAfterHandshake = some w ∧
      w.delivered = [waitingApproval] := ⟨_, rfl, rfl⟩
  obtain ⟨w, hrun, hdelivered⟩ := hrun
  refine ⟨w, hrun, hdelivered ▸ mem_cons_self, ?_⟩
  refine (pending_truthful_iff waitingApproval_ids none none replayAfterHandshake
    (by simp [replayAfterHandshake, Event.Issued])).mpr ?_ _ w prefix_rfl hrun
  intro pre e w w' hpre hrun _
  obtain ⟨i, rfl, he⟩ := exists_of_snoc_prefix hpre
  match i with
  -- no session yet
  | 1 =>
    cases he
    cases hrun
    exact fun _ _ hget => by cases hget
  -- the disconnect has emptied the list
  | 7 =>
    cases he
    cases hrun
    exact fun _ _ _ _ => rfl
  | 0 | 2 | 3 | 4 | 5 | 6 | 8 =>
    cases he
    trivial
  | i + 9 => cases he

/-! ## A request that vanishes -/

/-- An opened session, and a reconnect whose replay comes before its handshake has ended. -/
def replayBeforeHandshake : List Event :=
  [.streamOpens, .handleConnected, .get "s-1", .open_ "s-1", .finishOpen "s-1" 0 true,
    .releaseOpen "s-1" 0, .requested waitingApproval, .handleDisconnected,
    .streamOpens, .requested waitingApproval, .handleConnected]

/-- The request is still listed, and nobody can answer it. -/
theorem replayBeforeHandshake_vanishes :
    ∃ w, run World.step (World.start none none) replayBeforeHandshake = some w ∧
      w.manager.interactions "s-1" = [(.a "approval-1", .approval)] ∧
      waitingApproval ∈ w.delivered ∧ waitingApproval ∉ w.resolved ∧
      ¬ w.manager.Answerable waitingApproval ∧ ¬ w.Truthful := by
  have hrun : ∃ w, run World.step (World.start none none) replayBeforeHandshake = some w ∧
      w.manager.interactions "s-1" = [(.a "approval-1", .approval)] ∧
      w.delivered = [waitingApproval] ∧ w.resolved = [] ∧
      (get? w.manager.sessions "s-1").map (·.pending) = some [] :=
    ⟨_, rfl, rfl, rfl, rfl, rfl⟩
  obtain ⟨w, hrun, hlisted, hdelivered, hresolved, hpending⟩ := hrun
  obtain ⟨session, hget, hempty⟩ := map_eq_some_iff.mp hpending
  have hmem : waitingApproval ∈ w.delivered := hdelivered ▸ mem_cons_self
  have hopen : waitingApproval ∉ w.resolved := hresolved ▸ not_mem_nil
  have hlost : ¬ w.manager.Answerable waitingApproval := by
    intro hanswerable
    unfold SessionManager.Answerable at hanswerable
    simp only [waitingApproval, hget, hempty] at hanswerable
    cases hanswerable
  exact ⟨w, hrun, hlisted, hmem, hopen, hlost, fun htrue => hlost (htrue.answerable _ hmem hopen)⟩

end ClientSessions

end Harness
