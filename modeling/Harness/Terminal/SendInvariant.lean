-- SUMMARY: The invariant of the send protocol of a PTY session, and the operations that release the slot under it.
import Harness.Terminal.Runs

namespace Harness

open List

namespace Terminal

namespace LocalPtySession

/-! ## The flags of the sends -/

section

variable (s : LocalPtySession) {i j : Nat} {f : LocalSendOperation → LocalSendOperation}

def finishedAt (i : Nat) : Bool := s.operations[i]?.any (·.finished)

def cancelledAt (i : Nat) : Bool := s.operations[i]?.any (·.cancellationRequested)

/-- A change in place, as seen through a flag. -/
theorem any_modify {p : LocalSendOperation → Bool} (l : List LocalSendOperation) :
    (l.modify i f)[j]?.any p = if i = j then l[j]?.any (fun x => p (f x)) else l[j]?.any p := by
  rw [getElem?_modify]
  cases l[j]? with
  | none =>
    split <;> rfl
  | some operation =>
    split <;> rfl

theorem finishedAt_update (hf : ∀ operation, (f operation).finished = operation.finished) :
    (s.update i f).finishedAt j = s.finishedAt j := by
  unfold finishedAt LocalPtySession.update
  simp only [any_modify, hf, ite_self]

theorem cancelledAt_update
    (hf : ∀ operation, (f operation).cancellationRequested = operation.cancellationRequested) :
    (s.update i f).cancelledAt j = s.cancelledAt j := by
  unfold cancelledAt LocalPtySession.update
  simp only [any_modify, hf, ite_self]

theorem stage_update (hf : ∀ operation, (f operation).stage = operation.stage) :
    (s.update i f).stage j = s.stage j := by
  unfold LocalPtySession.stage LocalPtySession.update
  simp only [getElem?_modify]
  cases s.operations[j]? with
  | none => rfl
  | some operation => split <;> simp [hf]

theorem length_update : (s.update i f).operations.length = s.operations.length :=
  length_modify ..

theorem stage_setStage (stage : BeginSend) :
    (s.setStage i stage).stage j
      = if i = j then (s.stage j).map fun _ => stage else s.stage j := by
  unfold LocalPtySession.setStage LocalPtySession.stage LocalPtySession.update
  simp only [getElem?_modify]
  cases s.operations[j]? with
  | none => split <;> rfl
  | some operation => split <;> rfl

/-- A send whose stage becomes `stage'` is the only one whose stage changes. -/
theorem stage_setStage_iff {stage stage' : BeginSend} (hne : stage ≠ stage') :
    (s.setStage i stage').stage j = some stage ↔ i ≠ j ∧ s.stage j = some stage := by
  rw [stage_setStage]
  split
  case isTrue hij =>
    constructor
    · intro hj
      obtain ⟨-, -, hsame⟩ := Option.map_eq_some_iff.mp hj
      exact absurd hsame.symm hne
    · exact fun hj => absurd hij hj.1
  case isFalse hij => exact (and_iff_right hij).symm

theorem stage_setStage_none (stage : BeginSend) :
    (s.setStage i stage).stage j = none ↔ s.stage j = none := by
  rw [stage_setStage]
  split
  · exact Option.map_eq_none_iff
  · exact Iff.rfl

theorem finishedAt_setStage (stage : BeginSend) :
    (s.setStage i stage).finishedAt j = s.finishedAt j := finishedAt_update s fun _ => rfl

theorem cancelledAt_setStage (stage : BeginSend) :
    (s.setStage i stage).cancelledAt j = s.cancelledAt j := cancelledAt_update s fun _ => rfl

theorem lt_of_stage {stage : BeginSend} (h : s.stage i = some stage) : i < s.operations.length := by
  obtain ⟨operation, hget, -⟩ := Option.map_eq_some_iff.mp h
  exact (List.getElem?_eq_some_iff.mp hget).1

theorem lt_of_flag {p : LocalSendOperation → Bool} (h : s.operations[i]?.any p = true) :
    i < s.operations.length := by
  by_contra hout
  rw [getElem?_eq_none (Nat.le_of_not_lt hout)] at h
  cases h

/-! ### Settling one send -/

variable (outcome : LocalSendOperation → SendOutcome)

theorem finish_eq (hlt : i < s.operations.length) :
    s.finish i outcome
      = if s.finishedAt i then s
        else (s.update i fun operation => { operation with
          outcome := some (outcome operation) }).happen (.settled i) := by
  unfold LocalPtySession.finish finishedAt
  rw [getElem?_eq_getElem hlt]
  rfl

theorem finishedAt_finish (hlt : i < s.operations.length) :
    (s.finish i outcome).finishedAt j = (s.finishedAt j || decide (i = j)) := by
  rw [finish_eq s outcome hlt]
  split
  case isTrue hfinished =>
    by_cases hij : i = j
    · subst hij
      simp [hfinished]
    · simp [hij]
  case isFalse hopen =>
    unfold finishedAt LocalPtySession.happen LocalPtySession.update
    simp only [any_modify]
    split
    case isTrue hij =>
      subst hij
      rw [getElem?_eq_getElem hlt]
      simp [LocalSendOperation.finished]
    case isFalse hij => simp [hij]

theorem log_finish (hlt : i < s.operations.length) :
    (s.finish i outcome).log = if s.finishedAt i then s.log else .settled i :: s.log := by
  rw [finish_eq s outcome hlt]
  split <;> rfl

/-- Settling a send changes its outcome and the log. -/
theorem finish_frame :
    ∃ operations log, s.finish i outcome = { s with operations, log } ∧
      operations.length = s.operations.length ∧
      (∀ j, (s.finish i outcome).stage j = s.stage j) ∧
      ∀ j, (s.finish i outcome).cancelledAt j = s.cancelledAt j := by
  unfold LocalPtySession.finish
  split
  · exact ⟨s.operations, s.log, rfl, rfl, fun _ => rfl, fun _ => rfl⟩
  split
  · exact ⟨s.operations, s.log, rfl, rfl, fun _ => rfl, fun _ => rfl⟩
  · exact ⟨_, _, rfl, length_update s, fun _ => stage_update s fun _ => rfl,
      fun _ => cancelledAt_update s fun _ => rfl⟩

end

/-! ## The invariant -/

/-- A send whose write may still come, or is in flight. -/
def Unwritten (s : LocalPtySession) (i : Nat) : Prop :=
  s.stage i = none ∨ s.stage i = some .writing ∨
    (∃ request, s.stage i = some (.inspecting request)) ∧ s.cancelledAt i = false

structure Core (s : LocalPtySession) : Prop where
  range : ∀ i, s.active = some i → i < s.operations.length
  exclusive : ∀ i, i < s.operations.length → s.finishedAt i = false → s.active = some i
  deadline : s.IsOpen → ∀ i, s.active = some i → s.finishedAt i = false →
    s.activeDeadlineTimer = some i
  promised : s.closePromise ≠ none → s.closing = true
  writing : ∀ i, s.stage i = some .writing ↔ s.activeWrite = some i
  writer : s.IsOpen → ∀ i, s.activeWrite = some i → s.active = some i
  writer_unique : ∀ i j, s.activeWrite = some i → s.active = some j → i = j
  /-- No poll looks for a send before its write has ended. -/
  unpolled : ∀ i, s.Unwritten i →
    s.activeTimer ≠ some i ∧ s.polling ≠ some i ∧ s.pollingReady ≠ some i
  cancelled : ∀ x ∈ s.interrupts, s.cancelledAt x.send = true
  draining : ∀ x ∈ s.interrupts, ∀ write, x.phase = .draining write → write = x.send
  draining_iff : ∀ x ∈ s.interrupts,
    s.stage x.send = some .writing ↔ x.phase = .draining x.send
  interrupting : s.IsOpen → ∀ i, s.interrupting = some i → s.active = some i
  cancelled_writing : s.IsOpen → ∀ i, s.activeWrite = some i → s.cancelledAt i = true →
    s.interrupting = some i
  log_accepted : ∀ i, i < s.operations.length ↔ ∃ request, .accepted i request ∈ s.log
  log_request : ∀ i request, s.stage i = some (.inspecting request) → .accepted i request ∈ s.log
  log_settled : ∀ i, .settled i ∈ s.log ↔ s.finishedAt i = true
  log_cancelled : ∀ i, .cancelled i ∈ s.log ↔ s.cancelledAt i = true
  log_closed : .closed ∈ s.log ↔ s.closing = true
  log_unwritten : ∀ i request, s.stage i = some (.inspecting request) →
    ∀ input, .wrote i input ∉ s.log
  lawful : Chronicle.Lawful Fits s.log

structure Inv (s : LocalPtySession) : Prop extends Core s where
  exited : s.statusValue ≠ .running → s.active = none
  terminating : s.closing = true → ∀ i, s.active = some i →
    ∃ reason, s.closePromise = some (.terminating reason)
  /-- A settled send keeps the session for its write or for its interrupt. -/
  retained : s.IsOpen → ∀ i, s.active = some i → s.finishedAt i = true →
    s.activeWrite = some i ∨ s.interrupting = some i
  drained : s.IsOpen → ∀ x ∈ s.interrupts, x.phase = .drained false → s.active ≠ some x.send
  /-- The interrupt that the session drains is still to end. -/
  live : s.IsOpen → ∀ i, s.interrupting = some i →
    ∃ x ∈ s.interrupts, x.send = i ∧ x.phase ≠ .drained false

/-! ## Release -/

variable {s : LocalPtySession} {i : Nat}

/-- Settling a send is seen in its flag and in the log only. -/
theorem Core.finish (h : Core s) (hlt : i < s.operations.length)
    (outcome : LocalSendOperation → SendOutcome) : Core (s.finish i outcome) := by
  have hflag := fun j => finishedAt_finish s (i := i) (j := j) outcome hlt
  have hlog := log_finish s outcome hlt
  obtain ⟨operations, log, heq, hlength, hstage, hcancelled⟩ := finish_frame s (i := i) outcome
  have hmem : ∀ entry, (∀ j, entry ≠ .settled j) → (entry ∈ log ↔ entry ∈ s.log) := by
    intro entry hne
    have hsame : log = (s.finish i outcome).log := by rw [heq]
    rw [hsame, hlog]
    split
    · exact Iff.rfl
    · rw [mem_cons, or_iff_right (hne i)]
  have hold : ∀ j, (s.finish i outcome).finishedAt j = false → s.finishedAt j = false := by
    intro j hopen
    rw [hflag, Bool.or_eq_false_iff] at hopen
    exact hopen.1
  have hlogs : (∀ j, .settled j ∈ log ↔ (s.finish i outcome).finishedAt j = true) ∧
      Chronicle.Lawful Fits log := by
    have hsame : log = (s.finish i outcome).log := by rw [heq]
    rw [hsame, hlog]
    split
    case isTrue hdone =>
      refine ⟨fun j => ?_, h.lawful⟩
      rw [hflag, h.log_settled]
      by_cases hij : i = j
      · subst hij
        simp [hdone]
      · simp [hij]
    case isFalse hopen =>
      refine ⟨fun j => ?_, ⟨(h.log_accepted i).mp hlt, ?_⟩, h.lawful⟩
      · rw [hflag, mem_cons, h.log_settled]
        by_cases hij : i = j
        · subst hij
          simp
        · simp [hij, Ne.symm hij]
      · rw [h.log_settled]
        exact hopen
  rw [heq] at hstage hcancelled hflag hold hlogs ⊢
  exact { h with
    range := fun j hactive => hlength ▸ h.range j hactive
    exclusive := fun j hlt hopen => h.exclusive j (hlength ▸ hlt) (hold j hopen)
    deadline := fun hopen j hactive hunsettled => h.deadline hopen j hactive (hold j hunsettled)
    writing := fun j => by rw [hstage]; exact h.writing j
    unpolled := fun j hj => h.unpolled j (by
      unfold Unwritten at hj ⊢
      rwa [hstage, hcancelled] at hj)
    cancelled := fun x hx => by rw [hcancelled]; exact h.cancelled x hx
    draining_iff := fun x hx => by rw [hstage]; exact h.draining_iff x hx
    cancelled_writing := fun hopen j hwriting hj =>
      h.cancelled_writing hopen j hwriting (by rwa [hcancelled] at hj)
    log_accepted := fun j => by
      simp only [hlength, h.log_accepted j]
      exact exists_congr fun request => (hmem _ (by simp)).symm
    log_request := fun j request hj => (hmem _ (by simp)).mpr
      (h.log_request j request (by rwa [hstage] at hj))
    log_settled := hlogs.1
    log_cancelled := fun j => by
      rw [hcancelled]
      exact (hmem _ (by simp)).trans (h.log_cancelled j)
    log_closed := (hmem _ (by simp)).trans h.log_closed
    log_unwritten := fun j request hj input hwrote =>
      h.log_unwritten j request (by rwa [hstage] at hj) input ((hmem _ (by simp)).mp hwrote)
    lawful := hlogs.2 }

/-- The timers of a settled holder are cleared. -/
theorem Core.stopPolling (h : Core s) (hfinished : ∀ i, s.active = some i → s.finishedAt i = true) :
    Core { s.stopPolling with activeAbort := none } :=
  { h with
    deadline := fun _ j hactive hopen => by
      have hdone := hfinished j hactive
      rw [show s.finishedAt j = false from hopen] at hdone
      cases hdone
    unpolled := fun j hj => ⟨nofun, (h.unpolled j hj).2.1, nofun⟩ }

theorem Core.interrupting_clearActive (h : Core s) (hopen : s.IsOpen) (j : Nat) :
    s.clearActive.interrupting ≠ some j := by
  intro hinterrupting
  simp only [LocalPtySession.clearActive] at hinterrupting
  split at hinterrupting
  case isTrue => cases hinterrupting
  case isFalse hne => exact hne (hinterrupting.trans (h.interrupting hopen j hinterrupting).symm)

/-- A settled holder is released. -/
theorem Core.clearActive (h : Core s) (hfinished : ∀ i, s.active = some i → s.finishedAt i = true)
    (hwrite : s.IsOpen → s.activeWrite = none) : Inv s.clearActive :=
  { h.stopPolling hfinished with
    range := fun j hactive => by cases hactive
    exclusive := fun j hlt hopen => by
      have hdone := hfinished j (h.exclusive j hlt hopen)
      rw [show s.finishedAt j = false from hopen] at hdone
      cases hdone
    deadline := fun _ j hactive => by cases hactive
    writer := fun hopen j hwriting => by
      have hnone := hwrite hopen
      rw [show s.activeWrite = some j from hwriting] at hnone
      cases hnone
    writer_unique := fun _ j _ hactive => by cases hactive
    interrupting := fun hopen j hinterrupting =>
      absurd hinterrupting (h.interrupting_clearActive hopen j)
    cancelled_writing := fun hopen j hwriting => by
      have hnone := hwrite hopen
      rw [show s.activeWrite = some j from hwriting] at hnone
      cases hnone
    exited := fun _ => rfl
    terminating := fun _ j hactive => by cases hactive
    retained := fun _ j hactive => by cases hactive
    drained := fun _ x _ _ hactive => by cases hactive
    live := fun hopen j hinterrupting => absurd hinterrupting (h.interrupting_clearActive hopen j) }

theorem clearActive_finish (outcome : LocalSendOperation → SendOutcome) :
    s.clearActive.finish i outcome = (s.finish i outcome).clearActive := by
  unfold LocalPtySession.finish
  simp only [LocalPtySession.clearActive, LocalPtySession.stopPolling,
    LocalPtySession.stopReadinessPolling]
  cases s.operations[i]? with
  | none => rfl
  | some operation =>
    simp only
    split <;> rfl

theorem stopPolling_finish (outcome : LocalSendOperation → SendOutcome) :
    { s.stopPolling with activeAbort := none }.finish i outcome
      = { (s.finish i outcome).stopPolling with activeAbort := none } := by
  unfold LocalPtySession.finish
  simp only [LocalPtySession.stopPolling, LocalPtySession.stopReadinessPolling]
  cases s.operations[i]? with
  | none => rfl
  | some operation =>
    simp only
    split <;> rfl

theorem finish_fields (outcome : LocalSendOperation → SendOutcome) :
    (s.finish i outcome).active = s.active ∧
      (s.finish i outcome).activeWrite = s.activeWrite ∧
      (s.finish i outcome).interrupting = s.interrupting ∧
      (s.finish i outcome).statusValue = s.statusValue ∧
      (s.finish i outcome).closing = s.closing := by
  obtain ⟨operations, log, heq, -⟩ := finish_frame s (i := i) outcome
  rw [heq]
  exact ⟨rfl, rfl, rfl, rfl, rfl⟩

theorem finishedAt_finish_active (hactive : s.active = some i) (hlt : i < s.operations.length)
    (outcome : LocalSendOperation → SendOutcome) :
    ∀ j, (s.finish i outcome).active = some j → (s.finish i outcome).finishedAt j = true := by
  intro j hj
  rw [(finish_fields outcome).1, hactive] at hj
  cases hj
  rw [finishedAt_finish s outcome hlt]
  simp

/-- The holder of the session is settled and released. -/
theorem Core.release (h : Core s) (hactive : s.active = some i)
    (hwrite : s.IsOpen → s.activeWrite = none) (outcome : LocalSendOperation → SendOutcome) :
    Inv (s.clearActive.finish i outcome) := by
  have hlt := h.range i hactive
  obtain ⟨-, hactiveWrite, -, hstatus, hclosing⟩ := finish_fields (s := s) (i := i) outcome
  rw [clearActive_finish]
  refine (h.finish hlt outcome).clearActive (finishedAt_finish_active hactive hlt outcome) ?_
  rintro ⟨hrunning, hunclosed⟩
  rw [hactiveWrite]
  exact hwrite ⟨hstatus ▸ hrunning, hclosing ▸ hunclosed⟩

theorem Core.failActive (h : Core s) (hactive : s.active = some i)
    (hwrite : s.IsOpen → s.activeWrite = none) (error : Failure) : Inv (s.failActive error) := by
  unfold LocalPtySession.failActive
  rw [hactive]
  exact h.release hactive hwrite _

/-- The deadline settles a holder that keeps the session. -/
theorem Inv.retain (h : Inv s) (hactive : s.active = some i)
    (hkeeps : s.activeWrite = some i ∨ s.interrupting = some i)
    (outcome : LocalSendOperation → SendOutcome) :
    Inv ({ s.stopPolling with activeAbort := none }.finish i outcome) := by
  have hlt := h.range i hactive
  obtain ⟨hsame, hactiveWrite, hinterrupting, hstatus, -⟩ := finish_fields (s := s) (i := i) outcome
  rw [stopPolling_finish]
  refine { (h.toCore.finish hlt outcome).stopPolling
    (finishedAt_finish_active hactive hlt outcome) with
    exited := ?_, terminating := ?_, retained := ?_, drained := ?_, live := ?_ }
  · intro hexited
    exact hsame.trans (h.exited (hstatus ▸ hexited))
  · obtain ⟨operations, log, heq, -⟩ := finish_frame s (i := i) outcome
    rw [heq]
    exact h.terminating
  · intro _ j hj _
    have hij : i = j := Option.some.inj (hactive.symm.trans (hsame.symm.trans hj))
    subst hij
    exact hkeeps.imp hactiveWrite.trans hinterrupting.trans
  · obtain ⟨operations, log, heq, -⟩ := finish_frame s (i := i) outcome
    rw [heq]
    exact h.drained
  · obtain ⟨operations, log, heq, -⟩ := finish_frame s (i := i) outcome
    rw [heq]
    exact h.live

/-! ## Settlement of the holder -/

theorem Inv.settleActive (h : Inv s) (hwrite : s.IsOpen → s.activeWrite = none)
    (waitReason : TerminalWaitReason) : Inv (s.settleActive waitReason false) := by
  unfold LocalPtySession.settleActive
  split
  case h_1 => exact h
  case h_2 i hactive => exact h.release hactive hwrite _

theorem Inv.failActive (h : Inv s) (hwrite : s.IsOpen → s.activeWrite = none) (error : Failure) :
    Inv (s.failActive error) := by
  unfold LocalPtySession.failActive
  split
  case h_1 => exact h
  case h_2 i hactive => exact h.release hactive hwrite _

theorem active_settleActive (waitReason : TerminalWaitReason) :
    (s.settleActive waitReason false).active = none := by
  unfold LocalPtySession.settleActive
  split
  case h_1 hactive => exact hactive
  case h_2 i hactive => exact (finish_fields _).1

theorem active_failActive (error : Failure) : (s.failActive error).active = none := by
  unfold LocalPtySession.failActive
  split
  case h_1 hactive => exact hactive
  case h_2 i hactive => exact (finish_fields _).1

/-- An exit that leaves the holder to be settled next. -/
theorem Core.exit (h : Core s) {status : TerminalSessionStatus} (hexited : status ≠ .running)
    (failure : Option Failure) :
    Core { s with statusValue := status, transportFailure := failure } :=
  { h with
    deadline := fun hopen => absurd hopen.1 hexited
    writer := fun hopen => absurd hopen.1 hexited
    interrupting := fun hopen => absurd hopen.1 hexited
    cancelled_writing := fun hopen => absurd hopen.1 hexited }

theorem Core.settle_exit (h : Core s) (hexited : s.statusValue ≠ .running)
    (waitReason : TerminalWaitReason) : Inv (s.settleActive waitReason false) := by
  unfold LocalPtySession.settleActive
  split
  case h_1 hactive =>
    exact { h with
      exited := fun _ => hactive
      terminating := fun _ j hj => by rw [hactive] at hj; cases hj
      retained := fun hopen => absurd hopen.1 hexited
      drained := fun hopen => absurd hopen.1 hexited
      live := fun hopen => absurd hopen.1 hexited }
  case h_2 i hactive => exact h.release hactive (fun hopen => absurd hopen.1 hexited) _

theorem Core.fail_exit (h : Core s) (hexited : s.statusValue ≠ .running) (error : Failure) :
    Inv (s.failActive error) := by
  unfold LocalPtySession.failActive
  split
  case h_1 hactive =>
    exact { h with
      exited := fun _ => hactive
      terminating := fun _ j hj => by rw [hactive] at hj; cases hj
      retained := fun hopen => absurd hopen.1 hexited
      drained := fun hopen => absurd hopen.1 hexited
      live := fun hopen => absurd hopen.1 hexited }
  case h_2 i hactive => exact h.release hactive (fun hopen => absurd hopen.1 hexited) _

/-- The session has exited with its transport. -/
theorem Core.onTransportFailure (h : Core s) (error : Failure) :
    Inv (s.onTransportFailure error) := by
  have hexited : TerminalSessionStatus.exited none none ≠ .running := nofun
  exact (h.exit hexited _).fail_exit hexited error

end LocalPtySession

end Terminal

end Harness
