-- SUMMARY: Every step of a PTY session keeps the invariant of its send protocol.
import Harness.Terminal.SendInvariant

namespace Harness

open List

namespace Terminal

namespace LocalPtySession

variable {s : LocalPtySession} {i : Nat}

/-! ## Changes that no flag sees -/

theorem Core.update (h : Core s) {f : LocalSendOperation → LocalSendOperation}
    (hfinished : ∀ operation, (f operation).finished = operation.finished)
    (hcancelled : ∀ operation, (f operation).cancellationRequested = operation.cancellationRequested)
    (hstage : ∀ operation, (f operation).stage = operation.stage) : Core (s.update i f) := by
  have hlength : (s.update i f).operations.length = s.operations.length := length_update s
  have hfin := fun j => finishedAt_update s (i := i) (j := j) hfinished
  have hcan := fun j => cancelledAt_update s (i := i) (j := j) hcancelled
  have hst := fun j => stage_update s (i := i) (j := j) hstage
  exact { h with
    range := fun j hactive => hlength ▸ h.range j hactive
    exclusive := fun j hlt hopen => h.exclusive j (hlength ▸ hlt) (hfin j ▸ hopen)
    deadline := fun hopen j hactive hunsettled => h.deadline hopen j hactive (hfin j ▸ hunsettled)
    writing := fun j => by rw [hst]; exact h.writing j
    unpolled := fun j hj => h.unpolled j (by
      unfold Unwritten at hj ⊢
      rwa [hst, hcan] at hj)
    cancelled := fun x hx => by rw [hcan]; exact h.cancelled x hx
    draining_iff := fun x hx => by rw [hst]; exact h.draining_iff x hx
    cancelled_writing := fun hopen j hwriting hj =>
      h.cancelled_writing hopen j hwriting (by rwa [hcan] at hj)
    log_accepted := fun j => by rw [hlength]; exact h.log_accepted j
    log_request := fun j request hj => h.log_request j request (by rwa [hst] at hj)
    log_settled := fun j => by rw [hfin]; exact h.log_settled j
    log_cancelled := fun j => by rw [hcan]; exact h.log_cancelled j
    log_unwritten := fun j request hj => h.log_unwritten j request (by rwa [hst] at hj) }

theorem Inv.update (h : Inv s) {f : LocalSendOperation → LocalSendOperation}
    (hfinished : ∀ operation, (f operation).finished = operation.finished)
    (hcancelled : ∀ operation, (f operation).cancellationRequested = operation.cancellationRequested)
    (hstage : ∀ operation, (f operation).stage = operation.stage) : Inv (s.update i f) :=
  { h.toCore.update hfinished hcancelled hstage with
    exited := h.exited
    terminating := h.terminating
    retained := fun hopen j hactive hj =>
      h.retained hopen j hactive (by rwa [finishedAt_update s hfinished] at hj)
    drained := h.drained
    live := h.live }

theorem LocalSendOperation.append_flags (operation : LocalSendOperation) (text : JsString) :
    (operation.append text).finished = operation.finished ∧
      (operation.append text).cancellationRequested = operation.cancellationRequested ∧
      (operation.append text).stage = operation.stage := by
  unfold LocalSendOperation.append
  split <;> exact ⟨rfl, rfl, rfl⟩

theorem Inv.appendOutput (h : Inv s) (text : JsString) : Inv (s.appendOutput text) := by
  unfold LocalPtySession.appendOutput
  split
  · exact h
  have hshown : Inv { s with lastOutputAt := s.now, scrollback := s.scrollback.append text } :=
    { h with }
  split
  · exact hshown
  exact hshown.update (fun operation => (LocalSendOperation.append_flags operation text).1)
    (fun operation => (LocalSendOperation.append_flags operation text).2.1)
    fun operation => (LocalSendOperation.append_flags operation text).2.2

theorem Inv.onData (h : Inv s) (chunk : SanitizedChunk) : Inv (s.onData chunk) := by
  obtain ⟨text, prompt, promptTail⟩ := chunk
  have happended := h.appendOutput text
  cases prompt with
  | false =>
    cases promptTail with
    | none => exact happended
    | some tail =>
      simp only [LocalPtySession.onData, Bool.false_eq_true, if_false]
      split
      · exact { happended with }
      · exact happended
  | true =>
    cases promptTail with
    | none => exact { happended with }
    | some tail => exact { happended with }

/-! ## Polls -/

theorem Inv.schedulePoll (h : Inv s) (hwritten : ¬ s.Unwritten i) : Inv (s.schedulePoll i) := by
  unfold LocalPtySession.schedulePoll
  split
  · exact h
  · exact { h with
      unpolled := fun j hj => ⟨fun heq => hwritten (Option.some.inj heq ▸ hj), (h.unpolled j hj).2⟩ }

theorem Inv.pollingReady (h : Inv s) (hwritten : ¬ s.Unwritten i) :
    Inv { s with pollingReady := some i } :=
  { h with
    unpolled := fun j hj => ⟨(h.unpolled j hj).1, (h.unpolled j hj).2.1,
      fun heq => hwritten (Option.some.inj heq ▸ hj)⟩ }

theorem Inv.finishPoll (h : Inv s) : Inv s.finishPoll := by
  have hidle : Inv { s with polling := none } :=
    { h with unpolled := fun j hj => ⟨(h.unpolled j hj).1, nofun, (h.unpolled j hj).2.2⟩ }
  unfold LocalPtySession.finishPoll
  simp only
  split
  · exact hidle
  split
  case isTrue hready => exact hidle.schedulePoll fun hi => (h.unpolled _ hi).2.2 hready
  case isFalse => exact hidle

/-- A send that is polled has no write of its own in flight. -/
theorem Inv.activeWrite_of_written (h : Inv s) (hactive : s.active = some i)
    (hwritten : ¬ s.Unwritten i) : s.activeWrite = none := by
  cases hwrite : s.activeWrite with
  | none => rfl
  | some j =>
    have hij := h.writer_unique j i hwrite hactive
    subst hij
    exact absurd (.inr (.inl ((h.writing j).mpr hwrite))) hwritten

theorem Inv.pollReadiness (h : Inv s) (hwritten : ¬ s.Unwritten i) : Inv (s.pollReadiness i) := by
  unfold LocalPtySession.pollReadiness
  split
  · exact h
  have hpolling : Inv { s with polling := some i } :=
    { h with
      unpolled := fun j hj => ⟨(h.unpolled j hj).1,
        fun heq => hwritten (Option.some.inj heq ▸ hj), (h.unpolled j hj).2.2⟩ }
  simp only
  split
  case isTrue hexited =>
    exact (hpolling.toCore.settle_exit hexited .sessionExit).finishPoll
  case isFalse => exact hpolling

theorem Inv.judge (h : Inv s) (hwritten : ¬ s.Unwritten i)
    (foreground : Option SubprocessTerminalForeground) : Inv (s.judge i foreground) := by
  unfold LocalPtySession.judge
  split
  case isTrue => exact h
  case isFalse hguard =>
    have hactive : s.active = some i := by
      by_contra hne
      exact hguard (.inl hne)
    have hwrite := h.activeWrite_of_written hactive hwritten
    have hlearnt : Inv (s.learnShell foreground) := { h with }
    simp only
    split
    · exact hlearnt.settleActive (fun _ => hwrite) .stdinRead
    split
    · exact hlearnt
    have hobserved : ∀ left, Inv ((s.learnShell foreground).update i fun operation =>
        { operation with initialForegroundLeftWait := left }) := fun left =>
      hlearnt.update (fun _ => rfl) (fun _ => rfl) fun _ => rfl
    split
    · exact (hobserved _).settleActive (fun _ => hwrite) .stdinRead
    split
    · exact (hobserved _).settleActive (fun _ => hwrite) .inferredIdle
    · exact hobserved _

theorem Inv.polled (h : Inv s) (hpolling : s.polling = some i)
    (result : Except Failure (Option SubprocessTerminalForeground)) : Inv (s.polled i result) := by
  have hwritten : ¬ s.Unwritten i := fun hi => (h.unpolled i hi).2.1 hpolling
  cases result with
  | ok foreground => exact (h.judge hwritten foreground).finishPoll
  | error error =>
    simp only [LocalPtySession.polled]
    split
    case isTrue hguard =>
      exact (h.failActive (fun _ => h.activeWrite_of_written hguard.1 hwritten) error).finishPoll
    case isFalse => exact h.finishPoll

/-! ## The write -/

variable {request : TerminalSendRequest}

/-- A holder that is still inspected has no write in flight. -/
theorem Inv.activeWrite_of_inspecting (h : Inv s)
    (hstage : s.stage i = some (.inspecting request)) (hactive : s.active = some i) :
    s.activeWrite = none := by
  cases hwrite : s.activeWrite with
  | none => rfl
  | some j =>
    have hij := h.writer_unique j i hwrite hactive
    subst hij
    rw [(h.writing j).mpr hwrite] at hstage
    cases hstage

variable {interrupts : List Interrupt}

/-- What the end of a `beginSend` leaves of the invariant, with its write and the interrupts that
waited for it. -/
theorem Core.leave (h : Core s) {activeWrite : Option Nat}
    (hwriting : ∀ j, (i ≠ j ∧ s.activeWrite = some j) ↔ activeWrite = some j)
    (hinterrupts : ∀ x ∈ interrupts, s.cancelledAt x.send = true ∧
      (∀ write, x.phase = .draining write → write = x.send) ∧
      (i ≠ x.send ∧ s.stage x.send = some .writing ↔ x.phase = .draining x.send)) :
    Core ({ s with activeWrite, interrupts }.setStage i .over) := by
  have hfin := fun j => finishedAt_setStage { s with activeWrite, interrupts } (i := i) (j := j) .over
  have hcan := fun j => cancelledAt_setStage { s with activeWrite, interrupts } (i := i) (j := j) .over
  have hlength : ({ s with activeWrite, interrupts }.setStage i .over).operations.length
      = s.operations.length := length_update _
  have hst : ∀ j stage, stage ≠ .over →
      (({ s with activeWrite, interrupts }.setStage i .over).stage j = some stage ↔
        i ≠ j ∧ s.stage j = some stage) := fun j stage hne => stage_setStage_iff _ hne
  exact { h with
    range := fun j hactive => hlength ▸ h.range j hactive
    exclusive := fun j hlt hopen => h.exclusive j (hlength ▸ hlt) (hfin j ▸ hopen)
    deadline := fun hopen j hactive hunsettled => h.deadline hopen j hactive (hfin j ▸ hunsettled)
    writing := fun j => by
      rw [hst j .writing nofun, h.writing]
      exact hwriting j
    writer := fun hopen j hj => h.writer hopen j ((hwriting j).mpr hj).2
    writer_unique := fun j k hj => h.writer_unique j k ((hwriting j).mpr hj).2
    unpolled := fun j hj => h.unpolled j (by
      unfold Unwritten at hj ⊢
      rw [hcan, hst j .writing nofun, stage_setStage_none] at hj
      rcases hj with hj | hj | ⟨⟨request, hj⟩, hopen⟩
      · exact .inl hj
      · exact .inr (.inl hj.2)
      · exact .inr (.inr ⟨⟨request, ((hst j (.inspecting request) nofun).mp hj).2⟩, hopen⟩))
    cancelled := fun x hx => by rw [hcan]; exact (hinterrupts x hx).1
    draining := fun x hx => (hinterrupts x hx).2.1
    draining_iff := fun x hx => by rw [hst _ .writing nofun]; exact (hinterrupts x hx).2.2
    cancelled_writing := fun hopen j hj hcancelled =>
      h.cancelled_writing hopen j ((hwriting j).mpr hj).2 (by rwa [hcan] at hcancelled)
    log_accepted := fun j => by rw [hlength]; exact h.log_accepted j
    log_request := fun j request hj =>
      h.log_request j request ((hst j (.inspecting request) nofun).mp hj).2
    log_settled := fun j => by rw [hfin]; exact h.log_settled j
    log_cancelled := fun j => by rw [hcan]; exact h.log_cancelled j
    log_unwritten := fun j request hj =>
      h.log_unwritten j request ((hst j (.inspecting request) nofun).mp hj).2 }

theorem Inv.leaveInspection (h : Inv s)
    (hstage : s.stage i = some (.inspecting request)) : Inv (s.setStage i .over) := by
  have hne : ∀ j, s.stage j = some .writing → i ≠ j := by
    rintro j hj rfl
    rw [hstage] at hj
    cases hj
  have hleft : Core ({ s with activeWrite := s.activeWrite, interrupts := s.interrupts }.setStage i
      .over) :=
    h.toCore.leave (fun j => and_iff_right_of_imp fun hj => hne j ((h.writing j).mpr hj))
      fun x hx => ⟨h.cancelled x hx, h.draining x hx,
        (and_iff_right_of_imp (hne x.send)).trans (h.draining_iff x hx)⟩
  exact { hleft with
    exited := h.exited
    terminating := h.terminating
    retained := fun hopen j hactive hj =>
      h.retained hopen j hactive (by rwa [finishedAt_setStage] at hj)
    drained := h.drained
    live := h.live }

/-- After the write a send is polled for, unless it is cancelled or settled. -/
theorem Inv.afterWrite (h : Inv s) (hover : s.stage i = some .over) : Inv (s.afterWrite i) := by
  have hwritten : ¬ s.Unwritten i := by
    unfold Unwritten
    rw [hover]
    simp
  unfold LocalPtySession.afterWrite
  split
  · exact h
  case h_2 operation hget =>
    split
    · exact h
    split
    case isTrue hsettled =>
      refine h.toCore.clearActive ?_ fun _ => h.activeWrite_of_written hsettled.1 hwritten
      intro j hj
      have hij : i = j := Option.some.inj (hsettled.1.symm.trans hj)
      subst hij
      unfold finishedAt
      rw [hget]
      exact hsettled.2
    case isFalse =>
      split
      · exact (h.pollingReady hwritten).schedulePoll hwritten
      · exact h

/-- The write of the holder begins. -/
theorem Inv.startWrite (h : Inv s) (hactive : s.active = some i)
    (hstage : s.stage i = some (.inspecting request)) (hclosing : s.closing = false)
    (hinterrupting : s.interrupting ≠ some i) (hcancelled : s.cancelledAt i = false) :
    Inv (({ s.resetReadinessEvidence with activeWrite := some i }.setStage i .writing).happen
      (.wrote i request.input)) := by
  have hwrite := h.activeWrite_of_inspecting hstage hactive
  have hopen : s.IsOpen := by
    refine ⟨?_, hclosing⟩
    by_contra hexited
    rw [h.exited hexited] at hactive
    cases hactive
  have hunsettled : s.finishedAt i = false := by
    by_contra hfinished
    rcases h.retained hopen i hactive (by simpa using hfinished) with hwriting | hdrains
    · rw [hwrite] at hwriting
      cases hwriting
    · exact hinterrupting hdrains
  let s₁ : LocalPtySession := { s.resetReadinessEvidence with activeWrite := some i }
  have hfin : ∀ j, (s₁.setStage i .writing).finishedAt j = s.finishedAt j :=
    fun j => finishedAt_setStage s₁ .writing
  have hcan : ∀ j, (s₁.setStage i .writing).cancelledAt j = s.cancelledAt j :=
    fun j => cancelledAt_setStage s₁ .writing
  have hlength : (s₁.setStage i .writing).operations.length = s.operations.length := length_update _
  have hst : ∀ j stage, stage ≠ .writing →
      ((s₁.setStage i .writing).stage j = some stage ↔ i ≠ j ∧ s.stage j = some stage) :=
    fun j stage hne => stage_setStage_iff _ hne
  have hwriting : ∀ j, (s₁.setStage i .writing).stage j = some .writing ↔ i = j := by
    intro j
    rw [stage_setStage]
    split
    case isTrue hij =>
      subst hij
      rw [show s₁.stage i = some (.inspecting request) from hstage]
      exact ⟨fun _ => rfl, fun _ => rfl⟩
    case isFalse hij =>
      rw [show s₁.stage j = s.stage j from rfl, h.writing, hwrite]
      simp [hij]
  have hsend : ∀ x ∈ s.interrupts, i ≠ x.send := by
    rintro x hx rfl
    rw [h.cancelled x hx] at hcancelled
    cases hcancelled
  have huncancelled : .cancelled i ∉ s.log := by
    rw [h.log_cancelled, hcancelled]
    exact Bool.false_ne_true
  have hnew : .settled i ∉ s.log := by
    rw [h.log_settled, hunsettled]
    exact Bool.false_ne_true
  have hunclosed : .closed ∉ s.log := by
    rw [h.log_closed, hclosing]
    exact Bool.false_ne_true
  exact { h with
    range := fun j hj => hlength ▸ h.range j hj
    exclusive := fun j hlt hj => h.exclusive j (hlength ▸ hlt) (hfin j ▸ hj)
    deadline := fun hopen j hj hunsettled => h.deadline hopen j hj (hfin j ▸ hunsettled)
    writing := fun j => (hwriting j).trans Option.some_inj.symm
    writer := fun _ j hj => by
      cases hj
      exact hactive
    writer_unique := fun j k hj hk => by
      cases hj
      exact Option.some.inj (hactive.symm.trans hk)
    unpolled := fun j hj => by
      refine h.unpolled j ?_
      rcases hj with hj | hj | ⟨⟨request', hj⟩, hopen⟩
      · exact .inl ((stage_setStage_none s₁ .writing).mp hj)
      · obtain rfl := (hwriting j).mp hj
        exact .inr (.inr ⟨⟨request, hstage⟩, hcancelled⟩)
      · exact .inr (.inr ⟨⟨request', ((hst j (.inspecting request') nofun).mp hj).2⟩,
          (hcan j).symm.trans hopen⟩)
    cancelled := fun x hx => (hcan x.send).trans (h.cancelled x hx)
    draining_iff := fun x hx => by
      refine (hwriting x.send).trans ?_
      have hother : s.stage x.send ≠ some .writing := by
        rw [ne_eq, h.writing, hwrite]
        exact nofun
      exact ⟨fun hij => absurd hij (hsend x hx),
        fun hphase => absurd ((h.draining_iff x hx).mpr hphase) hother⟩
    cancelled_writing := fun _ j hj hj' => by
      cases hj
      have hyes : s.cancelledAt i = true := (hcan i).symm.trans hj'
      rw [hyes] at hcancelled
      cases hcancelled
    retained := fun _ j hj _ => .inl (hactive.symm.trans hj)
    log_accepted := fun j => by
      show j < (s₁.setStage i .writing).operations.length ↔
        ∃ request', .accepted j request' ∈ Happening.wrote i request.input :: s.log
      rw [hlength, h.log_accepted j]
      simp
    log_request := fun j request' hj =>
      mem_cons_of_mem _ (h.log_request j request' ((hst j (.inspecting request') nofun).mp hj).2)
    log_settled := fun j => by
      show .settled j ∈ Happening.wrote i request.input :: s.log ↔
        (s₁.setStage i .writing).finishedAt j = true
      rw [hfin, ← h.log_settled j]
      simp
    log_cancelled := fun j => by
      show .cancelled j ∈ Happening.wrote i request.input :: s.log ↔
        (s₁.setStage i .writing).cancelledAt j = true
      rw [hcan, ← h.log_cancelled j]
      simp
    log_closed := by
      show .closed ∈ Happening.wrote i request.input :: s.log ↔ s.closing = true
      rw [← h.log_closed]
      simp
    log_unwritten := fun j request' hj input hmem => by
      obtain ⟨hij, hj⟩ := (hst j (.inspecting request') nofun).mp hj
      rcases mem_cons.mp hmem with heq | hold
      · cases heq
        exact hij rfl
      · exact h.log_unwritten j request' hj input hold
    lawful := ⟨⟨⟨request, h.log_request i request hstage, rfl⟩, h.log_unwritten i request hstage,
      huncancelled, hnew, hunclosed⟩, h.lawful⟩ }

/-- The inspection before the write ends. -/
theorem Inv.inspected (h : Inv s) (hstage : s.stage i = some (.inspecting request))
    (result : Except Failure (Option SubprocessTerminalForeground)) :
    Inv (s.inspected i request result) := by
  have hleft := h.leaveInspection hstage
  cases result with
  | error error =>
    simp only [LocalPtySession.inspected]
    split
    case isTrue hguard =>
      exact hleft.failActive (fun _ => h.activeWrite_of_inspecting hstage hguard.1) error
    case isFalse => exact hleft
  | ok foreground =>
    simp only [LocalPtySession.inspected]
    split
    case isTrue => exact hleft
    case isFalse hguard =>
      obtain ⟨hactive, hclosing, hinterrupting⟩ : s.active = some i ∧ s.closing = false ∧
          s.interrupting ≠ some i := by simpa only [not_or, not_not, Bool.not_eq_true] using hguard
      have hseen : Inv (s.update i fun operation => operation.setInitialForeground foreground) :=
        h.update (fun _ => rfl) (fun _ => rfl) fun _ => rfl
      have hstage' : (s.update i fun operation =>
          operation.setInitialForeground foreground).stage i = some (.inspecting request) :=
        (stage_update s (f := fun operation => operation.setInitialForeground foreground)
          fun _ => rfl).trans hstage
      split
      case isTrue hwrites =>
        refine hseen.startWrite hactive hstage' hclosing hinterrupting ?_
        refine (cancelledAt_update s (f := fun operation => operation.setInitialForeground foreground)
          fun _ => rfl).trans ?_
        simpa [cancelledAt] using hwrites.2
      case isFalse =>
        refine (hseen.leaveInspection hstage').afterWrite ?_
        rw [stage_setStage, if_pos rfl, hstage']
        rfl

theorem Interrupt.drain_send (write : Nat) (ok : Bool) (x : Interrupt) :
    (x.drain write ok).send = x.send := by
  unfold Interrupt.drain
  split <;> rfl

/-- The write ends; what is left holds, but for a holder that has settled meanwhile. -/
theorem Inv.endWrite (h : Inv s) (hstage : s.stage i = some .writing) (ok : Bool) :
    Core ({ s with
      activeWrite := none
      interrupts := s.interrupts.map (Interrupt.drain i ok) }.setStage i .over) := by
  have hwrite : s.activeWrite = some i := (h.writing i).mp hstage
  refine h.toCore.leave ?_ ?_
  · intro j
    rw [hwrite]
    exact ⟨fun hj => absurd (Option.some.inj hj.2) hj.1, fun hj => by cases hj⟩
  intro x' hx'
  obtain ⟨x, hx, rfl⟩ := mem_map.mp hx'
  rw [Interrupt.drain_send]
  -- whatever waited for a write waited for this one
  have hphase : ∀ write, (x.drain i ok).phase ≠ .draining write := by
    intro write
    unfold Interrupt.drain
    split
    case isTrue => exact nofun
    case isFalse hother =>
      intro hdraining
      have hsend := h.draining x hx write hdraining
      have hstage' := (h.draining_iff x hx).mpr (hsend ▸ hdraining)
      have hi : i = x.send := Option.some.inj (hwrite.symm.trans ((h.writing x.send).mp hstage'))
      exact hother (hdraining.trans (by rw [hsend, hi]))
  refine ⟨h.cancelled x hx, fun write hdraining => absurd hdraining (hphase write), ?_⟩
  constructor
  · rintro ⟨hne, hstage'⟩
    exact absurd (Option.some.inj (hwrite.symm.trans ((h.writing x.send).mp hstage'))) hne
  · exact fun hdraining => absurd hdraining (hphase _)

/-- The provider's write ends. -/
theorem Inv.written (h : Inv s) (hstage : s.stage i = some .writing) (result : Except Failure Unit) :
    Inv (s.written i result) := by
  have hwrite : s.activeWrite = some i := (h.writing i).mp hstage
  have hcore := h.endWrite hstage result.isOk
  let ended := { s with
    activeWrite := none
    interrupts := s.interrupts.map (Interrupt.drain i result.isOk) }.setStage i .over
  have hover : ended.stage i = some .over := by
    have hset := stage_setStage { s with
      activeWrite := none
      interrupts := s.interrupts.map (Interrupt.drain i result.isOk) } (i := i) (j := i) .over
    rw [if_pos rfl, show LocalPtySession.stage { s with
      activeWrite := none
      interrupts := s.interrupts.map (Interrupt.drain i result.isOk) } i = s.stage i from rfl,
      hstage] at hset
    exact hset
  have hfin : ∀ j, ended.finishedAt j = s.finishedAt j := fun j => finishedAt_setStage _ .over
  have hlive : s.IsOpen → result.isOk = true → ∀ j, ended.interrupting = some j →
      ∃ x ∈ ended.interrupts, x.send = j ∧ x.phase ≠ .drained false := by
    intro hopen hok j hj
    obtain ⟨x, hx, hsend, hphase⟩ := h.live hopen j hj
    refine ⟨x.drain i result.isOk, mem_map_of_mem hx, ?_, ?_⟩
    · rw [Interrupt.drain_send, hsend]
    rw [hok]
    unfold Interrupt.drain
    split
    · exact nofun
    · exact hphase
  cases result with
  | ok _ =>
    by_cases hsettled : s.cancelledAt i = false ∧ s.active = some i ∧ s.finishedAt i = true
    case pos =>
      -- nobody else releases a settled send that is not cancelled
      have hclear : ended.afterWrite i = ended.clearActive := by
        obtain ⟨operation, hget, -⟩ := Option.map_eq_some_iff.mp hover
        have hcancelled : operation.cancellationRequested = false := by
          have hflag : ended.cancelledAt i = s.cancelledAt i := cancelledAt_setStage _ .over
          rw [hsettled.1] at hflag
          unfold cancelledAt at hflag
          rwa [hget] at hflag
        have hfinished : operation.finished = true := by
          have hflag := hfin i
          rw [hsettled.2.2] at hflag
          unfold finishedAt at hflag
          rwa [hget] at hflag
        unfold LocalPtySession.afterWrite
        rw [hget]
        simp only [hcancelled, hfinished, Bool.false_eq_true, if_false, and_true]
        exact if_pos hsettled.2.1
      rw [show s.written i (.ok ()) = ended.afterWrite i from rfl, hclear]
      refine hcore.clearActive ?_ fun _ => rfl
      intro j hj
      have hij : i = j := Option.some.inj (hsettled.2.1.symm.trans hj)
      subst hij
      exact (hfin i).trans hsettled.2.2
    case neg =>
      have hinv : Inv ended := { hcore with
        exited := h.exited
        terminating := h.terminating
        retained := fun hopen j hactive hj => by
          refine .inr ?_
          rcases h.retained hopen j hactive ((hfin j).symm.trans hj) with hwriting | hdrains
          · have hij : i = j := Option.some.inj (hwrite.symm.trans hwriting)
            subst hij
            refine h.cancelled_writing hopen i hwrite ?_
            by_contra hcancelled
            exact hsettled ⟨by simpa using hcancelled, hactive, (hfin i).symm.trans hj⟩
          · exact hdrains
        drained := fun hopen x' hx' hphase => by
          obtain ⟨x, hx, rfl⟩ := mem_map.mp hx'
          rw [Interrupt.drain_send]
          refine h.drained hopen x hx ?_
          unfold Interrupt.drain at hphase
          split at hphase
          case isTrue => cases hphase
          case isFalse => exact hphase
        live := fun hopen => hlive hopen rfl }
      exact hinv.afterWrite hover
  | error error =>
    simp only [LocalPtySession.written]
    split
    case isTrue hguard =>
      split
      case isTrue hfinished =>
        refine hcore.clearActive ?_ fun _ => rfl
        intro j hj
        have hij : i = j := Option.some.inj (hguard.1.symm.trans hj)
        subst hij
        exact (hfin i).trans hfinished
      case isFalse => exact hcore.failActive hguard.1 (fun _ => rfl) error
    case isFalse hguard =>
      have hshut : ¬ s.IsOpen := by
        intro hopen
        exact hguard ⟨h.writer hopen i hwrite, by simp [hopen.2]⟩
      exact { hcore with
        exited := h.exited
        terminating := h.terminating
        retained := fun hopen => absurd hopen hshut
        drained := fun hopen => absurd hopen hshut
        live := fun hopen => absurd hopen hshut }

/-! ## Interrupts -/

/-- An interrupt that has waited for its write goes on to signal. -/
theorem Inv.drained_ok (h : Inv s) (hmem : ⟨i, .drained true⟩ ∈ s.interrupts) :
    Inv (s.drained i true) := by
  have hstage : s.stage i ≠ some .writing := by
    intro hwriting
    exact absurd ((h.draining_iff _ hmem).mp hwriting) nofun
  have hof : ∀ x ∈ (⟨i, .signalling⟩ : Interrupt) :: s.interrupts.erase ⟨i, .drained true⟩,
      x = ⟨i, .signalling⟩ ∨ x ∈ s.interrupts := by
    intro x hx
    exact (mem_cons.mp hx).imp_right mem_of_mem_erase
  exact { h with
    cancelled := fun x hx => by
      rcases hof x hx with rfl | hold
      · exact h.cancelled ⟨i, .drained true⟩ hmem
      · exact h.cancelled x hold
    draining := fun x hx write hphase => by
      rcases hof x hx with rfl | hold
      · cases hphase
      · exact h.draining x hold write hphase
    draining_iff := fun x hx => by
      rcases hof x hx with rfl | hold
      · exact ⟨fun hwriting => absurd hwriting hstage, nofun⟩
      · exact h.draining_iff x hold
    drained := fun hopen x hx hphase => by
      rcases hof x hx with rfl | hold
      · cases hphase
      · exact h.drained hopen x hold hphase
    live := fun hopen j hj => by
      obtain ⟨x, hx, hsend, hphase⟩ := h.live hopen j hj
      by_cases hsame : x = ⟨i, .drained true⟩
      · subst hsame
        exact ⟨⟨i, .signalling⟩, mem_cons_self, hsend, nofun⟩
      · exact ⟨x, mem_cons_of_mem _ ((mem_erase_of_ne hsame).mpr hx), hsend, hphase⟩ }

/-- An interrupt of a send that is gone, or that signals no more, leaves. -/
theorem Core.leaveInterrupt (h : Core s)
    (hinterrupts : ∀ x ∈ interrupts, x ∈ s.interrupts) (hwrite : s.IsOpen → s.activeWrite ≠ some i) :
    Core ({ s with interrupts }.leaveInterrupt i) :=
  { h with
    interrupting := fun hopen j hj => by
      simp only [LocalPtySession.leaveInterrupt] at hj
      split at hj
      · cases hj
      · exact h.interrupting hopen j hj
    cancelled := fun x hx => h.cancelled x (hinterrupts x hx)
    draining := fun x hx => h.draining x (hinterrupts x hx)
    draining_iff := fun x hx => h.draining_iff x (hinterrupts x hx)
    cancelled_writing := fun hopen j hj hcancelled => by
      have hold := h.cancelled_writing hopen j hj hcancelled
      simp only [LocalPtySession.leaveInterrupt]
      rw [if_neg]
      · exact hold
      intro hi
      have hij : i = j := Option.some.inj (hi.symm.trans hold)
      subst hij
      exact hwrite hopen hj }

theorem Core.dropInterrupts (h : Core s)
    (hinterrupts : ∀ x ∈ interrupts, x ∈ s.interrupts) : Core { s with interrupts } :=
  { h with
    cancelled := fun x hx => h.cancelled x (hinterrupts x hx)
    draining := fun x hx => h.draining x (hinterrupts x hx)
    draining_iff := fun x hx => h.draining_iff x (hinterrupts x hx) }

theorem not_isOpen_onTransportFailure (error : Failure) : ¬ (s.onTransportFailure error).IsOpen := by
  rintro ⟨hrunning, -⟩
  unfold LocalPtySession.onTransportFailure LocalPtySession.failActive at hrunning
  split at hrunning
  · cases hrunning
  · rw [(finish_fields _).2.2.2.1] at hrunning
    cases hrunning

/-- Where the leaving interrupt's send does not hold the session, nothing else changes. -/
theorem Inv.leaveInterrupt (h : Inv s) {x₀ : Interrupt} (hsend : x₀.send = i)
    (hgone : s.IsOpen → s.active ≠ some i) :
    Inv ({ s with interrupts := s.interrupts.erase x₀ }.leaveInterrupt i) := by
  have hother : s.IsOpen → s.interrupting ≠ some i := fun hopen hi =>
    hgone hopen (h.interrupting hopen i hi)
  have hcore := h.toCore.leaveInterrupt (i := i)
    (fun x hx => mem_of_mem_erase (a := x) (b := x₀) hx)
    fun hopen hwrite => hgone hopen (h.writer hopen i hwrite)
  have hsame : s.IsOpen →
      ({ s with interrupts := s.interrupts.erase x₀ }.leaveInterrupt i).interrupting
        = s.interrupting := fun hopen => if_neg (hother hopen)
  exact { hcore with
    exited := h.exited
    terminating := h.terminating
    retained := fun hopen j hactive hj => by
      rw [hsame hopen]
      exact h.retained hopen j hactive hj
    drained := fun hopen x hx => h.drained hopen x (mem_of_mem_erase hx)
    live := fun hopen j hj => by
      rw [hsame hopen] at hj
      obtain ⟨x, hx, hxsend, hphase⟩ := h.live hopen j hj
      refine ⟨x, (mem_erase_of_ne ?_).mpr hx, hxsend, hphase⟩
      rintro rfl
      exact hother hopen (hj.trans (congrArg some (hxsend.symm.trans hsend))) }

theorem Inv.drained_gone (h : Inv s) (hmem : ⟨i, .drained false⟩ ∈ s.interrupts) :
    Inv (s.drained i false) :=
  h.leaveInterrupt rfl fun hopen => h.drained hopen _ hmem rfl

/-- The signal to the foreground ends. -/
theorem Inv.signalled (h : Inv s) (hmem : ⟨i, .signalling⟩ ∈ s.interrupts)
    (result : Except Failure Unit) : Inv (s.signalled i result) := by
  have hstage : s.stage i ≠ some .writing := by
    intro hwriting
    exact absurd ((h.draining_iff _ hmem).mp hwriting) nofun
  have hwrite : s.activeWrite ≠ some i := fun hwriting => hstage ((h.writing i).mpr hwriting)
  have hcancelled : s.cancelledAt i = true := h.cancelled _ hmem
  have hcore : Core ({ s with interrupts := s.interrupts.erase ⟨i, .signalling⟩ }.leaveInterrupt i) :=
    h.toCore.leaveInterrupt (fun x hx => mem_of_mem_erase hx) fun _ => hwrite
  cases result with
  | error error =>
    simp only [LocalPtySession.signalled]
    split
    case isTrue hguard =>
      have hrest : Core { s with interrupts := s.interrupts.erase ⟨i, .signalling⟩ } :=
        h.toCore.dropInterrupts fun x hx => mem_of_mem_erase hx
      have hfailed := hrest.onTransportFailure error
      have hshut := not_isOpen_onTransportFailure
        (s := { s with interrupts := s.interrupts.erase ⟨i, .signalling⟩ }) error
      have hleft := hfailed.toCore.leaveInterrupt (i := i) (fun x hx => hx)
        fun hopen => absurd hopen hshut
      exact { hleft with
        exited := hfailed.exited
        terminating := hfailed.terminating
        retained := fun hopen => absurd hopen hshut
        drained := fun hopen => absurd hopen hshut
        live := fun hopen => absurd hopen hshut }
    case isFalse hguard =>
      refine h.leaveInterrupt rfl fun hopen hactive => ?_
      exact hguard ⟨hactive, by simp [hopen.2]⟩
  | ok _ =>
    have hnone : s.active = some i → s.activeWrite = none := by
      intro hactive
      cases hj : s.activeWrite with
      | none => rfl
      | some j => exact absurd (h.writer_unique j i hj hactive ▸ hj) hwrite
    simp only [LocalPtySession.signalled]
    split
    case isTrue hsettled =>
      refine hcore.clearActive ?_ fun _ => hnone hsettled.1
      intro j hj
      have hij : i = j := Option.some.inj (hsettled.1.symm.trans hj)
      subst hij
      exact hsettled.2
    case isFalse hunsettled =>
      split
      case isTrue hguard =>
        have hidle : ∀ j, ({ s with
            interrupts := s.interrupts.erase ⟨i, .signalling⟩ }.leaveInterrupt i).interrupting
              = some j → s.IsOpen → False := by
          intro j hj hopen
          simp only [LocalPtySession.leaveInterrupt] at hj
          split at hj
          case isTrue => cases hj
          case isFalse hne =>
            exact hne (hj.trans ((h.interrupting hopen j hj).symm.trans hguard.1))
        have hleft : Inv ({ s with
            interrupts := s.interrupts.erase ⟨i, .signalling⟩ }.leaveInterrupt i) := { hcore with
          exited := h.exited
          terminating := h.terminating
          retained := fun _ j hactive hj => by
            have hij : i = j := Option.some.inj (hguard.1.symm.trans hactive)
            subst hij
            exact absurd ⟨hguard.1, hj⟩ hunsettled
          drained := fun hopen x hx => h.drained hopen x (mem_of_mem_erase hx)
          live := fun hopen j hj => (hidle j hj hopen).elim }
        have hwritten : ¬ LocalPtySession.Unwritten ({ s with
            interrupts := s.interrupts.erase ⟨i, .signalling⟩ }.leaveInterrupt i) i := by
          rintro (hnone | hwriting | ⟨-, huncancelled⟩)
          · obtain ⟨operation, hget⟩ : ∃ operation, s.operations[i]? = some operation :=
              ⟨_, getElem?_eq_getElem (lt_of_flag s hcancelled)⟩
            have hstage' : s.stage i = none := hnone
            unfold LocalPtySession.stage at hstage'
            rw [hget] at hstage'
            cases hstage'
          · exact hstage hwriting
          · rw [show s.cancelledAt i = false from huncancelled] at hcancelled
            cases hcancelled
        exact (hleft.pollingReady hwritten).schedulePoll hwritten
      case isFalse hguard =>
        refine h.leaveInterrupt rfl fun hopen hactive => ?_
        exact hguard ⟨hactive, by simp [hopen.2]⟩

theorem interrupt_eq (hactive : s.active = some i) :
    s.interrupt i = { s.stopReadinessPolling with
      interrupting := some i
      interrupts := ⟨i, s.interruptPhase⟩ :: s.interrupts } := if_neg (not_not.mpr hactive)

theorem Core.interruptPhase (h : Core s) (hactive : s.active = some i) :
    (s.activeWrite = some i ∧ s.interruptPhase = .draining i) ∨
      (s.activeWrite ≠ some i ∧ s.interruptPhase = .signalling) := by
  unfold LocalPtySession.interruptPhase
  cases hwrite : s.activeWrite with
  | none => exact .inr ⟨nofun, rfl⟩
  | some j =>
    have hij := h.writer_unique j i hwrite hactive
    subst hij
    exact .inl ⟨rfl, rfl⟩

theorem Inv.cancel (h : Inv s) : Inv (s.cancel i) := by
  unfold LocalPtySession.cancel
  split
  · exact h
  case h_2 operation hget =>
    split
    · exact h
    case isFalse hunfinished =>
      have hlt : i < s.operations.length := (List.getElem?_eq_some_iff.mp hget).1
      have hunsettled : s.finishedAt i = false := by
        unfold finishedAt
        rw [hget]
        simpa using hunfinished
      have hactive : s.active = some i := h.exclusive i hlt hunsettled
      let s₁ := s.update i fun operation => { operation with cancellationRequested := true }
      have hfin : ∀ j, s₁.finishedAt j = s.finishedAt j := fun j => finishedAt_update s fun _ => rfl
      have hst : ∀ j, s₁.stage j = s.stage j := fun j => stage_update s fun _ => rfl
      have hcan : ∀ j, s₁.cancelledAt j = (s.cancelledAt j || decide (i = j)) := by
        intro j
        unfold cancelledAt
        simp only [s₁, LocalPtySession.update, any_modify]
        split
        case isTrue hij =>
          subst hij
          rw [hget]
          simp
        case isFalse hij => simp [hij]
      have hlength : s₁.operations.length = s.operations.length := length_update s
      have hkept : ∀ j, s.cancelledAt j = true → s₁.cancelledAt j = true := by
        intro j hj
        rw [hcan, hj]
        rfl
      have hphase := h.toCore.interruptPhase hactive
      have hnew : .settled i ∉ s.log := by
        rw [h.log_settled, hunsettled]
        exact Bool.false_ne_true
      rw [interrupt_eq (s := s₁.happen (.cancelled i)) hactive]
      exact { h with
        range := fun j hj => hlength ▸ h.range j hj
        exclusive := fun j hlt hj => h.exclusive j (hlength ▸ hlt) ((hfin j).symm.trans hj)
        deadline := fun hopen j hj hunsettled =>
          h.deadline hopen j hj ((hfin j).symm.trans hunsettled)
        writing := fun j => by
          refine Iff.trans ?_ (h.writing j)
          rw [← hst j]
          rfl
        unpolled := fun j hj => by
          refine ⟨nofun, (h.unpolled j ?_).2.1, nofun⟩
          rcases hj with hj | hj | ⟨⟨request, hj⟩, huncancelled⟩
          · exact .inl ((hst j).symm.trans hj)
          · exact .inr (.inl ((hst j).symm.trans hj))
          refine .inr (.inr ⟨⟨request, (hst j).symm.trans hj⟩, ?_⟩)
          have hflag : (s.cancelledAt j || decide (i = j)) = false :=
            (hcan j).symm.trans huncancelled
          exact (Bool.or_eq_false_iff.mp hflag).1
        interrupting := fun _ j hj => by
          cases hj
          exact hactive
        cancelled := fun x hx => by
          rcases mem_cons.mp hx with rfl | hold
          · refine (hcan i).trans ?_
            simp
          · exact hkept x.send (h.cancelled x hold)
        draining := fun x hx write hdraining => by
          rcases mem_cons.mp hx with rfl | hold
          · have hsame : s.interruptPhase = .draining write := hdraining
            rcases hphase with ⟨-, heq⟩ | ⟨-, heq⟩
            · rw [heq] at hsame
              cases hsame
              rfl
            · rw [heq] at hsame
              cases hsame
          · exact h.draining x hold write hdraining
        draining_iff := fun x hx => by
          rcases mem_cons.mp hx with rfl | hold
          · show s₁.stage i = some .writing ↔ s.interruptPhase = .draining i
            rw [hst, h.writing]
            rcases hphase with ⟨hwrite, heq⟩ | ⟨hwrite, heq⟩
            · exact ⟨fun _ => heq, fun _ => hwrite⟩
            exact ⟨fun hwriting => absurd hwriting hwrite, fun hsame => by
              rw [heq] at hsame
              cases hsame⟩
          · refine Iff.trans ?_ (h.draining_iff x hold)
            rw [← hst x.send]
            rfl
        cancelled_writing := fun _ j hj _ => by
          rw [h.writer_unique j i hj hactive]
        log_accepted := fun j => by
          show j < s₁.operations.length ↔
            ∃ request, .accepted j request ∈ Happening.cancelled i :: s.log
          rw [hlength, h.log_accepted j]
          simp
        log_request := fun j request hj =>
          mem_cons_of_mem _ (h.log_request j request ((hst j).symm.trans hj))
        log_settled := fun j => by
          show .settled j ∈ Happening.cancelled i :: s.log ↔ s₁.finishedAt j = true
          rw [hfin, ← h.log_settled j]
          simp
        log_cancelled := fun j => by
          show .cancelled j ∈ Happening.cancelled i :: s.log ↔ s₁.cancelledAt j = true
          rw [hcan, Bool.or_eq_true, ← h.log_cancelled j, mem_cons, decide_eq_true_eq, or_comm]
          simp [eq_comm]
        log_closed := by
          show .closed ∈ Happening.cancelled i :: s.log ↔ s.closing = true
          rw [← h.log_closed]
          simp
        log_unwritten := fun j request hj input hmem => by
          rcases mem_cons.mp hmem with heq | hold
          · cases heq
          · exact h.log_unwritten j request ((hst j).symm.trans hj) input hold
        lawful := ⟨hnew, h.lawful⟩
        retained := fun _ j hj _ => .inr (hactive.symm.trans hj)
        drained := fun hopen x hx hdrained => by
          rcases mem_cons.mp hx with rfl | hold
          · have hsame : s.interruptPhase = .drained false := hdrained
            rcases hphase with ⟨-, heq⟩ | ⟨-, heq⟩
            · rw [heq] at hsame
              cases hsame
            · rw [heq] at hsame
              cases hsame
          · exact h.drained hopen x hold hdrained
        live := fun _ j hj => by
          cases hj
          refine ⟨_, mem_cons_self, rfl, fun hsame => ?_⟩
          rcases hphase with ⟨-, heq⟩ | ⟨-, heq⟩
          · cases heq.symm.trans hsame
          · cases heq.symm.trans hsame }

/-! ## Timers, starts, exits and close -/

theorem settleActive_deadline (hactive : s.active = some i) (waitReason : TerminalWaitReason)
    (retainOwnership : Bool) :
    { s with activeDeadlineTimer := none }.settleActive waitReason retainOwnership
      = s.settleActive waitReason retainOwnership := by
  simp only [LocalPtySession.settleActive, hactive]
  cases retainOwnership <;> simp only [LocalPtySession.clearActive, LocalPtySession.stopPolling,
    LocalPtySession.stopReadinessPolling, hactive]

/-- The deadline settles the holder; a write or an interrupt in flight keeps the session for it. -/
theorem Inv.deadlineFires (h : Inv s) (hactive : s.active = some i) :
    Inv (s.settleActive .timeout (s.activeWrite.isSome || decide (s.interrupting = some i))) := by
  cases hretain : s.activeWrite.isSome || decide (s.interrupting = some i) with
  | false =>
    obtain ⟨hwrite, -⟩ := Bool.or_eq_false_iff.mp hretain
    exact h.settleActive (fun _ => Option.not_isSome_iff_eq_none.mp (by simp [hwrite])) .timeout
  | true =>
    unfold LocalPtySession.settleActive
    rw [hactive]
    refine h.retain hactive ?_ _
    rcases Bool.or_eq_true_iff.mp hretain with hwrite | hinterrupting
    · obtain ⟨j, hj⟩ := Option.isSome_iff_exists.mp hwrite
      exact .inl (h.writer_unique j i hj hactive ▸ hj)
    · exact .inr (of_decide_eq_true hinterrupting)

/-- A deadline that is not the holder's does nothing. -/
theorem Inv.dropDeadline (h : Inv s) (hother : s.activeDeadlineTimer ≠ s.active) :
    Inv { s with activeDeadlineTimer := none } :=
  { h with
    deadline := fun hopen j hactive hunsettled =>
      absurd ((h.deadline hopen j hactive hunsettled).trans hactive.symm) hother }

variable {s' : LocalPtySession}

theorem startSend_ok (hstart : s.startSend request = .ok s') : s.IsOpen ∧ s.active = none ∧
      ∃ (operation : LocalSendOperation) (activeAbort : Option Nat),
        operation.stage = .inspecting request ∧ operation.finished = false ∧
        operation.cancellationRequested = false ∧
        s' = { s.resetReadinessEvidence with
          operations := s.operations ++ [operation]
          active := some s.operations.length
          activeAbort
          activeDeadlineTimer := some s.operations.length
          log := .accepted s.operations.length request :: s.log } := by
  unfold LocalPtySession.startSend at hstart
  split at hstart
  case isTrue => cases hstart
  case isFalse hclosing =>
    split at hstart
    case isTrue => cases hstart
    case isFalse hrunning =>
      split at hstart
      case isTrue => cases hstart
      case isFalse hactive =>
        split at hstart
        · cases hstart
        cases hstart
        exact ⟨⟨not_not.mp hrunning, by simpa using hclosing⟩,
          Option.not_isSome_iff_eq_none.mp hactive, _, _, rfl, rfl, rfl, rfl⟩

/-- A send in an idle session is accepted under the next number. -/
theorem Inv.startSend (h : Inv s) (hstart : s.startSend request = .ok s') : Inv s' := by
  obtain ⟨hopen, hidle, operation, activeAbort, hstage, hfresh, hcalm, hs'⟩ := startSend_ok hstart
  have hat : ∀ j, s'.operations[j]?
      = if j < s.operations.length then s.operations[j]?
        else if j = s.operations.length then some operation else none := by
    intro j
    rw [hs', getElem?_append]
    split
    case isTrue => rfl
    case isFalse hge =>
      split
      case isTrue heq =>
        rw [heq, Nat.sub_self]
        rfl
      case isFalse hne =>
        rw [getElem?_eq_none]
        simp only [length_singleton]
        omega
  have hlength : s'.operations.length = s.operations.length + 1 := by
    rw [hs']
    exact length_append
  have hfin : ∀ j, s'.finishedAt j = s.finishedAt j := by
    intro j
    unfold finishedAt
    rw [hat]
    split
    case isTrue => rfl
    case isFalse hge =>
      rw [getElem?_eq_none (Nat.le_of_not_lt hge)]
      split
      · exact hfresh
      · rfl
  have hcan : ∀ j, s'.cancelledAt j = s.cancelledAt j := by
    intro j
    unfold cancelledAt
    rw [hat]
    split
    case isTrue => rfl
    case isFalse hge =>
      rw [getElem?_eq_none (Nat.le_of_not_lt hge)]
      split
      · exact hcalm
      · rfl
  have hst : ∀ j, s'.stage j
      = if j = s.operations.length then some (.inspecting request) else s.stage j := by
    intro j
    unfold LocalPtySession.stage
    rw [hat]
    split
    case isTrue hlt => rw [if_neg (Nat.ne_of_lt hlt)]
    case isFalse hge =>
      split
      case isTrue => exact congrArg some hstage
      case isFalse => rw [getElem?_eq_none (Nat.le_of_not_lt hge)]
  have hold : ∀ j, s'.stage j = some .writing ↔ s.stage j = some .writing := by
    intro j
    rw [hst]
    split
    case isTrue heq =>
      constructor
      · exact fun hj => by cases hj
      · intro hj
        exact absurd (lt_of_stage s hj) (heq ▸ Nat.lt_irrefl _)
    case isFalse => exact Iff.rfl
  have hwrite : s.activeWrite = none := by
    cases hj : s.activeWrite with
    | none => rfl
    | some j =>
      have hactive := h.writer hopen j hj
      rw [hidle] at hactive
      cases hactive
  have hdrains : ∀ j, s.interrupting ≠ some j := by
    intro j hj
    have hactive := h.interrupting hopen j hj
    rw [hidle] at hactive
    cases hactive
  have hactive' : s'.active = some s.operations.length := by rw [hs']
  have hlog' : s'.log = .accepted s.operations.length request :: s.log := by rw [hs']
  have hnew : ∀ j, (∃ request, .accepted j request ∈ s.log) → j ≠ s.operations.length := by
    rintro j haccepted rfl
    exact absurd ((h.log_accepted _).mpr haccepted) (Nat.lt_irrefl _)
  have hinspecting : ∀ j request', s'.stage j = some (.inspecting request') →
      j = s.operations.length ∧ request' = request ∨ s.stage j = some (.inspecting request') := by
    intro j request' hj
    rw [hst] at hj
    split at hj
    case isTrue heq =>
      cases hj
      exact .inl ⟨heq, rfl⟩
    case isFalse => exact .inr hj
  exact {
    range := fun j hj => by
      rw [hactive'] at hj
      cases hj
      rw [hlength]
      exact Nat.lt_succ_self _
    exclusive := fun j hlt hj => by
      rw [hlength] at hlt
      rcases Nat.lt_succ_iff_lt_or_eq.mp hlt with hlt | heq
      · have hactive := h.exclusive j hlt ((hfin j).symm.trans hj)
        rw [hidle] at hactive
        cases hactive
      · rw [heq]
        exact hactive'
    deadline := fun _ j hj _ => by
      rw [← hj, hactive', hs']
    promised := by
      rw [hs']
      exact h.promised
    writing := fun j => by
      rw [hold, h.writing, hs']
      rfl
    writer := fun _ j hj => by
      rw [hs', show s.resetReadinessEvidence.activeWrite = none from hwrite] at hj
      cases hj
    writer_unique := fun j k hj => by
      rw [hs', show s.resetReadinessEvidence.activeWrite = none from hwrite] at hj
      cases hj
    unpolled := fun j hj => by
      have hbefore : s.Unwritten j := by
        rcases hj with hj | hj | ⟨⟨request', hj⟩, huncancelled⟩
        · rw [hst] at hj
          split at hj
          · cases hj
          · exact .inl hj
        · exact .inr (.inl ((hold j).mp hj))
        · rcases hinspecting j request' hj with ⟨heq, -⟩ | hj
          · refine .inl ?_
            unfold LocalPtySession.stage
            rw [heq, getElem?_eq_none (Nat.le_refl _)]
            rfl
          · exact .inr (.inr ⟨⟨request', hj⟩, (hcan j).symm.trans huncancelled⟩)
      rw [hs']
      exact h.unpolled j hbefore
    cancelled := fun x hx => by
      rw [hcan]
      rw [hs'] at hx
      exact h.cancelled x hx
    draining := by
      rw [hs']
      exact h.draining
    draining_iff := fun x hx => by
      rw [hold]
      rw [hs'] at hx
      exact h.draining_iff x hx
    interrupting := fun _ j hj => by
      rw [hs'] at hj
      exact absurd hj (hdrains j)
    cancelled_writing := fun _ j hj => by
      rw [hs', show s.resetReadinessEvidence.activeWrite = none from hwrite] at hj
      cases hj
    log_accepted := fun j => by
      rw [hlength, hlog', Nat.lt_succ_iff_lt_or_eq, h.log_accepted j]
      constructor
      · rintro (⟨request', hmem⟩ | rfl)
        · exact ⟨request', mem_cons_of_mem _ hmem⟩
        · exact ⟨request, mem_cons_self⟩
      · rintro ⟨request', hmem⟩
        rcases mem_cons.mp hmem with heq | hmem
        · cases heq
          exact .inr rfl
        · exact .inl ⟨request', hmem⟩
    log_request := fun j request' hj => by
      rw [hlog']
      rcases hinspecting j request' hj with ⟨rfl, rfl⟩ | hj
      · exact mem_cons_self
      · exact mem_cons_of_mem _ (h.log_request j request' hj)
    log_settled := fun j => by
      rw [hlog', hfin, ← h.log_settled j]
      simp
    log_cancelled := fun j => by
      rw [hlog', hcan, ← h.log_cancelled j]
      simp
    log_closed := by
      rw [hlog', show s'.closing = s.closing by rw [hs']; rfl, ← h.log_closed]
      simp
    log_unwritten := fun j request' hj input hmem => by
      rw [hlog'] at hmem
      rcases mem_cons.mp hmem with heq | hmem
      · cases heq
      rcases hinspecting j request' hj with ⟨rfl, -⟩ | hj
      · obtain ⟨after, before, hlog, hfits⟩ := h.lawful.fits hmem
        obtain ⟨⟨request₀, haccepted, -⟩, -⟩ := hfits
        refine hnew s.operations.length ⟨request₀, ?_⟩ rfl
        rw [hlog]
        exact mem_append_right _ (mem_cons_of_mem _ haccepted)
      · exact h.log_unwritten j request' hj input hmem
    lawful := by
      rw [hlog']
      exact ⟨fun request' hmem => hnew _ ⟨request', hmem⟩ rfl, h.lawful⟩
    exited := fun hexited => by
      rw [hs'] at hexited
      exact absurd hopen.1 hexited
    terminating := fun hclosing => by
      rw [hs', show s.resetReadinessEvidence.closing = false from hopen.2] at hclosing
      cases hclosing
    retained := fun _ j hj hfinished => by
      rw [hactive'] at hj
      cases hj
      rw [hfin] at hfinished
      exact absurd (lt_of_flag s hfinished) (Nat.lt_irrefl _)
    drained := fun _ x hx _ hj => by
      rw [hactive'] at hj
      rw [hs'] at hx
      exact absurd (lt_of_flag s (h.cancelled x hx)) (Option.some.inj hj ▸ Nat.lt_irrefl _)
    live := fun _ j hj => by
      rw [hs'] at hj
      exact absurd hj (hdrains j) }

theorem Inv.onExit (h : Inv s) (exitCode : Option Int) (signal : Option JsString) :
    Inv (s.onExit exitCode signal) := by
  have hexited : TerminalSessionStatus.exited exitCode signal ≠ .running := nofun
  unfold LocalPtySession.onExit
  split
  · exact h
  · exact (h.toCore.exit hexited s.transportFailure).settle_exit hexited .sessionExit

theorem Inv.close (h : Inv s) (reason : JsString) : Inv (s.close reason) := by
  have hshut : ∀ s' : LocalPtySession, s'.closing = true → ¬ s'.IsOpen := by
    rintro s' hclosing ⟨-, hopen⟩
    rw [hclosing] at hopen
    cases hopen
  have hclosing : Core ({ s with closing := true }.happen .closed) := { h with
    deadline := fun hopen => absurd hopen (hshut _ rfl)
    promised := fun _ => rfl
    writer := fun hopen => absurd hopen (hshut _ rfl)
    interrupting := fun hopen => absurd hopen (hshut _ rfl)
    cancelled_writing := fun hopen => absurd hopen (hshut _ rfl)
    log_accepted := fun j => by
      show j < s.operations.length ↔ ∃ request, .accepted j request ∈ Happening.closed :: s.log
      rw [h.log_accepted j]
      simp
    log_request := fun j request hj => mem_cons_of_mem _ (h.log_request j request hj)
    log_settled := fun j => by
      show .settled j ∈ Happening.closed :: s.log ↔ s.finishedAt j = true
      rw [← h.log_settled j]
      simp
    log_cancelled := fun j => by
      show .cancelled j ∈ Happening.closed :: s.log ↔ s.cancelledAt j = true
      rw [← h.log_cancelled j]
      simp
    log_closed := ⟨fun _ => rfl, fun _ => mem_cons_self⟩
    log_unwritten := fun j request hj input hmem => by
      rcases mem_cons.mp hmem with heq | hold
      · cases heq
      · exact h.log_unwritten j request hj input hold
    lawful := ⟨trivial, h.lawful⟩ }
  unfold LocalPtySession.close
  simp only
  split
  case h_1 phase hphase =>
    exact { hclosing with
      exited := h.exited
      terminating := fun _ => h.terminating (h.promised (by rw [hphase]; exact nofun))
      retained := fun hopen => absurd hopen (hshut _ rfl)
      drained := fun hopen => absurd hopen (hshut _ rfl)
      live := fun hopen => absurd hopen (hshut _ rfl) }
  case h_2 =>
    exact { hclosing with
      deadline := fun hopen => absurd hopen (hshut _ rfl)
      promised := fun _ => rfl
      unpolled := fun j hj => ⟨nofun, (h.unpolled j hj).2.1, nofun⟩
      exited := h.exited
      terminating := fun _ j _ => ⟨reason, rfl⟩
      retained := fun hopen => absurd hopen (hshut _ rfl)
      drained := fun hopen => absurd hopen (hshut _ rfl)
      live := fun hopen => absurd hopen (hshut _ rfl) }

theorem closing_settleActive (waitReason : TerminalWaitReason) :
    (s.settleActive waitReason false).closing = s.closing := by
  unfold LocalPtySession.settleActive
  split
  · rfl
  · exact (finish_fields _).2.2.2.2

/-- An idle session that closes may come to any phase of its close. -/
theorem Inv.promise (h : Inv s) (hidle : s.active = none) (hclosing : s.closing = true)
    (phase : Option ClosePhase) : Inv { s with closePromise := phase } :=
  { h with
    promised := fun _ => hclosing
    terminating := fun _ j hactive => by
      rw [show s.active = some j from hactive] at hidle
      cases hidle }

theorem failActive_idle (hidle : s.active = none) (error : Failure) : s.failActive error = s := by
  unfold LocalPtySession.failActive
  rw [hidle]

theorem Inv.terminated (h : Inv s) {reason : JsString}
    (hphase : s.closePromise = some (.terminating reason)) (result : Except JsString Unit) :
    Inv (s.terminated reason result) := by
  have hclosing : s.closing = true := h.promised (by rw [hphase]; exact nofun)
  have hshut : ¬ s.IsOpen := fun hopen => by
    rw [hopen.2] at hclosing
    cases hclosing
  cases result with
  | ok _ =>
    exact (h.settleActive (fun hopen => absurd hopen hshut) .sessionExit).promise
      (active_settleActive _) ((closing_settleActive _).trans hclosing) _
  | error cause =>
    simp only [LocalPtySession.terminated]
    rcases Option.eq_none_or_eq_some s.active with hidle | ⟨j, hactive⟩
    · rw [failActive_idle (s := { s with closePromise := none }) hidle]
      exact h.promise hidle hclosing none
    have hcore : Core { s with closePromise := none } :=
      { h with promised := fun hphase => absurd rfl hphase }
    exact hcore.failActive hactive (fun hopen => absurd hopen hshut) _

theorem Inv.completed (h : Inv s) (hphase : s.closePromise = some .completing) :
    Inv s.completed := by
  have hclosing : s.closing = true := h.promised (by rw [hphase]; exact nofun)
  have hidle : s.active = none := by
    cases hactive : s.active with
    | none => rfl
    | some j =>
      obtain ⟨reason, hterminating⟩ := h.terminating hclosing j hactive
      rw [hphase] at hterminating
      cases hterminating
  unfold LocalPtySession.completed
  split
  · exact h.promise hidle hclosing _
  · rw [failActive_idle (s := { s with closePromise := none }) hidle]
    exact h.promise hidle hclosing _

/-! ## The step and the run -/

theorem Inv.start (config : ResolvedConfig) (now : Nat) : Inv (LocalPtySession.start config now) where
  range := fun i hactive => by cases hactive
  exclusive := fun i hlt => absurd hlt (Nat.not_lt_zero i)
  deadline := fun _ i hactive => by cases hactive
  promised := fun hphase => absurd rfl hphase
  writing := fun i => ⟨fun hi => (by cases hi), fun hi => (by cases hi)⟩
  writer := fun _ i hi => by cases hi
  writer_unique := fun i j hi => by cases hi
  unpolled := fun i _ => ⟨nofun, nofun, nofun⟩
  cancelled := fun x hx => by cases hx
  draining := fun x hx => by cases hx
  draining_iff := fun x hx => by cases hx
  interrupting := fun _ i hi => by cases hi
  cancelled_writing := fun _ i hi => by cases hi
  log_accepted := fun i =>
    ⟨fun hlt => absurd hlt (Nat.not_lt_zero i), fun ⟨_, hmem⟩ => (by cases hmem)⟩
  log_request := fun i request hi => by cases hi
  log_settled := fun i => ⟨fun hmem => (by cases hmem), fun hi => (by cases hi)⟩
  log_cancelled := fun i => ⟨fun hmem => (by cases hmem), fun hi => (by cases hi)⟩
  log_closed := ⟨fun hmem => (by cases hmem), fun hi => (by cases hi)⟩
  log_unwritten := fun i request hi => by cases hi
  lawful := trivial
  exited := fun hexited => absurd rfl hexited
  terminating := fun hclosing => by cases hclosing
  retained := fun _ i hactive => by cases hactive
  drained := fun _ x hx => by cases hx
  live := fun _ i hi => by cases hi

/-- Every step of a session keeps the invariant. -/
theorem Inv.step (h : Inv s) {e : Event} (hstep : s.step e = some s') : Inv s' := by
  cases e with
  | tick ms =>
    cases hstep
    exact { h with }
  | startSend request =>
    simp only [LocalPtySession.step] at hstep
    cases hstart : s.startSend request with
    | error error =>
      rw [hstart] at hstep
      cases hstep
    | ok started =>
      rw [hstart] at hstep
      cases hstep
      exact h.startSend hstart
  | initialize_ signal =>
    simp only [LocalPtySession.step] at hstep
    obtain ⟨started, hstart, rfl⟩ := Option.map_eq_some_iff.mp hstep
    have hinitializing : Inv { s with initializing := true } := { h with }
    cases hresult : { s with initializing := true }.startSend
        { text := ⟨[]⟩, submit := false, signal } with
    | error error =>
      rw [hresult] at hstart
      cases hstart
    | ok started =>
      rw [hresult] at hstart
      cases hstart
      exact { hinitializing.startSend hresult with }
  | initialized =>
    simp only [LocalPtySession.step] at hstep
    split at hstep
    · cases hstep
    split at hstep
    · cases hstep
      exact { h with }
    · cases hstep
  | cancel i =>
    simp only [LocalPtySession.step] at hstep
    split at hstep
    · cases hstep
      exact h.cancel
    · cases hstep
  | abort i =>
    simp only [LocalPtySession.step] at hstep
    split at hstep
    · cases hstep
      exact h.cancel
    · cases hstep
  | deadline =>
    obtain ⟨i, hdeadline, rfl⟩ := Option.map_eq_some_iff.mp hstep
    simp only
    split
    case isTrue hactive =>
      rw [settleActive_deadline hactive]
      exact h.deadlineFires hactive
    case isFalse hother =>
      refine h.dropDeadline ?_
      rw [hdeadline]
      exact fun heq => hother heq.symm
  | pollTimer =>
    obtain ⟨i, htimer, rfl⟩ := Option.map_eq_some_iff.mp hstep
    have hwritten : ¬ s.Unwritten i := fun hi => (h.unpolled i hi).1 htimer
    have hfired : Inv { s with activeTimer := none } :=
      { h with unpolled := fun j hj => ⟨nofun, (h.unpolled j hj).2⟩ }
    exact hfired.pollReadiness hwritten
  | inspected i result =>
    simp only [LocalPtySession.step] at hstep
    split at hstep
    case h_1 request hstage =>
      cases hstep
      exact h.inspected hstage result
    case h_2 => cases hstep
  | written i result =>
    simp only [LocalPtySession.step] at hstep
    split at hstep
    case isTrue hstage =>
      cases hstep
      exact h.written hstage result
    case isFalse => cases hstep
  | drained i ok =>
    simp only [LocalPtySession.step] at hstep
    split at hstep
    case isTrue hmem =>
      cases hstep
      cases ok with
      | true => exact h.drained_ok hmem
      | false => exact h.drained_gone hmem
    case isFalse => cases hstep
  | signalled i result =>
    simp only [LocalPtySession.step] at hstep
    split at hstep
    case isTrue hmem =>
      cases hstep
      exact h.signalled hmem result
    case isFalse => cases hstep
  | polled result =>
    obtain ⟨i, hpolling, rfl⟩ := Option.map_eq_some_iff.mp hstep
    exact h.polled hpolling result
  | data chunk =>
    cases hstep
    exact h.onData chunk
  | outputEnd chunk flushed =>
    cases hstep
    exact { (h.onData chunk).appendOutput flushed with }
  | outputError error =>
    cases hstep
    exact { h.toCore.onTransportFailure error with }
  | exit exitCode signal =>
    cases hstep
    exact { h with }
  | exitObserved =>
    simp only [LocalPtySession.step] at hstep
    split at hstep
    · split at hstep
      · cases hstep
        exact { h.onExit _ _ with }
      · cases hstep
    · cases hstep
  | doneRejected error =>
    cases hstep
    exact { h.toCore.onTransportFailure error with }
  | close reason =>
    cases hstep
    exact h.close reason
  | terminated result =>
    simp only [LocalPtySession.step] at hstep
    split at hstep
    case h_1 reason hphase =>
      cases hstep
      exact h.terminated hphase result
    case h_2 => cases hstep
  | completed =>
    simp only [LocalPtySession.step] at hstep
    split at hstep
    case isTrue hphase =>
      cases hstep
      exact h.completed hphase.1
    case isFalse => cases hstep

end LocalPtySession

end Terminal

end Harness
