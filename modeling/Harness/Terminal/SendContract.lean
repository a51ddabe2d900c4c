-- SUMMARY: The send protocol of a PTY session over whole runs, and the runs in which no signal of a send can reach a later one.
import Harness.Terminal.SendRelease

namespace Harness

open List

namespace Terminal

namespace LocalPtySession

open Transitions

variable {s s' : LocalPtySession} {i : Nat}

/-! ## One interrupt at a time -/

/-- While the session is open, at most one interrupt is live, and it is the one that the session
drains. -/
structure Quiet (s : LocalPtySession) : Prop where
  sole : s.IsOpen → ∀ x ∈ s.interrupts, x.phase ≠ .drained false → s.interrupting = some x.send
  single : s.IsOpen → (s.interrupts.filter fun x => decide (x.phase ≠ .drained false)).length ≤ 1

/-- A step that leaves the interrupts as they are, and opens nothing. -/
structure Undrained (s s' : LocalPtySession) : Prop where
  interrupts : s'.interrupts = s.interrupts
  interrupting : s'.interrupting = s.interrupting
  isOpen : s'.IsOpen → s.IsOpen

theorem Undrained.refl (s : LocalPtySession) : Undrained s s := ⟨rfl, rfl, id⟩

theorem Undrained.trans {s'' : LocalPtySession} (h : Undrained s s') (h' : Undrained s' s'') :
    Undrained s s'' :=
  ⟨h'.interrupts.trans h.interrupts, h'.interrupting.trans h.interrupting, h.isOpen ∘ h'.isOpen⟩

theorem Quiet.undrained (h : Quiet s) (hsame : Undrained s s') : Quiet s' where
  sole := by
    rw [hsame.interrupts, hsame.interrupting]
    exact fun hopen => h.sole (hsame.isOpen hopen)
  single := by
    rw [hsame.interrupts]
    exact fun hopen => h.single (hsame.isOpen hopen)

theorem Quiet.of_shut (hshut : ¬ s.IsOpen) : Quiet s :=
  ⟨fun hopen => absurd hopen hshut, fun hopen => absurd hopen hshut⟩

/-- No interrupt is live. -/
theorem Quiet.of_dead (hdead : ∀ x ∈ s.interrupts, x.phase = .drained false) : Quiet s where
  sole := fun _ x hx hlive => absurd (hdead x hx) hlive
  single := fun _ => by
    rw [filter_eq_nil_iff.mpr fun x hx => by simp [hdead x hx]]
    exact Nat.zero_le 1

theorem undrained_finish (outcome : LocalSendOperation → SendOutcome) :
    Undrained s (s.finish i outcome) := by
  obtain ⟨operations, log, heq, -⟩ := finish_frame s (i := i) outcome
  rw [heq]
  exact ⟨rfl, rfl, id⟩

theorem undrained_clearActive (hother : s.interrupting ≠ s.active) : Undrained s s.clearActive :=
  ⟨rfl, if_neg hother, id⟩

theorem undrained_settleActive (hother : s.active = none ∨ s.interrupting ≠ s.active)
    (waitReason : TerminalWaitReason) : Undrained s (s.settleActive waitReason false) := by
  unfold LocalPtySession.settleActive
  split
  case h_1 => exact .refl s
  case h_2 i hactive =>
    have hother : s.interrupting ≠ s.active := by
      rcases hother with hidle | hother
      · rw [hactive] at hidle
        cases hidle
      · exact hother
    exact (undrained_clearActive hother).trans (undrained_finish _)

theorem Undrained.settleActive (h : Undrained s s') (hactive : s'.active = s.active)
    (hother : s.interrupting ≠ s.active) (waitReason : TerminalWaitReason) :
    Undrained s (s'.settleActive waitReason false) := by
  refine h.trans (undrained_settleActive (.inr ?_) waitReason)
  rw [h.interrupting, hactive]
  exact hother

theorem undrained_failActive (hother : s.interrupting ≠ s.active) (error : Failure) :
    Undrained s (s.failActive error) := by
  unfold LocalPtySession.failActive
  split
  case h_1 => exact .refl s
  case h_2 => exact (undrained_clearActive hother).trans (undrained_finish _)

theorem undrained_schedulePoll : Undrained s (s.schedulePoll i) := by
  unfold LocalPtySession.schedulePoll
  split <;> exact ⟨rfl, rfl, id⟩

theorem undrained_finishPoll : Undrained s s.finishPoll := by
  have hidle : Undrained s { s with polling := none } := ⟨rfl, rfl, id⟩
  unfold LocalPtySession.finishPoll
  simp only
  split
  · exact hidle
  split
  · exact hidle.trans undrained_schedulePoll
  · exact hidle

theorem undrained_judge (foreground : Option SubprocessTerminalForeground) :
    Undrained s (s.judge i foreground) := by
  unfold LocalPtySession.judge
  split
  case isTrue => exact .refl s
  case isFalse hguard =>
    obtain ⟨hactive, -, hinterrupting⟩ : s.active = some i ∧ ¬ s.closing = true ∧
        s.interrupting ≠ some i := by simpa only [not_or, not_not] using hguard
    have hother : s.interrupting ≠ s.active := hactive ▸ hinterrupting
    have hlearnt : Undrained s (s.learnShell foreground) := ⟨rfl, rfl, id⟩
    simp only
    split
    · exact hlearnt.settleActive rfl hother _
    split
    · exact hlearnt
    have hobserved : ∀ left, Undrained s ((s.learnShell foreground).update i fun operation =>
        { operation with initialForegroundLeftWait := left }) := fun _ => ⟨rfl, rfl, id⟩
    split
    · exact (hobserved _).settleActive rfl hother _
    split
    · exact (hobserved _).settleActive rfl hother _
    · exact hobserved _

theorem undrained_polled (result : Except Failure (Option SubprocessTerminalForeground)) :
    Undrained s (s.polled i result) := by
  cases result with
  | ok foreground => exact (undrained_judge foreground).trans undrained_finishPoll
  | error error =>
    simp only [LocalPtySession.polled]
    split
    case isTrue hguard =>
      exact (undrained_failActive (hguard.1 ▸ hguard.2.2) error).trans undrained_finishPoll
    case isFalse => exact undrained_finishPoll

theorem undrained_appendOutput (text : JsString) : Undrained s (s.appendOutput text) := by
  unfold LocalPtySession.appendOutput
  split
  · exact .refl s
  · split <;> exact ⟨rfl, rfl, id⟩

theorem undrained_onData (chunk : SanitizedChunk) : Undrained s (s.onData chunk) := by
  obtain ⟨text, prompt, promptTail⟩ := chunk
  have happended : Undrained s (s.appendOutput text) := undrained_appendOutput text
  cases prompt with
  | false =>
    cases promptTail with
    | none => exact happended
    | some tail =>
      simp only [LocalPtySession.onData, Bool.false_eq_true, if_false]
      split <;> exact ⟨happended.interrupts, happended.interrupting, happended.isOpen⟩
  | true =>
    cases promptTail with
    | none => exact ⟨happended.interrupts, happended.interrupting, happended.isOpen⟩
    | some tail => exact ⟨happended.interrupts, happended.interrupting, happended.isOpen⟩

/-! ## Steps that move the interrupts -/

theorem Quiet.dead_of_other (h : Quiet s) (hinv : Inv s) (hopen : s.IsOpen)
    (hactive : s.active = some i) (hother : s.interrupting ≠ some i) :
    ∀ x ∈ s.interrupts, x.phase = .drained false := by
  intro x hx
  by_contra hlive
  have hinterrupting := h.sole hopen x hx hlive
  rw [hinv.interrupting hopen x.send hinterrupting] at hactive
  cases hactive
  exact hother hinterrupting

theorem Quiet.inspected (h : Quiet s) {request : TerminalSendRequest}
    (result : Except Failure (Option SubprocessTerminalForeground)) :
    Quiet (s.inspected i request result) := by
  have hover : Undrained s (s.setStage i .over) := ⟨rfl, rfl, id⟩
  cases result with
  | error error =>
    simp only [LocalPtySession.inspected]
    split
    case isTrue hguard =>
      exact h.undrained (hover.trans (undrained_failActive (hguard.1 ▸ hguard.2.2) error))
    case isFalse => exact h.undrained hover
  | ok foreground =>
    simp only [LocalPtySession.inspected]
    split
    case isTrue => exact h.undrained hover
    case isFalse hguard =>
      obtain ⟨hactive, -, hinterrupting⟩ : s.active = some i ∧ ¬ s.closing = true ∧
          s.interrupting ≠ some i := by simpa only [not_or, not_not] using hguard
      have hother : s.interrupting ≠ s.active := hactive ▸ hinterrupting
      split
      · exact h.undrained ⟨rfl, rfl, id⟩
      have hseen : Undrained s ((s.update i fun operation =>
          operation.setInitialForeground foreground).setStage i .over) := ⟨rfl, rfl, id⟩
      unfold LocalPtySession.afterWrite
      split
      · exact h.undrained hseen
      split
      · exact h.undrained hseen
      split
      · exact h.undrained (hseen.trans (undrained_clearActive hother))
      split
      · have hready : Undrained s { (s.update i fun operation =>
            operation.setInitialForeground foreground).setStage i .over with
          pollingReady := some i } := ⟨rfl, rfl, id⟩
        exact h.undrained (hready.trans undrained_schedulePoll)
      · exact h.undrained hseen

theorem isOpen_afterWrite : (s.afterWrite i).IsOpen → s.IsOpen := by
  unfold LocalPtySession.afterWrite
  split
  · exact id
  split
  · exact id
  split
  · exact id
  split
  · exact undrained_schedulePoll.isOpen
  · exact id

theorem failActive_frame (error : Failure) : (s.failActive error).interrupts = s.interrupts ∧
    ((s.failActive error).IsOpen → s.IsOpen) := by
  unfold LocalPtySession.failActive
  split
  · exact ⟨rfl, id⟩
  · exact ⟨(undrained_finish _).interrupts, (undrained_finish _).isOpen⟩

theorem isOpen_written (result : Except Failure Unit) : (s.written i result).IsOpen → s.IsOpen := by
  cases result with
  | ok _ => exact isOpen_afterWrite
  | error error =>
    simp only [LocalPtySession.written]
    split
    · split
      · exact id
      · exact (failActive_frame error).2
    · exact id

/-- While its write is in flight, what is live of the interrupts waits for that write. -/
theorem Quiet.draining_of_writing (h : Quiet s) (hinv : Inv s) (hopen : s.IsOpen)
    (hstage : s.stage i = some .writing) :
    ∀ x ∈ s.interrupts, x.phase ≠ .drained false → x.send = i ∧ x.phase = .draining i := by
  intro x hx hlive
  have hsend : x.send = i := by
    have hactive := hinv.interrupting hopen x.send (h.sole hopen x hx hlive)
    have hwriter := hinv.writer hopen i ((hinv.writing i).mp hstage)
    exact Option.some.inj (hactive.symm.trans hwriter)
  refine ⟨hsend, ?_⟩
  rw [(hinv.draining_iff x hx).mp (hsend ▸ hstage), hsend]

/-- The write's end takes along what waited for it, and no interrupt of its send was further. -/
theorem Quiet.written (h : Quiet s) (hinv : Inv s) (hstage : s.stage i = some .writing)
    (result : Except Failure Unit) : Quiet (s.written i result) := by
  by_cases hopen : s.IsOpen
  case neg => exact .of_shut fun hopen' => hopen (isOpen_written result hopen')
  have hdraining := h.draining_of_writing hinv hopen hstage
  cases result with
  | ok _ =>
    let ended := { s with
      activeWrite := none
      interrupts := s.interrupts.map (Interrupt.drain i true) }.setStage i .over
    have hphase : ∀ x, (Interrupt.drain i true x).phase ≠ .drained false ↔
        x.phase ≠ .drained false := by
      intro x
      unfold Interrupt.drain
      split
      case isTrue hx => simp [hx]
      case isFalse => exact Iff.rfl
    have hover : Quiet ended := by
      constructor
      · intro _ x' hx' hlive
        obtain ⟨x, hx, rfl⟩ := mem_map.mp hx'
        rw [Interrupt.drain_send]
        exact h.sole hopen x hx ((hphase x).mp hlive)
      intro _
      have hlength : (ended.interrupts.filter fun x => decide (x.phase ≠ .drained false)).length
          = (s.interrupts.filter fun x => decide (x.phase ≠ .drained false)).length := by
        rw [show ended.interrupts = s.interrupts.map (Interrupt.drain i true) from rfl,
          filter_map, length_map]
        refine congrArg List.length (filter_congr fun x _ => ?_)
        exact decide_eq_decide.mpr (hphase x)
      rw [hlength]
      exact h.single hopen
    have hafter : s.written i (.ok ()) = ended.afterWrite i := rfl
    rw [hafter]
    unfold LocalPtySession.afterWrite
    split
    · exact hover
    case h_2 operation hget =>
      split
      · exact hover
      case isFalse hcalm =>
        split
        · -- a send that is not cancelled has no interrupt
          refine .of_dead fun x' hx' => ?_
          obtain ⟨x, hx, rfl⟩ := mem_map.mp hx'
          by_contra hlive
          have hsend := (hdraining x hx ((hphase x).mp hlive)).1
          have hcancelled := hinv.cancelled x hx
          rw [hsend] at hcancelled
          have hflag : ended.cancelledAt i = s.cancelledAt i := cancelledAt_setStage _ .over
          rw [hcancelled] at hflag
          unfold cancelledAt at hflag
          rw [hget] at hflag
          exact hcalm hflag
        · split
          · have hready : Undrained ended { ended with pollingReady := some i } := ⟨rfl, rfl, id⟩
            exact hover.undrained (hready.trans undrained_schedulePoll)
          · exact hover
  | error error =>
    have hdead : ∀ x ∈ s.interrupts.map (Interrupt.drain i (Except.error error : Except Failure Unit).isOk),
        x.phase = .drained false := by
      intro x' hx'
      obtain ⟨x, hx, rfl⟩ := mem_map.mp hx'
      unfold Interrupt.drain
      split
      case isTrue => rfl
      case isFalse hother =>
        by_contra hlive
        exact hother (hdraining x hx hlive).2
    simp only [LocalPtySession.written]
    split
    · split
      · exact .of_dead hdead
      refine .of_dead ?_
      rw [(failActive_frame error).1]
      exact hdead
    · exact .of_dead hdead

/-- Once the one live interrupt is taken out, none is left. -/
theorem Quiet.dead_erase (h : Quiet s) (hopen : s.IsOpen) {x₀ : Interrupt} (hmem : x₀ ∈ s.interrupts)
    (hlive : x₀.phase ≠ .drained false) :
    ∀ x ∈ s.interrupts.erase x₀, x.phase = .drained false := by
  have hperm := (perm_cons_erase hmem).filter fun x => decide (x.phase ≠ .drained false)
  rw [filter_cons_of_pos (by simpa using hlive)] at hperm
  have hlength := hperm.length_eq
  have hsingle := h.single hopen
  rw [length_cons] at hlength
  have hempty : (s.interrupts.erase x₀).filter (fun x => decide (x.phase ≠ .drained false)) = [] :=
    eq_nil_of_length_eq_zero (by omega)
  intro x hx
  by_contra hx'
  have hin : x ∈ (s.interrupts.erase x₀).filter fun x => decide (x.phase ≠ .drained false) :=
    mem_filter.mpr ⟨hx, decide_eq_true hx'⟩
  rw [hempty] at hin
  cases hin

theorem Quiet.drained (h : Quiet s) (hinv : Inv s) {ok : Bool}
    (hmem : ⟨i, .drained ok⟩ ∈ s.interrupts) : Quiet (s.drained i ok) := by
  by_cases hopen : s.IsOpen
  case neg =>
    refine .of_shut fun hopen' => hopen ?_
    cases ok with
    | true => exact hopen'
    | false => exact hopen'
  cases ok with
  | true =>
    have hdead := h.dead_erase hopen hmem nofun
    constructor
    · intro _ x hx hlive
      rcases mem_cons.mp hx with rfl | hold
      · exact h.sole hopen ⟨i, .drained true⟩ hmem nofun
      · exact absurd (hdead x hold) hlive
    · intro _
      rw [show (s.drained i true).interrupts
          = ⟨i, .signalling⟩ :: s.interrupts.erase ⟨i, .drained true⟩ from rfl,
        filter_cons_of_pos rfl, filter_eq_nil_iff.mpr fun x hx => by simp [hdead x hx]]
      exact Nat.le_refl 1
  | false =>
    have hsame : (s.drained i false).interrupting = s.interrupting :=
      if_neg fun hi => hinv.drained hopen _ hmem rfl (hinv.interrupting hopen i hi)
    constructor
    · intro _ x hx hlive
      rw [hsame]
      exact h.sole hopen x (mem_of_mem_erase hx) hlive
    · intro _
      exact le_trans ((erase_sublist.filter _).length_le) (h.single hopen)

theorem Quiet.signalled (h : Quiet s) (hmem : ⟨i, .signalling⟩ ∈ s.interrupts)
    (result : Except Failure Unit) : Quiet (s.signalled i result) := by
  by_cases hopen : s.IsOpen
  case neg =>
    refine .of_shut fun hopen' => hopen ?_
    cases result with
    | ok _ =>
      simp only [LocalPtySession.signalled] at hopen'
      split at hopen'
      · exact hopen'
      split at hopen'
      · have hbefore := undrained_schedulePoll.isOpen hopen'
        exact hbefore
      · exact hopen'
    | error error =>
      simp only [LocalPtySession.signalled] at hopen'
      split at hopen'
      · exact absurd hopen' (not_isOpen_onTransportFailure error)
      · exact hopen'
  have hdead := h.dead_erase hopen hmem (by simp)
  cases result with
  | ok _ =>
    simp only [LocalPtySession.signalled]
    split
    · exact .of_dead hdead
    split
    · refine .of_dead ?_
      rw [undrained_schedulePoll.interrupts]
      exact hdead
    · exact .of_dead hdead
  | error error =>
    simp only [LocalPtySession.signalled]
    split
    · exact .of_shut (not_isOpen_onTransportFailure error)
    · exact .of_dead hdead

/-- A cancellation of a send that is not being interrupted makes the one live interrupt. -/
theorem Quiet.cancel (h : Quiet s) (hinv : Inv s) (hcalm : s.interrupting ≠ some i) :
    Quiet (s.cancel i) := by
  unfold LocalPtySession.cancel
  split
  · exact h
  case h_2 operation hget =>
    split
    · exact h
    case isFalse hunfinished =>
      have hlt : i < s.operations.length := (List.getElem?_eq_some_iff.mp hget).1
      have hunsettled : s.finishedAt i = false := by
        unfold finishedAt
        rw [hget]
        simpa using hunfinished
      have hactive : s.active = some i := hinv.exclusive i hlt hunsettled
      rw [interrupt_eq (s := (s.update i fun operation =>
        { operation with cancellationRequested := true }).happen (.cancelled i)) hactive]
      by_cases hopen : s.IsOpen
      case neg => exact .of_shut hopen
      have hdead := h.dead_of_other hinv hopen hactive hcalm
      constructor
      · intro _ x hx hlive
        rcases mem_cons.mp hx with rfl | hold
        · rfl
        · exact absurd (hdead x hold) hlive
      · intro _
        rw [filter_cons, filter_eq_nil_iff.mpr fun x hx => by
          simp [show x.phase = .drained false from hdead x hx]]
        split
        · exact Nat.le_refl 1
        · exact Nat.zero_le 1

/-! ## The run -/

theorem not_isOpen_of_closing (hclosing : s.closing = true) : ¬ s.IsOpen := by
  rintro ⟨-, hopen⟩
  rw [hclosing] at hopen
  cases hopen

/-- A step keeps the interrupts quiet, unless it cancels a send that is being interrupted. -/
theorem Quiet.step (h : Quiet s) (hinv : Inv s) {e : Event} (hcalm : s.Calm e)
    (hstep : s.step e = some s') : Quiet s' := by
  cases e with
  | tick ms =>
    cases hstep
    exact h.undrained ⟨rfl, rfl, id⟩
  | startSend request =>
    simp only [LocalPtySession.step] at hstep
    cases hstart : s.startSend request with
    | error error =>
      rw [hstart] at hstep
      cases hstep
    | ok started =>
      rw [hstart] at hstep
      cases hstep
      obtain ⟨hopen, -, operation, activeAbort, -, -, -, rfl⟩ := startSend_ok hstart
      exact h.undrained ⟨rfl, rfl, fun _ => hopen⟩
  | initialize_ signal =>
    simp only [LocalPtySession.step] at hstep
    obtain ⟨started, hstart, rfl⟩ := Option.map_eq_some_iff.mp hstep
    cases hresult : { s with initializing := true }.startSend
        { text := ⟨[]⟩, submit := false, signal } with
    | error error =>
      rw [hresult] at hstart
      cases hstart
    | ok started =>
      rw [hresult] at hstart
      cases hstart
      obtain ⟨hopen, -, operation, activeAbort, -, -, -, rfl⟩ := startSend_ok hresult
      exact h.undrained ⟨rfl, rfl, fun _ => hopen⟩
  | initialized =>
    simp only [LocalPtySession.step] at hstep
    split at hstep
    · cases hstep
    split at hstep
    · cases hstep
      exact h.undrained ⟨rfl, rfl, id⟩
    · cases hstep
  | cancel i =>
    simp only [LocalPtySession.step] at hstep
    split at hstep
    · cases hstep
      exact h.cancel hinv hcalm
    · cases hstep
  | abort i =>
    simp only [LocalPtySession.step] at hstep
    split at hstep
    · cases hstep
      exact h.cancel hinv hcalm
    · cases hstep
  | deadline =>
    obtain ⟨i, -, rfl⟩ := Option.map_eq_some_iff.mp hstep
    simp only
    split
    case isTrue hactive =>
      rw [settleActive_deadline hactive]
      cases hretain : s.activeWrite.isSome || decide (s.interrupting = some i) with
      | false =>
        obtain ⟨-, hinterrupting⟩ := Bool.or_eq_false_iff.mp hretain
        refine h.undrained (undrained_settleActive (.inr ?_) .timeout)
        rw [hactive]
        exact of_decide_eq_false hinterrupting
      | true =>
        have hstopped : Undrained s { s.stopPolling with activeAbort := none } := ⟨rfl, rfl, id⟩
        unfold LocalPtySession.settleActive
        rw [hactive]
        exact h.undrained (hstopped.trans (undrained_finish _))
    case isFalse => exact h.undrained ⟨rfl, rfl, id⟩
  | pollTimer =>
    obtain ⟨i, -, rfl⟩ := Option.map_eq_some_iff.mp hstep
    unfold LocalPtySession.pollReadiness
    split
    case isTrue => exact h.undrained ⟨rfl, rfl, id⟩
    case isFalse hguard =>
      have hactive : s.active = some i := by
        by_contra hne
        exact hguard (.inl hne)
      simp only
      split
      case isTrue hexited =>
        have hidle := hinv.exited hexited
        rw [hactive] at hidle
        cases hidle
      case isFalse => exact h.undrained ⟨rfl, rfl, id⟩
  | inspected i result =>
    simp only [LocalPtySession.step] at hstep
    split at hstep
    · cases hstep
      exact h.inspected result
    · cases hstep
  | written i result =>
    simp only [LocalPtySession.step] at hstep
    split at hstep
    case isTrue hstage =>
      cases hstep
      exact h.written hinv hstage result
    case isFalse => cases hstep
  | drained i ok =>
    simp only [LocalPtySession.step] at hstep
    split at hstep
    case isTrue hmem =>
      cases hstep
      exact h.drained hinv hmem
    case isFalse => cases hstep
  | signalled i result =>
    simp only [LocalPtySession.step] at hstep
    split at hstep
    case isTrue hmem =>
      cases hstep
      exact h.signalled hmem result
    case isFalse => cases hstep
  | polled result =>
    obtain ⟨i, -, rfl⟩ := Option.map_eq_some_iff.mp hstep
    exact h.undrained (undrained_polled result)
  | data chunk =>
    cases hstep
    exact h.undrained (undrained_onData chunk)
  | outputEnd chunk flushed =>
    cases hstep
    have hshown := (undrained_onData (s := s) chunk).trans (undrained_appendOutput flushed)
    exact h.undrained ⟨hshown.interrupts, hshown.interrupting, hshown.isOpen⟩
  | outputError error =>
    cases hstep
    exact .of_shut (not_isOpen_onTransportFailure error)
  | exit exitCode signal =>
    cases hstep
    exact h.undrained ⟨rfl, rfl, id⟩
  | exitObserved =>
    simp only [LocalPtySession.step] at hstep
    split at hstep
    case h_1 exitCode signal _ =>
      split at hstep
      · cases hstep
        unfold LocalPtySession.onExit
        split
        · exact h.undrained ⟨rfl, rfl, id⟩
        refine .of_shut ?_
        rintro ⟨hrunning, -⟩
        simp only [LocalPtySession.settleActive] at hrunning
        split at hrunning
        · cases hrunning
        · rw [(finish_fields _).2.2.2.1] at hrunning
          cases hrunning
      · cases hstep
    case h_2 => cases hstep
  | doneRejected error =>
    cases hstep
    exact .of_shut (not_isOpen_onTransportFailure error)
  | close reason =>
    cases hstep
    refine .of_shut (not_isOpen_of_closing ?_)
    unfold LocalPtySession.close
    simp only
    split <;> rfl
  | terminated result =>
    simp only [LocalPtySession.step] at hstep
    split at hstep
    case h_1 reason hphase =>
      cases hstep
      have hclosing : s.closing = true := hinv.promised (by rw [hphase]; simp)
      refine .of_shut fun hopen => not_isOpen_of_closing hclosing ?_
      cases result with
      | ok _ =>
        refine absurd hopen (not_isOpen_of_closing ?_)
        exact (closing_settleActive _).trans hclosing
      | error cause => exact (failActive_frame (s := { s with closePromise := none }) _).2 hopen
    case h_2 => cases hstep
  | completed =>
    simp only [LocalPtySession.step] at hstep
    split at hstep
    case isTrue hphase =>
      cases hstep
      have hclosing : s.closing = true := hinv.promised (by rw [hphase.1]; simp)
      refine .of_shut fun hopen => not_isOpen_of_closing hclosing ?_
      unfold LocalPtySession.completed at hopen
      split at hopen
      · exact hopen
      · exact (failActive_frame (s := { s with closePromise := none }) _).2 hopen
    case isFalse => cases hstep

/-- Where the interrupts are quiet, an idle session has nothing of a send in flight. -/
theorem Quiet.undisturbed (h : Quiet s) (hinv : Inv s) : s.Undisturbed := by
  intro request s' hstart
  obtain ⟨hopen, hidle, -⟩ := startSend_ok hstart
  constructor
  · intro i hstage
    have hactive := hinv.writer hopen i ((hinv.writing i).mp hstage)
    rw [hidle] at hactive
    cases hactive
  · intro x hx
    by_contra hlive
    have hactive := hinv.interrupting hopen x.send (h.sole hopen x hx hlive)
    rw [hidle] at hactive
    cases hactive

/-- In every run one send at a time holds the session, settles once, writes once and lets go; and
where no send is cancelled while an earlier cancellation of it is being carried out, no signal and no
write of a send is in flight when the next is accepted. -/
theorem sends_exclusive (config : ResolvedConfig) (now : Nat) (events : List Event)
    (s : LocalPtySession)
    (hrun : run LocalPtySession.step (LocalPtySession.start config now) events = some s) :
    s.Protocol ∧
      ((∀ pre e s₁, pre ++ [e] <+: events →
          run LocalPtySession.step (LocalPtySession.start config now) pre = some s₁ → s₁.Calm e) →
        s.Undisturbed) := by
  have hinv : Inv s := run_invariant' (fun s e s' h hstep => h.step hstep)
    (Inv.start config now) hrun
  refine ⟨hinv.protocol, fun hcalm => ?_⟩
  have hquiet : Inv s ∧ Quiet s := by
    refine run_along (A := LocalPtySession.Calm) (I := fun s => Inv s ∧ Quiet s) ?_ ?_ hcalm hrun
    · rintro s e s' ⟨hinv, hquiet⟩ hcalm hstep
      exact ⟨hinv.step hstep, hquiet.step hinv hcalm hstep⟩
    · exact ⟨Inv.start config now, .of_dead fun x hx => by cases hx⟩
  exact hquiet.2.undisturbed hquiet.1

/-! ## One cancellation, and two -/

def defaultConfig : ResolvedConfig where
  maxReadBytes := 262144
  scrollbackMaxBytes := 4194304
  scrollbackLines := 10000
  pollIntervalMs := 50
  exactProbeAfterMs := 150
  idleSilenceMs := 3000
  handoffGraceMs := 500

/-- The first command, written and awaited. -/
def firstSend : List Event :=
  [.startSend { text := "cat", submit := true }, .inspected 0 (.ok none), .written 0 (.ok ()),
    .tick 200]

/-- The signal has been delivered, and the poll after it finds the foreground waiting for input. -/
def signalledAndPolled : List Event :=
  [.signalled 0 (.ok ()), .pollTimer,
    .polled (.ok (some { processGroupId := 7, inputWaiting := true }))]

theorem sends_exclusive_cancelled :
    ∃ s, run LocalPtySession.step (LocalPtySession.start defaultConfig 0)
        (firstSend ++ [.cancel 0] ++ signalledAndPolled) = some s ∧
      s.active = none ∧ s.Undisturbed := by
  have hrun : ∃ s, run LocalPtySession.step (LocalPtySession.start defaultConfig 0)
      (firstSend ++ [.cancel 0] ++ signalledAndPolled) = some s ∧ s.active = none := ⟨_, rfl, rfl⟩
  obtain ⟨s, hrun, hidle⟩ := hrun
  refine ⟨s, hrun, hidle, (sends_exclusive defaultConfig 0 _ s hrun).2 ?_⟩
  intro pre e s₁ hpre hrun
  obtain ⟨i, rfl, he⟩ := exists_of_snoc_prefix hpre
  match i with
  | 4 =>
    cases he
    cases hrun
    exact nofun
  | 0 | 1 | 2 | 3 | 5 | 6 | 7 =>
    cases he
    trivial
  | i + 8 => cases he

/-- Cancelled twice, the send lets go once the first signal has ended: the next send is accepted while
the second signal is in flight. -/
theorem second_signal_stray :
    ∃ s s', run LocalPtySession.step (LocalPtySession.start defaultConfig 0)
        (firstSend ++ [.cancel 0, .cancel 0] ++ signalledAndPolled) = some s ∧
      s.startSend { text := "make", submit := true } = .ok s' ∧
      s'.active = some 1 ∧ s'.interrupts = [⟨0, .signalling⟩] ∧ ¬ s.Undisturbed := by
  have hrun : ∃ s s', run LocalPtySession.step (LocalPtySession.start defaultConfig 0)
      (firstSend ++ [.cancel 0, .cancel 0] ++ signalledAndPolled) = some s ∧
      s.startSend { text := "make", submit := true } = .ok s' ∧
      s'.active = some 1 ∧ s'.interrupts = [⟨0, .signalling⟩] ∧ s.interrupts = [⟨0, .signalling⟩] :=
    ⟨_, _, rfl, rfl, rfl, rfl, rfl⟩
  obtain ⟨s, s', hrun, hstart, hactive, hinterrupts, hstray⟩ := hrun
  refine ⟨s, s', hrun, hstart, hactive, hinterrupts, fun hundisturbed => ?_⟩
  have hphase := (hundisturbed _ s' hstart).2 ⟨0, .signalling⟩ (by simp [hstray])
  cases hphase

end LocalPtySession

end Terminal

end Harness
