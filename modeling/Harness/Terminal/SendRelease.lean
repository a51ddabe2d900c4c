-- SUMMARY: The slot of a PTY session is never leaked: whatever holds it waits for something that releases it, however that ends.
import Harness.Terminal.SendSteps

namespace Harness

namespace Terminal

namespace LocalPtySession

open Transitions

variable {s : LocalPtySession} {i j : Nat}

/-- The send will let go of the session. -/
abbrev Released (i : Nat) : LocalPtySession → Prop :=
  Eventually LocalPtySession.step Due.Ends fun s' => s'.active ≠ some i

/-! ## What settled stays settled -/

theorem finishedAt_failActive (hlt : ∀ i, s.active = some i → i < s.operations.length)
    (error : Failure) (hj : s.finishedAt j = true) : (s.failActive error).finishedAt j = true := by
  unfold LocalPtySession.failActive
  split
  case h_1 => exact hj
  case h_2 i hactive =>
    rw [finishedAt_finish s.clearActive _ (hlt i hactive),
      show s.clearActive.finishedAt j = s.finishedAt j from rfl, hj]
    rfl

theorem schedulePoll_fields : (s.schedulePoll i).operations = s.operations ∧
    (s.schedulePoll i).activeWrite = s.activeWrite := by
  unfold LocalPtySession.schedulePoll
  split <;> exact ⟨rfl, rfl⟩

theorem afterWrite_fields : (s.afterWrite i).operations = s.operations ∧
    (s.afterWrite i).activeWrite = s.activeWrite := by
  unfold LocalPtySession.afterWrite
  split
  · exact ⟨rfl, rfl⟩
  split
  · exact ⟨rfl, rfl⟩
  split
  · exact ⟨rfl, rfl⟩
  split
  · exact schedulePoll_fields
  · exact ⟨rfl, rfl⟩

theorem activeWrite_failActive (error : Failure) :
    (s.failActive error).activeWrite = s.activeWrite := by
  unfold LocalPtySession.failActive
  split
  · rfl
  · exact (finish_fields _).2.1

/-- After the write no write is in flight, and what had settled has. -/
theorem written_settled (h : Inv s) (result : Except Failure Unit) (hj : s.finishedAt j = true) :
    (s.written i result).activeWrite = none ∧ (s.written i result).finishedAt j = true := by
  have hover : LocalPtySession.finishedAt ({ s with
      activeWrite := none
      interrupts := s.interrupts.map (Interrupt.drain i result.isOk) }.setStage i .over) j = true :=
    (finishedAt_setStage _ .over).trans hj
  cases result with
  | ok _ =>
    refine ⟨afterWrite_fields.2, ?_⟩
    unfold finishedAt at hover ⊢
    rw [show (s.written i (.ok ())).operations = _ from afterWrite_fields.1]
    exact hover
  | error error =>
    simp only [LocalPtySession.written]
    split
    · split
      · exact ⟨rfl, hover⟩
      · refine ⟨activeWrite_failActive error, finishedAt_failActive ?_ error hover⟩
        exact fun k hk => lt_of_lt_of_eq (h.range k hk) (length_update _).symm
    · exact ⟨rfl, hover⟩

/-! ## The stages of a release -/

theorem Inv.released_closing (h : Inv s) (hclosing : s.closing = true) (hactive : s.active = some i) :
    Released i s := by
  obtain ⟨reason, hphase⟩ := h.terminating hclosing i hactive
  have hstep : ∀ result, s.step (.terminated result) = some (s.terminated reason result) := by
    intro result
    simp only [LocalPtySession.step, hphase]
  refine .later .termination ⟨.terminated (.ok ()), _, trivial, hstep _⟩ ?_
  intro e s' hends hs'
  cases e with
  | terminated result =>
    rw [hstep] at hs'
    cases hs'
    refine .now ?_
    cases result with
    | ok _ =>
      have hidle : (s.terminated reason (.ok ())).active = none := active_settleActive _
      rw [hidle]
      simp
    | error cause =>
      have hidle : (s.terminated reason (.error cause)).active = none := active_failActive _
      rw [hidle]
      simp
  | _ => cases hends

theorem released_signalling (hopen : s.closing = false) (hactive : s.active = some i)
    (hfinished : s.finishedAt i = true) (hmem : ⟨i, .signalling⟩ ∈ s.interrupts) : Released i s := by
  have hstep : ∀ result, s.step (.signalled i result) = some (s.signalled i result) :=
    fun result => if_pos hmem
  refine .later (.signal i) ⟨.signalled i (.ok ()), _, rfl, hstep _⟩ ?_
  intro e s' hends hs'
  cases e with
  | signalled k result =>
    cases hends
    rw [hstep] at hs'
    cases hs'
    refine .now ?_
    cases result with
    | ok _ =>
      have hreleased : s.signalled i (.ok ()) = LocalPtySession.clearActive
          ({ s with interrupts := s.interrupts.erase ⟨i, .signalling⟩ }.leaveInterrupt i) :=
        if_pos ⟨hactive, hfinished⟩
      rw [hreleased]
      exact nofun
    | error error =>
      have hreleased : s.signalled i (.error error) = LocalPtySession.leaveInterrupt
          ({ s with interrupts := s.interrupts.erase ⟨i, .signalling⟩ }.onTransportFailure error) i :=
        if_pos ⟨hactive, by simp [hopen]⟩
      have hidle : (s.signalled i (.error error)).active = none := by
        rw [hreleased]
        exact active_failActive _
      rw [hidle]
      exact nofun
  | _ => cases hends

theorem Inv.released_drained (h : Inv s) (hopen : s.closing = false) (hactive : s.active = some i)
    (hfinished : s.finishedAt i = true) (hmem : ⟨i, .drained true⟩ ∈ s.interrupts) :
    Released i s := by
  have hstep : s.step (.drained i true) = some (s.drained i true) := if_pos hmem
  refine .later (.drain i true) ⟨.drained i true, _, ⟨rfl, rfl⟩, hstep⟩ ?_
  intro e s' hends hs'
  cases e with
  | drained k ok =>
    obtain ⟨rfl, rfl⟩ := hends
    rw [hstep] at hs'
    cases hs'
    exact released_signalling hopen hactive hfinished List.mem_cons_self
  | _ => cases hends

/-- Without a write in flight an interrupt is what a settled send keeps the session for. -/
theorem Inv.released_interrupting (h : Inv s) (hopen : s.IsOpen) (hactive : s.active = some i)
    (hfinished : s.finishedAt i = true) (hwrite : s.activeWrite = none) : Released i s := by
  have hinterrupting : s.interrupting = some i := by
    rcases h.retained hopen i hactive hfinished with hwriting | hinterrupting
    · rw [hwrite] at hwriting
      cases hwriting
    · exact hinterrupting
  obtain ⟨⟨k, phase⟩, hx, hsend, hlive⟩ := h.live hopen i hinterrupting
  cases hsend
  cases phase with
  | draining write =>
    have hsend := h.draining _ hx write rfl
    have hstage := (h.draining_iff _ hx).mpr (congrArg InterruptPhase.draining hsend)
    rw [h.writing, hwrite] at hstage
    cases hstage
  | drained ok =>
    cases ok with
    | true => exact h.released_drained hopen.2 hactive hfinished hx
    | false => exact absurd rfl hlive
  | signalling => exact released_signalling hopen.2 hactive hfinished hx

/-- A settled send lets go once its write and its interrupt have ended. -/
theorem Inv.released_finished (h : Inv s) (hactive : s.active = some i)
    (hfinished : s.finishedAt i = true) : Released i s := by
  cases hclosing : s.closing with
  | true => exact h.released_closing hclosing hactive
  | false =>
    have hopen : s.IsOpen := by
      refine ⟨?_, hclosing⟩
      by_contra hexited
      rw [h.exited hexited] at hactive
      cases hactive
    rcases Option.eq_none_or_eq_some s.activeWrite with hwrite | ⟨k, hwrite⟩
    · exact h.released_interrupting hopen hactive hfinished hwrite
    have hik := h.writer_unique k i hwrite hactive
    subst hik
    have hstage : s.stage k = some .writing := (h.writing k).mpr hwrite
    have hstep : ∀ result, s.step (.written k result) = some (s.written k result) :=
      fun result => if_pos hstage
    refine .later (.write k) ⟨.written k (.ok ()), _, rfl, hstep _⟩ ?_
    intro e s' hends hs'
    cases e with
    | written k' result =>
      cases hends
      rw [hstep] at hs'
      cases hs'
      have hinv := h.written hstage result
      obtain ⟨hnone, hstill⟩ := written_settled h (i := k) result hfinished
      by_cases hkept : (s.written k result).active = some k
      · cases hclosing' : (s.written k result).closing with
        | true => exact hinv.released_closing hclosing' hkept
        | false =>
          have hopen' : (s.written k result).IsOpen := by
            refine ⟨?_, hclosing'⟩
            by_contra hexited
            rw [hinv.exited hexited] at hkept
            cases hkept
          exact hinv.released_interrupting hopen' hkept hstill hnone
      · exact .now hkept
    | _ => cases hends

/-- Whatever send holds the session lets go of it. -/
theorem Inv.released (h : Inv s) (hactive : s.active = some i) : Released i s := by
  cases hfinished : s.finishedAt i with
  | true => exact h.released_finished hactive hfinished
  | false =>
    cases hclosing : s.closing with
    | true => exact h.released_closing hclosing hactive
    | false =>
      have hopen : s.IsOpen := by
        refine ⟨?_, hclosing⟩
        by_contra hexited
        rw [h.exited hexited] at hactive
        cases hactive
      have hdeadline := h.deadline hopen i hactive hfinished
      have hstep : s.step .deadline = some (s.settleActive .timeout
          (s.activeWrite.isSome || decide (s.interrupting = some i))) := by
        simp only [LocalPtySession.step, hdeadline, Option.map_some, if_pos hactive,
          settleActive_deadline hactive]
      refine .later .deadline ⟨.deadline, _, trivial, hstep⟩ ?_
      intro e s' hends hs'
      cases e with
      | deadline =>
        have hinv := h.step hs'
        rw [hstep] at hs'
        cases hs'
        by_cases hkept : (s.settleActive .timeout
            (s.activeWrite.isSome || decide (s.interrupting = some i))).active = some i
        · refine hinv.released_finished hkept ?_
          unfold LocalPtySession.settleActive
          rw [hactive]
          simp only
          rw [finishedAt_finish]
          · simp
          split
          · exact h.range i hactive
          · exact h.range i hactive
        · exact .now hkept
      | _ => cases hends

/-- In every state the protocol is kept. -/
theorem Inv.protocol (h : Inv s) : s.Protocol where
  exclusive := by
    intro i operation hget hopen
    refine h.exclusive i (List.getElem?_eq_some_iff.mp hget).1 ?_
    unfold finishedAt
    rw [hget]
    exact hopen
  accepted := h.log_accepted
  settled := h.log_settled
  lawful := h.lawful
  released := fun i hactive => h.released hactive

end LocalPtySession

end Terminal

end Harness
