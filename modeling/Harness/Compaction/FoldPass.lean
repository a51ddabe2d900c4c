-- SUMMARY: A fold pass that lands anything is rejected, or leaves its bracket open.
import Harness.Compaction.PrunePass

namespace Harness

namespace SessionTrace

structure CountsSteps (t : SessionTrace) : Prop where
  next : 1 ≤ t.nextStep
  open_ : ∀ step, t.openStep = some step → 1 ≤ step

theorem CountsSteps.accepts {t t' : SessionTrace} {event : SessionEvent} (h : t.CountsSteps)
    (haccepts : t.Accepts event t') : t'.CountsSteps := by
  have hnext := h.next
  have hopen := h.open_
  unfold Accepts at haccepts
  cases hdata : event.data <;> simp only [hdata] at haccepts
  case turnStart =>
    obtain ⟨-, -, rfl⟩ := haccepts
    exact ⟨Nat.le_refl 1, hopen⟩
  case turnEnd =>
    obtain ⟨-, -, rfl⟩ := haccepts
    exact ⟨hnext, hopen⟩
  case stepStart turn step =>
    obtain ⟨-, -, rfl, rfl⟩ := haccepts
    exact ⟨hnext, fun step hstep => Option.some.inj hstep ▸ hnext⟩
  case stepEnd =>
    obtain ⟨-, rfl⟩ := haccepts
    exact ⟨Nat.le_add_left 1 _, by simp⟩
  case toolResult data =>
    split at haccepts
    · obtain ⟨-, -, rfl⟩ := haccepts
      exact ⟨hnext, hopen⟩
    · obtain ⟨-, rfl⟩ := haccepts
      exact ⟨hnext, hopen⟩
  case userMessage => exact haccepts ▸ ⟨hnext, hopen⟩
  case sessionEndSeed => exact haccepts ▸ ⟨hnext, hopen⟩
  case inboxSpliced => exact haccepts ▸ ⟨hnext, hopen⟩
  case other => exact haccepts ▸ ⟨hnext, hopen⟩
  all_goals
    obtain ⟨-, rfl⟩ := haccepts
    exact ⟨hnext, hopen⟩

theorem CountsSteps.seed {t t' : SessionTrace} {events : List SessionEvent} (h : t.CountsSteps)
    (hseed : t.seed events = .ok t') : t'.CountsSteps := by
  induction events generalizing t with
  | nil =>
    cases hseed
    exact h
  | cons event events ih =>
    simp only [SessionTrace.seed] at hseed
    split at hseed
    · cases hseed
    rename_i t₁ hstep
    exact ih (h.accepts (step_ok_iff.mp hstep).2) hseed

end SessionTrace

namespace GuardedSession

variable {s : GuardedSession}

theorem Reached.ready (h : s.Reached) : ∃ state, s.Ready state := by
  obtain ⟨state, replacements, haccepts⟩ := h.accepts
  refine ⟨state, ⟨replacements, haccepts⟩, h.idle, ?_⟩
  have htrace := h.trace
  unfold GuardedSession.seq
  generalize hlog : s.events = log at haccepts htrace
  cases haccepts with
  | nil =>
    rw [← Except.ok.inj htrace]
    exact Int.negSucc_lt_zero 0
  | @snoc log state replacements event plan haccepts hplan =>
    obtain ⟨middle, -, hstep⟩ := SessionTrace.seed_snoc_ok.mp htrace
    have hseq := (SessionTrace.step_ok_iff.mp hstep).2.lastSeq
    rw [(planSurfaceEvent_ok hplan).1] at hseq
    rw [hseq, List.length_append, List.length_singleton]
    omega

theorem Reached.countsSteps (h : s.Reached) : s.trace.CountsSteps :=
  have hfresh : SessionTrace.fresh.CountsSteps :=
    ⟨Nat.le_refl 1, fun step hstep => by cases hstep⟩
  hfresh.seed h.trace

end GuardedSession

/-! ## The first three appends of a fold -/

namespace FoldTransaction

/-- The message of a fold names a step; where that step is not open, its event is rejected. -/
theorem validate_fold {s : GuardedSession} {x : FoldTransaction} {op : FoldOp} {seq : Nat}
    (hstep : s.trace.openStep ≠ some x.step) : ∃ e, s.validate (x.foldEvent op seq) = .error e := by
  cases hvalid : s.trace.step (x.foldEvent op seq) with
  | error e =>
    refine ⟨e, ?_⟩
    unfold GuardedSession.validate
    rw [hvalid]
    rfl
  | ok trace =>
    obtain ⟨-, haccepts⟩ := SessionTrace.step_ok_iff.mp hvalid
    unfold SessionTrace.Accepts at haccepts
    exact absurd haccepts.1.2 hstep

theorem advance_start_opens {c c' : CompactionSessionTrace} {seq : Nat} {time : Int} {data : Json}
    (h : c.advance { seq, time, data := .other "compaction/start" data (by decide) } = .ok c') :
    c'.compaction.isSome = true := by
  rw [CompactionSessionTrace.advance_other rfl] at h
  simp only [CompactionSessionTrace.validateCompactionEvent, beq_self_eq_true, if_true] at h
  cases hstart : c.validateStart seq data with
  | error e =>
    rw [hstart] at h
    cases h
  | ok transition =>
    rw [hstart] at h
    cases h
    unfold CompactionSessionTrace.validateStart at hstart
    simp only [bind, Except.bind] at hstart
    split at hstart
    · cases hstart
    split at hstart
    · cases hstart
    split at hstart
    · cases hstart
    split at hstart
    · cases hstart
    · cases hstart
      rfl

/-- A summary that is accepted leaves its bracket open. -/
theorem advance_summary_open {c c' : CompactionSessionTrace} {seq : Nat} {time : Int} {data : Json}
    (h : c.advance { seq, time, data := .other "compaction/summary" data (by decide) } = .ok c') :
    c'.compaction.isSome = true := by
  have hstart : (("compaction/summary" : JsString) == "compaction/start") = false := rfl
  rw [CompactionSessionTrace.advance_other rfl] at h
  simp only [CompactionSessionTrace.validateCompactionEvent, hstart, Bool.false_eq_true, if_false,
    beq_self_eq_true, if_true] at h
  cases hsummary : c.validateSummary data with
  | error e =>
    rw [hsummary] at h
    cases h
  | ok transition =>
    rw [hsummary] at h
    cases h
    unfold CompactionSessionTrace.validateSummary at hsummary
    simp only [bind, Except.bind] at hsummary
    split at hsummary
    · cases hsummary
    split at hsummary
    · cases hsummary
    split at hsummary
    · cases hsummary
    split at hsummary
    · cases hsummary
    · cases hsummary
      rfl

/-- The append of a marker that leaves its bracket open: a rejection, or a log that grew. -/
theorem append_marker {s : GuardedSession} {state : SurfaceFoldState} (h : s.Ready state)
    {type : JsString} {data : Json} {merged : type ∉ coreEventTypes}
    (hsupported : (type == "request/header-delta") = false) (time : Int)
    (hopens : ∀ c', s.compaction.advance { seq := s.seq, time, data := .other type data merged } =
      .ok c' → c'.compaction.isSome = true) :
    (∃ event e, s.append { payload := .lossless (.other type data merged), time } =
        (.vetoed event e, s)) ∨
      ∃ s', s.append { payload := .lossless (.other type data merged), time } =
          (.logged { seq := s.seq, time, data := .other type data merged }, s') ∧
        s'.Ready state ∧ s'.compaction.compaction.isSome = true ∧
        s'.trace.openStep = s.trace.openStep := by
  obtain ⟨happend, hready⟩ := h.append_other type data merged hsupported time
  cases hadvance : s.compaction.advance { seq := s.seq, time, data := .other type data merged } with
  | error e =>
    rw [hadvance] at happend
    exact .inl ⟨_, e, happend⟩
  | ok c =>
    rw [hadvance] at happend
    exact .inr ⟨_, happend, hready c hadvance, hopens c hadvance, rfl⟩

/-- A fold that appends its message outside its step is rejected, or stops inside its
bracket. -/
theorem appendAll_unclean {s : GuardedSession} {state : SurfaceFoldState} (h : s.Ready state)
    (x : FoldTransaction) (op : FoldOp) (rest : List (Nat → AppendRequest))
    (hstep : s.trace.openStep ≠ some x.step) :
    ¬(PassRun.appendAll { session := s }
      (x.startRequest :: x.summaryRequest op :: x.foldRequest op :: rest)).2.Clean := by
  intro hclean
  have hstart : (∃ event e, s.append (x.startRequest s.seq) = (.vetoed event e, s)) ∨
      ∃ s', s.append (x.startRequest s.seq) = (.logged (x.startEvent s.seq), s') ∧
        s'.Ready state ∧ s'.compaction.compaction.isSome = true ∧
        s'.trace.openStep = s.trace.openStep :=
    append_marker h rfl (x.clock s.seq) fun c' => advance_start_opens
  obtain ⟨event, e, hstart⟩ | ⟨s₁, hstart, hready₁, -, hstep₁⟩ := hstart
  · simp only [PassRun.appendAll, PassRun.append, hstart] at hclean
    exact hclean.accepted (.vetoed event e) (by simp)
  have hsummary : (∃ event e, s₁.append (x.summaryRequest op s₁.seq) = (.vetoed event e, s₁)) ∨
      ∃ s', s₁.append (x.summaryRequest op s₁.seq) = (.logged (x.summaryEvent op s₁.seq), s') ∧
        s'.Ready state ∧ s'.compaction.compaction.isSome = true ∧
        s'.trace.openStep = s₁.trace.openStep :=
    append_marker hready₁ rfl (x.clock s₁.seq) fun c' => advance_summary_open
  obtain ⟨event, e, hsummary⟩ | ⟨s₂, hsummary, hready₂, hopen₂, hstep₂⟩ := hsummary
  · simp only [PassRun.appendAll, PassRun.append, hstart, hsummary] at hclean
    exact hclean.accepted (.vetoed event e) (by simp)
  obtain ⟨e, hmessage⟩ | ⟨event, e, -, -, hmessage⟩ |
    ⟨event, plan, traces, hprepare, -, hvalid, -⟩ :=
      hready₂.append_cases (x.foldRequest op s₂.seq)
  · -- the surface refuses the message: the pass stops inside its bracket
    simp only [PassRun.appendAll, PassRun.append, hstart, hsummary, hmessage] at hclean
    have hnone := hclean.closed (x.startEvent s.seq) (by simp) rfl
    rw [hnone] at hopen₂
    cases hopen₂
  · simp only [PassRun.appendAll, PassRun.append, hstart, hsummary, hmessage] at hclean
    exact hclean.accepted (.vetoed event e) (by simp)
  · rw [foldRequest_prepare] at hprepare
    cases hprepare
    have hclosed : s₂.trace.openStep ≠ some x.step := by
      rw [hstep₂, hstep₁]
      exact hstep
    obtain ⟨e, hveto⟩ := validate_fold hclosed
    rw [hveto] at hvalid
    cases hvalid

end FoldTransaction

end Harness
