-- SUMMARY: What one guarded append does: to the log, to the surface, and to the two traces.
import Harness.Compaction.Pruner
import Harness.Compaction.Region

namespace Harness

/-! ## The session trace -/

theorem SessionTrace.Accepts.lastSeq {t t' : SessionTrace} {event : SessionEvent}
    (h : t.Accepts event t') : t'.lastSeq = event.seq := by
  unfold Accepts at h
  cases hdata : event.data <;> simp only [hdata] at h
  case toolResult data =>
    split at h
    · obtain ⟨-, -, rfl⟩ := h
      rfl
    · obtain ⟨-, rfl⟩ := h
      rfl
  case turnStart => obtain ⟨-, -, rfl⟩ := h; rfl
  case turnEnd => obtain ⟨-, -, rfl⟩ := h; rfl
  case stepStart => obtain ⟨-, -, -, rfl⟩ := h; rfl
  case userMessage => exact h ▸ rfl
  case sessionEndSeed => exact h ▸ rfl
  case inboxSpliced => exact h ▸ rfl
  case other => exact h ▸ rfl
  all_goals obtain ⟨-, rfl⟩ := h; rfl

/-- Another package's event leaves its seq on the trace and nothing else. -/
theorem SessionTrace.step_other {t : SessionTrace} {seq : Nat} {time : Int} {type : JsString}
    {data : Json} {merged : type ∉ coreEventTypes} (hseq : t.lastSeq < seq) :
    t.step { seq, time, data := .other type data merged } = .ok { t with lastSeq := seq } :=
  SessionTrace.step_ok_iff.mpr ⟨hseq, rfl⟩

namespace GuardedSession

/-! ## One append -/

/-- `s` is open to appends and its surface is `state`. -/
structure Ready (s : GuardedSession) (state : SurfaceFoldState) : Prop where
  accepts : ∃ replacements, SurfaceAccepts s.events state replacements
  idle : s.session.entry.appending = false
  lastSeq : s.trace.lastSeq < s.seq

variable {s s' : GuardedSession} {state : SurfaceFoldState}

theorem Ready.nodes (h : s.Ready state) : s.session.nodes = .ok state.nodes := by
  obtain ⟨replacements, haccepts⟩ := h.accepts
  rw [SessionSpec.nodes, haccepts.foldSurface]
  rfl

theorem Ready.planAppend (h : s.Ready state) (request : AppendRequest) :
    s.session.planAppend request =
      match request.prepare s.seq false with
      | .error e => .error e
      | .ok event => (foldSurface (s.events ++ [event])).map fun _ => event := by
  unfold SessionSpec.planAppend
  rw [h.idle]
  rfl

/-- What the plan of a prepared event makes of the refold. -/
theorem Ready.refold (h : s.Ready state) (event : SessionEvent) :
    (foldSurface (s.events ++ [event])).map (fun _ => event) =
      (planSurfaceEvent state event s.seq s.events 0).map fun _ => event := by
  obtain ⟨replacements, haccepts⟩ := h.accepts
  have hunit := foldSurface_snoc haccepts event
  rw [show s.events.length = s.seq from rfl] at hunit
  cases hfold : foldSurface (s.events ++ [event]) with
  | error e =>
    cases hplan : planSurfaceEvent state event s.seq s.events 0 with
    | error e' =>
      rw [hfold, hplan] at hunit
      simpa [Except.map] using hunit
    | ok plan =>
      rw [hfold, hplan] at hunit
      cases hunit
  | ok result =>
    cases hplan : planSurfaceEvent state event s.seq s.events 0 with
    | error e' =>
      rw [hfold, hplan] at hunit
      cases hunit
    | ok plan => rfl

/-- The session after an event both validators accept. -/
def logged (s : GuardedSession) (event : SessionEvent)
    (traces : SessionTrace × CompactionSessionTrace) : GuardedSession :=
  { session := s.session.push event, trace := traces.1, compaction := traces.2 }

variable {event : SessionEvent} {request : AppendRequest}

/-- An append whose event is planned is up to the validators. -/
theorem Ready.append_planned (h : s.Ready state)
    {plan : Option SurfacePlan} (hprepare : request.prepare s.seq false = .ok event)
    (hplan : planSurfaceEvent state event s.seq s.events 0 = .ok plan) :
    s.append request =
      match s.validate event with
      | .error e => (.vetoed event e, s)
      | .ok traces => (.logged event, s.logged event traces) := by
  have hplanned : s.session.planAppend request = .ok event := by
    rw [h.planAppend, hprepare]
    dsimp only
    rw [h.refold, hplan]
    rfl
  unfold GuardedSession.append
  rw [hplanned]
  dsimp only
  cases s.validate event with
  | error e => rfl
  | ok traces => rfl

theorem Ready.append_unprepared (h : s.Ready state) {e : String}
    (hprepare : request.prepare s.seq false = .error e) : s.append request = (.refused e, s) := by
  unfold GuardedSession.append
  rw [h.planAppend, hprepare]

theorem Ready.append_unplanned (h : s.Ready state) {e : String}
    (hprepare : request.prepare s.seq false = .ok event)
    (hplan : planSurfaceEvent state event s.seq s.events 0 = .error e) :
    s.append request = (.refused e, s) := by
  have hplanned : s.session.planAppend request = .error e := by
    rw [h.planAppend, hprepare]
    dsimp only
    rw [h.refold, hplan]
    rfl
  unfold GuardedSession.append
  rw [hplanned]

theorem validate_ok {traces : SessionTrace × CompactionSessionTrace} :
    s.validate event = .ok traces ↔
      s.trace.step event = .ok traces.1 ∧ s.compaction.advance event = .ok traces.2 := by
  unfold validate
  cases s.trace.step event with
  | error e => simp [bind, Except.bind]
  | ok trace =>
    cases s.compaction.advance event with
    | error e => simp [bind, Except.bind]
    | ok compaction =>
      simp only [bind, Except.bind, Except.ok.injEq]
      exact Prod.ext_iff

/-- A logged event moves the surface by its plan. -/
theorem Ready.logged (h : s.Ready state) {plan : Option SurfacePlan}
    {traces : SessionTrace × CompactionSessionTrace}
    (hplan : planSurfaceEvent state event s.seq s.events 0 = .ok plan)
    (hvalid : s.validate event = .ok traces) :
    (s.logged event traces).Ready (applySurfacePlan state plan).1 := by
  obtain ⟨replacements, haccepts⟩ := h.accepts
  refine ⟨⟨_, haccepts.snoc hplan⟩, h.idle, ?_⟩
  have hseq := (SessionTrace.step_ok_iff.mp (validate_ok.mp hvalid).1).2.lastSeq
  rw [(planSurfaceEvent_ok hplan).1] at hseq
  have hlength : (s.logged event traces).seq = s.seq + 1 := List.length_append
  rw [show (s.logged event traces).trace = traces.1 from rfl, hseq, hlength]
  omega

/-- The three ends of an append. -/
theorem Ready.append_cases (h : s.Ready state) (request : AppendRequest) :
    (∃ e, s.append request = (.refused e, s)) ∨
    (∃ event e, request.prepare s.seq false = .ok event ∧ s.validate event = .error e ∧
      s.append request = (.vetoed event e, s)) ∨
    ∃ event plan traces, request.prepare s.seq false = .ok event ∧
      planSurfaceEvent state event s.seq s.events 0 = .ok plan ∧
      s.validate event = .ok traces ∧
      s.append request = (.logged event, s.logged event traces) := by
  cases hprepare : request.prepare s.seq false with
  | error e => exact .inl ⟨e, h.append_unprepared hprepare⟩
  | ok event =>
    cases hplan : planSurfaceEvent state event s.seq s.events 0 with
    | error e => exact .inl ⟨e, h.append_unplanned hprepare hplan⟩
    | ok plan =>
      have happend := h.append_planned hprepare hplan
      cases hvalid : s.validate event with
      | error e =>
        rw [hvalid] at happend
        exact .inr (.inl ⟨event, e, rfl, hvalid, happend⟩)
      | ok traces =>
        rw [hvalid] at happend
        exact .inr (.inr ⟨event, plan, traces, rfl, hplan, hvalid, happend⟩)

/-- An append leaves the session ready, whatever becomes of it. -/
theorem Ready.append (h : s.Ready state) (request : AppendRequest) :
    ∃ state', (s.append request).2.Ready state' := by
  obtain ⟨e, happend⟩ | ⟨event, e, -, -, happend⟩ | ⟨event, plan, traces, -, hplan, hvalid, happend⟩ :=
    h.append_cases request
  · rw [happend]
    exact ⟨state, h⟩
  · rw [happend]
    exact ⟨state, h⟩
  · rw [happend]
    exact ⟨_, h.logged hplan hvalid⟩

/-! ## Events of other packages -/

/-- An append of another package's event is never refused, and does not move the surface. -/
theorem Ready.append_other (h : s.Ready state) (type : JsString) (data : Json)
    (merged : type ∉ coreEventTypes) (hsupported : (type == "request/header-delta") = false)
    (time : Int) :
    s.append { payload := .lossless (.other type data merged), time } =
        (match s.compaction.advance { seq := s.seq, time, data := .other type data merged } with
          | .error e => (.vetoed { seq := s.seq, time, data := .other type data merged } e, s)
          | .ok compaction => (.logged { seq := s.seq, time, data := .other type data merged },
              s.logged { seq := s.seq, time, data := .other type data merged }
                ({ s.trace with lastSeq := s.seq }, compaction))) ∧
      ∀ compaction, s.compaction.advance { seq := s.seq, time, data := .other type data merged } =
          .ok compaction →
        (s.logged { seq := s.seq, time, data := .other type data merged }
          ({ s.trace with lastSeq := s.seq }, compaction)).Ready state := by
  have hplan := planSurfaceEvent_other state type data merged time s.seq s.events
  have htrace : s.trace.step { seq := s.seq, time, data := .other type data merged } = .ok _ :=
    SessionTrace.step_other h.lastSeq
  constructor
  · rw [h.append_planned (prepare_other type data merged hsupported time s.seq) hplan]
    unfold validate
    rw [htrace]
    simp only [bind, Except.bind]
    cases s.compaction.advance { seq := s.seq, time, data := .other type data merged } <;> rfl
  · intro compaction hadvance
    exact h.logged hplan (validate_ok.mpr ⟨htrace, hadvance⟩)

end GuardedSession

end Harness
