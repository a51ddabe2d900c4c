-- SUMMARY: Every run of the scheduler, step by step: what it appends in model order, what its pool holds, and that it never gets stuck.
import Harness.AgentLoop.ToolPool

namespace Harness

open List
namespace ToolCalls

/-! ## Events -/

/-- The data and seq of a `tool/call`. -/
def callOf (event : SessionEvent) : Option (EventData × Int) :=
  match event.data with
  | .toolCall .. => some (event.data, event.seq)
  | _ => none

/-- The step, the call and the cited seqs of a `tool/result`. -/
def resultOf (event : SessionEvent) : Option (StepPosition × CallId × Option Json) :=
  match event.data with
  | .toolResult data => some (⟨data.turn, data.step⟩, data.message.callId, event.sourceEventSeqs)
  | _ => none

/-- The event that starts `call` in the step. -/
def IsCall (at_ : StepPosition) (call : PlannedCall) (event : SessionEvent) : Prop :=
  event.data = toolCallData at_ call.block

/-- The event that answers `call` with `result` and cites `seq`. -/
def IsResult (at_ : StepPosition) (call : PlannedCall) (result : ToolExecutionResult) (seq : Int)
    (event : SessionEvent) : Prop :=
  (∃ id, event.data = .toolResult (toolResultData at_ call.block id result)) ∧
    event.sourceEventSeqs = some (citation [seq])

def startedAs (at_ : StepPosition) (call : PlannedCall) (seq : Int) : EventData × Int :=
  (toolCallData at_ call.block, seq)

def answeredAs (at_ : StepPosition) (call : PlannedCall) (seq : Int) :
    StepPosition × CallId × Option Json :=
  (at_, call.block.id, some (citation [seq]))

variable {at_ : StepPosition} {call : PlannedCall} {event : SessionEvent}

theorem IsCall.callOf (h : IsCall at_ call event) :
    callOf event = some (startedAs at_ call event.seq) := by
  simp [ToolCalls.callOf, startedAs, show event.data = toolCallData at_ call.block from h,
    toolCallData]

theorem IsCall.resultOf (h : IsCall at_ call event) : resultOf event = none := by
  simp [ToolCalls.resultOf, show event.data = toolCallData at_ call.block from h, toolCallData]

variable {result : ToolExecutionResult} {seq : Int}

theorem IsResult.resultOf (h : IsResult at_ call result seq event) :
    resultOf event = some (answeredAs at_ call seq) := by
  obtain ⟨⟨id, hdata⟩, hsources⟩ := h
  simp [ToolCalls.resultOf, hdata, hsources, answeredAs, toolResultData]

theorem IsResult.callOf (h : IsResult at_ call result seq event) : callOf event = none := by
  obtain ⟨⟨id, hdata⟩, -⟩ := h
  simp [ToolCalls.callOf, hdata]

/-! ## Logs -/

/-- `events` start the calls of `started` and answer those of `answered`, which is a
beginning of them, in order; the call of a position has its seq. -/
structure Schedules (at_ : StepPosition) (started answered : List PlannedCall) (seqs : List Int)
    (events : List SessionEvent) : Prop where
  length : seqs.length = started.length
  calls : events.filterMap callOf = List.zipWith (startedAs at_) started seqs
  results : events.filterMap resultOf = List.zipWith (answeredAs at_) answered seqs
  only : ∀ event ∈ events, (callOf event).isSome ∨ (resultOf event).isSome

/-- One call and one result for every call, in model order. -/
def Completes (at_ : StepPosition) (calls : List PlannedCall) (events : List SessionEvent) : Prop :=
  ∃ seqs, Schedules at_ calls calls seqs events

variable {started answered : List PlannedCall} {seqs : List Int} {events : List SessionEvent}

theorem Schedules.nil : Schedules at_ [] [] [] [] := ⟨rfl, rfl, rfl, by simp⟩

theorem zipWith_prefix {α β γ : Type} {f : α → β → γ} {xs : List α} {ys zs : List β}
    (h : xs.length ≤ ys.length) : List.zipWith f xs (ys ++ zs) = List.zipWith f xs ys := by
  induction xs generalizing ys with
  | nil => simp
  | cons x xs ih =>
    cases ys with
    | nil => simp at h
    | cons y ys => simp [ih (by simpa using h)]

theorem Schedules.starts (h : Schedules at_ started answered seqs events)
    (hle : answered.length ≤ started.length) (hcall : IsCall at_ call event) :
    Schedules at_ (started ++ [call]) answered (seqs ++ [(event.seq : Int)]) (events ++ [event]) where
  length := by simp [h.length]
  calls := by
    rw [filterMap_append, h.calls, zipWith_append h.length.symm]
    simp [hcall.callOf]
  results := by
    rw [filterMap_append, h.results, zipWith_prefix (by rw [h.length]; exact hle)]
    simp [hcall.resultOf]
  only := by
    intro e he
    rcases mem_append.mp he with he | he
    · exact h.only e he
    · rw [mem_singleton.mp he, hcall.callOf]
      exact .inl rfl

theorem Schedules.answers
    (h : Schedules at_ started answered seqs events) (hseq : seqs[answered.length]? = some seq)
    (hresult : IsResult at_ call result seq event) :
    Schedules at_ started (answered ++ [call]) seqs (events ++ [event]) where
  length := h.length
  calls := by
    rw [filterMap_append, h.calls]
    simp [hresult.callOf]
  results := by
    have hlt : answered.length < seqs.length := (List.getElem?_eq_some_iff.mp hseq).1
    have hsplit : seqs = seqs.take answered.length ++ (seq :: seqs.drop (answered.length + 1)) := by
      have hget : seqs[answered.length] = seq := (List.getElem?_eq_some_iff.mp hseq).2
      rw [← hget, ← drop_eq_getElem_cons hlt, take_append_drop]
    have hlength : answered.length = (seqs.take answered.length).length := by
      rw [length_take]
      omega
    have hbefore : List.zipWith (answeredAs at_) answered seqs =
        List.zipWith (answeredAs at_) answered (seqs.take answered.length) := by
      rw [hsplit, zipWith_prefix hlength.le, ← hsplit]
    rw [filterMap_append, h.results, hbefore, hsplit, zipWith_append hlength, ← hsplit]
    simp [hresult.resultOf]
  only := by
    intro e he
    rcases mem_append.mp he with he | he
    · exact h.only e he
    · rw [mem_singleton.mp he, hresult.resultOf]
      exact .inr rfl

theorem Completes.nil : Completes at_ [] [] := ⟨[], .nil⟩

theorem Completes.append {calls calls' : List PlannedCall} {events events' : List SessionEvent}
    (h : Completes at_ calls events) (h' : Completes at_ calls' events') :
    Completes at_ (calls ++ calls') (events ++ events') := by
  obtain ⟨seqs, h⟩ := h
  obtain ⟨seqs', h'⟩ := h'
  refine ⟨seqs ++ seqs', by simp [h.length, h'.length], ?_, ?_, ?_⟩
  · rw [filterMap_append, h.calls, h'.calls, zipWith_append h.length.symm]
  · rw [filterMap_append, h.results, h'.results, zipWith_append h.length.symm]
  intro e he
  rcases mem_append.mp he with he | he
  · exact h.only e he
  · exact h'.only e he

/-! ## Skipped calls -/

/-- The synthetic call/result pairs of skipped calls, in order. -/
inductive Skips (at_ : StepPosition) : List PlannedCall → List SessionEvent → Prop where
  | nil : Skips at_ [] []
  | cons {call calls first second events} : IsCall at_ call first →
      IsResult at_ call skippedResult first.seq second → Skips at_ calls events →
      Skips at_ (call :: calls) (first :: second :: events)

theorem Skips.append {calls calls' : List PlannedCall} {events events' : List SessionEvent}
    (h : Skips at_ calls events) (h' : Skips at_ calls' events') :
    Skips at_ (calls ++ calls') (events ++ events') := by
  induction h with
  | nil => exact h'
  | cons hcall hresult _ ih => exact .cons hcall hresult ih

theorem Skips.completes {calls : List PlannedCall} {events : List SessionEvent}
    (h : Skips at_ calls events) : Completes at_ calls events := by
  induction h with
  | nil => exact .nil
  | @cons call calls first second events hcall hresult _ ih =>
    have hstarted := Schedules.nil.starts (Nat.le_refl _) hcall
    have hpair : Completes at_ [call] [first, second] :=
      ⟨_, hstarted.answers rfl hresult⟩
    exact hpair.append ih

open LoopCode Rules

/-! ## Rules -/

/-- Where the scheduler may ask for an operation: the exclusion holds, no loop bound is used
up, no assertion fails, and a race has a runner. -/
def toolRules : Rules loopMachine where
  allowed _ := True
  guard op w := w.Exclusion ∧
    match op with
    | .outOfFuel | .missing => False
    | .ask .race => w.pool.inFlight ≠ []
    | _ => True

/-- An assertion that survives what stands aside and what settles. -/
structure Robust (A : LoopWorld → Prop) : Prop where
  aside : ∀ {w w'}, A w → w.Aside w' → A w'
  settle : ∀ {w}, A w → ∀ index outcome, A (w.settle index outcome)

variable {A : LoopWorld → Prop}

theorem Robust.stable (h : Robust A) (R : Rules loopMachine) : R.Stable A := by
  intro act _ w hw
  rcases w.react_aside act with ⟨index, outcome, hsettle⟩ | haside
  · show A (w.react act).2
    rw [hsettle]
    exact h.settle hw index outcome
  · exact h.aside hw haside

theorem Robust.exists {ι : Sort*} {A : ι → LoopWorld → Prop} (h : ∀ i, Robust (A i)) :
    Robust fun w => ∃ i, A i w where
  aside := fun ⟨i, hw⟩ haside => ⟨i, (h i).aside hw haside⟩
  settle := fun ⟨i, hw⟩ index outcome => ⟨i, (h i).settle hw index outcome⟩

theorem Robust.and {B : LoopWorld → Prop} (hA : Robust A) (hB : Robust B) :
    Robust fun w => A w ∧ B w where
  aside := fun hw haside => ⟨hA.aside hw.1 haside, hB.aside hw.2 haside⟩
  settle := fun hw index outcome => ⟨hA.settle hw.1 index outcome, hB.settle hw.2 index outcome⟩

theorem Robust.const (p : Prop) : Robust fun _ => p := ⟨fun h _ => h, fun h _ _ => h⟩

theorem robust_drainable : Robust LoopWorld.Drainable where
  aside hw haside := by
    refine ⟨⟨?_, ?_⟩, ?_⟩
    · rw [haside.running, haside.pool]
      exact hw.limit
    · rw [haside.running]
      exact hw.exclusive
    · rw [haside.running, haside.pool]
      exact hw.inFlight
  settle hw index outcome := hw.settle index outcome

/-- A thrown error leaves a pool that can be drained. -/
abbrev Failing : Thrown → LoopWorld → Prop := fun _ w => w.Drainable

theorem failing_stable (e : Thrown) : toolRules.Stable (Failing e) := robust_drainable.stable _

variable {E : Thrown → LoopWorld → Prop}

/-- Code that only looks keeps a robust assertion. -/
theorem holds_quiet {op : LoopOp} (hquiet : op.isQuiet = true) (hrace : op ≠ .ask .race)
    (hA : Robust A) (hdrain : ∀ w, A w → w.Drainable) :
    toolRules.Holds A (perform op) (fun _ => A) E := by
  refine .ask (hA.stable _) (fun _ => hA.stable _) fun w hw => ⟨⟨(hdrain w hw).toExclusion, ?_⟩, ?_⟩
  · split <;> trivial
  · exact fun reply x w' hperform => hA.aside hw (LoopWorld.perform_quiet hquiet hperform)

theorem holds_read {A : LoopWorld → Prop} {r : LoopRead} {C : r.Answer → LoopWorld → Prop}
    (hA : Robust A) (hC : ∀ x, Robust (C x)) (hdrain : ∀ w, A w → w.Drainable)
    (hread : ∀ w, A w → C (r.answer w) w) : toolRules.Holds A (read r) C E := by
  refine .ask (hA.stable _) (fun x => (hC x).stable _) fun w hw =>
    ⟨⟨(hdrain w hw).toExclusion, trivial⟩, ?_⟩
  intro reply x w' hperform
  obtain ⟨rfl, rfl⟩ := LoopWorld.perform_read hperform
  exact hread _ hw

theorem holds_write {A B : LoopWorld → Prop} {u : LoopWrite}
    (hA : Robust A) (hB : Robust B) (hdrain : ∀ w, A w → w.Drainable)
    (hAB : ∀ w, A w → B (u.apply w)) : toolRules.Holds A (write u) (fun _ => B) E := by
  refine .ask (hA.stable _) (fun _ => hB.stable _) fun w hw =>
    ⟨⟨(hdrain w hw).toExclusion, trivial⟩, ?_⟩
  intro reply x w' hperform
  rw [LoopWorld.perform_write hperform]
  exact hAB w hw

/-- The answer of a question that only looks, or what it throws. -/
theorem holds_orThrow_drainable {α : Type} (hA : Robust A) (hdrain : ∀ w, A w → w.Drainable)
    (x : Except Thrown α) : toolRules.Holds A (orThrow x) (fun _ => A) Failing :=
  holds_orThrow (hA.stable _) (fun _ => hdrain) x

/-! ## What a run has reached -/

/-- Where a run of the scheduler started from. -/
structure Origin where
  own : List SessionEvent
  events : List SessionEvent
  prepared : List PlannedCall

/-- The driver has appended `gained` since, and handed `done` to `prepare`. -/
structure Origin.Reaches (o : Origin) (gained : List SessionEvent) (done : List PlannedCall)
    (w : LoopWorld) : Prop where
  position : w.phase.position.isSome
  own : w.own = o.own ++ gained
  log : ∃ more, w.events = o.events ++ more ∧ gained.Sublist more
  prepared : w.prepared = o.prepared ++ done

variable {o : Origin} {gained : List SessionEvent} {done : List PlannedCall} {w w' : LoopWorld}

theorem Origin.Reaches.undisturbed (h : o.Reaches gained done w) (hw : w.Undisturbed w') :
    o.Reaches gained done w' where
  position := by
    obtain ⟨at_, hat⟩ := Option.isSome_iff_exists.mp h.position
    rw [hw.position at_ hat]
    rfl
  own := hw.own.trans h.own
  log := by
    obtain ⟨more, hmore, hsub⟩ := h.log
    obtain ⟨rest, hrest⟩ := hw.log
    refine ⟨more ++ rest, by rw [← hrest, hmore, append_assoc], ?_⟩
    exact hsub.trans (sublist_append_left _ _)
  prepared := hw.prepared.trans h.prepared

theorem robust_reaches (o : Origin) (gained : List SessionEvent) (done : List PlannedCall) :
    Robust (o.Reaches gained done) where
  aside hw haside := hw.undisturbed haside.toUndisturbed
  settle {w} hw index outcome := hw.undisturbed (w.react_undisturbed (.settle index outcome))

theorem Origin.Reaches.append (h : o.Reaches gained done w) {request : AppendRequest}
    {event : SessionEvent} (happend : w.append request = (.ok event, w')) :
    o.Reaches (gained ++ [event]) done w' := by
  obtain ⟨-, hevents, hown, heq⟩ := LoopWorld.append_ok happend
  obtain ⟨more, hmore, hsub⟩ := h.log
  refine ⟨?_, by rw [hown, h.own, append_assoc],
    ⟨more ++ [event], by rw [hevents, hmore, append_assoc], hsub.append (List.Sublist.refl _)⟩, ?_⟩
  · rw [heq]
    exact h.position
  · rw [heq]
    exact h.prepared

/-! ## Appends -/

/-- A family of assertions that follows what the driver appends. -/
structure Tracks (A : List SessionEvent → LoopWorld → Prop) : Prop where
  robust : ∀ gained, Robust (A gained)
  drainable : ∀ gained w, A gained w → w.Drainable
  append : ∀ {gained w w' request event}, A gained w → w.append request = (.ok event, w') →
    A (gained ++ [event]) w'

variable {F : List SessionEvent → LoopWorld → Prop} {D : LoopWorld → Prop}

theorem holds_appendToolCall (hF : Tracks F) (hD : Robust D) (hFD : ∀ gained w, F gained w → D w)
    (gained : List SessionEvent) (at_ : StepPosition) (call : PlannedCall) :
    toolRules.Holds (F gained) (appendToolCall at_ call.block)
      (fun seq w => ∃ event, (IsCall at_ call event ∧ seq = (event.seq : Int)) ∧
        F (gained ++ [event]) w) (fun _ => D) := by
  have hfollows : ∀ event, toolRules.Stable fun w => IsCall at_ call event ∧ F (gained ++ [event]) w :=
    fun event => ((Robust.const _).and (hF.robust _)).stable _
  have happend : toolRules.Holds (F gained) (append (.lossless (toolCallData at_ call.block)) none)
      (fun event w => IsCall at_ call event ∧ F (gained ++ [event]) w) (fun _ => D) := by
    refine holds_append ((hF.robust gained).stable _) hfollows (fun _ => hD.stable _) ?_ ?_ ?_
    · exact fun w hw => ⟨(hF.drainable _ w hw).toExclusion, trivial⟩
    · intro w w' event time hw happend
      obtain ⟨hprepare, -⟩ := LoopWorld.append_ok happend
      obtain ⟨hdata, -⟩ := prepare_logOnly hprepare
      exact ⟨(Payload.lossless.inj hdata).symm, hF.append hw happend⟩
    · exact fun w w' hw haside e => hD.aside (hFD _ w hw) haside
  refine .bind (fun _ => hD.stable _) happend fun event => .pure (hfollows event) fun w hw => ?_
  exact ⟨event, ⟨hw.1, rfl⟩, hw.2⟩

theorem toolResultPayload_lossless {at_ : StepPosition} {block : ToolCallBlock} {id : MessageId}
    {data : EventData}
    (h : toolResultPayload at_ block id result = .lossless data) :
    data = .toolResult (toolResultData at_ block id result) := by
  unfold toolResultPayload at h
  split at h
  · exact (Payload.lossless.inj h).symm
  · cases h

theorem holds_appendToolResult (hF : Tracks F) (hD : Robust D)
    (hFD : ∀ gained w, F gained w → D w) (gained : List SessionEvent) (at_ : StepPosition)
    (call : PlannedCall) (result : ToolExecutionResult) (seq : Int) :
    toolRules.Holds (F gained) (appendToolResult at_ call.block result seq)
      (fun _ w => ∃ event, IsResult at_ call result seq event ∧ F (gained ++ [event]) w) (fun _ => D) := by
  have hfollows : ∀ event, Robust fun w =>
      IsResult at_ call result seq event ∧ F (gained ++ [event]) w :=
    fun event => (Robust.const _).and (hF.robust _)
  have hid : toolRules.Holds (F gained) (ask .messageId) (fun _ => F gained) (fun _ => D) :=
    holds_quiet rfl (by simp) (hF.robust gained) (hF.drainable gained)
  refine .bind (fun _ => hD.stable _) hid fun id => ?_
  have happend : toolRules.Holds (F gained) (append (toolResultPayload at_ call.block id result)
      (some { sourceEventSeqs := some [seq] }))
      (fun event w => IsResult at_ call result seq event ∧ F (gained ++ [event]) w) (fun _ => D) := by
    refine holds_append ((hF.robust gained).stable _) (fun event => (hfollows event).stable _)
      (fun _ => hD.stable _) ?_ ?_ ?_
    · exact fun w hw => ⟨(hF.drainable _ w hw).toExclusion, trivial⟩
    · intro w w' event time hw happend
      obtain ⟨hprepare, -⟩ := LoopWorld.append_ok happend
      obtain ⟨hdata, -, hsources⟩ := prepare_citing hprepare
      exact ⟨⟨⟨id, toolResultPayload_lossless hdata⟩, hsources⟩, hF.append hw happend⟩
    · exact fun w w' hw haside e => hD.aside (hFD _ w hw) haside
  refine .bind (fun _ => hD.stable _) happend fun event => ?_
  exact .pure ((hfollows event).stable _) fun w hw => ⟨event, hw⟩

/-! ## One group -/

section Group

variable (o : Origin) (group : List PlannedCall) (mode : ToolExecutionMode) (limit : Nat)

/-- The world of a group: `prepared` of its calls went to `prepare`, `pooled` of them are
filled or in flight, `committed` of them have their result, `inFlight` are the pool's keys. -/
structure InGroup (aborted : Bool) (prepared pooled committed : Nat) (exempt : Option Nat)
    (inFlight : List Nat) (gained : List SessionEvent) (w : LoopWorld) : Prop where
  reaches : o.Reaches gained (group.take prepared) w
  aborted : aborted = true → w.phase.reason.isSome
  inFlight : w.pool.inFlight = inFlight
  pool : PoolInv mode limit pooled committed exempt w.pool w.running

variable {o group mode limit} {aborted : Bool} {prepared pooled committed : Nat}
  {exempt : Option Nat} {inFlight : List Nat}

theorem InGroup.undisturbed
    (h : InGroup o group mode limit aborted prepared pooled committed exempt inFlight gained w)
    (hw : w.Undisturbed w')
    (hpool : PoolInv mode limit pooled committed exempt w'.pool w'.running) :
    InGroup o group mode limit aborted prepared pooled committed exempt inFlight gained w' where
  reaches := h.reaches.undisturbed hw
  aborted haborted := hw.reason h.reaches.position (h.aborted haborted)
  inFlight := hw.inFlight.trans h.inFlight
  pool := hpool

variable (o group mode limit aborted prepared pooled committed exempt inFlight) in
theorem tracks_inGroup :
    Tracks (InGroup o group mode limit aborted prepared pooled committed exempt inFlight) where
  robust gained :=
    { aside := fun hw haside => hw.undisturbed haside.toUndisturbed
        (by rw [haside.pool, haside.running]; exact hw.pool)
      settle := fun {w} hw index outcome =>
        hw.undisturbed (w.react_undisturbed (.settle index outcome)) (hw.pool.settle index outcome) }
  drainable gained w hw := hw.pool.drainable
  append := by
    intro gained w w' request event hw happend
    obtain ⟨-, -, -, heq⟩ := LoopWorld.append_ok happend
    refine ⟨hw.reaches.append happend, ?_, ?_, ?_⟩
    · rw [heq]
      exact hw.aborted
    · rw [heq]
      exact hw.inFlight
    · rw [heq]
      exact hw.pool

/-- What the group has logged: the calls started and the results committed. -/
def Logged (at_ : StepPosition) (group : List PlannedCall) (st : GroupState)
    (gained : List SessionEvent) : Prop :=
  Schedules at_ (group.take st.started) (group.take st.committed)
    ((List.range st.started).map st.callSeqs) gained

variable (o group mode limit) in
/-- A group in the state `st`. -/
def Sched (at_ : StepPosition) (st : GroupState) (prepared pooled : Nat) (exempt : Option Nat)
    (inFlight : List Nat) (w : LoopWorld) : Prop :=
  ∃ gained, Logged at_ group st gained ∧
    InGroup o group mode limit st.aborted prepared pooled st.committed exempt inFlight gained w

variable {at_ : StepPosition} {st : GroupState}

theorem robust_sched :
    Robust (Sched o group mode limit at_ st prepared pooled exempt inFlight) :=
  .exists fun gained => (Robust.const _).and ((tracks_inGroup ..).robust gained)

theorem sched_drainable (w : LoopWorld)
    (h : Sched o group mode limit at_ st prepared pooled exempt inFlight w) : w.Drainable := by
  obtain ⟨_, _, hw⟩ := h
  exact hw.pool.drainable

variable {A : LoopWorld → Prop}

theorem holds_acceptContexts (hA : Robust A)
    (hdrain : ∀ w, A w → w.Drainable) (contexts : List Draft) :
    toolRules.Holds A (acceptContexts contexts) (fun _ => A) Failing := by
  induction contexts with
  | nil => exact .pure (hA.stable _) fun _ hw => hw
  | cons context rest ih =>
    have haccept : toolRules.Holds (ε := Thrown) A (perform (.acceptContext context) >>= orThrowText)
        (fun _ => A) Failing := by
      refine .bind failing_stable (holds_quiet rfl (by simp) hA hdrain) fun result => ?_
      cases result with
      | ok removed => exact .pure (hA.stable _) fun _ hw => hw
      | error e => exact .throw (hA.stable _) hdrain
    exact .bind failing_stable haccept fun _ => ih

theorem holds_finalized (hA : Robust A) (hdrain : ∀ w, A w → w.Drainable)
    (slot : Slot) : toolRules.Holds A (finalized slot) (fun _ => A) Failing := by
  unfold finalized
  split <;>
    exact .bind failing_stable (holds_quiet rfl (by simp) hA hdrain)
      (holds_orThrow_drainable hA hdrain)

theorem holds_throwSchedulerFailure {A B : LoopWorld → Prop} (hA : Robust A) (hB : Robust B)
    (hdrain : ∀ w, A w → w.Drainable) (hAB : ∀ w, A w → w.pool.schedulerFailure = none → B w) :
    toolRules.Holds A throwSchedulerFailure (fun _ => B) Failing := by
  have hread : toolRules.Holds (ε := Thrown) A (read .schedulerFailure)
      (fun failure w => (failure = none → B w) ∧ w.Drainable) Failing := by
    refine holds_read hA (fun _ => ?_) hdrain fun w hw => ⟨hAB w hw, hdrain w hw⟩
    exact .and
      { aside := fun hw haside hnone => hB.aside (hw hnone) haside
        settle := fun hw index outcome hnone => hB.settle (hw hnone) index outcome }
      robust_drainable
  refine .bind failing_stable hread fun failure => ?_
  cases failure with
  | none => exact .pure (((hB.and robust_drainable).stable _).congr fun w => by simp) fun w hw => hw.1 rfl
  | some error => exact .throw ((robust_drainable.stable _).congr fun w => by simp) fun w hw => hw.2

/-! ### Commits -/

theorem take_succ_of_drop {α : Type} {xs rest : List α} {x : α} {n : Nat} (h : xs.drop n = x :: rest) :
    n < xs.length ∧ xs.take (n + 1) = xs.take n ++ [x] ∧ xs.drop (n + 1) = rest := by
  have hlt : n < xs.length := by
    by_contra hge
    rw [drop_eq_nil_of_le (by omega)] at h
    cases h
  have hcons := drop_eq_getElem_cons hlt
  rw [h] at hcons
  obtain ⟨hx, hrest⟩ := cons.inj hcons
  refine ⟨hlt, ?_, hrest.symm⟩
  rw [take_add_one, getElem?_eq_getElem hlt, hx]
  rfl

variable {call : PlannedCall} {rest : List PlannedCall}

theorem Logged.answer {result : ToolExecutionResult}
    {event : SessionEvent} (h : Logged at_ group st gained) (hlt : st.committed < st.started)
    (hnext : group.drop st.committed = call :: rest)
    (hresult : IsResult at_ call result (st.callSeqs st.committed) event) (concluded : Bool) :
    Logged at_ group { st with committed := st.committed + 1, concluded } (gained ++ [event]) := by
  obtain ⟨hbound, htake, -⟩ := take_succ_of_drop hnext
  have hlength : (group.take st.committed).length = st.committed := by
    rw [length_take]
    omega
  unfold Logged
  rw [htake]
  refine Schedules.answers h ?_ hresult
  rw [hlength]
  simp [hlt]

theorem InGroup.commit
    (h : InGroup o group mode limit aborted prepared pooled committed exempt inFlight gained w) :
    InGroup o group mode limit aborted prepared pooled (committed + 1) exempt inFlight gained w :=
  { h with pool := h.pool.commit }

theorem holds_commitReady (rest : List PlannedCall) (st : GroupState)
    (hrest : group.drop st.committed = rest) (hle : st.committed ≤ st.started)
    (hbound : st.started ≤ group.length) :
    toolRules.Holds (Sched o group mode limit at_ st prepared st.started none inFlight)
      (commitReady at_ rest st)
      (fun st' w => ∃ c concluded, (st' = { st with committed := c, concluded } ∧ c ≤ st.started ∧
          (c = st.started ∨ c ∈ inFlight)) ∧
        Sched o group mode limit at_ { st with committed := c, concluded } prepared st.started none
          inFlight w) Failing := by
  induction rest generalizing st with
  | nil =>
    have hc : st.committed = st.started := by
      have := drop_eq_nil_iff.mp hrest
      omega
    refine .pure (robust_sched.stable _) fun w hw => ?_
    exact ⟨st.committed, st.concluded, ⟨rfl, hle, .inl hc⟩, hw⟩
  | cons call rest ih =>
    let Read (slot : Option Slot) (w : LoopWorld) : Prop :=
      (slot = none → st.committed = st.started ∨ st.committed ∈ inFlight) ∧
        (slot.isSome → st.committed < st.started) ∧
        Sched o group mode limit at_ st prepared st.started none inFlight w
    have hRead : ∀ slot, Robust (Read slot) :=
      fun slot => (Robust.const _).and ((Robust.const _).and robust_sched)
    have hread : toolRules.Holds (ε := Thrown)
        (Sched o group mode limit at_ st prepared st.started none inFlight)
        (read (.slot st.committed)) Read Failing := by
      refine holds_read robust_sched hRead sched_drainable fun w hw => ?_
      obtain ⟨gained, -, hgroup⟩ := id hw
      refine ⟨fun hnone => ?_, fun hsome => hgroup.pool.filled _ hsome, hw⟩
      rcases Nat.lt_or_eq_of_le hle with hlt | heq
      · have hnone : w.pool.slots st.committed = none := hnone
        rcases hgroup.pool.covered st.committed (Nat.le_refl _) hlt (by simp) with hfilled | hmem
        · simp [hnone] at hfilled
        · exact .inr (hgroup.inFlight ▸ hmem)
      · exact .inl heq
    refine .bind failing_stable hread fun slot => ?_
    cases slot with
    | none =>
      refine .pure ((hRead none).stable _) fun w hw => ?_
      exact ⟨st.committed, st.concluded, ⟨rfl, hle, hw.1 rfl⟩, hw.2.2⟩
    | some slot =>
      have hdrain : ∀ w, Read (some slot) w → w.Drainable := fun w hw => sched_drainable w hw.2.2
      refine .bind failing_stable (holds_finalized (hRead _) hdrain slot) fun result => ?_
      refine .strengthen (fun w hw => ⟨hw.2.1 rfl, hw.2.2⟩) (.assuming fun hlt => ?_)
      let st' : GroupState :=
        { st with concluded := st.concluded || result.concludesTurn, committed := st.committed + 1 }
      have hcommit : toolRules.Holds
          (Sched o group mode limit at_ st prepared st.started none inFlight)
          (appendToolResult at_ call.block result (st.callSeqs st.committed))
          (fun _ => Sched o group mode limit at_ st' prepared st.started none inFlight) Failing := by
        refine .exists fun gained => .assuming fun hlogged => ?_
        refine .weaken (holds_appendToolResult (tracks_inGroup ..) robust_drainable
          (tracks_inGroup ..).drainable gained at_ call result _) ?_
          fun _ _ h => h
        rintro _ w ⟨event, hresult, hgroup⟩
        exact ⟨_, hlogged.answer hlt hrest hresult _, hgroup.commit⟩
      refine .bind failing_stable hcommit fun _ => ?_
      refine .bind failing_stable (holds_acceptContexts robust_sched sched_drainable _) fun _ => ?_
      exact ih st' (take_succ_of_drop hrest).2.2 hlt hbound

/-! ### Starts -/

/-- The group once the call at `started` is logged under `seq`. -/
def GroupState.start (st : GroupState) (seq : Int) : GroupState :=
  { st with callSeqs := Function.update st.callSeqs st.started seq, started := st.started + 1 }

theorem Logged.start {event : SessionEvent}
    (h : Logged at_ group st gained) (hle : st.committed ≤ st.started)
    (hnext : group.drop st.started = call :: rest) (hcall : IsCall at_ call event) :
    Logged at_ group (st.start event.seq) (gained ++ [event]) := by
  obtain ⟨hlt, htake, -⟩ := take_succ_of_drop hnext
  have hseqs : (List.range (st.started + 1)).map (Function.update st.callSeqs st.started event.seq) =
      (List.range st.started).map st.callSeqs ++ [(event.seq : Int)] := by
    rw [range_succ, map_append]
    congr 1
    · refine map_congr_left fun i hi => ?_
      exact Function.update_of_ne (Nat.ne_of_lt (mem_range.mp hi)) _ _
    · simp
  unfold Logged GroupState.start
  rw [htake, hseqs]
  refine Schedules.starts h ?_ hcall
  simp only [length_take]
  omega

theorem InGroup.prepare
    (h : InGroup o group mode limit aborted prepared pooled committed exempt inFlight gained w)
    (hnext : group.drop prepared = call :: rest) :
    InGroup o group mode limit aborted (prepared + 1) pooled committed exempt inFlight gained
      ((LoopQuery.prepare call).record w) where
  reaches :=
    { h.reaches with
      prepared := by
        rw [(take_succ_of_drop hnext).2.1, ← append_assoc, ← h.reaches.prepared]
        rfl }
  aborted := h.aborted
  inFlight := h.inFlight
  pool := h.pool

theorem InGroup.dispatch
    (h : InGroup o group mode limit aborted prepared pooled committed none inFlight gained w)
    (hroom : inFlight.length < limit) (halone : mode = .exclusive → pooled = 0) :
    InGroup o group mode limit aborted prepared (pooled + 1) committed none (inFlight ++ [pooled])
      gained ((LoopWrite.dispatch pooled mode).apply w) where
  reaches := { h.reaches with }
  aborted := h.aborted
  inFlight := by
    rw [← h.inFlight]
    rfl
  pool := h.pool.dispatch (h.inFlight ▸ hroom) halone

theorem InGroup.setSlot
    (h : InGroup o group mode limit aborted prepared pooled committed none inFlight gained w)
    (halone : mode = .exclusive → pooled = 0) (slot : Slot) :
    InGroup o group mode limit aborted prepared (pooled + 1) committed none inFlight gained
      ((LoopWrite.setSlot pooled slot).apply w) where
  reaches := { h.reaches with }
  aborted := h.aborted
  inFlight := h.inFlight
  pool := h.pool.setSlot halone slot

theorem holds_startCall
    (hnext : group.drop st.started = call :: rest) (hle : st.committed ≤ st.started)
    (hroom : inFlight.length < limit) (halone : mode = .exclusive → st.started = 0) :
    toolRules.Holds (Sched o group mode limit at_ st st.started st.started none inFlight)
      (startCall at_ mode st.started call st)
      (fun st' w => ∃ seq inFlight', (st' = st.start seq ∧ inFlight'.length ≤ inFlight.length + 1) ∧
        Sched o group mode limit at_ (st.start seq) (st.started + 1) (st.started + 1) none inFlight' w)
      Failing := by
  have hcall : toolRules.Holds
      (Sched o group mode limit at_ st st.started st.started none inFlight)
      (appendToolCall at_ call.block)
      (fun seq => Sched o group mode limit at_ (st.start seq) st.started st.started none inFlight)
      Failing := by
    refine .exists fun gained => .assuming fun hlogged => ?_
    refine .weaken (holds_appendToolCall (tracks_inGroup ..) robust_drainable
      (tracks_inGroup ..).drainable gained at_ call) ?_ fun _ _ h => h
    rintro seq w ⟨event, ⟨hiscall, rfl⟩, hgroup⟩
    exact ⟨_, hlogged.start hle hnext hiscall, hgroup⟩
  refine .bind failing_stable hcall fun seq => ?_
  let Prepared (w : LoopWorld) : Prop :=
    Sched o group mode limit at_ (st.start seq) (st.started + 1) st.started none inFlight w
  have hprepare : toolRules.Holds (ε := Thrown)
      (Sched o group mode limit at_ (st.start seq) st.started st.started none inFlight)
      (ask (.prepare call)) (fun _ => Prepared) Failing := by
    refine .ask (robust_sched.stable _) (fun _ => robust_sched.stable _) fun w hw =>
      ⟨⟨(sched_drainable w hw).toExclusion, trivial⟩, ?_⟩
    intro reply x w' hperform
    obtain ⟨-, rfl⟩ := LoopWorld.perform_ask hperform
    obtain ⟨gained, hlogged, hgroup⟩ := hw
    exact ⟨gained, hlogged, hgroup.prepare hnext⟩
  have hanswer : toolRules.Holds
      (Sched o group mode limit at_ (st.start seq) st.started st.started none inFlight)
      (ask (.prepare call) >>= orThrow) (fun _ => Prepared) Failing :=
    .bind failing_stable hprepare (holds_orThrow_drainable robust_sched sched_drainable)
  refine .bind failing_stable hanswer fun preparation => ?_
  refine .bind failing_stable
    (holds_throwSchedulerFailure robust_sched robust_sched sched_drainable fun w hw _ => hw) fun _ => ?_
  let Pooled (inFlight' : List Nat) (w : LoopWorld) : Prop :=
    Sched o group mode limit at_ (st.start seq) (st.started + 1) (st.started + 1) none inFlight' w
  have hpooled : ∀ inFlight' : List Nat, inFlight'.length ≤ inFlight.length + 1 →
      toolRules.Holds (Pooled inFlight')
        (Pure.pure (st.start seq) : LoopCode GroupState)
        (fun st' w => ∃ seq inFlight', (st' = st.start seq ∧ inFlight'.length ≤ inFlight.length + 1) ∧
          Sched o group mode limit at_ (st.start seq) (st.started + 1) (st.started + 1) none
            inFlight' w) Failing :=
    fun inFlight' hlength => .pure (robust_sched.stable _) fun w hw =>
      ⟨seq, inFlight', ⟨rfl, hlength⟩, hw⟩
  cases preparation with
  | dispatch =>
    refine .bind failing_stable (holds_write robust_sched
      (robust_sched : Robust (Pooled (inFlight ++ [st.started]))) sched_drainable ?_)
      fun _ => hpooled _ (by simp)
    rintro w ⟨gained, hlogged, hgroup⟩
    exact ⟨gained, hlogged, hgroup.dispatch hroom halone⟩
  | postResult result =>
    refine .bind failing_stable (holds_write robust_sched
      (robust_sched : Robust (Pooled inFlight)) sched_drainable ?_) fun _ => hpooled _ (by omega)
    rintro w ⟨gained, hlogged, hgroup⟩
    exact ⟨gained, hlogged, hgroup.setSlot halone _⟩
  | finalResult result =>
    refine .bind failing_stable (holds_write robust_sched
      (robust_sched : Robust (Pooled inFlight)) sched_drainable ?_) fun _ => hpooled _ (by omega)
    rintro w ⟨gained, hlogged, hgroup⟩
    exact ⟨gained, hlogged, hgroup.setSlot halone _⟩

/-! ### The loops -/

/-- The state of a group at the head of its loops: nothing is half done, and what is not
committed waits for a call in flight. -/
structure AtHead (group : List PlannedCall) (st : GroupState) (inFlight : List Nat) : Prop where
  next : st.nextToStart = st.started
  bound : st.started ≤ group.length
  committed : st.committed ≤ st.started
  waiting : st.committed = st.started ∨ st.committed ∈ inFlight

/-- How often a group can still race. -/
def races (group : List PlannedCall) (st : GroupState) (inFlight : List Nat) : Nat :=
  inFlight.length + (group.length - st.started)

variable (o group mode limit at_) in
/-- The world of a group at the head of its loops. -/
def Standing (st : GroupState) (inFlight : List Nat) (w : LoopWorld) : Prop :=
  AtHead group st inFlight ∧ Sched o group mode limit at_ st st.started st.started none inFlight w

theorem robust_standing : Robust (Standing o group mode limit at_ st inFlight) :=
  (Robust.const _).and robust_sched

theorem holds_formsBarrier (hA : Robust A)
    (hdrain : ∀ w, A w → w.Drainable) (call : PlannedCall) (st : GroupState) :
    toolRules.Holds A (formsBarrier mode call st)
      (fun barrier w => (barrier = true → 0 < st.nextToStart) ∧ A w) Failing := by
  have hC : ∀ barrier : Bool, Robust fun w => (barrier = true → 0 < st.nextToStart) ∧ A w :=
    fun _ => (Robust.const _).and hA
  unfold formsBarrier
  split
  · rename_i hcondition
    have hnext : 0 < st.nextToStart := by
      simp only [Bool.and_eq_true, decide_eq_true_eq] at hcondition
      exact hcondition.1
    refine .bind failing_stable (holds_quiet rfl (by simp) hA hdrain) fun mode' => ?_
    exact .pure (hA.stable _) fun w hw => ⟨fun _ => hnext, hw⟩
  · exact .pure (hA.stable _) fun w hw => ⟨by simp, hw⟩

/-- Reading the signal after a commit: the group is aborted once the signal is. -/
theorem holds_readAborted {E : Thrown → LoopWorld → Prop} :
    toolRules.Holds (Sched o group mode limit at_ st prepared pooled exempt inFlight)
      (read .reason)
      (fun reason => Sched o group mode limit at_
        { st with aborted := st.aborted || reason.isSome } prepared pooled exempt inFlight)
      E := by
  refine holds_read robust_sched (fun _ => robust_sched) sched_drainable fun w hw => ?_
  obtain ⟨gained, hlogged, hgroup⟩ := hw
  refine ⟨gained, hlogged, { hgroup with aborted := fun haborted => ?_ }⟩
  rcases Bool.or_eq_true_iff.mp haborted with haborted | hreason
  · exact hgroup.aborted haborted
  · exact hreason

/-- A group starts more calls, and stays aborted. -/
structure Onward (st st' : GroupState) : Prop where
  started : st.started ≤ st'.started
  aborted : st.aborted = true → st'.aborted = true

theorem Onward.refl (st : GroupState) : Onward st st := ⟨Nat.le_refl _, id⟩

theorem Onward.trans {st st' st'' : GroupState} (h : Onward st st') (h' : Onward st' st'') :
    Onward st st'' :=
  ⟨h.started.trans h'.started, h'.aborted ∘ h.aborted⟩

/-- What a refill of the pool leads to. -/
def Filled (o : Origin) (group : List PlannedCall) (mode : ToolExecutionMode) (limit : Nat)
    (at_ : StepPosition) (st : GroupState) (inFlight : List Nat) (st' : GroupState)
    (w : LoopWorld) : Prop :=
  ∃ inFlight', (races group st' inFlight' ≤ races group st inFlight ∧ Onward st st' ∧
      (st.aborted = false → st.started = 0 → inFlight.length < limit → 0 < group.length →
        0 < st'.started)) ∧
    Standing o group mode limit at_ st' inFlight' w

theorem Filled.trans {st' st'' : GroupState} {inFlight' : List Nat}
    (hraces : races group st' inFlight' ≤ races group st inFlight) (honward : Onward st st')
    (hstarted : 0 < st'.started) (h : Filled o group mode limit at_ st' inFlight' st'' w) :
    Filled o group mode limit at_ st inFlight st'' w := by
  obtain ⟨inFlight'', ⟨hraces', honward', -⟩, hw⟩ := h
  refine ⟨inFlight'', ⟨hraces'.trans hraces, honward.trans honward', fun _ _ _ _ => ?_⟩, hw⟩
  exact hstarted.trans_le honward'.started

theorem holds_fillPool (halone : mode = .exclusive → group.length ≤ 1) (rest : List PlannedCall)
    (st : GroupState) (inFlight : List Nat) (hrest : group.drop st.nextToStart = rest) :
    toolRules.Holds (Standing o group mode limit at_ st inFlight)
      (fillPool at_ mode limit group rest st) (Filled o group mode limit at_ st inFlight) Failing := by
  induction rest generalizing st inFlight with
  | nil =>
    refine .pure (robust_standing.stable _) fun w hw => ?_
    have hend : group.length ≤ st.started := by
      rw [← hw.1.next]
      exact drop_eq_nil_iff.mp hrest
    exact ⟨inFlight, ⟨Nat.le_refl _, .refl st, fun _ _ _ hpos => by omega⟩, hw⟩
  | cons call rest ih =>
    refine .assuming fun hhead => ?_
    have hstay : ∀ {A : LoopWorld → Prop}, Robust A →
        (∀ w, A w → Sched o group mode limit at_ st st.started st.started none inFlight w) →
        (st.aborted = false → st.started = 0 → ¬ inFlight.length < limit) →
        toolRules.Holds A (Pure.pure st : LoopCode GroupState)
          (Filled o group mode limit at_ st inFlight) Failing :=
      fun hA hsched hstop => .pure (hA.stable _) fun w hw =>
        ⟨inFlight, ⟨Nat.le_refl _, .refl st, fun ha hz hroom _ => absurd hroom (hstop ha hz)⟩,
          hhead, hsched w hw⟩
    unfold fillPool
    cases haborted : st.aborted with
    | true => exact hstay robust_sched (fun _ hw => hw) (by simp [haborted])
    | false =>
      simp only [Bool.false_eq_true, if_false]
      have hsize : toolRules.Holds (ε := Thrown)
          (Sched o group mode limit at_ st st.started st.started none inFlight) (read .inFlightSize)
          (fun size w => size = inFlight.length ∧
            Sched o group mode limit at_ st st.started st.started none inFlight w) Failing := by
        refine holds_read robust_sched (fun _ => (Robust.const _).and robust_sched) sched_drainable ?_
        rintro w ⟨gained, hlogged, hgroup⟩
        exact ⟨congrArg List.length hgroup.inFlight, gained, hlogged, hgroup⟩
      refine .bind failing_stable hsize fun size => .assuming ?_
      rintro rfl
      by_cases hroom : inFlight.length < limit
      · rw [if_pos hroom]
        refine .bind failing_stable (holds_formsBarrier robust_sched sched_drainable call st)
          fun barrier => ?_
        cases barrier with
        | true =>
          refine .assuming fun hbarrier => hstay robust_sched (fun _ hw => hw) fun _ hzero => ?_
          have hpos := hbarrier rfl
          rw [hhead.next, hzero] at hpos
          exact absurd hpos (Nat.lt_irrefl 0)
        | false =>
          rw [hhead.next] at hrest ⊢
          obtain ⟨hlt, -, hdrop⟩ := take_succ_of_drop hrest
          refine .strengthen (fun w hw => hw.2) ?_
          refine .bind failing_stable (holds_startCall hrest hhead.committed hroom
            fun hexclusive => by have := halone hexclusive; omega) fun st₁ => ?_
          refine .exists fun seq => .exists fun inFlight₁ => .assuming ?_
          rintro ⟨rfl, hlength⟩
          let st₂ : GroupState := { st.start seq with nextToStart := (st.start seq).nextToStart + 1 }
          refine .bind failing_stable
            (holds_throwSchedulerFailure (B := Sched o group mode limit at_ st₂ st₂.started
              st₂.started none inFlight₁) robust_sched robust_sched sched_drainable fun w hw _ => hw)
            fun _ => ?_
          refine .bind failing_stable (holds_commitReady _ st₂ rfl
            (Nat.le_succ_of_le hhead.committed) hlt) fun st₃ => ?_
          refine .exists fun c => .exists fun concluded => .assuming ?_
          rintro ⟨rfl, hc, hwaiting⟩
          refine .bind failing_stable
            (holds_throwSchedulerFailure robust_sched robust_sched sched_drainable fun w hw _ => hw)
            fun _ => ?_
          refine .bind failing_stable holds_readAborted fun reason => ?_
          have hfinal := ih { st₂ with
              committed := c, concluded, aborted := st₂.aborted || reason.isSome } inFlight₁
            (by show group.drop (st.nextToStart + 1) = rest; rw [hhead.next]; exact hdrop)
          refine .strengthen (fun w hw => ⟨⟨?_, hlt, hc, hwaiting⟩, hw⟩)
            (.weaken hfinal (fun st' w hw => .trans ?_ ⟨Nat.le_succ _, ?_⟩ (Nat.succ_pos _) hw)
              fun _ _ h => h)
          · show inFlight₁.length + (group.length - (st.started + 1)) ≤ _
            unfold races
            omega
          · intro haborted
            exact Bool.or_eq_true_iff.mpr (.inl haborted)
          · show st.nextToStart + 1 = st.started + 1
            rw [hhead.next]
      · rw [if_neg hroom]
        exact hstay robust_sched (fun _ hw => hw) fun _ _ => hroom

end Group

end ToolCalls
end Harness
