-- SUMMARY: Every message's tool calls are run to their end: one call and one result per position, in order, within the pool.
import Harness.AgentLoop.ToolCallsOrder

namespace Harness

open List
namespace ToolCalls

open LoopCode Rules

/-- Nothing of the pool is left running. -/
abbrev Settled (w : LoopWorld) : Prop := w.running = []

theorem robust_settled : Robust Settled where
  aside hw haside := haside.running.trans hw
  settle {w} hw index outcome := by
    rcases w.settle_cases index outcome with heq | ⟨-, ⟨slot, heq⟩ | ⟨error, heq⟩⟩ <;> rw [heq]
    · exact hw
    all_goals exact congrArg (List.filter _) hw

theorem settled_drainable (w : LoopWorld) (h : Settled w) : w.Drainable where
  limit := by simp [h]
  exclusive := by simp [h]
  inFlight := by simp [h]

/-! ## The end of a group -/

section Group

variable {o : Origin} {group : List PlannedCall} {mode : ToolExecutionMode} {limit : Nat}
  {at_ : StepPosition} {st : GroupState} {inFlight : List Nat} {w : LoopWorld}

/-- A race was won by the call at `index`. -/
def Raced (A : LoopWorld → Prop) (inFlight : List Nat) (index : Nat) (w : LoopWorld) : Prop :=
  (index ∈ inFlight ∧ A w) ∧ index ∉ w.running.map Prod.fst

theorem robust_raced {A : LoopWorld → Prop} (hA : Robust A) (index : Nat) :
    Robust (Raced A inFlight index) where
  aside hw haside := ⟨⟨hw.1.1, hA.aside hw.1.2 haside⟩, by rw [haside.running]; exact hw.2⟩
  settle {w} hw i outcome := by
    refine ⟨⟨hw.1.1, hA.settle hw.1.2 i outcome⟩, fun hmem => hw.2 ?_⟩
    rcases w.settle_cases i outcome with heq | ⟨-, ⟨slot, heq⟩ | ⟨error, heq⟩⟩ <;>
      rw [heq] at hmem
    · exact hmem
    all_goals exact (w.filter_sublist i).subset hmem

theorem holds_race {A : LoopWorld → Prop} (hA : Robust A) (hdrain : ∀ w, A w → w.Drainable)
    (hkeys : ∀ w, A w → w.pool.inFlight = inFlight) (hpos : 0 < inFlight.length) :
    toolRules.Holds (ε := Thrown) A (ask .race) (Raced A inFlight) Failing := by
  refine .ask (hA.stable _) (fun index => (robust_raced hA index).stable _) fun w hw =>
    ⟨⟨(hdrain w hw).toExclusion, ?_⟩, ?_⟩
  · show w.pool.inFlight ≠ []
    rw [hkeys w hw]
    exact ne_nil_of_length_pos hpos
  intro reply index w' hperform
  obtain ⟨hdecode, rfl⟩ := LoopWorld.perform_ask hperform
  cases reply with
  | number n =>
    simp only [LoopQuery.decode, Option.ite_none_right_eq_some, Option.some.injEq] at hdecode
    obtain ⟨⟨hmem, hnot⟩, rfl⟩ := hdecode
    refine ⟨⟨hkeys _ hw ▸ hmem, hw⟩, fun hrun => ?_⟩
    simp [LoopWorld.isRunning_iff.mpr hrun] at hnot
  | _ => simp [LoopQuery.decode] at hdecode

theorem InGroup.raced {aborted : Bool} {prepared pooled committed index : Nat}
    {gained : List SessionEvent}
    (h : InGroup o group mode limit aborted prepared pooled committed none inFlight gained w)
    (hmem : index ∈ inFlight) (hnot : index ∉ w.running.map Prod.fst) :
    InGroup o group mode limit aborted prepared pooled committed (some index)
      (inFlight.erase index) gained ((LoopWrite.deleteInFlight index).apply w) where
  reaches := { h.reaches with }
  aborted := h.aborted
  inFlight := by
    rw [← h.inFlight]
    rfl
  pool := h.pool.deleteInFlight (h.inFlight ▸ hmem) hnot

theorem Sched.checked {prepared pooled : Nat} {exempt : Option Nat}
    (h : Sched o group mode limit at_ st prepared pooled exempt inFlight w)
    (hfailure : w.pool.schedulerFailure = none) :
    Sched o group mode limit at_ st prepared pooled none inFlight w := by
  obtain ⟨gained, hlogged, hgroup⟩ := h
  exact ⟨gained, hlogged, { hgroup with pool := hgroup.pool.checked hfailure }⟩

def Drained (o : Origin) (group : List PlannedCall) (mode : ToolExecutionMode) (limit : Nat)
    (at_ : StepPosition) (before st : GroupState) (w : LoopWorld) : Prop :=
  Onward before st ∧ Standing o group mode limit at_ st [] w

theorem holds_drain (halone : mode = .exclusive → group.length ≤ 1) (fuel : Nat) (st : GroupState)
    (inFlight : List Nat) (hfuel : races group st inFlight < fuel) :
    toolRules.Holds (Standing o group mode limit at_ st inFlight)
      (drain at_ mode limit group fuel st) (Drained o group mode limit at_ st) Failing := by
  induction fuel generalizing st inFlight with
  | zero => exact absurd hfuel (Nat.not_lt_zero _)
  | succ fuel ih =>
    refine .assuming fun hhead => ?_
    let Here (st : GroupState) (exempt : Option Nat) (inFlight : List Nat) : LoopWorld → Prop :=
      Sched o group mode limit at_ st st.started st.started exempt inFlight
    have hsize : toolRules.Holds (ε := Thrown) (Here st none inFlight) (read .inFlightSize)
        (fun size w => size = inFlight.length ∧ Here st none inFlight w) Failing := by
      refine holds_read robust_sched (fun _ => (Robust.const _).and robust_sched) sched_drainable ?_
      rintro w ⟨gained, hlogged, hgroup⟩
      exact ⟨congrArg List.length hgroup.inFlight, gained, hlogged, hgroup⟩
    refine .bind failing_stable hsize fun size => .assuming ?_
    rintro rfl
    by_cases hpos : inFlight.length > 0
    · rw [if_pos hpos]
      refine .bind failing_stable (holds_race robust_sched sched_drainable ?_ hpos) fun index => ?_
      · rintro w ⟨gained, -, hgroup⟩
        exact hgroup.inFlight
      have hdelete : toolRules.Holds (ε := Thrown) (Raced (Here st none inFlight) inFlight index)
          (write (.deleteInFlight index))
          (fun _ w => index ∈ inFlight ∧ Here st (some index) (inFlight.erase index) w) Failing := by
        refine holds_write (robust_raced robust_sched index) ((Robust.const _).and robust_sched)
          (fun w hw => sched_drainable w hw.1.2) ?_
        rintro w ⟨⟨hmem, gained, hlogged, hgroup⟩, hnot⟩
        exact ⟨hmem, gained, hlogged, hgroup.raced hmem hnot⟩
      refine .bind failing_stable hdelete fun _ => .assuming fun hmem => ?_
      refine .bind failing_stable (holds_throwSchedulerFailure robust_sched
        (B := Here st none (inFlight.erase index)) robust_sched sched_drainable
        fun w hw hfailure => hw.checked hfailure) fun _ => ?_
      refine .bind failing_stable (holds_commitReady _ st rfl hhead.committed hhead.bound)
        fun st₁ => ?_
      refine .exists fun c => .exists fun concluded => .assuming ?_
      rintro ⟨rfl, hc, hwaiting⟩
      refine .bind failing_stable
        (holds_throwSchedulerFailure robust_sched robust_sched sched_drainable fun w hw _ => hw)
        fun _ => ?_
      refine .bind failing_stable holds_readAborted fun reason => ?_
      let st₂ : GroupState :=
        { st with committed := c, concluded, aborted := st.aborted || reason.isSome }
      have hraces : races group st₂ (inFlight.erase index) < races group st inFlight := by
        show (inFlight.erase index).length + _ < inFlight.length + _
        rw [length_erase_of_mem hmem]
        exact Nat.add_lt_add_right (by omega) _
      have hfill : toolRules.Holds (Standing o group mode limit at_ st₂ (inFlight.erase index))
          (fillPool at_ mode limit group (group.drop st₂.nextToStart) st₂)
          (Filled o group mode limit at_ st₂ (inFlight.erase index)) Failing :=
        holds_fillPool halone _ st₂ (inFlight.erase index) rfl
      refine .bind failing_stable (.strengthen (fun w hw => ⟨⟨hhead.next, hhead.bound, hc, hwaiting⟩, hw⟩)
        hfill) fun st₃ => ?_
      refine .exists fun inFlight₃ => .assuming ?_
      rintro ⟨hraces₃, honward, -⟩
      refine .weaken (ih st₃ inFlight₃ (by omega)) (fun st' w hw => ?_) fun _ _ h => h
      have haborts : Onward st st₂ := ⟨Nat.le_refl _, fun h => Bool.or_eq_true_iff.mpr (.inl h)⟩
      exact ⟨(haborts.trans honward).trans hw.1, hw.2⟩
    · rw [if_neg hpos]
      obtain rfl : inFlight = [] := eq_nil_of_length_eq_zero (by omega)
      exact .pure (robust_sched.stable _) fun w hw => ⟨.refl st, hhead, hw⟩

theorem Drainable.settled {w : LoopWorld} (h : w.Drainable)
    (hall : w.pool.inFlight.all (!w.isRunning ·) = true) : Settled w := by
  refine eq_nil_iff_forall_not_mem.mpr fun call hcall => ?_
  have hkey : call.1 ∈ w.running.map Prod.fst := mem_map_of_mem hcall
  have hnot := all_eq_true.mp hall call.1 (h.inFlight.subset hkey)
  simp [LoopWorld.isRunning_iff.mpr hkey] at hnot

/-- Whatever was thrown first, every started dispatch has settled before it is thrown on. -/
theorem holds_drainFailure {Q : GroupState → LoopWorld → Prop} (error : Thrown) :
    toolRules.Holds LoopWorld.Drainable (drainFailure error) Q (fun _ => Settled) := by
  let Failed (w : LoopWorld) : Prop := w.pool.schedulerFailure.isSome
  have hfailed : Robust Failed :=
    { aside := fun hw haside => by
        show (LoopWorld.pool _).schedulerFailure.isSome
        rw [haside.pool]
        exact hw
      settle := fun {w} hw index outcome => by
        rcases w.settle_cases index outcome with heq | ⟨-, ⟨slot, heq⟩ | ⟨error, heq⟩⟩ <;>
          show (LoopWorld.pool _).schedulerFailure.isSome <;> rw [heq]
        · exact hw
        · exact hw
        · exact w.pool.fail_schedulerFailure_isSome error }
  have hE : ∀ _ : Thrown, toolRules.Stable Settled := fun _ => robust_settled.stable _
  have hfail : toolRules.Holds (ε := Thrown) LoopWorld.Drainable (write (.failScheduler error))
      (fun _ w => w.Drainable ∧ Failed w) (fun _ => Settled) := by
    refine holds_write robust_drainable (robust_drainable.and hfailed) (fun _ => id) fun w hw => ?_
    exact ⟨⟨⟨hw.limit, hw.exclusive⟩, hw.inFlight⟩, w.pool.fail_schedulerFailure_isSome error⟩
  refine .bind hE hfail fun _ => ?_
  have hsettled : toolRules.Holds (ε := Thrown) (fun w => w.Drainable ∧ Failed w) (ask .allSettled)
      (fun _ w => Settled w ∧ Failed w) (fun _ => Settled) := by
    refine .ask ((robust_drainable.and hfailed).stable _)
      (fun _ => (robust_settled.and hfailed).stable _) fun w hw => ⟨⟨hw.1.toExclusion, trivial⟩, ?_⟩
    intro reply x w' hperform
    obtain ⟨hdecode, rfl⟩ := LoopWorld.perform_ask hperform
    cases reply with
    | done =>
      simp only [LoopQuery.decode, Option.ite_none_right_eq_some] at hdecode
      exact ⟨Drainable.settled hw.1 hdecode.1, hw.2⟩
    | _ => simp [LoopQuery.decode] at hdecode
  refine .bind hE hsettled fun _ => ?_
  have hread : toolRules.Holds (ε := Thrown) (fun w => Settled w ∧ Failed w) (read .schedulerFailure)
      (fun failure w => failure.isSome ∧ Settled w) (fun _ => Settled) :=
    holds_read (robust_settled.and hfailed) (fun _ => (Robust.const _).and robust_settled)
      (fun w hw => settled_drainable w hw.1) fun w hw => ⟨hw.2, hw.1⟩
  refine .bind hE hread fun failure => .assuming fun hsome => ?_
  cases failure with
  | none => cases hsome
  | some error => exact .throw (robust_settled.stable _) fun w hw => hw

end Group

/-! ## Skipped calls -/

theorem holds_appendSkippedToolCalls {F : List SessionEvent → LoopWorld → Prop} (hF : Tracks F)
    (hFD : ∀ gained w, F gained w → Settled w) (at_ : StepPosition) (gained : List SessionEvent)
    (calls : List PlannedCall) :
    toolRules.Holds (F gained) (appendSkippedToolCalls at_ calls)
      (fun _ w => ∃ skipped, Skips at_ calls skipped ∧ F (gained ++ skipped) w)
      (fun _ => Settled) := by
  have hE : ∀ _ : Thrown, toolRules.Stable Settled := fun _ => robust_settled.stable _
  induction calls generalizing gained with
  | nil =>
    refine .pure ((hF.robust _).stable _) fun w hw => ⟨[], .nil, ?_⟩
    rwa [append_nil]
  | cons call rest ih =>
    have hpair : toolRules.Holds (F gained) (appendSkippedToolCall at_ call.block)
        (fun _ w => ∃ first second, (IsCall at_ call first ∧
            IsResult at_ call skippedResult first.seq second) ∧ F (gained ++ [first, second]) w)
        (fun _ => Settled) := by
      refine .bind hE (holds_appendToolCall hF robust_settled hFD gained at_ call) fun seq => ?_
      refine .exists fun first => .assuming ?_
      rintro ⟨hcall, rfl⟩
      refine .weaken (holds_appendToolResult hF robust_settled hFD _ at_ call skippedResult _) ?_
        fun _ _ h => h
      rintro _ w ⟨second, hresult, hw⟩
      refine ⟨first, second, ⟨hcall, hresult⟩, ?_⟩
      rwa [append_assoc] at hw
    refine .bind hE hpair fun _ => ?_
    refine .exists fun first => .exists fun second => .assuming ?_
    rintro ⟨hcall, hresult⟩
    refine .weaken (ih (gained ++ [first, second])) ?_ fun _ _ h => h
    rintro _ w ⟨skipped, hskips, hw⟩
    refine ⟨first :: second :: skipped, .cons hcall hresult hskips, ?_⟩
    rwa [append_assoc] at hw

/-! ## Groups -/

/-- The calls of `calls` are executed up to `k` and skipped from there on. -/
structure Handled (o : Origin) (at_ : StepPosition) (calls : List PlannedCall) (k : Nat)
    (executed skipped : List SessionEvent) (w : LoopWorld) : Prop where
  bound : k ≤ calls.length
  completes : Completes at_ (calls.take k) executed
  skips : Skips at_ (calls.drop k) skipped
  reaches : o.Reaches (executed ++ skipped) (calls.take k) w
  aborted : k < calls.length → w.phase.reason.isSome
  settled : Settled w

variable {o : Origin} {at_ : StepPosition} {calls : List PlannedCall} {w w' : LoopWorld}

/-- Where the driver stands before a group. -/
def Starting (o : Origin) (w : LoopWorld) : Prop := o.Reaches [] [] w ∧ Settled w

theorem robust_starting (o : Origin) : Robust (Starting o) := (robust_reaches o [] []).and robust_settled

/-- The world of the group's end, or of the abort of all that is left. -/
def Ending (o : Origin) (gained : List SessionEvent) (done : List PlannedCall) (aborted : Bool)
    (extra : List SessionEvent) (w : LoopWorld) : Prop :=
  (o.Reaches (gained ++ extra) done w ∧ (aborted = true → w.phase.reason.isSome)) ∧ Settled w

theorem tracks_ending (o : Origin) (gained : List SessionEvent) (done : List PlannedCall)
    (aborted : Bool) : Tracks (Ending o gained done aborted) where
  robust extra :=
    { aside := fun hw haside => ⟨⟨hw.1.1.undisturbed haside.toUndisturbed, fun ha =>
        haside.reason hw.1.1.position (hw.1.2 ha)⟩, robust_settled.aside hw.2 haside⟩
      settle := fun {w} hw index outcome =>
        ⟨⟨hw.1.1.undisturbed (w.react_undisturbed (.settle index outcome)), fun ha =>
          (w.react_undisturbed (.settle index outcome)).reason hw.1.1.position (hw.1.2 ha)⟩,
          robust_settled.settle hw.2 index outcome⟩ }
  drainable _ w hw := settled_drainable w hw.2
  append := by
    intro extra w w' request event hw happend
    obtain ⟨-, -, -, heq⟩ := LoopWorld.append_ok happend
    refine ⟨⟨?_, ?_⟩, ?_⟩
    · rw [← append_assoc]
      exact hw.1.1.append happend
    · rw [heq]
      exact hw.1.2
    · rw [heq]
      exact hw.2

/-- A group that has drained has one result per started call. -/
theorem Standing.ending {group : List PlannedCall} {mode : ToolExecutionMode} {limit : Nat}
    {st : GroupState} (h : Standing o group mode limit at_ st [] w) :
    (st.committed = st.started ∧ st.started ≤ group.length) ∧
      ∃ executed, Completes at_ (group.take st.started) executed ∧
        Ending o executed (group.take st.started) st.aborted [] w := by
  obtain ⟨hhead, gained, hlogged, hgroup⟩ := h
  have hdone : st.committed = st.started := hhead.waiting.resolve_right (by simp)
  unfold Logged at hlogged
  rw [hdone] at hlogged
  refine ⟨⟨hdone, hhead.bound⟩, gained, ⟨_, hlogged⟩,
    ⟨by rw [append_nil]; exact hgroup.reaches, hgroup.aborted⟩, ?_⟩
  have hempty := hgroup.pool.inFlight
  rw [hgroup.inFlight] at hempty
  exact map_eq_nil_iff.mp (sublist_nil.mp hempty)

/-- What `runGroup` leaves: the calls it executed are consumed, or the signal has aborted
and the calls it did not start are skipped. -/
def Grouped (o : Origin) (at_ : StepPosition) (group : List PlannedCall) (outcome : GroupOutcome)
    (w : LoopWorld) : Prop :=
  if outcome.aborted then
    ∃ k executed skipped, (outcome.consumed = group.length ∧ k ≤ group.length ∧
        Completes at_ (group.take k) executed ∧ Skips at_ (group.drop k) skipped) ∧
      Ending o executed (group.take k) true skipped w
  else
    ∃ executed, (0 < outcome.consumed ∧ outcome.consumed ≤ group.length ∧
        Completes at_ (group.take outcome.consumed) executed) ∧
      Ending o executed (group.take outcome.consumed) false [] w

variable {group : List PlannedCall} {mode : ToolExecutionMode} {limit : Nat}

theorem Starting.open (h : Starting o w) (group : List PlannedCall) (mode : ToolExecutionMode)
    (limit : Nat) (at_ : StepPosition) :
    Sched o group mode limit at_ (.init false) 0 0 none [] ((LoopWrite.openPool limit).apply w) := by
  refine ⟨[], .nil, { h.1 with }, fun h => (Bool.false_ne_true h).elim, rfl, ?_⟩
  show PoolInv mode limit 0 0 none _ w.running
  rw [h.2]
  exact .open mode limit

/-- The body of the `try`. -/
theorem holds_scheduled (halone : mode = .exclusive → group.length ≤ 1) (hpos : 0 < group.length)
    (hlimit : 0 < limit) (aborted : Bool) :
    toolRules.Holds (Sched o group mode limit at_ (.init aborted) 0 0 none [])
      (do
        let st ← fillPool at_ mode limit group group (.init aborted)
        drain at_ mode limit group (group.length + 1) st)
      (fun st w => (st.aborted = false → 0 < st.started) ∧ Standing o group mode limit at_ st [] w)
      Failing := by
  have hfill : toolRules.Holds (Sched o group mode limit at_ (.init aborted) 0 0 none [])
      (fillPool at_ mode limit group group (.init aborted))
      (Filled o group mode limit at_ (.init aborted) []) Failing := by
    refine .strengthen (fun w hw => ⟨⟨rfl, Nat.zero_le _, Nat.le_refl _, .inl rfl⟩, hw⟩)
      (holds_fillPool halone group _ [] rfl)
  refine .bind failing_stable hfill fun st => .exists fun inFlight => .assuming ?_
  rintro ⟨hraces, honward, hstarted⟩
  have hfuel : races group st inFlight < group.length + 1 := by
    have : races group (.init aborted) [] = group.length := by simp [races, GroupState.init]
    omega
  refine .weaken (holds_drain halone _ st inFlight hfuel) (fun st' w hw => ?_) fun _ _ h => h
  refine ⟨fun hlive => ?_, hw.2⟩
  have hinit : aborted = false := by
    cases aborted with
    | false => rfl
    | true => exact ((honward.trans hw.1).aborted rfl).symm.trans hlive
  exact (hstarted hinit rfl hlimit hpos).trans_le hw.1.started

theorem holds_runGroup (halone : mode = .exclusive → group.length ≤ 1) (hpos : 0 < group.length) :
    toolRules.Holds (Starting o) (runGroup at_ group mode) (Grouped o at_ group)
      (fun _ => Settled) := by
  have hE : ∀ _ : Thrown, toolRules.Stable Settled := fun _ => robust_settled.stable _
  have hlimit : toolRules.Holds (ε := Thrown) (Starting o) (ask .maxParallelToolCalls)
      (fun limit w => 0 < limit ∧ Starting o w) (fun _ => Settled) := by
    refine .ask ((robust_starting o).stable _)
      (fun _ => ((Robust.const _).and (robust_starting o)).stable _) fun w hw =>
        ⟨⟨(settled_drainable w hw.2).toExclusion, trivial⟩, ?_⟩
    intro reply limit w' hperform
    obtain ⟨hdecode, rfl⟩ := LoopWorld.perform_ask hperform
    cases reply with
    | number n =>
      simp only [LoopQuery.decode, Option.ite_none_right_eq_some, Option.some.injEq] at hdecode
      obtain ⟨hn, rfl⟩ := hdecode
      exact ⟨hn, hw⟩
    | _ => simp [LoopQuery.decode] at hdecode
  refine .bind hE hlimit fun limit => .assuming fun hlimit => ?_
  have hopen : toolRules.Holds (ε := Thrown) (Starting o) (write (.openPool limit))
      (fun _ => Sched o group mode limit at_ (.init false) 0 0 none []) (fun _ => Settled) := by
    exact holds_write (robust_starting o) robust_sched (fun w hw => settled_drainable w hw.2)
      fun w hw => hw.open group mode limit at_
  refine .bind hE hopen fun _ => ?_
  refine .bind hE holds_readAborted fun reason => ?_
  let Body (st : GroupState) (w : LoopWorld) : Prop :=
    (st.aborted = false → 0 < st.started) ∧ Standing o group mode limit at_ st [] w
  refine .bind (C := Body) hE (.settle (holds_scheduled halone hpos hlimit reason.isSome)
    (fun st => ?_) holds_drainFailure) fun st => ?_
  · exact .pure (((Robust.const _).and robust_standing).stable _) fun w hw => hw
  refine .assuming fun hstarted => .strengthen (fun w hw => hw.ending) (.assuming ?_)
  rintro ⟨hdone, hbound⟩
  refine .exists fun executed => .assuming fun hcompletes => ?_
  have hending : Tracks (Ending o executed (group.take st.started) st.aborted) := tracks_ending ..
  cases haborted : st.aborted with
  | true =>
    rw [if_pos rfl]
    rw [haborted] at hending
    refine .bind hE (holds_appendSkippedToolCalls hending (fun _ _ hw => hw.2) at_ [] _) fun _ => ?_
    refine .pure ((Robust.exists fun skipped => (Robust.const _).and
      (hending.robust _)).stable _) ?_
    rintro w ⟨skipped, hskips, hw⟩
    exact ⟨st.started, executed, skipped, ⟨rfl, hbound, hcompletes, hskips⟩, hw⟩
  | false =>
    rw [haborted] at hending
    simp only [Bool.false_eq_true, if_false, hdone, ne_eq, not_true_eq_false]
    refine .pure ((hending.robust _).stable _) fun w hw => ?_
    exact ⟨executed, ⟨hstarted haborted, hbound, hcompletes⟩, hw⟩

/-! ## All groups -/

/-- A later origin of the same run. -/
structure Origin.Leads (o : Origin) (gained : List SessionEvent) (done : List PlannedCall)
    (o' : Origin) : Prop where
  own : o'.own = o.own ++ gained
  log : ∃ more, o'.events = o.events ++ more ∧ gained.Sublist more
  prepared : o'.prepared = o.prepared ++ done

theorem Origin.Reaches.leads {gained : List SessionEvent} {done : List PlannedCall}
    (h : o.Reaches gained done w) : ∃ o', o.Leads gained done o' ∧ o'.Reaches [] [] w :=
  ⟨⟨w.own, w.events, w.prepared⟩, ⟨h.own, h.log, h.prepared⟩,
    ⟨h.position, by simp, ⟨[], by simp, .slnil⟩, by simp⟩⟩

theorem Origin.Leads.reaches {o' : Origin} {gained gained' : List SessionEvent}
    {done done' : List PlannedCall} (h : o.Leads gained done o') (h' : o'.Reaches gained' done' w) :
    o.Reaches (gained ++ gained') (done ++ done') w where
  position := h'.position
  own := by rw [h'.own, h.own, append_assoc]
  log := by
    obtain ⟨more, hmore, hsub⟩ := h.log
    obtain ⟨more', hmore', hsub'⟩ := h'.log
    exact ⟨more ++ more', by rw [hmore', hmore, append_assoc], hsub.append hsub'⟩
  prepared := by rw [h'.prepared, h.prepared, append_assoc]

theorem Handled.after {o' : Origin} {k k' : Nat} {gained executed skipped : List SessionEvent}
    (hk : k ≤ calls.length) (hgained : Completes at_ (calls.take k) gained)
    (hleads : o.Leads gained (calls.take k) o')
    (h : Handled o' at_ (calls.drop k) k' executed skipped w) :
    Handled o at_ calls (k + k') (gained ++ executed) skipped w := by
  have hlength : (calls.drop k).length = calls.length - k := length_drop
  have hbound := h.bound
  refine ⟨by omega, ?_, ?_, ?_, fun hlt => h.aborted (by omega), h.settled⟩
  · rw [take_add]
    exact hgained.append h.completes
  · rw [← drop_drop]
    exact h.skips
  · rw [take_add, append_assoc]
    exact hleads.reaches h.reaches

/-- An aborted group, and the calls after it. -/
theorem Ending.handled {n k : Nat} {executed skipped skipped' : List SessionEvent}
    (hk : k ≤ (calls.take n).length) (hcompletes : Completes at_ ((calls.take n).take k) executed)
    (hskips : Skips at_ ((calls.take n).drop k) skipped) (hskips' : Skips at_ (calls.drop n) skipped')
    (h : Ending o executed ((calls.take n).take k) true (skipped ++ skipped') w) :
    Handled o at_ calls k executed (skipped ++ skipped') w := by
  have hkn : k ≤ n ∧ k ≤ calls.length := by
    rw [length_take] at hk
    omega
  have htake : (calls.take n).take k = calls.take k := by
    rw [take_take, Nat.min_eq_left hkn.1]
  have hdrop : (calls.take n).drop k ++ calls.drop n = calls.drop k := by
    rw [← drop_append_of_le_length hk, take_append_drop]
  rw [htake] at hcompletes h
  refine ⟨hkn.2, hcompletes, ?_, h.1.1, fun _ => h.1.2 rfl, h.2⟩
  rw [← hdrop]
  exact hskips.append hskips'

/-- What is left after an aborted group is skipped too. -/
theorem holds_skipRest {n k : Nat} {executed skipped : List SessionEvent} {concluded : Bool}
    (hk : k ≤ (calls.take n).length) (hcompletes : Completes at_ ((calls.take n).take k) executed)
    (hskips : Skips at_ ((calls.take n).drop k) skipped) :
    toolRules.Holds (Ending o executed ((calls.take n).take k) true skipped)
      (do
        appendSkippedToolCalls at_ (calls.drop n)
        pure concluded)
      (fun _ w => ∃ k executed skipped, Handled o at_ calls k executed skipped w)
      (fun _ => Settled) := by
  have hending := tracks_ending o executed ((calls.take n).take k) true
  refine .bind (fun _ => robust_settled.stable _)
    (holds_appendSkippedToolCalls hending (fun _ _ hw => hw.2) at_ skipped _) fun _ => ?_
  refine .pure ((Robust.exists fun _ => (Robust.const _).and (hending.robust _)).stable _) ?_
  rintro w ⟨skipped', hskips', hw⟩
  exact ⟨k, executed, skipped ++ skipped', hw.handled hk hcompletes hskips hskips'⟩

/-- The calls of one group: a message's calls from the first one on, or the first alone. -/
theorem group_eq_take (first : PlannedCall) (others : List PlannedCall) (mode : ToolExecutionMode) :
    ∃ n, (if mode = .parallel then first :: others else [first]) = (first :: others).take n ∧
      (0 < n ∧ n ≤ (first :: others).length) ∧ (mode = .exclusive → n ≤ 1) := by
  by_cases hmode : mode = .parallel
  · refine ⟨(first :: others).length, by rw [if_pos hmode, take_length], by simp, ?_⟩
    rw [hmode]
    exact fun h => nomatch h
  · exact ⟨1, by rw [if_neg hmode]; rfl, by simp, by simp⟩

theorem holds_noCalls (fuel : Nat) (concluded : Bool) (o : Origin) :
    toolRules.Holds (Starting o) (runGroups at_ fuel [] concluded)
      (fun _ w => ∃ k executed skipped, Handled o at_ [] k executed skipped w) (fun _ => Settled) := by
  unfold runGroups
  refine .pure ((robust_starting o).stable _) fun w hw => ?_
  exact ⟨0, [], [], Nat.le_refl _, .nil, .nil, hw.1, fun h => absurd h (Nat.lt_irrefl 0), hw.2⟩

/-- Every group consumes a call, so as many groups as calls are enough. -/
theorem holds_runGroups (fuel : Nat) (calls : List PlannedCall) (concluded : Bool)
    (hfuel : calls.length ≤ fuel) (o : Origin) :
    toolRules.Holds (Starting o) (runGroups at_ fuel calls concluded)
      (fun _ w => ∃ k executed skipped, Handled o at_ calls k executed skipped w)
      (fun _ => Settled) := by
  have hE : ∀ _ : Thrown, toolRules.Stable Settled := fun _ => robust_settled.stable _
  induction fuel generalizing calls concluded o with
  | zero =>
    obtain rfl := eq_nil_of_length_eq_zero (Nat.le_zero.mp hfuel)
    exact holds_noCalls 0 concluded o
  | succ fuel ih =>
    cases calls with
    | nil => exact holds_noCalls _ concluded o
    | cons first others =>
      refine .bind hE (holds_quiet rfl (by simp) (robust_starting o)
        fun w hw => settled_drainable w hw.2) fun mode => ?_
      obtain ⟨n, hgroup, ⟨hpos, hn⟩, halone⟩ := group_eq_take first others mode
      have hlength : ((first :: others).take n).length = n := length_take_of_le hn
      rw [hgroup]
      refine .bind hE (holds_runGroup (hlength.symm ▸ halone) (hlength.symm ▸ hpos))
        fun outcome => ?_
      obtain ⟨consumed, aborted, concluded'⟩ := outcome
      cases aborted with
      | true =>
        refine .exists fun k => .exists fun executed => .exists fun skipped => .assuming ?_
        rintro ⟨hconsumed, hk, hcompletes, hskips⟩
        obtain rfl : consumed = n := hconsumed.trans hlength
        exact holds_skipRest hk hcompletes hskips
      | false =>
        refine .exists fun executed => .assuming ?_
        rintro ⟨hconsumed, hbound, hcompletes⟩
        simp only [hlength] at hbound
        have htake : ((first :: others).take n).take consumed = (first :: others).take consumed := by
          rw [take_take, Nat.min_eq_left hbound]
        simp only [htake] at hcompletes ⊢
        have hrest : ((first :: others).drop consumed).length ≤ fuel := by
          rw [length_drop]
          simp only at hconsumed
          omega
        refine .strengthen (B := fun w => ∃ o', o.Leads executed ((first :: others).take consumed) o' ∧
          Starting o' w) ?_ (.exists fun o' => .assuming fun hleads => ?_)
        · rintro w ⟨⟨hreaches, -⟩, hsettled⟩
          rw [append_nil] at hreaches
          obtain ⟨o', hleads, hstart⟩ := hreaches.leads
          exact ⟨o', hleads, hstart, hsettled⟩
        · refine .weaken (ih ((first :: others).drop consumed) _ hrest o') ?_ fun _ _ h => h
          rintro _ w ⟨k, executed', skipped, hhandled⟩
          exact ⟨_, _, _, hhandled.after (hbound.trans hn) hcompletes hleads⟩

/-! ## Progress -/

/-- The surroundings can let every running body come to its end. -/
theorem exists_settled (w : LoopWorld) : ∃ acts : List LoopAct,
    Settled (acts.foldl (fun w act => loopMachine.act act w) w) ∧
      (acts.foldl (fun w act => loopMachine.act act w) w).pool.inFlight = w.pool.inFlight := by
  induction hn : w.running.length using Nat.strong_induction_on generalizing w with
  | _ n ih =>
    cases hrunning : w.running with
    | nil => exact ⟨[], hrunning, rfl⟩
    | cons call rest =>
      let settled := w.settle call.1 (.error (.error "tool body failed"))
      have hkey : w.isRunning call.1 = true := LoopWorld.isRunning_iff.mpr (by simp [hrunning])
      have heq : settled = { w with
          pool := w.pool.fail (.error "tool body failed")
          running := w.running.filter (·.1 != call.1) } := by
        simp [settled, LoopWorld.settle, hkey]
      have hless : settled.running.length < n := by
        have hfilter := length_filter_le (·.1 != call.1) rest
        rw [heq, ← hn, hrunning]
        simpa using Nat.lt_succ_of_le hfilter
      obtain ⟨acts, hsettled, hinFlight⟩ := ih _ hless settled rfl
      have hkept : settled.pool.inFlight = w.pool.inFlight := by
        rw [heq]
        rfl
      exact ⟨.settle call.1 (.error (.error "tool body failed")) :: acts, hsettled,
        hinFlight.trans hkept⟩

/-- Where the scheduler may ask, the outside can answer. -/
theorem toolRules_live : toolRules.Live := by
  intro op w hguard
  obtain ⟨acts, hsettled, hinFlight⟩ := exists_settled w
  refine ⟨acts, fun _ _ => trivial, ?_⟩
  have hidle : ∀ i, (acts.foldl (fun w act => loopMachine.act act w) w).isRunning i = false := by
    intro i
    simp [LoopWorld.isRunning, hsettled]
  generalize acts.foldl (fun w act => loopMachine.act act w) w = w' at hinFlight hidle
  cases op with
  | read r => exact ⟨.done, _, _, rfl⟩
  | write u => exact ⟨.done, _, _, rfl⟩
  | session r => exact ⟨.done, _, _, rfl⟩
  | append payload surfaced => exact ⟨.now 0, _, _, rfl⟩
  | claim target turn => exact ⟨.now 0, _, _, rfl⟩
  | acceptContext context => exact ⟨.now 0, _, _, rfl⟩
  | outOfFuel => exact hguard.2.elim
  | missing => exact hguard.2.elim
  | ask q =>
    cases q with
    | assemble | preStep | request | prepareCall | stream | nextChunk | requestError | turnStopping
    | prepare | finalize | finish => exact ⟨.failed (.error "failed"), _, _, rfl⟩
    | project => exact ⟨.context none, _, _, rfl⟩
    | messageId => exact ⟨.messageId "message", _, _, rfl⟩
    | executionMode => exact ⟨.mode .parallel, _, _, rfl⟩
    | maxParallelToolCalls => exact ⟨.number 1, _, _, rfl⟩
    | race =>
      obtain ⟨index, hindex⟩ := exists_mem_of_ne_nil _ (hinFlight ▸ hguard.2)
      refine ⟨.number index, index, w', ?_⟩
      simp [loopMachine, LoopWorld.perform, LoopQuery.decode, LoopQuery.record, hindex, hidle]
    | allSettled =>
      refine ⟨.done, (), w', ?_⟩
      simp [loopMachine, LoopWorld.perform, LoopQuery.decode, LoopQuery.record, hidle]

/-! ## The contract -/

/-- Where the world stands. -/
def Origin.of (w : LoopWorld) : Origin := { own := w.own, events := w.events, prepared := w.prepared }

/-- What the scheduler leaves: every call is executed or, once the signal has aborted,
skipped, with one call and one result for each, in order. -/
def Ended (o : Origin) (at_ : StepPosition) (calls : List PlannedCall) :
    Except Thrown Bool → LoopWorld → Prop
  | .ok _, w => ∃ k executed skipped, Handled o at_ calls k executed skipped w
  | .error _, w => Settled w

theorem Ended.settled {result : Except Thrown Bool} (h : Ended o at_ calls result w) : Settled w := by
  cases result with
  | ok concluded =>
    obtain ⟨_, _, _, h⟩ := h
    exact h.settled
  | error e => exact h

theorem executeToolCalls_wp (at_ : StepPosition) (toolCalls : List ToolCallBlock) (w : LoopWorld)
    (hturn : w.phase.position.isSome) (hsettled : Settled w) :
    toolRules.wp (executeToolCalls at_ toolCalls).run (Ended (.of w) at_ (planned toolCalls)) w := by
  have hlength : (planned toolCalls).length ≤ toolCalls.length := by simp [planned]
  have hstart : Starting (.of w) w :=
    ⟨⟨hturn, by simp [Origin.of], ⟨[], by simp [Origin.of], .slnil⟩, by simp [Origin.of]⟩, hsettled⟩
  refine wp_mono (fun result w' h => ?_)
    (holds_runGroups toolCalls.length (planned toolCalls) false hlength (.of w) w hstart)
  cases result <;> exact h

/-- `executeToolCalls` comes to its end whatever its surroundings do. All the way the
dispatched calls keep to the configured maximum and an exclusive call runs alone. When it
throws nothing, the driver has appended exactly one `tool/call` and one `tool/result` for
every call, the results in model order and each citing its own call; the calls an abort
skipped come after the executed ones. -/
theorem executeToolCalls_contract (at_ : StepPosition) (toolCalls : List ToolCallBlock)
    (w : LoopWorld) (hturn : w.phase.position.isSome) (hsettled : Settled w) :
    (∀ (c : ℕ → Program LoopOp LoopOp.Answer (Except Thrown Bool) × LoopWorld)
        (input : ℕ → Machine.Input LoopReply LoopAct), c 0 = ((executeToolCalls at_ toolCalls).run, w) →
      (∀ n, loopMachine.next (c n) (input n) = some (c (n + 1))) →
        ∃ n, ∀ m, n ≤ m → ∀ reply, input m ≠ .reply reply) ∧
    ∀ inputs c, loopMachine.run ((executeToolCalls at_ toolCalls).run, w) inputs = some c →
      c.2.Exclusion ∧
      (∃ more result w', loopMachine.run c more = some (.done result, w')) ∧
      (∀ concluded, c.1 = .done (.ok concluded) → ∃ k executed skipped,
        Handled (.of w) at_ (planned toolCalls) k executed skipped c.2 ∧
          Completes at_ (planned toolCalls) (executed ++ skipped)) ∧
      ∀ error, c.1 = .done (.error error) → Settled c.2 := by
  refine ⟨fun c input _ hstep => loopMachine.finitely_many_replies c input hstep, ?_⟩
  intro inputs c hrun
  have hwp := wp_run (executeToolCalls_wp at_ toolCalls w hturn hsettled)
    (fun input _ => by cases input <;> trivial) hrun
  obtain ⟨p, w'⟩ := c
  refine ⟨?_, ?_, ?_, ?_⟩
  · cases p with
    | done result => exact (settled_drainable _ (hwp w' .refl).settled).toExclusion
    | call op next => exact (hwp w' .refl).1.1
  · obtain ⟨more, result, w'', -, hmore, -⟩ := can_finish toolRules_live hwp
    exact ⟨more, result, w'', hmore⟩
  · rintro concluded rfl
    obtain ⟨k, executed, skipped, h⟩ := hwp w' .refl
    refine ⟨k, executed, skipped, h, ?_⟩
    have hall := h.completes.append h.skips.completes
    rwa [take_append_drop] at hall
  · rintro error rfl
    exact hwp w' .refl

/-- A driver at its first step, with nothing in its log. -/
def firstStep : LoopWorld where
  io := { session := .empty, inbox := .empty }
  phase := .running none 1 1 false
  requestHeaderLogged := false
  pool := .empty
  running := []
  own := []
  requests := []
  prepared := []

def readFile (id : CallId) : ToolCallBlock := { id, name := "read", arguments := "{}" }

theorem twoCalls_finish : ∃ inputs result w', loopMachine.run
    ((executeToolCalls ⟨1, 1⟩ [readFile "a", readFile "b"]).run, firstStep) inputs =
      some (.done result, w') :=
  ((executeToolCalls_contract ⟨1, 1⟩ [readFile "a", readFile "b"] firstStep rfl rfl).2 [] _ rfl).2.1

end ToolCalls
end Harness
