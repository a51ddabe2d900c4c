-- SUMMARY: The plan projection and the plan controller keep the same selection, over every run.
import Harness.Plan.PlanMode

/-!
# The plan selection

The selection the log tells and the intent in memory are tied by an invariant over whole runs.
Two steps break it, and they are kept apart: a host that ends with a selection outstanding, and a
command between turns whose `plan/mode` cannot be logged.
-/

namespace Harness

open List Option Transitions

/-! ## Folds -/

variable (events : List PlanEvent)

@[simp] theorem foldPlanMode_snoc (event : PlanEvent) :
    foldPlanMode (events ++ [event]) = event.applyMode (foldPlanMode events) := by
  simp [foldPlanMode]

@[simp] theorem hasOpenTurn_snoc (event : PlanEvent) :
    hasOpenTurn (events ++ [event]) = event.applyTurn (hasOpenTurn events) := by
  simp [hasOpenTurn]

@[simp] theorem planUnit_snoc (event : PlanEvent) :
    planUnit (events ++ [event]) = (planUnit events).apply event := by
  simp [planUnit]

/-- The projection's bit and the controller's fold read the same mode. -/
theorem planUnit_active : (planUnit events).active = foldPlanMode events := by
  induction events using List.reverseRecOn with
  | nil => rfl
  | append_singleton events event ih =>
    rw [planUnit_snoc, foldPlanMode_snoc]
    cases event with
    | commandRun name args =>
      cases args with
      | none => exact ih
      | some args =>
        simp only [PlanUnitState.apply, PlanEvent.applyMode]
        split <;> exact ih
    | planMode active => rfl
    | turnStart => exact ih
    | turnEnd => exact ih
    | requestHeader => exact ih
    | other => exact ih

theorem view_pending :
    (planUnit events).view.pending = true ↔
      ∃ wanted, (planUnit events).wanted = some wanted ∧ wanted ≠ foldPlanMode events := by
  rw [← planUnit_active]
  cases hwanted : (planUnit events).wanted <;> simp [PlanUnitState.view, hwanted]

namespace PlanWorld

variable {s s' s₁ s₂ : PlanWorld} {act : Act} {log : List PlanEvent}

/-! ## Events that say nothing of the mode -/

/-- An event that changes neither the mode nor the selection. -/
def Neutral (event : PlanEvent) : Prop :=
  (∀ active, event.applyMode active = active) ∧ ∀ state : PlanUnitState, state.apply event = state

theorem neutral_of_foreign {event : PlanEvent} (h : foreign event = true) : Neutral event := by
  cases event with
  | commandRun name args =>
    have hname : name ≠ "plan" := by simpa [foreign] using h
    refine ⟨fun _ => rfl, fun state => ?_⟩
    cases args with
    | none => rfl
    | some args => simp [PlanUnitState.apply, hname]
  | requestHeader => exact ⟨fun _ => rfl, fun _ => rfl⟩
  | other => exact ⟨fun _ => rfl, fun _ => rfl⟩
  | planMode active => simp [foreign] at h
  | turnStart => simp [foreign] at h
  | turnEnd => simp [foreign] at h

theorem neutral_turnStart : Neutral .turnStart := ⟨fun _ => rfl, fun _ => rfl⟩

theorem neutral_turnEnd : Neutral .turnEnd := ⟨fun _ => rfl, fun _ => rfl⟩

theorem neutral_other : Neutral .other := ⟨fun _ => rfl, fun _ => rfl⟩

/-! ## What a selection does -/

/-- The four ways of `set`, and its failure. -/
theorem set_cases (s : PlanWorld) (active logged : Bool) :
    (active = s.target ∧ s.set active logged = (some .noop, s)) ∨
    (hasOpenTurn s.events = true ∧ ∃ outcome, outcome ≠ .committed ∧
      s.set active logged = (some outcome, { s with intent := some { active, narrate := true } })) ∨
    (hasOpenTurn s.events = false ∧ active = foldPlanMode s.events ∧
      s.set active logged = (some .cancelled, { s with intent := none })) ∨
    (hasOpenTurn s.events = false ∧ active ≠ foldPlanMode s.events ∧ logged = true ∧
      ∃ message, s.set active logged = (some .committed, (s.commit active).deliver message)) ∨
    (hasOpenTurn s.events = false ∧ active ≠ foldPlanMode s.events ∧ logged = false ∧
      s.set active logged = (none, s)) := by
  by_cases htarget : active = s.target
  · exact .inl ⟨htarget, by simp [set, htarget]⟩
  by_cases hopen : hasOpenTurn s.events = true
  · refine .inr (.inl ⟨hopen, if foldPlanMode s.events = active then .cancelled else .queued, ?_, ?_⟩)
    · split <;> simp
    · simp [set, htarget, hopen]
  have hclosed : hasOpenTurn s.events = false := by simpa using hopen
  by_cases hfold : active = foldPlanMode s.events
  · refine .inr (.inr (.inl ⟨hclosed, hfold, ?_⟩))
    rw [set, if_neg htarget, if_neg hopen, if_pos hfold]
  cases logged with
  | true =>
    refine .inr (.inr (.inr (.inl ⟨hclosed, hfold, rfl, ?_, ?_⟩)))
    · exact ((s.commit active).narration active).map .inject
    · rw [set, if_neg htarget, if_neg hopen, if_neg hfold, if_pos rfl]
  | false =>
    refine .inr (.inr (.inr (.inr ⟨hclosed, hfold, rfl, ?_⟩)))
    rw [set, if_neg htarget, if_neg hopen, if_neg hfold, if_neg Bool.false_ne_true]

@[simp] theorem deliver_none (s : PlanWorld) : s.deliver none = s := by
  simp [deliver]

/-- The handler selects the mode that its raw input is folded to, and at most steers the agent
besides. -/
theorem handlePlan_world (s : PlanWorld) (rawInput : JsString) (logged : Bool) :
    ∃ message, (s.handlePlan rawInput logged).2 =
      (s.set (PlanUnitState.wantedBy rawInput) logged).2.deliver message := by
  by_cases hoff : rawInput.trim = "off"
  · refine ⟨none, ?_⟩
    simp [handlePlan, PlanUnitState.wantedBy, hoff]
  have hwanted : PlanUnitState.wantedBy rawInput = true := by
    simp [PlanUnitState.wantedBy, hoff]
  rw [hwanted, handlePlan]
  simp only [hoff, if_false]
  match s.set true logged with
  | (none, s') => exact ⟨none, (deliver_none s').symm⟩
  | (some outcome, s') =>
    by_cases hempty : rawInput.trim = ""
    · exact ⟨none, by simp [hempty]⟩
    · exact ⟨some (.steer rawInput.trim), by simp [hempty]⟩

/-- The state in which the handler of a command runs. -/
def chosen (s : PlanWorld) (rawInput : JsString) : PlanWorld :=
  { (s.append (.commandRun "plan" (some rawInput))).reselect with
    selection := some (PlanUnitState.wantedBy rawInput) }

theorem executePlan_world (s : PlanWorld) (rawInput : JsString) (modeLogged : Bool) :
    ∃ message, s.executePlan rawInput true modeLogged =
      (((s.chosen rawInput).set (PlanUnitState.wantedBy rawInput) modeLogged).2.deliver
        message).append .other := by
  obtain ⟨message, hmessage⟩ := handlePlan_world (s.chosen rawInput) rawInput modeLogged
  refine ⟨message, ?_⟩
  rw [← hmessage]
  rfl

/-! ## What an accepted pre-step does -/

/-- An accepted pre-step finds nothing to apply, applies the intent, or fails to. -/
theorem acceptStep_cases (s : PlanWorld) (logged : Bool) :
    (s.intent = none ∧ s.acceptStep logged = (s, false)) ∨
    ∃ pending, s.intent = some pending ∧
      ((pending.active = foldPlanMode s.events ∧ ∃ message,
        s.acceptStep logged = (({ s with intent := none } : PlanWorld).deliver message, false)) ∨
      (pending.active ≠ foldPlanMode s.events ∧ logged = true ∧ ∃ message,
        s.acceptStep logged = ((s.commit pending.active).deliver message, false)) ∨
      (pending.active ≠ foldPlanMode s.events ∧ logged = false ∧
        s.acceptStep logged = (s, true))) := by
  cases hintent : s.intent with
  | none => exact .inl ⟨rfl, by simp [acceptStep, hintent]⟩
  | some pending =>
    refine .inr ⟨pending, rfl, ?_⟩
    by_cases hfold : pending.active = foldPlanMode s.events
    · have hboundary : s.onBoundary logged = some { s with intent := none } := by
        simp [onBoundary, hintent, hfold]
      refine .inl ⟨hfold,
        if pending.narrate then (s.narration pending.active).map .enter else none, ?_⟩
      simp only [acceptStep, hintent, hboundary]
      cases pending.narrate <;> simp
    cases logged with
    | true =>
      have hboundary : s.onBoundary true = some (s.commit pending.active) := by
        simp [onBoundary, hintent, hfold]
      refine .inr (.inl ⟨hfold, rfl,
        if pending.narrate then (s.narration pending.active).map .enter else none, ?_⟩)
      simp only [acceptStep, hintent, hboundary]
      cases pending.narrate <;> simp
    | false =>
      have hboundary : s.onBoundary false = none := by simp [onBoundary, hintent, hfold]
      exact .inr (.inr ⟨hfold, rfl, by simp [acceptStep, hintent, hboundary]⟩)

/-! ## The invariant -/

/-- The guidance of an accepted step is that of the mode after its pre-step, unless the append of that
pre-step failed or someone made a selection since the assembly. -/
def Sent (s : PlanWorld) : Prop :=
  ∀ sent ∈ s.steps, sent.reselected = false → (sent.guidance = sent.mode ↔ sent.failed = false)

/-- The intent in memory holds what the log says the user has selected, and what is assembled or
was sent goes by it. -/
structure Inv (s : PlanWorld) : Prop where
  wanted : (planUnit s.events).wanted = s.selection
  held : ∀ w, s.selection = some w → w ≠ foldPlanMode s.events →
    ∃ intent, s.intent = some intent ∧ intent.active = w
  narrated : ∀ intent, s.intent = some intent → intent.narrate = true →
    s.selection = some intent.active
  reviewing : s.reviews ≠ 0 →
    foldPlanMode s.events = true ∧ hasOpenTurn s.events = true ∧ s.assembly = none
  assembled : ∀ assembly, s.assembly = some assembly → assembly.reselected = false →
    assembly.guidance = s.target
  sent : Sent s

theorem Inv.deliver (h : Inv s) (message : Option PlanMessage) : Inv (s.deliver message) :=
  { h with }

/-- A neutral event keeps the invariant, unless it ends a turn under a review. -/
theorem Inv.append (h : Inv s) {event : PlanEvent} (hneutral : Neutral event)
    (hturn : s.reviews ≠ 0 → event.applyTurn true = true) : Inv (s.append event) := by
  have hfold : foldPlanMode (s.events ++ [event]) = foldPlanMode s.events := by
    rw [foldPlanMode_snoc, hneutral.1]
  exact {
    wanted := by
      change (planUnit (s.events ++ [event])).wanted = s.selection
      rw [planUnit_snoc, hneutral.2, h.wanted]
    held := fun w hw hne => h.held w hw (by rwa [← hfold])
    narrated := h.narrated
    reviewing := fun hreviews => by
      obtain ⟨hactive, hopen, hnone⟩ := h.reviewing hreviews
      refine ⟨hfold.trans hactive, ?_, hnone⟩
      change hasOpenTurn (s.events ++ [event]) = true
      rw [hasOpenTurn_snoc, hopen, hturn hreviews]
    assembled := fun assembly hassembly hsame => by
      have htarget : (s.append event).target = s.target := by
        change (s.intent.map (·.active)).getD (foldPlanMode (s.events ++ [event])) = s.target
        rw [hfold, target]
      rw [htarget]
      exact h.assembled assembly hassembly hsame
    sent := h.sent }

/-- A committed mode settles every selection. -/
theorem inv_commit (active : Bool) (hreviews : s.reviews = 0) (hsent : Sent s)
    (hassembly : ∀ assembly, s.assembly = some assembly → assembly.reselected = true) :
    Inv (s.commit active) where
  wanted := by
    change (planUnit (s.events ++ [.planMode active])).wanted = none
    rw [planUnit_snoc]
    rfl
  held := by simp [PlanWorld.commit]
  narrated := by simp [PlanWorld.commit]
  reviewing hpending := absurd hreviews hpending
  assembled assembly hsome hsame := by
    rw [hassembly assembly hsome] at hsame
    cases hsame
  sent := hsent

/-! ### Commands -/

@[simp] theorem chosen_fold (s : PlanWorld) (rawInput : JsString) :
    foldPlanMode (s.chosen rawInput).events = foldPlanMode s.events :=
  foldPlanMode_snoc s.events _

@[simp] theorem chosen_open (s : PlanWorld) (rawInput : JsString) :
    hasOpenTurn (s.chosen rawInput).events = hasOpenTurn s.events :=
  hasOpenTurn_snoc s.events _

@[simp] theorem chosen_target (s : PlanWorld) (rawInput : JsString) :
    (s.chosen rawInput).target = s.target := by
  rw [target, chosen_fold]
  rfl

theorem chosen_wanted (s : PlanWorld) (rawInput : JsString) :
    (planUnit (s.chosen rawInput).events).wanted = some (PlanUnitState.wantedBy rawInput) := by
  change (planUnit (s.events ++ [.commandRun "plan" (some rawInput)])).wanted = _
  rw [planUnit_snoc]
  rfl

theorem chosen_reselected (s : PlanWorld) (rawInput : JsString) :
    ∀ assembly, (s.chosen rawInput).assembly = some assembly → assembly.reselected = true := by
  intro assembly hassembly
  obtain ⟨before, -, rfl⟩ := map_eq_some_iff.mp hassembly
  rfl

/-- The invariant after a command that leaves an intent for what it has selected. -/
theorem Inv.choose (h : Inv s) (rawInput : JsString) (intent : Option PlanIntent)
    (hheld : PlanUnitState.wantedBy rawInput ≠ foldPlanMode s.events →
      ∃ held, intent = some held ∧ held.active = PlanUnitState.wantedBy rawInput)
    (hnarrated : ∀ held, intent = some held → held.narrate = true →
      PlanUnitState.wantedBy rawInput = held.active) :
    Inv { s.chosen rawInput with intent } where
  wanted := chosen_wanted s rawInput
  held w hw hne := by
    cases hw
    exact hheld (by rwa [← chosen_fold s rawInput])
  narrated held hintent hnarrate := congrArg some (hnarrated held hintent hnarrate)
  reviewing hreviews := by
    obtain ⟨hactive, hopen, hnone⟩ := h.reviewing hreviews
    refine ⟨(chosen_fold s rawInput).trans hactive, (chosen_open s rawInput).trans hopen, ?_⟩
    change s.assembly.map _ = none
    rw [hnone]
    rfl
  assembled assembly hsome hsame := by
    rw [chosen_reselected s rawInput assembly hsome] at hsame
    cases hsame
  sent := h.sent

/-- A command whose `plan/mode` is not lost between turns keeps the invariant. -/
theorem Inv.executePlan (h : Inv s) (rawInput : JsString) {modeLogged : Bool}
    (hlogged : modeLogged = true ∨ hasOpenTurn s.events = true) :
    Inv (s.executePlan rawInput true modeLogged) := by
  obtain ⟨message, hworld⟩ := executePlan_world s rawInput modeLogged
  rw [hworld]
  refine Inv.append (Inv.deliver ?_ message) neutral_other fun _ => rfl
  rcases set_cases (s.chosen rawInput) (PlanUnitState.wantedBy rawInput) modeLogged with
    ⟨htarget, hset⟩ | ⟨-, outcome, -, hset⟩ | ⟨-, hfold, hset⟩ |
    ⟨hclosed, -, -, message', hset⟩ | ⟨hclosed, -, hlost, -⟩
  · -- What is in effect is the selection already, so an intent for it is there if it is needed.
    rw [hset]
    rw [chosen_target] at htarget
    refine h.choose rawInput s.intent (fun hne => ?_) fun held hintent _ => ?_
    · cases hintent : s.intent with
      | none => exact absurd (htarget.trans (by simp [target, hintent])) hne
      | some held => exact ⟨held, rfl, by simp [htarget, target, hintent]⟩
    · simp [htarget, target, hintent]
  · rw [hset]
    exact h.choose rawInput _ (fun _ => ⟨_, rfl, rfl⟩) fun held hintent _ => by cases hintent; rfl
  · rw [hset]
    rw [chosen_fold] at hfold
    exact h.choose rawInput none (fun hne => absurd hfold hne) (by simp)
  · rw [hset]
    rw [chosen_open] at hclosed
    have hreviews : s.reviews = 0 := by
      by_contra hne
      rw [(h.reviewing hne).2.1] at hclosed
      cases hclosed
    exact (inv_commit (s := s.chosen rawInput) _ hreviews h.sent
      (chosen_reselected s rawInput)).deliver message'
  · rw [chosen_open] at hclosed
    rcases hlogged with hlogged | hopen
    · rw [hlogged] at hlost
      cases hlost
    · rw [hopen] at hclosed
      cases hclosed

/-! ### Pre-steps -/

/-- The accepted pre-step of an assembled step. -/
def accepted (s : PlanWorld) (assembly : PlanAssembly) (logged : Bool) : PlanWorld :=
  { (({ s with assembly := none } : PlanWorld).acceptStep logged).1 with
    steps :=
      { guidance := assembly.guidance
        mode := foldPlanMode (({ s with assembly := none } : PlanWorld).acceptStep logged).1.events
        failed := (({ s with assembly := none } : PlanWorld).acceptStep logged).2
        reselected := assembly.reselected } :: s.steps }

/-- The record of an accepted step keeps what the records say. -/
theorem sent_cons {guidance mode failed reselected : Bool} (hsent : Sent s)
    (hnew : reselected = false → (guidance = mode ↔ failed = false)) :
    ∀ sent ∈ { guidance, mode, failed, reselected : PlanStep } :: s.steps,
      sent.reselected = false → (sent.guidance = sent.mode ↔ sent.failed = false) := by
  intro sent hmem hsame
  rcases mem_cons.mp hmem with rfl | hmem
  · exact hnew hsame
  · exact hsent sent hmem hsame

theorem Inv.accept (h : Inv s) {assembly : PlanAssembly} (hassembly : s.assembly = some assembly)
    (logged : Bool) : Inv (s.accepted assembly logged) := by
  have hreviews : s.reviews = 0 := by
    by_contra hne
    rw [(h.reviewing hne).2.2] at hassembly
    cases hassembly
  have hguidance := h.assembled assembly hassembly
  rcases acceptStep_cases { s with assembly := none } logged with
    ⟨hintent, haccept⟩ | ⟨pending, hintent, ⟨hfold, message, haccept⟩ |
      ⟨hfold, -, message, haccept⟩ | ⟨hfold, -, haccept⟩⟩
  · rw [accepted, haccept]
    have htarget : s.target = foldPlanMode s.events := by
      rw [target, show s.intent = none from hintent]
      rfl
    exact { h with
      reviewing := fun hne => absurd hreviews hne
      assembled := by simp
      sent := sent_cons h.sent fun hsame => by simp [hguidance hsame, htarget] }
  · rw [accepted, haccept]
    have htarget : s.target = foldPlanMode s.events := by
      rw [target, show s.intent = some pending from hintent]
      exact hfold
    exact {
      wanted := h.wanted
      held := fun w hw hne => by
        obtain ⟨intent, hsome, hactive⟩ := h.held w hw hne
        cases hintent.symm.trans hsome
        exact absurd (hactive.symm.trans hfold) hne
      narrated := by simp [PlanWorld.deliver]
      reviewing := fun hne => absurd hreviews hne
      assembled := by simp [PlanWorld.deliver]
      sent := sent_cons h.sent fun hsame => by
        simp [hguidance hsame, htarget, PlanWorld.deliver] }
  · rw [accepted, haccept]
    have htarget : s.target = pending.active := by
      rw [target, show s.intent = some pending from hintent]
      rfl
    have hmode : foldPlanMode (s.events ++ [.planMode pending.active]) = pending.active :=
      foldPlanMode_snoc s.events _
    have hcommit := inv_commit (s := { s with assembly := none }) pending.active hreviews h.sent
      (by simp)
    exact { hcommit with
      sent := sent_cons h.sent fun hsame =>
        ⟨fun _ => rfl, fun _ => ((hguidance hsame).trans htarget).trans hmode.symm⟩ }
  · rw [accepted, haccept]
    have htarget : s.target = pending.active := by
      rw [target, show s.intent = some pending from hintent]
      rfl
    exact { h with
      reviewing := fun hne => absurd hreviews hne
      assembled := by simp
      sent := sent_cons h.sent fun hsame => by
        simpa [hguidance hsame, htarget] using hfold }

/-! ### Steps -/

/-- What the two stores of a selection can bear: no host ends while the projection has a selection
pending, and no command loses its `plan/mode` between turns. -/
def Kept (s : PlanWorld) : Act → Prop
  | .restart => (planUnit s.events).view.pending = false
  | .plan _ runLogged modeLogged =>
    runLogged = true → modeLogged = true ∨ hasOpenTurn s.events = true
  | _ => True

theorem Inv.pending_iff (h : Inv s) : (planUnit s.events).view.pending = true ↔
    ∃ w, s.selection = some w ∧ w ≠ foldPlanMode s.events := by
  rw [view_pending, h.wanted]

/-- A resumed session with nothing pending. -/
theorem inv_forget (hwanted : (planUnit s.events).wanted = s.selection)
    (hpending : (planUnit s.events).view.pending = false) (hsent : Sent s) :
    Inv { s with intent := none, reviews := 0, assembly := none } where
  wanted := hwanted
  held w hw hne := by
    have hyes : (planUnit s.events).view.pending = true :=
      (view_pending s.events).mpr ⟨w, hwanted.trans hw, hne⟩
    rw [hyes] at hpending
    cases hpending
  narrated := by simp
  reviewing := by simp
  assembled := by simp
  sent := hsent

theorem inv_resumed (hlog : (planUnit log).view.pending = false) : Inv (resumed log) :=
  inv_forget (s := resumed log) rfl hlog (by simp [Sent, resumed])

theorem Inv.step (h : Inv s) (hkept : Kept s act) (hstep : step s act = some s') : Inv s' := by
  cases act with
  | plan rawInput runLogged modeLogged =>
    simp only [PlanWorld.step, some.injEq] at hstep
    subst hstep
    cases runLogged with
    | true => exact h.executePlan rawInput (hkept rfl)
    | false => exact h
  | log event =>
    simp only [PlanWorld.step, ite_none_right_eq_some, some.injEq] at hstep
    obtain ⟨hforeign, rfl⟩ := hstep
    refine h.append (neutral_of_foreign hforeign) fun _ => ?_
    cases event <;> first | rfl | cases hforeign
  | turnStart =>
    simp only [PlanWorld.step, ite_none_left_eq_some, some.injEq] at hstep
    obtain ⟨-, rfl⟩ := hstep
    exact h.append neutral_turnStart fun _ => rfl
  | turnEnd =>
    simp only [PlanWorld.step, Bool.and_eq_true, decide_eq_true_eq,
      ite_none_right_eq_some, some.injEq] at hstep
    obtain ⟨⟨-, hreviews⟩, rfl⟩ := hstep
    exact { h.append neutral_turnEnd (absurd hreviews) with
      reviewing := fun hne => absurd hreviews hne
      assembled := by simp }
  | assemble =>
    simp only [PlanWorld.step, Bool.and_eq_true, decide_eq_true_eq,
      ite_none_right_eq_some, some.injEq] at hstep
    obtain ⟨⟨-, hreviews⟩, rfl⟩ := hstep
    exact { h with
      reviewing := fun hne => absurd hreviews hne
      assembled := fun assembly hsome _ => by
        cases hsome
        rfl }
  | preStep accepted aborted logged =>
    simp only [PlanWorld.step] at hstep
    split at hstep
    · cases hstep
    rename_i assembly hassembly
    split at hstep
    · cases hstep
      exact h.accept hassembly logged
    cases hstep
    exact { h with
      reviewing := fun hne => by
        obtain ⟨hactive, hopen, -⟩ := h.reviewing hne
        exact ⟨hactive, hopen, rfl⟩
      assembled := by simp }
  | present =>
    simp only [PlanWorld.step, Bool.and_eq_true, isNone_iff_eq_none,
      ite_none_right_eq_some, some.injEq] at hstep
    obtain ⟨⟨hopen, hassembly⟩, rfl⟩ := hstep
    split
    · rename_i hactive
      exact { h with reviewing := fun _ => ⟨hactive, hopen, hassembly⟩ }
    · exact h
  | approve =>
    simp only [PlanWorld.step, ite_none_left_eq_some, some.injEq] at hstep
    obtain ⟨hreviews, rfl⟩ := hstep
    obtain ⟨hactive, hopen, hassembly⟩ := h.reviewing hreviews
    have hnone : s.reselect.assembly = none := by simp [reselect, hassembly]
    exact {
      wanted := h.wanted
      held := fun w hw hne => by
        -- Under a review plan mode is active, so a selection that differs is to leave it.
        have hw' : w = false := by
          have hne' : w ≠ true := fun heq => hne (heq.trans hactive.symm)
          simpa using hne'
        exact ⟨_, rfl, hw'.symm⟩
      narrated := by simp
      reviewing := fun _ => ⟨hactive, hopen, hnone⟩
      assembled := fun assembly hsome => by
        rw [show s.reselect.assembly = some assembly from hsome] at hnone
        cases hnone
      sent := h.sent }
  | refuse =>
    simp only [PlanWorld.step, ite_none_left_eq_some, some.injEq] at hstep
    obtain ⟨hreviews, rfl⟩ := hstep
    exact { h with reviewing := fun _ => h.reviewing hreviews }
  | restart =>
    cases hstep
    exact inv_forget h.wanted hkept h.sent

/-! ## What a step does to the mode -/

/-- Neither the selection nor the mode moves. -/
def Unmoved (s s' : PlanWorld) : Prop :=
  s'.intent = s.intent ∧ s'.selection = s.selection ∧
    ∃ later, s'.events = s.events ++ later ∧ ∀ event ∈ later, Neutral event

theorem unmoved_append {event : PlanEvent} (h : Neutral event) : Unmoved s (s.append event) :=
  ⟨rfl, rfl, [event], rfl, by simpa using h⟩

theorem unmoved_of_events (hintent : s'.intent = s.intent) (hselection : s'.selection = s.selection)
    (hevents : s'.events = s.events) : Unmoved s s' :=
  ⟨hintent, hselection, [], by simp [hevents], by simp⟩

/-- The mode moves only by a command and by a pre-step that applies an intent. -/
theorem step_cases (hstep : step s act = some s') :
    Unmoved s s' ∨
    (∃ rawInput modeLogged, act = .plan rawInput true modeLogged ∧
      s' = s.executePlan rawInput true modeLogged) ∨
    (∃ pending, s.intent = some pending ∧ s'.intent = none ∧
      ((pending.active = foldPlanMode s.events ∧ s'.selection = s.selection ∧
        s'.events = s.events) ∨
      (act = .preStep true false true ∧ pending.active ≠ foldPlanMode s.events ∧
        s'.selection = none ∧ s'.events = s.events ++ [.planMode pending.active]))) ∨
    (act = .approve ∧ s'.selection = s.selection ∧ s'.events = s.events) ∨
    (act = .restart ∧ s'.intent = none ∧ s'.selection = s.selection ∧ s'.events = s.events) := by
  cases act with
  | plan rawInput runLogged modeLogged =>
    simp only [PlanWorld.step, some.injEq] at hstep
    subst hstep
    cases runLogged with
    | true => exact .inr (.inl ⟨rawInput, modeLogged, rfl, rfl⟩)
    | false => exact .inl (unmoved_of_events rfl rfl rfl)
  | log event =>
    simp only [PlanWorld.step, ite_none_right_eq_some, some.injEq] at hstep
    obtain ⟨hforeign, rfl⟩ := hstep
    exact .inl (unmoved_append (neutral_of_foreign hforeign))
  | turnStart =>
    simp only [PlanWorld.step, ite_none_left_eq_some, some.injEq] at hstep
    obtain ⟨-, rfl⟩ := hstep
    exact .inl (unmoved_append neutral_turnStart)
  | turnEnd =>
    simp only [PlanWorld.step, ite_none_right_eq_some, some.injEq] at hstep
    obtain ⟨-, rfl⟩ := hstep
    exact .inl ⟨rfl, rfl, [.turnEnd], rfl, by simpa using neutral_turnEnd⟩
  | assemble =>
    simp only [PlanWorld.step, ite_none_right_eq_some, some.injEq] at hstep
    obtain ⟨-, rfl⟩ := hstep
    exact .inl (unmoved_of_events rfl rfl rfl)
  | preStep accepted aborted logged =>
    simp only [PlanWorld.step] at hstep
    split at hstep
    · cases hstep
    split at hstep
    · rename_i assembly _ haccepted
      obtain ⟨rfl, rfl⟩ : accepted = true ∧ aborted = false := by simpa using haccepted
      cases hstep
      rcases acceptStep_cases { s with assembly := none } logged with
        ⟨hintent, haccept⟩ | ⟨pending, hintent, ⟨hfold, message, haccept⟩ |
          ⟨hfold, rfl, message, haccept⟩ | ⟨hfold, -, haccept⟩⟩
      · rw [haccept]
        exact .inl (unmoved_of_events rfl rfl rfl)
      · rw [haccept]
        exact .inr (.inr (.inl ⟨pending, hintent, rfl, .inl ⟨hfold, rfl, rfl⟩⟩))
      · rw [haccept]
        exact .inr (.inr (.inl ⟨pending, hintent, rfl, .inr ⟨rfl, hfold, rfl, rfl⟩⟩))
      · rw [haccept]
        exact .inl (unmoved_of_events rfl rfl rfl)
    · cases hstep
      exact .inl (unmoved_of_events rfl rfl rfl)
  | present =>
    simp only [PlanWorld.step, ite_none_right_eq_some, some.injEq] at hstep
    obtain ⟨-, rfl⟩ := hstep
    split <;> exact .inl (unmoved_of_events rfl rfl rfl)
  | approve =>
    simp only [PlanWorld.step, ite_none_left_eq_some, some.injEq] at hstep
    obtain ⟨-, rfl⟩ := hstep
    exact .inr (.inr (.inr (.inl ⟨rfl, rfl, rfl⟩)))
  | refuse =>
    simp only [PlanWorld.step, ite_none_left_eq_some, some.injEq] at hstep
    obtain ⟨-, rfl⟩ := hstep
    exact .inl (unmoved_of_events rfl rfl rfl)
  | restart =>
    cases hstep
    exact .inr (.inr (.inr (.inr ⟨rfl, rfl, rfl, rfl⟩)))

/-! ### Mode events change the mode -/

/-- Every mode event among those that `events` has beyond `log` changes the mode folded before
it. -/
def Changes (log events : List PlanEvent) : Prop :=
  ∃ later, events = log ++ later ∧
    ∀ pre active post, later = pre ++ .planMode active :: post → active ≠ foldPlanMode (log ++ pre)

theorem changes_refl (log : List PlanEvent) : Changes log log :=
  ⟨[], by simp, by simp⟩

theorem changes_snoc {events : List PlanEvent} (h : Changes log events) {event : PlanEvent}
    (hevent : ∀ active, event = .planMode active → active ≠ foldPlanMode events) :
    Changes log (events ++ [event]) := by
  obtain ⟨later, rfl, hlater⟩ := h
  refine ⟨later ++ [event], by simp, fun pre active post hsplit => ?_⟩
  rcases eq_nil_or_concat post with rfl | ⟨post, last, rfl⟩
  · obtain ⟨rfl, hlast⟩ := append_inj' hsplit rfl
    cases hlast
    exact hevent active rfl
  · have hsplit' : later ++ [event] = (pre ++ .planMode active :: post) ++ [last] := by
      simpa using hsplit
    exact hlater pre active post (append_inj' hsplit' rfl).1

theorem not_neutral_planMode (active : Bool) : ¬ Neutral (.planMode active) := by
  intro h
  have heq : active = !active := h.1 (!active)
  cases active <;> cases heq

theorem changes_neutral {events later : List PlanEvent} (h : Changes log events)
    (hlater : ∀ event ∈ later, Neutral event) : Changes log (events ++ later) := by
  induction later generalizing events with
  | nil => simpa using h
  | cons event later ih =>
    have hevent : Neutral event := hlater event mem_cons_self
    have hsnoc : Changes log (events ++ [event]) :=
      changes_snoc h fun active heq => absurd (heq ▸ hevent) (not_neutral_planMode active)
    rw [append_cons]
    exact ih hsnoc fun e hmem => hlater e (mem_cons_of_mem _ hmem)

/-- A command logs a mode only where the log tells the other. -/
theorem changes_executePlan (h : Changes log s.events) (rawInput : JsString) (modeLogged : Bool) :
    Changes log (s.executePlan rawInput true modeLogged).events := by
  obtain ⟨message, hworld⟩ := executePlan_world s rawInput modeLogged
  rw [hworld]
  have hchosen : Changes log (s.chosen rawInput).events :=
    changes_snoc h fun active heq => by cases heq
  refine changes_snoc ?_ fun active heq => by cases heq
  rcases set_cases (s.chosen rawInput) (PlanUnitState.wantedBy rawInput) modeLogged with
    ⟨-, hset⟩ | ⟨-, outcome, -, hset⟩ | ⟨-, -, hset⟩ | ⟨-, hfold, -, message', hset⟩ |
    ⟨-, -, -, hset⟩
  · rw [hset]
    exact hchosen
  · rw [hset]
    exact hchosen
  · rw [hset]
    exact hchosen
  · rw [hset]
    exact changes_snoc hchosen fun active heq => by
      cases heq
      exact hfold
  · rw [hset]
    exact hchosen

theorem changes_step (h : Changes log s.events) (hstep : step s act = some s') :
    Changes log s'.events := by
  rcases step_cases hstep with ⟨-, -, later, hevents, hlater⟩ | ⟨rawInput, modeLogged, -, rfl⟩ |
    ⟨pending, -, -, ⟨-, -, hevents⟩ | ⟨-, hfold, -, hevents⟩⟩ | ⟨-, -, hevents⟩ | ⟨-, -, -, hevents⟩
  · rw [hevents]
    exact changes_neutral h hlater
  · exact changes_executePlan h rawInput modeLogged
  · rwa [hevents]
  · rw [hevents]
    exact changes_snoc h fun active heq => by
      cases heq
      exact hfold
  · rwa [hevents]
  · rwa [hevents]

/-! ### A selection waits, and is applied once -/

/-- A step that makes no selection, ends no host and commits nothing at a pre-step. -/
def Waits : Act → Prop
  | .plan _ runLogged _ => runLogged = false
  | .preStep accepted aborted logged => ¬ (accepted = true ∧ aborted = false ∧ logged = true)
  | .restart => False
  | _ => True

/-- The selection that differs from the logged mode. -/
def Outstanding (s : PlanWorld) (w : Bool) : Prop :=
  s.selection = some w ∧ w ≠ foldPlanMode s.events

theorem foldPlanMode_neutral {events later : List PlanEvent}
    (hlater : ∀ event ∈ later, Neutral event) :
    foldPlanMode (events ++ later) = foldPlanMode events := by
  induction later using List.reverseRecOn with
  | nil => simp
  | append_singleton later event ih =>
    rw [← append_assoc, foldPlanMode_snoc, (hlater event (by simp)).1]
    exact ih fun e hmem => hlater e (by simp [hmem])

/-- Nothing but a command, a commit or the end of the host touches an outstanding selection. -/
theorem Inv.waits {w : Bool} (h : Inv s) (hout : Outstanding s w) (hwaits : Waits act)
    (hstep : PlanWorld.step s act = some s') : Outstanding s' w := by
  obtain ⟨hselection, hne⟩ := hout
  rcases step_cases hstep with ⟨-, hsame, later, hevents, hlater⟩ | ⟨_, _, rfl, -⟩ |
    ⟨pending, hintent, -, ⟨hfold, -, -⟩ | ⟨rfl, -⟩⟩ | ⟨-, hsame, hevents⟩ | ⟨rfl, -⟩
  · exact ⟨hsame.trans hselection, by rwa [hevents, foldPlanMode_neutral hlater]⟩
  · cases hwaits
  · obtain ⟨intent, hsome, hactive⟩ := h.held w hselection hne
    cases hintent.symm.trans hsome
    exact absurd (hactive.symm.trans hfold) hne
  · exact absurd ⟨rfl, rfl, rfl⟩ hwaits
  · exact ⟨hsame.trans hselection, by rwa [hevents]⟩
  · exact hwaits.elim

theorem kept_of_waits (h : Waits act) : Kept s act := by
  cases act with
  | plan rawInput runLogged modeLogged => exact fun hlogged => by rw [h] at hlogged; cases hlogged
  | restart => exact h.elim
  | _ => exact trivial

/-- An outstanding selection waits through any run of such steps. -/
theorem Inv.waits_run {w : Bool} {acts : List Act} (h : Inv s) (hout : Outstanding s w)
    (hwaits : ∀ act ∈ acts, Waits act) (hrun : run PlanWorld.step s acts = some s') :
    Inv s' ∧ Outstanding s' w :=
  run_invariant (I := fun s => Inv s ∧ Outstanding s w)
    (fun _ _ _ hact hI hstep => ⟨hI.1.step (kept_of_waits hact) hstep, hI.1.waits hI.2 hact hstep⟩)
    ⟨h, hout⟩ hwaits hrun

/-- The next accepted pre-step whose append succeeds applies it. -/
theorem Inv.applies {w : Bool} (h : Inv s) (hout : Outstanding s w)
    (hstep : PlanWorld.step s (.preStep true false true) = some s') :
    s'.events = s.events ++ [.planMode w] ∧ s'.selection = none ∧ s'.intent = none := by
  obtain ⟨hselection, hne⟩ := hout
  obtain ⟨intent, hintent, rfl⟩ := h.held w hselection hne
  simp only [PlanWorld.step] at hstep
  split at hstep
  · cases hstep
  rcases acceptStep_cases { s with assembly := none } true with
    ⟨hnone, -⟩ | ⟨pending, hsome, ⟨hfold, -⟩ | ⟨-, -, message, haccept⟩ | ⟨-, hlost, -⟩⟩
  · cases hintent.symm.trans hnone
  · cases hintent.symm.trans hsome
    exact absurd hfold hne
  · cases hintent.symm.trans hsome
    rw [haccept] at hstep
    cases hstep
    exact ⟨rfl, rfl, rfl⟩
  · cases hlost

/-- A step in which someone selects a mode. -/
def Selects : Act → Prop
  | .plan _ runLogged _ => runLogged = true
  | .approve => True
  | _ => False

/-- With no intent left, no mode is logged until someone selects one. -/
theorem silent_step (hintent : s.intent = none) (hact : ¬ Selects act)
    (hstep : step s act = some s') :
    s'.intent = none ∧ ∃ later, s'.events = s.events ++ later ∧ ∀ event ∈ later, Neutral event := by
  rcases step_cases hstep with ⟨hsame, -, hlater⟩ | ⟨_, _, rfl, -⟩ | ⟨pending, hsome, -⟩ |
    ⟨rfl, -⟩ | ⟨rfl, hnone, -, hevents⟩
  · exact ⟨hsame.trans hintent, hlater⟩
  · exact absurd rfl hact
  · cases hintent.symm.trans hsome
  · exact absurd trivial hact
  · exact ⟨hnone, [], by simp [hevents], by simp⟩

theorem silent_run {acts : List Act} (hintent : s.intent = none)
    (hacts : ∀ act ∈ acts, ¬ Selects act) (hrun : run step s acts = some s') :
    ∃ later, s'.events = s.events ++ later ∧ ∀ active, .planMode active ∉ later := by
  have hsilent : s'.intent = none ∧
      ∃ later, s'.events = s.events ++ later ∧ ∀ event ∈ later, Neutral event := by
    refine run_invariant
      (I := fun s₁ : PlanWorld => s₁.intent = none ∧
        ∃ later, s₁.events = s.events ++ later ∧ ∀ event ∈ later, Neutral event)
      (fun s₁ act s₂ hact hI hstep => ?_) ⟨hintent, [], by simp, by simp⟩ hacts hrun
    obtain ⟨hnone, later, hevents, hlater⟩ := hI
    obtain ⟨hnone', more, hmore, hneutral⟩ := silent_step hnone hact hstep
    refine ⟨hnone', later ++ more, by rw [hmore, hevents, append_assoc], fun event hmem => ?_⟩
    exact (mem_append.mp hmem).elim (hlater event) (hneutral event)
  obtain ⟨-, later, hevents, hlater⟩ := hsilent
  exact ⟨later, hevents, fun active hmem => not_neutral_planMode active (hlater _ hmem)⟩

/-! ## The contract -/

/-- Where no host ends with a selection pending and no command between turns loses its
`plan/mode`, the projection says `pending` exactly when the user's selection differs from the
logged mode, the controller holds that very selection until the next accepted pre-step that can
log it, which applies it once, and every mode event changes the mode. The guidance of an accepted
step is that of the mode after its pre-step, unless that pre-step failed to log it. -/
theorem plan_selection_applied (log : List PlanEvent) (acts : List Act) (s : PlanWorld)
    (hlog : (planUnit log).view.pending = false)
    (hkept : ∀ pre act s₁, pre ++ [act] <+: acts → run step (resumed log) pre = some s₁ →
      Kept s₁ act)
    (hrun : run step (resumed log) acts = some s) :
    ((planUnit s.events).view.pending = true ↔ ∃ w, Outstanding s w) ∧
    (∀ w, Outstanding s w →
      (∃ intent, s.intent = some intent ∧ intent.active = w) ∧
      ∀ acts' s₁ s₂, (∀ act ∈ acts', Waits act) → run step s acts' = some s₁ →
        step s₁ (.preStep true false true) = some s₂ →
        s₂.events = s₁.events ++ [.planMode w] ∧ (∀ w', ¬ Outstanding s₂ w') ∧
        ∀ acts'' s₃, (∀ act ∈ acts'', ¬ Selects act) → run step s₂ acts'' = some s₃ →
          ∃ later, s₃.events = s₂.events ++ later ∧ ∀ active, .planMode active ∉ later) ∧
    (∀ intent, s.intent = some intent → intent.narrate = true →
      s.selection = some intent.active) ∧
    Changes log s.events ∧
    (∀ sent ∈ s.steps, sent.reselected = false →
      (sent.guidance = sent.mode ↔ sent.failed = false)) ∧
    (planUnit s.events).view.active = foldPlanMode s.events ∧
    s.get.active = foldPlanMode s.events ∧ (s.intent = none → s.get.pending = none) := by
  have hinv : Inv s :=
    run_along (fun _ _ _ h hkept hstep => Inv.step h hkept hstep) (inv_resumed hlog) hkept hrun
  have hchanges : Changes log s.events :=
    run_invariant' (I := fun s => Changes log s.events) (fun _ _ _ h hstep => changes_step h hstep)
      (changes_refl log) hrun
  refine ⟨hinv.pending_iff, fun w hout => ⟨hinv.held w hout.1 hout.2, ?_⟩, hinv.narrated, hchanges,
    hinv.sent, planUnit_active s.events, rfl, fun hnone => by simp [get, hnone]⟩
  intro acts' s₁ s₂ hwaits hrun' hstep
  obtain ⟨hinv₁, hout₁⟩ := hinv.waits_run hout hwaits hrun'
  obtain ⟨hevents, hselection, hintent⟩ := hinv₁.applies hout₁ hstep
  refine ⟨hevents, fun w' hout' => ?_, fun acts'' s₃ hacts'' hrun'' =>
    silent_run hintent hacts'' hrun''⟩
  cases hselection.symm.trans hout'.1

/-- A user enters plan mode while a turn is open. -/
def entered : List Act := [.turnStart, .plan "" true true]

theorem plan_selection_applied_entered :
    ∃ s, run step (resumed []) entered = some s ∧ (planUnit s.events).view.pending = true ∧
      (∃ intent, s.intent = some intent ∧ intent.active = true) ∧ Changes [] s.events := by
  obtain ⟨s, hrun, hout⟩ :
      ∃ s, run step (resumed []) entered = some s ∧ s.selection = some true ∧
        foldPlanMode s.events = false := ⟨_, rfl, by decide, by decide⟩
  have houtstanding : Outstanding s true := ⟨hout.1, by simp [hout.2]⟩
  have hkept : ∀ pre act s₁, pre ++ [act] <+: entered → run step (resumed []) pre = some s₁ →
      Kept s₁ act := by
    intro pre act s₁ hpre _
    have hmem : act ∈ entered := hpre.subset (by simp)
    rcases mem_cons.mp hmem with rfl | hmem
    · exact trivial
    · rw [mem_singleton.mp hmem]
      exact fun _ => .inl rfl
  have h := plan_selection_applied [] entered s (by decide) hkept hrun
  exact ⟨s, hrun, h.1.mpr ⟨true, houtstanding⟩, (h.2.1 true houtstanding).1, h.2.2.2.1⟩

/-- An append that fails at the pre-step leaves a step with the guidance of a mode that is not
logged. -/
theorem guidance_of_unlogged_mode :
    ∃ s, run step (resumed []) (entered ++ [.assemble, .preStep true false false]) = some s ∧
      ∃ sent ∈ s.steps, sent.reselected = false ∧ sent.guidance ≠ sent.mode := by
  refine ⟨_, rfl, { guidance := true, mode := false, failed := true, reselected := false }, ?_, ?_⟩
  · decide
  · decide

/-- A host that ends with a selection pending: the projection still reports it, and no pre-step
applies it. -/
example :
    (run step (resumed [])
      (entered ++ [.restart, .assemble, .preStep true false true])).map
        (fun s => ((planUnit s.events).view, s.intent, foldPlanMode s.events)) =
      some ({ active := false, pending := true }, none, false) := by decide

end PlanWorld

end Harness
